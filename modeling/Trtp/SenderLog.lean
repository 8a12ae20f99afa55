import Trtp.SenderRuns

/-! The counts of the sender and what it has done: the chunks that read() has returned
to it and the datagrams that do_send_sbuf has handed to the socket. -/
namespace Trtp.SenderLog
open Lib.Circular Lib.Run Lib.Serial Packet Process Buffer Net Transmit SendBuffer SenderRuns

/-- What read() returns in a turn: the file is read after the socket and only if it is polled. -/
def readBy (h : Host) : Config Halt Sender → Event → List Chunk
  | .running s,.ready stale socket (some (.data bytes)) =>
    match readSocket h stale socket s with
    | .ret t => if t.pfdsCount = 2 then [bytes] else []
    | _ => []
  | _,_ => []

/-- What do_send_sbuf puts on the wire in a turn. -/
def sentBy (h : Host) : Config Halt Sender → Event → List Sending
  | .running s,.ready stale socket file =>
    match (readSocket h stale socket s).andThen (readFile h file) with
    | .ret t => (doSendSbuf h t).state.wire.drop t.wire.length
    | _ => []
  | _,_ => []

structure Log where
  config : Config Halt Sender
  read : List Chunk
  first : List Sending

def Log.after (h : Host) (l : Log) (event : Event) (c : Config Halt Sender) : Log :=
  ⟨c,l.read ++ readBy h l.config event,l.first ++ sentBy h l.config event⟩

inductive LogStep (h : Host) (l : Log) (event : Event) : Log → Prop
  | turn (c : Config Halt Sender) (taken : Step h l.config event c) : LogStep h l event (l.after h event c)

def LogStart (capacity : UInt32) (l : Log) : Prop := Start capacity l.config ∧ l.read = [] ∧ l.first = []

variable {h : Host} {capacity : UInt32} {s t : Sender} {l m : Log}

theorem exists_log {c : Config Halt Sender} (reached : Reach (Start capacity) (Step h) (fun _ _ => True) c) :
    ∃ l, l.config = c ∧ Reach (LogStart capacity) (LogStep h) (fun _ _ => True) l := by
  induction reached with
  | start c first => exact ⟨⟨c,[],[]⟩,rfl,.start _ ⟨first,rfl,rfl⟩⟩
  | step c event d before _ taken ih =>
    obtain ⟨l,rfl,logged⟩ := ih
    exact ⟨l.after h event d,rfl,.step l event _ logged trivial (.turn d taken)⟩

theorem reach_of_log (logged : Reach (LogStart capacity) (LogStep h) (fun _ _ => True) l) :
    Reach (Start capacity) (Step h) (fun _ _ => True) l.config := by
  induction logged with
  | start l first => exact .start _ first.1
  | step l event m before _ taken ih =>
    obtain ⟨c,taken⟩ := taken
    exact .step _ event c ih trivial taken

/-- The chunks from `s.sent` on were sent in order, and nothing else has changed. -/
structure Released (crc32 : List UInt8 → UInt32) (s t : Sender) (news : List Sending) : Prop where
  wire : t.wire = s.wire ++ news
  input : t.input = s.input
  forward : s.sent ≤ t.sent
  numbers : news.map Sending.number = (List.range' s.sent (t.sent - s.sent)).map some
  datagrams : ∀ e ∈ news, ∃ n bytes, e.number = some n ∧ s.input[n]? = some bytes ∧
    e.datagram = chunkDatagram crc32 n bytes

theorem sendLoop_released (valid : Valid h.crc32 s) (fuel : Nat) (ended : sendLoop h fuel s = .ret t) :
    ∃ news, Released h.crc32 s t news := by
  have met := @sendLoop_meets h s (fun u => ∃ news, Released h.crc32 s u news) (fun _ => True) ?_
    (fun _ _ _ _ => trivial)
    fuel valid ⟨[],(List.append_nil _).symm,rfl,Nat.le_refl _,by rw [Nat.sub_self]; rfl,by simp⟩
  · exact (met.of_ret ended).2
  · rintro u bytes valid ⟨news,released⟩ known _
    have forward := released.forward
    refine ⟨news ++ [Sender.firstSending h.crc32 u bytes],?_,released.input,Nat.le_succ_of_le forward,?_,?_⟩
    · rw [← List.append_assoc,← released.wire]
      rfl
    · have more : u.sent + 1 - s.sent = u.sent - s.sent + 1 := by omega
      have last : s.sent + (u.sent - s.sent) = u.sent := by omega
      change (news ++ [_]).map Sending.number = (List.range' s.sent (u.sent + 1 - s.sent)).map some
      rw [more,List.range'_concat,Nat.one_mul,last,List.map_append,List.map_append,released.numbers]
      rfl
    · intro e member
      rcases List.mem_append.mp member with old | new
      · exact released.datagrams e old
      · rw [List.mem_singleton.mp new]
        exact ⟨u.sent,bytes,rfl,by rw [← released.input]; exact known,rfl⟩

/-- The counts and the log of the run agree. -/
structure Tied (crc32 : List UInt8 → UInt32) (s : Sender) (read : List Chunk) (first : List Sending) : Prop where
  input : s.input = read
  numbers : first.map Sending.number = (List.range s.sent).map some
  wire : first.Sublist s.wire
  datagrams : ∀ e ∈ first, ∃ n bytes, e.number = some n ∧ read[n]? = some bytes ∧
    e.datagram = chunkDatagram crc32 n bytes

theorem Tied.released {crc32 : List UInt8 → UInt32} {read : List Chunk} {first news : List Sending} {u : Sender}
    (tied : Tied crc32 s read first) (sent : u.sent = s.sent) (wire : s.wire <+: u.wire) (more : read <+: u.input)
    (released : Released crc32 u t news) : Tied crc32 t u.input (first ++ news) where
  input := released.input
  numbers := by
    have joined : List.range' 0 u.sent ++ List.range' (0 + u.sent) (t.sent - u.sent) = _ := List.range'_append_1
    rw [Nat.zero_add,Nat.add_sub_cancel' released.forward] at joined
    rw [List.map_append,tied.numbers,released.numbers,← List.map_append,← sent,List.range_eq_range',
      List.range_eq_range',joined]
  wire := by
    rw [released.wire]
    exact (tied.wire.trans wire.sublist).append (List.Sublist.refl news)
  datagrams e member := by
    rcases List.mem_append.mp member with old | new
    · obtain ⟨n,bytes,number,known,datagram⟩ := tied.datagrams e old
      obtain ⟨rest,parts⟩ := more
      refine ⟨n,bytes,number,?_,datagram⟩
      rw [← parts,List.getElem?_append_left (List.getElem?_eq_some_iff.mp known).1]
      exact known
    · exact released.datagrams e new

theorem Tied.same {crc32 : List UInt8 → UInt32} {read : List Chunk} {first : List Sending}
    (tied : Tied crc32 s read first) (heard : Heard s t) : Tied crc32 t (read ++ []) (first ++ []) := by
  rw [List.append_nil,List.append_nil]
  exact ⟨heard.input.trans tied.input,by rw [tied.numbers,heard.sent],tied.wire.trans heard.wire.sublist,tied.datagrams⟩

theorem readFile_read (file : Option ReadResult) (valid : Valid h.crc32 s) (polls : Polls s) {u : Sender}
    (ended : readFile h file s = .ret u) : u.sent = s.sent ∧ u.wire = s.wire ∧ Valid h.crc32 u ∧
      (u.input = s.input ∧ (∀ bytes, file = some (.data bytes) → s.pfdsCount ≠ 2) ∨
        ∃ bytes, file = some (.data bytes) ∧ s.pfdsCount = 2 ∧ u.input = s.input ++ [bytes]) := by
  unfold readFile at ended
  by_cases two : s.pfdsCount = 2
  · obtain ⟨more,room⟩ := polls two
    rw [if_pos two] at ended
    cases file with
    | none =>
      obtain rfl := Outcome.ret.inj ended
      exact ⟨rfl,rfl,valid,Or.inl ⟨rfl,by simp⟩⟩
    | some result =>
      cases result with
      | error => simp [handleInputRead,pktbufEnqueue_room h room] at ended
      | data bytes =>
        obtain rfl := Outcome.ret.inj ((handleInputRead_data bytes room).symm.trans ended)
        exact ⟨rfl,rfl,valid.queued bytes more room,Or.inr ⟨bytes,rfl,two,rfl⟩⟩
  · rw [if_neg two] at ended
    obtain rfl := Outcome.ret.inj ended
    exact ⟨rfl,rfl,valid,Or.inl ⟨rfl,fun _ _ => two⟩⟩

theorem turn_tied {read : List Chunk} {first : List Sending} (valid : Valid h.crc32 s) (polls : Polls s)
    (tied : Tied h.crc32 s read first) (fuel : Nat) {event : Event} (taken : turn h fuel s event = some (.ret t)) :
    Tied h.crc32 t (read ++ readBy h (.running s) event) (first ++ sentBy h (.running s) event) := by
  cases event with
  | failed => simp [turn] at taken
  | timeout =>
    cases turn_expiry valid taken with
    | idle empty => exact tied.same (.refl s)
    | again live few _ ended =>
      obtain ⟨core,polled⟩ := resend_core valid.expired (Nat.le_refl s.acked) valid.ackedSent fuel ended
      have same : Heard (Sender.expired s) t := .of_core core (resend_wire fuel _ ended) polled
      exact tied.same ⟨same.acked,same.sent,same.wire,same.input,same.lastInRead,same.polled,same.capacity⟩
  | ready stale socket file =>
    obtain ⟨c,ended,rest⟩ := Outcome.andThen_ret (Option.some.inj taken)
    obtain rfl := Outcome.ret.inj rest
    obtain ⟨b,filed,sending⟩ := Outcome.andThen_ret ended
    obtain ⟨a,hearing,reading⟩ := Outcome.andThen_ret filed
    obtain ⟨after,heard⟩ := (readSocket_heard valid stale socket).of_ret hearing
    obtain ⟨sent,wire,valid',input⟩ := readFile_read file after (heard.polls valid after polls) reading
    obtain ⟨news,released⟩ := sendLoop_released valid' 256 sending
    have handed : sentBy h (.running s) (.ready stale socket file) = news := by
      simp only [sentBy,filed,sending]
      change c.wire.drop b.wire.length = news
      rw [released.wire,List.drop_left]
    have returned : b.input = read ++ readBy h (.running s) (.ready stale socket file) := by
      rw [← tied.input,← heard.input]
      rcases input with ⟨same,unread⟩ | ⟨bytes,rfl,two,appended⟩
      · have nothing : readBy h (.running s) (.ready stale socket file) = [] := by
          cases file with
          | none => rfl
          | some result =>
            cases result with
            | error => rfl
            | data bytes =>
              simp only [readBy,hearing]
              exact if_neg (unread bytes rfl)
        rw [nothing,List.append_nil,same]
      · rw [appended]
        simp only [readBy,hearing,if_pos two]
    have later := tied.released (sent.trans heard.sent) (by rw [wire]; exact heard.wire)
      (by rw [returned]; exact List.prefix_append _ _) released
    rw [returned,← handed] at later
    exact ⟨later.input,later.numbers,later.wire,later.datagrams⟩

theorem reachable_tied (logged : Reach (LogStart capacity) (LogStep h) (fun _ _ => True) l)
    (running : l.config = .running s) :
    Tied h.crc32 s l.read l.first := by
  induction logged generalizing s with
  | start l first =>
    obtain ⟨⟨buf,_,begun⟩,read,sent⟩ := first
    obtain rfl := Config.running.inj (begun.symm.trans running)
    rw [read,sent]
    exact ⟨rfl,rfl,List.nil_sublist _,by simp⟩
  | step l event m before _ taken ih =>
    obtain ⟨c,taken⟩ := taken
    have reached := reach_of_log before
    obtain ⟨config,read,first⟩ := l
    obtain ⟨fuel,u,event,outcome,ended⟩ := taken
    obtain rfl := afterTurn_running running
    obtain ⟨valid,polls,_⟩ := reachable_valid reached rfl
    exact turn_tied valid polls (ih rfl) fuel ended

/-- Whenever the sender is about to poll, its buffer is the stretch of input between
what is acknowledged and what was read: read() has returned the chunks of the input, and
do_send_sbuf has sent the first `s.sent` of them, each once and in order. An
acknowledgement that is let through removes only packets that are outstanding, and the
file is read only into a free place and before its end. -/
theorem sendBuffer_counts (h : Host) (capacity : UInt32) (s : Sender)
    (reached : Reach (Start capacity) (Step h) (fun _ _ => True) (.running s)) :
    Counts h.crc32 s s.acked s.sent s.input.length ∧ s.sendBuf.capacity = capacity ∧
    (∃ l, l.config = .running s ∧ Reach (LogStart capacity) (LogStep h) (fun _ _ => True) l) ∧
    (∀ l, l.config = .running s → Reach (LogStart capacity) (LogStep h) (fun _ _ => True) l →
      Tied h.crc32 s l.read l.first) ∧
    (∀ stale input pkt,
      netRecvPkt h stale s.lastAck (s.lastSent - s.lastAck + 1) input = (.netOk,pkt) →
      pkt.type = ptypeAck →
      (pkt.seq - s.lastAck).toNat ≤ s.sent - s.acked ∧
      ∃ t, processAck h pkt.seq s = .ret t ∧ t.acked = s.acked + (pkt.seq - s.lastAck).toNat ∧
        t.sendBuf.first = s.sendBuf.first + UInt32.ofNat (t.acked - s.acked)) ∧
    (∀ stale socket t, readSocket h stale socket s = .ret t → t.pfdsCount = 2 →
      pktbufFull t.sendBuf = false ∧ t.lastInRead ≠ 0) ∧
    ∀ event c, Step h (.running s) event c → s.acked ≤ c.state.acked := by
  obtain ⟨valid,polls,size⟩ := reachable_valid reached rfl
  have counts := Counts.of_valid valid
  refine ⟨counts,size,exists_log reached,fun l running logged => reachable_tied logged running,?_,?_,?_⟩
  · intro stale input pkt received ack
    have inside := (netRecvPkt_ok received).2
    rw [valid.win] at inside
    have bound : (pkt.seq - s.lastAck).toNat ≤ s.sendBuf.size := by
      have read := valid.sentRead
      rw [valid.size]
      unfold Sender.outstanding at inside
      omega
    refine ⟨inside,_,processAck_eq bound,rfl,?_⟩
    change s.sendBuf.first + UInt32.ofNat _ = s.sendBuf.first + UInt32.ofNat (s.acked + _ - s.acked)
    rw [Nat.add_sub_cancel_left]
  · intro stale socket t ended two
    have met := readSocket_meets valid polls stale socket
    rw [ended] at met
    obtain ⟨more,room⟩ := met.2.1 two
    exact ⟨pktbufFull_false room,more⟩
  · rintro event c ⟨fuel,s,event,outcome,taken⟩
    have met := turn_meets valid polls fuel event taken
    rw [afterTurn_state]
    cases outcome with
    | ret t => exact met.2.2.acked
    | err t => exact met
    | halt reason t => exact met

def fourPlacesLog : Log := ⟨.running (start fourPlaces),[],[]⟩

/-- Three chunks are acknowledged, the ACK before is repeated until its packet is sent again,
and the places that became free are filled. -/
def busyEvents : List Event :=
  [byteEvent,ackEvent 1 3,byteEvent,byteEvent,byteEvent,byteEvent,ackEvent 1 3,ackEvent 1 3,ackEvent 1 3,
    ackEvent 3 3,byteEvent,byteEvent]

def logNext (h : Host) (l : Log) (event : Event) : Option Log := (next h 0 l.config event).map (l.after h event)

def loggedWith (test : Sender → Bool) : Option Log → Bool
  | some ⟨.running s,_,_⟩ => test s
  | _ => false

theorem exists_of_loggedWith {test : Sender → Bool} {found : Option Log} (passed : loggedWith test found = true) :
    ∃ l s, found = some l ∧ l.config = .running s ∧ test s = true := by
  unfold loggedWith at passed
  split at passed
  next s read first => exact ⟨_,s,rfl,rfl,passed⟩
  next => contradiction

theorem fourPlacesLog_play {h : Host} {events : List Event}
    (played : events.foldlM (logNext h) fourPlacesLog = some l) :
    Reach (LogStart 4) (LogStep h) (fun _ _ => True) l := by
  refine Reach.play ?_ (.start _ ⟨fourPlaces_start,rfl,rfl⟩) events played
  intro l event m taken
  obtain ⟨c,next,rfl⟩ := Option.map_eq_some_iff.mp taken
  exact ⟨event,trivial,.turn c (next_step h 0 _ _ _ next)⟩

theorem sendBuffer_counts_busy : ∃ (l : Log) (s : Sender), l.config = .running s ∧ s.wire.length = 7 ∧
    s.input.length = 7 ∧
    Counts steadyHost.crc32 s 3 6 7 ∧ l.first.map Sending.number = (List.range 6).map some := by
  have passed : loggedWith (fun s => s.wire.length == 7 && (s.acked == 3 && (s.sent == 6 && s.input.length == 7)))
      (busyEvents.foldlM (logNext steadyHost) fourPlacesLog) = true := by decide +kernel
  obtain ⟨l,s,played,running,test⟩ := exists_of_loggedWith passed
  have logged := fourPlacesLog_play played
  have reached := reach_of_log logged
  rw [running] at reached
  obtain ⟨counts,_,_,tied,_⟩ := sendBuffer_counts steadyHost 4 s reached
  simp only [Bool.and_eq_true,beq_iff_eq] at test
  obtain ⟨wire,acked,sent,read⟩ := test
  rw [acked,sent,read] at counts
  have numbers := (tied l running logged).numbers
  rw [sent] at numbers
  exact ⟨l,s,running,wire,read,counts,numbers⟩

end Trtp.SenderLog
