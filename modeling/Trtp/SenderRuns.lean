import Trtp.SendBuffer

/-! Runs of the sender: what every turn of the poll loop of transmit keeps, and
with it every state in which the loop is about to poll again. -/
namespace Trtp.SenderRuns
open Lib.Circular Lib.Run Lib.Serial Packet Process Buffer Net Transmit SendBuffer

variable {h : Host} {s : Sender}

theorem start_valid {crc32 : List UInt8 → UInt32} {capacity : UInt32} {buf : Pktbuf}
    (made : pktbufNew capacity true = .ok (some buf)) : Valid crc32 (start buf) ∧ Polls (start buf) := by
  obtain ⟨first,last,_,zero⟩ := pktbufNew_fields made
  have positive := buf.capacity_pos
  have window : (1 : UInt8).toNat ≤ maxWindowSize := by decide
  have unsent : (-1 : UInt8) + 1 = serial 0 := by decide
  refine ⟨⟨Nat.le_refl 0,Nat.le_refl 0,rfl,unsent,unsent,first,last,Nat.zero_le _,window,
    Nat.zero_le _,?_,?_,rfl,?_⟩,?_⟩
  · intro c bytes known
    simp [start] at known
  · intro i
    exact congrArg Pkt.tr (zero i)
  · intro c bytes before
    simp [start] at before
  · intro _
    have unread : (-1 : Int) ≠ 0 := by decide
    refine ⟨unread,?_⟩
    have size : buf.size = 0 := buf.size_eq_zero.mpr (first.trans last.symm)
    exact (congrArg (· < buf.capacity.toNat) size).mpr positive

def fourPlaces : Pktbuf := ⟨0,0,4,fun _ => Pkt.zero,⟨2,by decide,by decide⟩⟩

theorem fourPlaces_start : Start 4 (.running (start fourPlaces)) := ⟨fourPlaces,rfl,rfl⟩

theorem fourPlaces_play (h : Host) (fuel : Nat) (events : List Event) {c : Config Halt Sender}
    (played : events.foldlM (next h fuel) (.running (start fourPlaces)) = some c) :
    Reach (Start 4) (Step h) (fun _ _ => True) c :=
  Reach.play (fun c event d taken => ⟨event,trivial,next_step h fuel c event d taken⟩) (.start _ fourPlaces_start)
    events played

def ackEvent (seq : UInt8) (window : BitVec 5) : Event :=
  .ready Pkt.zero (some (.datagram (Codec.image Lib.Crc.crc32
    { Pkt.zero with type := ptypeAck, seq := seq, window := window }))) none

def oneByte : Chunk := ⟨[97],by decide⟩

def byteEvent : Event := .ready Pkt.zero none (some (.data ⟨[97],by decide⟩))

/-- What reading the socket or resending leaves as it was. -/
structure Heard (s t : Sender) : Prop where
  acked : s.acked ≤ t.acked
  sent : t.sent = s.sent
  wire : s.wire <+: t.wire
  input : t.input = s.input
  lastInRead : t.lastInRead = s.lastInRead
  polled : t.pfdsCount = s.pfdsCount
  capacity : t.sendBuf.capacity = s.sendBuf.capacity

theorem Heard.refl (s : Sender) : Heard s s := ⟨Nat.le_refl _,rfl,List.prefix_refl _,rfl,rfl,rfl,rfl⟩

theorem Heard.of_core {t : Sender} (core : Sender.core t = Sender.core s) (wire : s.wire <+: t.wire)
    (polled : t.pfdsCount = s.pfdsCount) : Heard s t := by
  have acked := congrArg Sender.acked core
  have sent := congrArg Sender.sent core
  have input := congrArg Sender.input core
  have lastInRead := congrArg Sender.lastInRead core
  have buffer := congrArg Sender.sendBuf core
  change t.acked = s.acked at acked
  change t.sendBuf = s.sendBuf at buffer
  exact ⟨Nat.le_of_eq acked.symm,sent,wire,input,lastInRead,polled,congrArg CircularArray.capacity buffer⟩

theorem Heard.polls {t : Sender} (heard : Heard s t) (before : Valid h.crc32 s) (after : Valid h.crc32 t)
    (polls : Polls s) : Polls t := by
  intro two
  obtain ⟨more,room⟩ := polls (heard.polled.symm.trans two)
  have acked := heard.acked
  refine ⟨by rw [heard.lastInRead]; exact more,?_⟩
  rw [before.size] at room
  rw [after.size,heard.capacity,heard.input]
  omega

theorem handleSocketRead_cases (valid : Valid h.crc32 s) (stale : Pkt) (input : Recv) :
    handleSocketRead h stale input s = .err { s with retryCount := 0 } ∨
    (∀ pkt, netRecvPkt h stale s.lastAck (s.lastSent - s.lastAck + 1) input ≠ (.netOk,pkt)) ∧
      handleSocketRead h stale input s = .ret { s with retryCount := 0 } ∨
    ∃ pkt, netRecvPkt h stale s.lastAck (s.lastSent - s.lastAck + 1) input = (.netOk,pkt) ∧
      (pkt.seq - s.lastAck).toNat ≤ s.outstanding ∧
      Response h { s with retryCount := 0 } pkt (handleSocketRead h stale input s) := by
  have idle : Valid h.crc32 { s with retryCount := 0 } := valid.frame rfl
  cases received : netRecvPkt h stale s.lastAck (s.lastSent - s.lastAck + 1) input with
  | mk status pkt =>
    cases status with
    | netOk =>
      have inside := (netRecvPkt_ok received).2
      rw [valid.win] at inside
      refine Or.inr (Or.inr ⟨pkt,rfl,inside,?_⟩)
      have response := @processPkt_response h h.crc32 _ idle pkt inside
      simp only [handleSocketRead,received]
      exact response
    | netError =>
      left
      simp only [handleSocketRead,received]
    | netDrop =>
      refine Or.inr (Or.inl ⟨by simp,?_⟩)
      simp only [handleSocketRead,received]

/-- An acknowledged number is at most the next one to be sent. -/
theorem acked_inside {pkt : Pkt} (valid : Valid h.crc32 s) (inside : (pkt.seq - s.lastAck).toNat ≤ s.outstanding) :
    (Sender.heard s pkt).acked + (pkt.seq - s.lastAck).toNat ≤ (Sender.heard s pkt).sent := by
  have ordered := valid.ackedSent
  unfold Sender.outstanding at inside
  change s.acked + (pkt.seq - s.lastAck).toNat ≤ s.sent
  omega

theorem response_heard {pkt : Pkt} {outcome : Outcome Halt Sender} (valid : Valid h.crc32 s)
    (inside : (pkt.seq - s.lastAck).toNat ≤ s.outstanding) (response : Response h s pkt outcome) :
    outcome.Meets (fun t => Valid h.crc32 t ∧ Heard s t) (fun t => s.acked ≤ t.acked)
      (fun _ t => s.acked ≤ t.acked) := by
  have same : Heard s s := .refl s
  have heard := valid.heard pkt
  have sending (t : Sender) (place : UInt32) (core : Sender.core t = Sender.core (Sender.heard s pkt))
      (unsent : t.wire = s.wire) (unpolled : t.pfdsCount = s.pfdsCount) :
      (sendPlace h t place s.outstanding).Meets (fun t => Valid h.crc32 t ∧ Heard s t)
        (fun t => s.acked ≤ t.acked) (fun _ t => s.acked ≤ t.acked) := by
    have same : s.wire <+: t.wire := by rw [unsent]
    have later : Heard (Sender.heard s pkt) t := Heard.of_core core same unpolled
    rw [sendPlace_eq]
    split
    next =>
      exact ⟨heard.frame core,later.acked,later.sent,List.IsPrefix.trans same (List.prefix_append _ _),later.input,
        later.lastInRead,later.polled,later.capacity⟩
    next => exact later.acked
  cases response with
  | ignored other => exact ⟨valid,same⟩
  | notFound nack absent => exact ⟨heard,⟨Nat.le_refl _,rfl,List.prefix_refl _,rfl,rfl,rfl,rfl⟩⟩
  | resent nack place found => exact sending _ place rfl rfl rfl
  | repeated ack equal few => exact ⟨heard.frame rfl,⟨Nat.le_refl _,rfl,List.prefix_refl _,rfl,rfl,rfl,rfl⟩⟩
  | nothing ack equal third empty => exact Nat.le_refl s.acked
  | fast ack equal third live => exact sending _ _ rfl rfl rfl
  | acked ack moved =>
    exact ⟨(heard.advanced (acked_inside valid inside)).frame rfl,
      ⟨Nat.le_add_right _ _,rfl,List.prefix_refl _,rfl,rfl,rfl,rfl⟩⟩

structure Later (s t : Sender) : Prop where
  acked : s.acked ≤ t.acked
  capacity : t.sendBuf.capacity = s.sendBuf.capacity

theorem Later.refl (s : Sender) : Later s s := ⟨Nat.le_refl _,rfl⟩

theorem readSocket_heard (valid : Valid h.crc32 s) (stale : Pkt) (socket : Option Recv) :
    (readSocket h stale socket s).Meets (fun t => Valid h.crc32 t ∧ Heard s t) (fun t => s.acked ≤ t.acked)
      (fun _ t => s.acked ≤ t.acked) := by
  cases socket with
  | none => exact ⟨valid,.refl s⟩
  | some input =>
    have idle : Valid h.crc32 { s with retryCount := 0 } := valid.frame rfl
    rw [readSocket]
    rcases handleSocketRead_cases valid stale input with failed | ⟨_,dropped⟩ | ⟨pkt,_,inside,response⟩
    · rw [failed]
      exact Nat.le_refl s.acked
    · rw [dropped]
      exact ⟨idle,⟨Nat.le_refl _,rfl,List.prefix_refl _,rfl,rfl,rfl,rfl⟩⟩
    · refine (response_heard idle inside response).mono ?_ (fun _ later => later) (fun _ _ later => later)
      rintro t ⟨after,heard⟩
      exact ⟨after,heard.acked,heard.sent,heard.wire,heard.input,heard.lastInRead,heard.polled,heard.capacity⟩

theorem readSocket_meets (valid : Valid h.crc32 s) (polls : Polls s) (stale : Pkt) (socket : Option Recv) :
    (readSocket h stale socket s).Meets (fun t => Valid h.crc32 t ∧ Polls t ∧ Later s t)
      (fun t => s.acked ≤ t.acked) (fun _ t => s.acked ≤ t.acked) := by
  refine (readSocket_heard valid stale socket).mono ?_ (fun _ later => later) (fun _ _ later => later)
  rintro t ⟨after,heard⟩
  exact ⟨after,heard.polls valid after polls,⟨heard.acked,heard.capacity⟩⟩

/-- Rule for reading the file: whatever holds before and is kept by reading a chunk. -/
theorem readFile_meets {good bad : Sender → Prop} {dead : Halt → Sender → Prop} (valid : Valid h.crc32 s)
    (polls : Polls s) (file : Option ReadResult) (unread : good s)
    (queued : ∀ bytes, file = some (.data bytes) → good (Sender.queued h.crc32 s bytes))
    (failed : ∀ buf, bad { s with sendBuf := buf, lastChunkRead := s.lastChunkRead + 1, lastInRead := -1 }) :
    (readFile h file s).Meets (fun t => Valid h.crc32 t ∧ good t) bad dead := by
  unfold readFile
  split
  next result chosen =>
    have two : s.pfdsCount = 2 := by
      by_contra other
      rw [if_neg other] at chosen
      contradiction
    rw [if_pos two] at chosen
    obtain ⟨more,room⟩ := polls two
    cases result with
    | error =>
      simp only [handleInputRead,pktbufEnqueue_room h room,Outcome.call_ok]
      exact failed _
    | data bytes =>
      rw [handleInputRead_data bytes room]
      exact ⟨valid.queued bytes more room,queued bytes chosen⟩
  next => exact ⟨valid,unread⟩

theorem doSendSbuf_meets {t : Sender} (valid : Valid h.crc32 t) (later : Later s t) :
    (doSendSbuf h t).Meets (fun u => Valid h.crc32 u ∧ Later s u) (fun u => s.acked ≤ u.acked)
      (fun _ u => s.acked ≤ u.acked) := by
  have loop := @sendLoop_meets h t (Later s) (fun u => s.acked ≤ u.acked)
    (fun u _ _ kept _ _ => ⟨kept.acked,kept.capacity⟩) (fun u _ kept _ => kept.acked) 256 valid later
  exact loop.mono (fun _ both => both) (fun _ kept => kept) (fun _ _ never => never.elim)

theorem choosePolled_polls (s : Sender) : Polls (choosePolled s) := by
  intro two
  have chosen : s.lastInRead ≠ 0 ∧ (!pktbufFull s.sendBuf) = true := by
    by_contra other
    rw [choosePolled] at two
    simp only [if_neg other] at two
    omega
  have room := (Bool.not_eq_true' _).mp chosen.2
  rw [Bool.eq_false_iff,ne_eq,pktbufFull_iff] at room
  exact ⟨chosen.1,Nat.lt_of_not_le room⟩

/-- Step lemma: a turn of the poll loop keeps the sender valid. -/
theorem turn_meets (valid : Valid h.crc32 s) (polls : Polls s) (fuel : Nat) (event : Event)
    {outcome : Outcome Halt Sender} (taken : turn h fuel s event = some outcome) :
    outcome.Meets (fun t => Valid h.crc32 t ∧ Polls t ∧ Later s t) (fun t => s.acked ≤ t.acked)
      (fun _ t => s.acked ≤ t.acked) := by
  cases event with
  | failed =>
    obtain rfl := Option.some.inj taken
    exact Nat.le_refl s.acked
  | timeout =>
    cases turn_expiry valid taken with
    | idle empty => exact ⟨valid,polls,.refl s⟩
    | spent live many => exact Nat.le_refl s.acked
    | again live few _ ended =>
      have acked := (resend_counts fuel _ ended).1
      change outcome.state.acked = s.acked at acked
      cases outcome with
      | ret t =>
        obtain ⟨core,polled⟩ := resend_core valid.expired (Nat.le_refl s.acked) valid.ackedSent fuel ended
        have after := valid.expired.frame core
        have heard : Heard s t := Heard.of_core core (resend_wire fuel _ ended) polled
        exact ⟨after,heard.polls valid after polls,⟨heard.acked,heard.capacity⟩⟩
      | err t => exact Nat.le_of_eq acked.symm
      | halt reason t => exact Nat.le_of_eq acked.symm
  | ready stale socket file =>
    obtain rfl := Option.some.inj taken
    have input : ((readSocket h stale socket s).andThen (readFile h file)).Meets
        (fun t => Valid h.crc32 t ∧ Later s t) (fun t => s.acked ≤ t.acked)
        (fun _ t => s.acked ≤ t.acked) := by
      refine (readSocket_meets valid polls stale socket).andThen ?_
      rintro t ⟨after,stillPolls,later⟩
      exact readFile_meets after stillPolls file later (fun _ _ => ⟨later.acked,later.capacity⟩)
        (fun _ => later.acked)
    have output := input.andThen (fun t (met : _ ∧ _) => doSendSbuf_meets met.1 met.2)
    refine output.andThen ?_
    rintro t ⟨after,later⟩
    exact ⟨after.frame rfl,choosePolled_polls t,⟨later.acked,later.capacity⟩⟩

/-- The loop goes on only after a turn that returned zero. -/
theorem afterTurn_running {outcome : Outcome Halt Sender} {t : Sender} (same : afterTurn outcome = .running t) :
    outcome = .ret t := by
  cases outcome with
  | ret s =>
    rw [afterTurn] at same
    split at same
    next => exact congrArg Outcome.ret (Config.running.inj same)
    next => simp at same
  | err s => simp [afterTurn] at same
  | halt reason s => simp [afterTurn] at same

theorem afterTurn_state (outcome : Outcome Halt Sender) : (afterTurn outcome).state = outcome.state := by
  cases outcome with
  | ret s =>
    rw [afterTurn]
    split <;> rfl
  | err s => rfl
  | halt reason s => rfl

/-- The sender between two turns. It returns 0 only when it has read to the end and
everything is acknowledged. -/
def Steady (crc32 : List UInt8 → UInt32) (capacity : UInt32) : Config Halt Sender → Prop
  | .running s => Valid crc32 s ∧ Polls s ∧ s.sendBuf.capacity = capacity
  | .returned code s => code = 0 → Valid crc32 s ∧ s.lastInRead = 0 ∧ s.acked = s.input.length
  | .halted _ _ => True

theorem start_steady {crc32 : List UInt8 → UInt32} {capacity : UInt32} {c : Config Halt Sender}
    (first : Start capacity c) : Steady crc32 capacity c := by
  obtain ⟨buf,made,rfl⟩ := first
  obtain ⟨valid,polls⟩ := @start_valid crc32 capacity buf made
  exact ⟨valid,polls,(pktbufNew_fields made).2.2.1⟩

theorem step_steady {capacity : UInt32} {c d : Config Halt Sender} {event : Event} (steady : Steady h.crc32 capacity c)
    (taken : Step h c event d) : Steady h.crc32 capacity d := by
  obtain ⟨fuel,s,event,outcome,ended⟩ := taken
  obtain ⟨valid,polls,size⟩ := steady
  have met := turn_meets valid polls fuel event ended
  cases outcome with
  | err t =>
    intro zero
    contradiction
  | halt reason t => trivial
  | ret t =>
    obtain ⟨after,stillPolls,later⟩ := met
    rw [afterTurn]
    split
    next => exact ⟨after,stillPolls,later.capacity.trans size⟩
    next done =>
      rw [not_or,not_not,Bool.not_eq_true',Bool.not_eq_false,after.empty_iff] at done
      exact fun _ => ⟨after,done⟩

theorem reachable_valid {capacity : UInt32} {c : Config Halt Sender}
    {admitted : Config Halt Sender → Event → Prop} (reached : Reach (Start capacity) (Step h) admitted c)
    (running : c = .running s) : Valid h.crc32 s ∧ Polls s ∧ s.sendBuf.capacity = capacity := by
  subst running
  exact reached.invariant (fun _ first => start_steady first) (fun _ _ _ steady _ taken => step_steady steady taken)

/-- The three counts behind the counters of the sender, and the packets in between. -/
structure Counts (crc32 : List UInt8 → UInt32) (s : Sender) (acked sent read : Nat) : Prop where
  ordered : acked ≤ sent ∧ sent ≤ read
  lastAck : s.lastAck = serial acked
  lastSent : s.lastSent = serial sent - 1
  lastChunkRead : s.lastChunkRead = serial read - 1
  used : (pktbufUsed s.sendBuf).toNat = read - acked
  fits : read - acked ≤ s.sendBuf.capacity.toNat
  inflight : sent - acked ≤ maxWindowSize
  input : s.input.length = read
  live : ∀ i < read - acked, ∃ bytes, s.input[acked + i]? = some bytes ∧
    (s.sendBuf.get i).seq = serial (acked + i) ∧
    (s.sendBuf.get i).datagram = chunkDatagram crc32 (acked + i) bytes

theorem Counts.of_valid {crc32 : List UInt8 → UInt32} (valid : Valid crc32 s) :
    Counts crc32 s s.acked s.sent s.input.length := by
  have fits := valid.fits
  have inflight := valid.inflight
  have sent := valid.lastSent
  have read := valid.lastChunkRead
  refine ⟨⟨valid.ackedSent,valid.sentRead⟩,valid.lastAck,by grind,by grind,valid.size,by omega,by omega,rfl,?_⟩
  intro i inside
  have bound : s.acked + i < s.input.length := by omega
  have stored := valid.live (List.getElem?_eq_getElem bound) (Nat.le_add_right _ _)
  rw [Nat.add_sub_cancel_left] at stored
  exact ⟨s.input[s.acked + i],List.getElem?_eq_getElem bound,stored.seq,stored.datagram⟩

end Trtp.SenderRuns
