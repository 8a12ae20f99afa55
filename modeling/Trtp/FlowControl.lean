import Trtp.SenderRuns

/-! Flow control over all paths that write DATA packets to the socket.
Only do_send_sbuf consults the window. The other paths keep to it as long as the
packet they pick is one that do_send_sbuf has sent before, and this section says
for which timeouts and acknowledgements that is so. -/
namespace Trtp.FlowControl
open Lib.Circular Lib.Run Lib.Serial Packet Process Buffer Net Transmit SendBuffer SenderRuns

def InFlight (crc32 : List UInt8 → UInt32) (s : Sender) (e : Sending) : Prop :=
  ∃ c bytes, e.number = some c ∧ s.acked ≤ c ∧ c < s.sent ∧ s.input[c]? = some bytes ∧
    e.datagram = chunkDatagram crc32 c bytes

def Disciplined (wire : List Sending) : Prop :=
  ∀ before e after, wire = before ++ e :: after → (∀ earlier ∈ before, earlier.number ≠ e.number) →
    e.outstanding < e.window.toNat

structure Numbered (s : Sender) : Prop where
  lastAck : s.lastAck = serial s.acked
  lastSent : s.lastSent = serial s.sent - 1
  count : (s.lastSent - s.lastAck + 1).toNat = s.sent - s.acked

/-- Inside a turn that began with `start` on the wire. -/
structure Flow (crc32 : List UInt8 → UInt32) (start : List Sending) (s : Sender) : Prop where
  known : ∀ c < s.sent, ∃ e ∈ s.wire, e.number = some c
  disciplined : Disciplined s.wire
  fresh : ∃ news, s.wire = start ++ news ∧ ∀ e ∈ news, InFlight crc32 s e

structure Flowed (crc32 : List UInt8 → UInt32) (start : List Sending) (s : Sender) : Prop where
  numbered : Numbered s
  disciplined : Disciplined s.wire
  fresh : ∃ news, s.wire = start ++ news ∧ ∀ e ∈ news, InFlight crc32 s e

theorem Disciplined.nil : Disciplined [] := by
  intro before e after parts
  simp at parts

theorem Disciplined.snoc {wire : List Sending} (disciplined : Disciplined wire) {e : Sending}
    (permitted : (∃ earlier ∈ wire, earlier.number = e.number) ∨ e.outstanding < e.window.toNat) :
    Disciplined (wire ++ [e]) := by
  intro before x after parts unseen
  rcases List.eq_nil_or_concat after with rfl | ⟨rest,last,rfl⟩
  · obtain ⟨rfl,same⟩ := List.append_inj' parts rfl
    obtain rfl := List.singleton_inj.mp same
    rcases permitted with ⟨earlier,member,number⟩ | allowed
    · exact absurd number (unseen earlier member)
    · exact allowed
  · rw [List.concat_eq_append,← List.cons_append,← List.append_assoc] at parts
    obtain ⟨inner,_⟩ := List.append_inj' parts rfl
    exact disciplined before x rest inner unseen

variable {h : Host} {crc32 : List UInt8 → UInt32} {s : Sender} {start : List Sending}

theorem Numbered.of_valid (valid : Valid crc32 s) : Numbered s := by
  have sent := valid.lastSent
  exact ⟨valid.lastAck,by grind,valid.win⟩

theorem Flow.ended (flow : Flow crc32 start s) (valid : Valid crc32 s) : Flowed crc32 start s :=
  ⟨.of_valid valid,flow.disciplined,flow.fresh⟩

theorem Flow.again (flow : Flow crc32 start s) {e : Sending} (inflight : InFlight crc32 s e) :
    Flow crc32 start (s.recorded e) := by
  obtain ⟨c,bytes,number,unacked,sent,rest⟩ := inflight
  obtain ⟨earlier,member,same⟩ := flow.known c sent
  obtain ⟨news,parts,all⟩ := flow.fresh
  refine ⟨?_,?_,news ++ [e],?_,?_⟩
  · intro b before
    obtain ⟨x,found,equal⟩ := flow.known b before
    exact ⟨x,List.mem_append_left _ found,equal⟩
  · exact flow.disciplined.snoc (Or.inl ⟨earlier,member,same.trans number.symm⟩)
  · change s.wire ++ [e] = start ++ (news ++ [e])
    rw [parts,List.append_assoc]
  · intro x member
    rcases List.mem_append.mp member with old | new
    · exact all x old
    · obtain rfl := List.mem_singleton.mp new
      exact ⟨c,bytes,number,unacked,sent,rest⟩

theorem Flow.first (flow : Flow crc32 start s) (valid : Valid crc32 s) {bytes : Chunk}
    (next : s.input[s.sent]? = some bytes) (allowed : s.outstanding < s.lastWin.toNat) :
    Flow crc32 start ((Sender.released s).recorded (Sender.firstSending crc32 s bytes)) := by
  obtain ⟨news,parts,all⟩ := flow.fresh
  refine ⟨?_,?_,news ++ [Sender.firstSending crc32 s bytes],?_,?_⟩
  · intro b before
    rcases Nat.lt_succ_iff_lt_or_eq.mp before with old | rfl
    · obtain ⟨x,found,equal⟩ := flow.known b old
      exact ⟨x,List.mem_append_left _ found,equal⟩
    · exact ⟨_,List.mem_append_right _ (List.mem_singleton_self _),rfl⟩
  · exact flow.disciplined.snoc (Or.inr allowed)
  · change s.wire ++ [_] = start ++ (news ++ [_])
    rw [parts,List.append_assoc]
  · intro x member
    rcases List.mem_append.mp member with old | new
    · obtain ⟨c,chunk,number,unacked,sent,rest⟩ := all x old
      exact ⟨c,chunk,number,unacked,Nat.lt_succ_of_lt sent,rest⟩
    · obtain rfl := List.mem_singleton.mp new
      exact ⟨s.sent,bytes,rfl,valid.ackedSent,Nat.lt_succ_self _,next,rfl⟩

theorem Flow.queued (flow : Flow crc32 start s) (bytes : Chunk) :
    Flow crc32 start (Sender.queued crc32 s bytes) := by
  obtain ⟨news,parts,all⟩ := flow.fresh
  refine ⟨flow.known,flow.disciplined,news,parts,?_⟩
  intro x member
  obtain ⟨c,chunk,number,unacked,sent,known,datagram⟩ := all x member
  refine ⟨c,chunk,number,unacked,sent,?_,datagram⟩
  have bound := (List.getElem?_eq_some_iff.mp known).1
  rw [Sender.queued,List.getElem?_append_left bound]
  exact known

/-- Resending sends what is outstanding, if its loop stops there or a write fails in time. -/
theorem resend_flow (fuel : Nat) {c : Nat} (valid : Valid crc32 s) (flow : Flow crc32 start s)
    (unacked : s.acked ≤ c) (sent : c ≤ s.sent)
    (safe : s.lastSent ≠ 255 ∨ ∃ i, c + i ≤ s.sent ∧ h.sendOk (s.writes + i) = false)
    {outcome : Outcome Halt Sender} (ended : resend h fuel (serial c) s = some outcome) :
    outcome.Meets (fun t => Valid crc32 t ∧ Flow crc32 start t) (Flowed crc32 start)
      (fun _ => Flowed crc32 start) := by
  induction fuel generalizing c s with
  | zero => simp [resend] at ended
  | succ fuel ih =>
    have numbered := Numbered.of_valid valid
    rcases Nat.lt_or_ge c s.sent with left | none
    · obtain ⟨bytes,known,turn⟩ := @resend_turn h crc32 s valid c unacked left fuel
      rw [turn] at ended
      split at ended
      next accepted =>
        have next : Valid crc32 (s.recorded (Sender.resending crc32 s c bytes)) := valid.frame rfl
        have inflight : InFlight crc32 s (Sender.resending crc32 s c bytes) :=
          ⟨c,bytes,rfl,unacked,left,known,rfl⟩
        refine ih next (flow.again inflight) (Nat.le_succ_of_le unacked) left ?_ ended
        rcases safe with last | ⟨i,bound,fails⟩
        · exact Or.inl last
        · cases i with
          | zero =>
            rw [Nat.add_zero,accepted] at fails
            contradiction
          | succ i =>
            refine Or.inr ⟨i,by change c + 1 + i ≤ s.sent; omega,?_⟩
            rw [← fails]
            change h.sendOk (s.writes + 1 + i) = _
            congr 1
            omega
      next =>
        obtain rfl := Option.some.inj ended
        exact ⟨⟨numbered.1,numbered.2,numbered.3⟩,flow.disciplined,flow.fresh⟩
    · obtain rfl : c = s.sent := by omega
      rcases resend_cases ended with ⟨_,rfl⟩ | ⟨_,rfl⟩ | ⟨buf,rfl | ⟨accepted,_,rest⟩⟩
      · exact ⟨valid.frame rfl,flow.known,flow.disciplined,flow.fresh⟩
      · exact flow.ended valid
      · exact ⟨⟨numbered.1,numbered.2,numbered.3⟩,flow.disciplined,flow.fresh⟩
      · rcases safe with last | ⟨i,bound,fails⟩
        · rw [resend_stop valid last fuel] at ended
          obtain rfl := Option.some.inj ended
          exact ⟨valid.frame rfl,flow.known,flow.disciplined,flow.fresh⟩
        · obtain rfl : i = 0 := by omega
          rw [Nat.add_zero,accepted] at fails
          contradiction

/-- The lowest index below the number of packets in use whose packet has this
number, if there is one, holds an outstanding chunk. -/
def LowestOutstanding (nack : UInt8) (s : Sender) : Prop :=
  ∀ i < s.sendBuf.size, (s.sendBuf.head (UInt32.ofNat i)).seq = nack →
    (∀ j < i, (s.sendBuf.head (UInt32.ofNat j)).seq ≠ nack) →
    ∃ c, s.chunkAt (UInt32.ofNat i) = some c ∧ s.acked ≤ c ∧ c < s.sent

/-- A packet from the receiver does no harm to flow control. -/
structure SafePkt (h : Host) (s : Sender) (pkt : Pkt) : Prop where
  nack : pkt.type = ptypeNack → LowestOutstanding pkt.seq s ∨ h.sendOk s.writes = false
  ack : pkt.type = ptypeAck → pkt.seq = s.lastAck → s.dupAck + 1 = maxDupAck →
    s.sendBuf.size = 0 ∨ s.acked < s.sent ∨ h.sendOk s.writes = false

/-- The events that keep to flow control in the state in which they happen. -/
def Safe (h : Host) (s : Sender) : Event → Prop
  | .failed => True
  | .timeout => pktbufEmpty s.sendBuf = true ∨ maxRetransmission ≤ s.retryCount ∨ s.lastSent ≠ 255 ∨
      ∃ i ≤ s.sent - s.acked, h.sendOk (s.writes + i) = false
  | .ready stale socket _ => ∀ input pkt, socket = some input →
      netRecvPkt h stale s.lastAck (s.lastSent - s.lastAck + 1) input = (.netOk,pkt) → SafePkt h s pkt

def SafeStep (h : Host) (c : Config Halt Sender) (event : Event) : Prop :=
  ∀ s, c = .running s → Safe h s event

theorem nackPlace_outstanding (valid : Valid crc32 s) {nack : UInt8} (lowest : LowestOutstanding nack s)
    {place : UInt32} (found : nackPlace nack s.sendBuf = some place) :
    ∃ c bytes, s.acked ≤ c ∧ c < s.sent ∧ s.input[c]? = some bytes ∧
      Stored crc32 s.sendBuf.head s.chunkAt place c bytes := by
  obtain ⟨i,first,rfl⟩ := Option.map_eq_some_iff.mp found
  obtain ⟨seq,member,least⟩ := List.find?_range_eq_some.mp first
  have inside := List.mem_range.mp member
  have none (j : Nat) (before : j < i) : (s.sendBuf.head (UInt32.ofNat j)).seq ≠ nack := by
    have other := least j before
    rwa [Bool.not_eq_true',beq_eq_false_iff_ne] at other
  obtain ⟨c,number,unacked,sent⟩ := lowest i inside (beq_iff_eq.mp seq) none
  obtain ⟨c',bytes,known,_,stored⟩ := valid.filled inside
  obtain rfl : c = c' := Option.some.inj (number.symm.trans stored.number)
  exact ⟨c,bytes,unacked,sent,known,stored⟩

theorem sendPlace_flow {t : Sender} (valid : Valid h.crc32 t) (flow : Flow h.crc32 start t)
    (place : UInt32) (outstanding : Nat)
    (safe : InFlight h.crc32 t (t.sending place outstanding) ∨ h.sendOk t.writes = false) :
    (sendPlace h t place outstanding).Meets (fun u => Valid h.crc32 u ∧ Flow h.crc32 start u)
      (Flowed h.crc32 start) (fun _ => Flowed h.crc32 start) := by
  have numbered := Numbered.of_valid valid
  rw [sendPlace_eq]
  split
  next accepted =>
    rcases safe with inflight | fails
    · exact ⟨valid.frame rfl,flow.again inflight⟩
    · rw [accepted] at fails
      contradiction
  next => exact ⟨⟨numbered.1,numbered.2,numbered.3⟩,flow.disciplined,flow.fresh⟩

theorem response_flow (valid : Valid h.crc32 s) (flow : Flow h.crc32 s.wire s) {pkt : Pkt}
    (inside : (pkt.seq - s.lastAck).toNat ≤ s.outstanding) (safe : SafePkt h s pkt)
    {outcome : Outcome Halt Sender} (response : Response h s pkt outcome) :
    outcome.Meets (fun t => Valid h.crc32 t ∧ Flow h.crc32 s.wire t) (Flowed h.crc32 s.wire)
      (fun _ => Flowed h.crc32 s.wire) := by
  have heard := valid.heard pkt
  have heardFlow : Flow h.crc32 s.wire (Sender.heard s pkt) := ⟨flow.known,flow.disciplined,flow.fresh⟩
  cases response with
  | ignored other => exact ⟨valid,flow⟩
  | notFound nack absent => exact ⟨heard,heardFlow⟩
  | resent nack place found =>
    apply sendPlace_flow heard heardFlow
    rcases safe.nack nack with lowest | fails
    · obtain ⟨c,bytes,unacked,sent,known,stored⟩ := nackPlace_outstanding valid lowest found
      exact Or.inl ⟨c,bytes,stored.number,unacked,sent,known,stored.datagram⟩
    · exact Or.inr fails
  | repeated ack same few => exact ⟨heard.frame rfl,flow.known,flow.disciplined,flow.fresh⟩
  | nothing ack same third empty =>
    have numbered := Numbered.of_valid valid
    exact ⟨⟨numbered.1,numbered.2,numbered.3⟩,flow.disciplined,flow.fresh⟩
  | fast ack same third live =>
    have quiet : Valid h.crc32 { Sender.heard s pkt with dupAck := 0 } := heard.frame rfl
    have quietFlow : Flow h.crc32 s.wire { Sender.heard s pkt with dupAck := 0 } :=
      ⟨flow.known,flow.disciplined,flow.fresh⟩
    apply sendPlace_flow quiet quietFlow
    rcases safe.ack ack same third with empty | pending | fails
    · omega
    · have read := valid.sentRead
      have bound : s.acked < s.input.length := by omega
      have stored := valid.live (List.getElem?_eq_getElem bound) (Nat.le_refl _)
      rw [Nat.sub_self] at stored
      exact Or.inl ⟨s.acked,_,stored.number,Nat.le_refl _,pending,List.getElem?_eq_getElem bound,
        stored.datagram⟩
    · exact Or.inr fails
  | acked ack moved =>
    refine ⟨(heard.advanced (acked_inside valid inside)).frame rfl,flow.known,flow.disciplined,[],?_,?_⟩
    · exact (List.append_nil s.wire).symm
    · intro e member
      simp at member

theorem readSocket_flow (valid : Valid h.crc32 s) (flow : Flow h.crc32 s.wire s) (stale : Pkt)
    (socket : Option Recv) (file : Option ReadResult) (safe : Safe h s (.ready stale socket file)) :
    (readSocket h stale socket s).Meets (fun t => Valid h.crc32 t ∧ Flow h.crc32 s.wire t)
      (Flowed h.crc32 s.wire) (fun _ => Flowed h.crc32 s.wire) := by
  cases socket with
  | none => exact ⟨valid,flow⟩
  | some input =>
    have idle : Valid h.crc32 { s with retryCount := 0 } := valid.frame rfl
    have idleFlow : Flow h.crc32 s.wire { s with retryCount := 0 } := ⟨flow.known,flow.disciplined,flow.fresh⟩
    rw [readSocket]
    rcases handleSocketRead_cases valid stale input with failed | ⟨_,dropped⟩ | ⟨pkt,received,inside,response⟩
    · rw [failed]
      exact idleFlow.ended idle
    · rw [dropped]
      exact ⟨idle,idleFlow⟩
    · have harmless := safe input pkt rfl received
      exact response_flow idle idleFlow inside ⟨harmless.nack,harmless.ack⟩ response

theorem released_flowed (valid : Valid crc32 s) (flow : Flow crc32 start s) :
    Flowed crc32 start (Sender.released s).tried := by
  have ordered := valid.ackedSent
  have inflight := valid.inflight
  have sent := valid.lastSent
  obtain ⟨news,parts,all⟩ := flow.fresh
  unfold maxWindowSize at inflight
  refine ⟨⟨valid.lastAck,?_,?_⟩,flow.disciplined,news,parts,?_⟩
  · change s.lastSent + 1 = serial (s.sent + 1) - 1
    rw [sent,← serial_succ]
    grind
  · change (s.lastSent + 1 - s.lastAck + 1).toNat = s.sent + 1 - s.acked
    have shifted : serial s.sent - serial s.acked + 1 = serial (s.sent + 1) - serial s.acked := by
      rw [← serial_succ]
      grind
    rw [sent,valid.lastAck,shifted,serial_sub (by omega) (by omega)]
  · intro e member
    obtain ⟨c,bytes,number,unacked,before,rest⟩ := all e member
    exact ⟨c,bytes,number,unacked,Nat.lt_succ_of_lt before,rest⟩

theorem turn_flow (valid : Valid h.crc32 s) (polls : Polls s) (flow : Flow h.crc32 s.wire s) (fuel : Nat)
    (event : Event) (safe : Safe h s event) {outcome : Outcome Halt Sender}
    (taken : turn h fuel s event = some outcome) :
    outcome.Meets (fun t => Valid h.crc32 t ∧ Flow h.crc32 s.wire t) (Flowed h.crc32 s.wire)
      (fun _ => Flowed h.crc32 s.wire) := by
  cases event with
  | failed =>
    obtain rfl := Option.some.inj taken
    exact flow.ended valid
  | timeout =>
    have expiredFlow : Flow h.crc32 s.wire (Sender.expired s) := ⟨flow.known,flow.disciplined,flow.fresh⟩
    cases turn_expiry valid taken with
    | idle empty => exact ⟨valid,flow⟩
    | spent live many => exact expiredFlow.ended valid.expired
    | again live few _ ended =>
      refine resend_flow fuel valid.expired expiredFlow (Nat.le_refl _) valid.ackedSent ?_ ended
      rcases safe with empty | many | last | ⟨i,bound,fails⟩
      · rw [empty] at live
        contradiction
      · omega
      · exact Or.inl last
      · have ordered := valid.ackedSent
        refine Or.inr ⟨i,?_,fails⟩
        change s.acked + i ≤ s.sent
        omega
  | ready stale socket file =>
    obtain rfl := Option.some.inj taken
    have input : ((readSocket h stale socket s).andThen (readFile h file)).Meets
        (fun t => Valid h.crc32 t ∧ Flow h.crc32 s.wire t) (Flowed h.crc32 s.wire)
        (fun _ => Flowed h.crc32 s.wire) := by
      have both := (readSocket_meets valid polls stale socket).and
        (readSocket_flow valid flow stale socket file safe)
      have weaker := both.mono (fun _ kept => kept) (fun _ ended => ended.2) (fun _ _ ended => ended.2)
      refine weaker.andThen ?_
      rintro t ⟨⟨after,stillPolls,_⟩,_,still⟩
      have ended := still.ended after
      exact readFile_meets after stillPolls file still (fun bytes _ => still.queued bytes)
        (fun _ => ⟨⟨ended.1.1,ended.1.2,ended.1.3⟩,ended.2,ended.3⟩)
    have output : (((readSocket h stale socket s).andThen (readFile h file)).andThen (doSendSbuf h)).Meets
        (fun t => Valid h.crc32 t ∧ Flow h.crc32 s.wire t) (Flowed h.crc32 s.wire)
        (fun _ => Flowed h.crc32 s.wire) := by
      refine input.andThen ?_
      rintro t ⟨after,still⟩
      have loop := @sendLoop_meets h t (Flow h.crc32 s.wire) (Flowed h.crc32 s.wire)
        (fun u bytes kept flowing next allowed => flowing.first kept next allowed)
        (fun u kept flowing _ => released_flowed kept flowing) 256 after still
      exact loop.mono (fun _ both => both) (fun _ ended => ended) (fun _ _ never => never.elim)
    refine output.andThen ?_
    rintro t ⟨after,still⟩
    exact ⟨after.frame rfl,still.known,still.disciplined,still.fresh⟩

structure Open (s : Sender) : Prop where
  known : ∀ c < s.sent, ∃ e ∈ s.wire, e.number = some c
  disciplined : Disciplined s.wire

theorem Open.flow (opened : Open s) : Flow crc32 s.wire s := by
  refine ⟨opened.known,opened.disciplined,[],(List.append_nil s.wire).symm,?_⟩
  intro e member
  simp at member

theorem reachable_open {capacity : UInt32} {c : Config Halt Sender}
    (reached : Reach (Start capacity) (Step h) (SafeStep h) c) (running : c = .running s) : Open s := by
  induction reached generalizing s with
  | start c first =>
    obtain ⟨buf,_,rfl⟩ := first
    obtain rfl := Config.running.inj running
    refine ⟨?_,Disciplined.nil⟩
    intro c before
    simp [Transmit.start] at before
  | step c event next before admitted taken ih =>
    obtain ⟨fuel,t,event,outcome,ended⟩ := taken
    obtain ⟨valid,polls,_⟩ := reachable_valid before rfl
    have met := turn_flow valid polls (ih rfl).flow fuel event (admitted t rfl) ended
    obtain ⟨_,flow⟩ := met.of_ret (afterTurn_running running)
    exact ⟨flow.known,flow.disciplined⟩

/-- In a run whose events are all harmless, every datagram a step writes belongs to
a packet that is outstanding after the step, and every chunk went out for the
first time while fewer packets were outstanding than the window allowed. -/
theorem step_flow (h : Host) (capacity : UInt32) (c : Config Halt Sender) (event : Event)
    (d : Config Halt Sender) (reached : Reach (Start capacity) (Step h) (SafeStep h) c)
    (safe : SafeStep h c event) (taken : Step h c event d) :
    (∃ news, d.state.wire = c.state.wire ++ news ∧ ∀ e ∈ news, InFlight h.crc32 d.state e) ∧
      Numbered d.state ∧ Disciplined d.state.wire := by
  obtain ⟨fuel,s,event,outcome,ended⟩ := taken
  obtain ⟨valid,polls,_⟩ := reachable_valid reached rfl
  have met := turn_flow valid polls (reachable_open reached rfl).flow fuel event (safe s rfl) ended
  rw [afterTurn_state]
  cases outcome with
  | ret t => exact ⟨met.2.fresh,.of_valid met.1,met.2.disciplined⟩
  | err t => exact ⟨met.fresh,met.numbered,met.disciplined⟩
  | halt reason t => exact ⟨met.fresh,met.numbered,met.disciplined⟩

/-- While the window is closed a chunk is read but not sent, and the third repeated
acknowledgement puts it on the wire. -/
theorem fast_unsent :
    ∃ s t, [ackEvent 0 0,byteEvent,ackEvent 0 0].foldlM (next steadyHost 0) (.running (Transmit.start fourPlaces)) =
        some (.running s) ∧
      Reach (Start 4) (Step steadyHost) (fun _ _ => True) (.running s) ∧
      Step steadyHost (.running s) (ackEvent 0 0) (.running t) ∧ s.wire = [] ∧
      (∃ e ∈ t.wire, e.number = some 0 ∧ ¬ InFlight steadyHost.crc32 t e) ∧ ¬ Disciplined t.wire := by
  let tags (t : Sender) : List (Option Nat × Nat × UInt8) :=
    t.wire.map (fun e => (e.number,e.outstanding,e.window))
  have passed : runningWith (fun s => s.wire.isEmpty && runningWith (fun t => t.sent == 0 &&
        tags t == [(some 0,0,0)]) (next steadyHost 0 (.running s) (ackEvent 0 0)))
      ([ackEvent 0 0,byteEvent,ackEvent 0 0].foldlM (next steadyHost 0) (.running (Transmit.start fourPlaces))) =
      true := by decide +kernel
  obtain ⟨s,played,test⟩ := exists_of_runningWith passed
  rw [Bool.and_eq_true] at test
  obtain ⟨silent,later⟩ := test
  obtain ⟨t,stepped,test⟩ := exists_of_runningWith later
  rw [Bool.and_eq_true,beq_iff_eq,beq_iff_eq] at test
  obtain ⟨unsent,wire⟩ := test
  obtain ⟨e,sendings,entry⟩ := List.map_eq_singleton_iff.mp wire
  refine ⟨s,t,played,fourPlaces_play steadyHost 0 _ played,next_step steadyHost 0 _ _ _ stepped,
    List.isEmpty_iff.mp silent,?_,?_⟩
  · refine ⟨e,by rw [sendings]; exact List.mem_singleton_self e,congrArg Prod.fst entry,?_⟩
    rintro ⟨c,bytes,_,_,sent,_⟩
    omega
  · intro disciplined
    have allowed := disciplined [] e [] sendings (by simp)
    have outstanding : e.outstanding = 0 := congrArg (fun tag => tag.2.1) entry
    have window : e.window = 0 := congrArg (fun tag => tag.2.2) entry
    rw [outstanding,window] at allowed
    exact absurd allowed (by decide)

def nackEvent (seq : UInt8) : Event :=
  .ready Pkt.zero (some (.datagram (Codec.image Lib.Crc.crc32
    { Pkt.zero with type := ptypeNack, seq := seq, window := 3 }))) none

/-- Something is outstanding, and so is every packet in use with the number of the reply. -/
def harmless (h : Host) (s : Sender) : Event → Bool
  | .failed => true
  | .timeout => s.lastSent != 255
  | .ready stale socket _ => socket.all fun input =>
    match netRecvPkt h stale s.lastAck (s.lastSent - s.lastAck + 1) input with
    | (.netOk,pkt) => decide (s.acked < s.sent) && (List.range s.sendBuf.size).all fun i =>
      (s.sendBuf.head (UInt32.ofNat i)).seq != pkt.seq ||
        (s.chunkAt (UInt32.ofNat i)).any (fun c => decide (s.acked ≤ c) && decide (c < s.sent))
    | _ => true

theorem safe_of_harmless {event : Event} (passed : harmless h s event = true) : Safe h s event := by
  cases event with
  | failed => trivial
  | timeout => exact Or.inr (Or.inr (Or.inl (by simpa [harmless] using passed)))
  | ready stale socket file =>
    rintro input pkt rfl received
    simp only [harmless,Option.all_some,received,Bool.and_eq_true,decide_eq_true_eq,List.all_eq_true,List.mem_range,
      Bool.or_eq_true,bne_iff_ne,Option.any_eq_true] at passed
    obtain ⟨busy,places⟩ := passed
    refine ⟨fun _ => Or.inl ?_,fun _ _ _ => Or.inr (Or.inl busy)⟩
    intro i inside same _
    exact (places i inside).resolve_left (not_not.mpr same)

def nextHarmless (h : Host) (c : Config Halt Sender) (event : Event) : Option (Config Halt Sender) :=
  if harmless h c.state event then next h 8 c event else none

theorem nextHarmless_safe {c d : Config Halt Sender} {event : Event} (taken : nextHarmless h c event = some d) :
    SafeStep h c event ∧ Step h c event d := by
  unfold nextHarmless at taken
  split at taken
  next passed =>
    refine ⟨?_,next_step h 8 _ _ _ taken⟩
    rintro s rfl
    exact safe_of_harmless passed
  next => contradiction

/-- Chunk 0 is acknowledged and three more are sent; a NACK, three repeated acknowledgements
and the timer send some of them again. -/
theorem step_flow_resends : ∃ s t : Sender, Step steadyHost (.running s) .timeout (.running t) ∧
    t.wire.map Sending.number = [some 0,some 1,some 2,some 3,some 2,some 1,some 1,some 2,some 3] ∧
    (∃ news, t.wire = s.wire ++ news ∧ ∀ e ∈ news, InFlight steadyHost.crc32 t e) ∧
    Numbered t ∧ Disciplined t.wire := by
  have passed : runningWith (fun s => runningWith (fun t => t.wire.map Sending.number ==
        [some 0,some 1,some 2,some 3,some 2,some 1,some 1,some 2,some 3])
        (nextHarmless steadyHost (.running s) .timeout))
      ([byteEvent,ackEvent 1 3,byteEvent,byteEvent,byteEvent,byteEvent,nackEvent 2,ackEvent 1 3,ackEvent 1 3,
        ackEvent 1 3].foldlM (nextHarmless steadyHost) (.running (Transmit.start fourPlaces))) = true := by
    decide +kernel
  obtain ⟨s,played,rest⟩ := exists_of_runningWith passed
  obtain ⟨t,last,wire⟩ := exists_of_runningWith rest
  have reached : Reach (Start 4) (Step steadyHost) (SafeStep steadyHost) (.running s) :=
    Reach.play (fun _ event _ taken => ⟨event,nextHarmless_safe taken⟩) (.start _ fourPlaces_start) _ played
  obtain ⟨safe,taken⟩ := nextHarmless_safe last
  exact ⟨s,t,taken,beq_iff_eq.mp wire,step_flow steadyHost 4 (.running s) .timeout (.running t) reached safe taken⟩

end Trtp.FlowControl
