import Trtp.Accord
import Trtp.Aliasing
import Trtp.AnyOrder
import Trtp.EndOfTransfer

/-! A transfer that has not failed can still be completed.
Whatever the network has lost, repeated or reordered so far, the datagrams that are
on the wire are enough: some admitted turn of one of the two ends brings the transfer
closer to its end, and no more turns are needed than there are chunks to be sent,
accepted, written and acknowledged. -/
namespace Trtp.Completion
open Lib.Circular Lib.Mask Lib.Reorder Lib.Run Lib.Serial Packet Codec Process Buffer Net SendBuffer SenderRuns Progress
open ReceiveBuffer ReceiverRuns DataStream InOrder Acknowledgement Network Transfer PairFlow Accord
open Transmit (Sender Sending Chunk)
open Receive

/-- No call of either end fails. -/
structure Smooth (hs hr : Host) : Prop where
  same : hr.crc32 = hs.crc32
  sends : ∀ n, hs.sendOk n = true
  replies : ∀ n, hr.sendOk n = true
  complete : ∀ n, hr.write n = .complete

section Receiver

variable {h : Host} {s t : Receiver}

theorem sendReply_sends (sends : ∀ n, h.sendOk n = true) (type : BitVec 2) (seq : UInt8) (number : Nat) (s : Receiver) :
    ∃ t, sendReply h type seq number s = .ret t := by
  rw [sendReply,netSend,sends]
  exact ⟨_,rfl⟩

theorem answer_sends (sends : ∀ n, h.sendOk n = true) (s : Receiver) : ∃ t, answer h s = .ret t := by
  have acked : ∃ t, (if s.needAck then sendAck h s else .ret s) = .ret t := by
    split
    next => exact sendReply_sends sends _ _ _ s
    next => exact ⟨s,rfl⟩
  obtain ⟨t,first⟩ := acked
  rw [answer,first,Outcome.ret_andThen]
  split
  next => exact sendReply_sends sends _ _ _ t
  next => exact ⟨t,rfl⟩

/-- What is in sequence once the socket is read has been written when the turn ends. -/
theorem turn_drains (sends : ∀ n, h.sendOk n = true) (complete : ∀ n, h.write n = .complete) {socket : Option Recv}
    (sound : Sound t) (read : readSocket h socket s = .ret t) (file : Bool) :
    ∃ u, afterTurn (turn h socket file s) = .running u ∧ t.expected ≤ u.drained ∧ u.drained ≤ u.expected := by
  obtain ⟨m,written,moves,empty⟩ := @writeFile_moves h t (fun _ _ => False) sound (fun n => Or.inl (complete n)) file
  obtain ⟨u,replied⟩ := answer_sends sends m
  have answered := answer_answered h m
  rw [replied] at answered
  have after := Moves.sound moves sound
  have forward := moves_expected sound moves
  have drained := congrArg Receiver.drained answered.same
  have expected := congrArg Receiver.expected answered.same
  have clear := after.expected_eq_drained (empty complete)
  change u.drained = m.drained at drained
  change u.expected = m.expected at expected
  refine ⟨_,by rw [turn,read,Outcome.ret_andThen,written,Outcome.ret_andThen,replied]; rfl,?_,?_⟩
  · change t.expected ≤ u.drained
    omega
  · change u.drained ≤ u.expected
    omega

/-- The expected packet has been accepted, and an ACK is due. -/
structure Took (s t : Receiver) : Prop where
  accepted : t.accepted = s.accepted ++ [s.expected]
  replies : t.replies = s.replies
  needNack : t.needNack = s.needNack
  needAck : s.needNack = false → t.needAck = true

theorem readSocket_takes (sound : Sound s) (clear : bit s.oosMask 0 = false)
    (room : popcount s.oosMask < s.maxWindow.toNat) {p : Pkt} (valid : Encodable p) (data : p.type = ptypeData)
    (whole : p.tr = false) (number : p.seq = s.expectedSeq) :
    ∃ t, readSocket h (some (.datagram (image h.crc32 p))) s = .ret t ∧ Sound t ∧ s.expected < t.expected ∧
    Took s t := by
  have notFull := (rbufFull_iff sound).mpr room
  have timely : ¬ Early h s (.datagram (image h.crc32 p)) := by
    rintro ⟨set,_⟩
    rw [clear] at set
    contradiction
  obtain ⟨t,read,accepted⟩ := AnyOrder.doReceiveData_takes (h := h) sound clear room valid data whole
  have moves := (doReceiveData_moves sound notFull timely).of_ret read
  have none : (p.seq - s.expectedSeq).toNat = 0 := by
    rw [number,UInt8.sub_self]
    rfl
  rw [none,if_pos (Nat.zero_le _)] at accepted
  have after : Sound t := Moves.sound moves sound
  have forward : s.expected < t.expected := by
    have atLeast := moves_expected sound moves
    refine Nat.lt_of_le_of_ne atLeast (fun same => after.isLeast.1 ?_)
    rw [accepted,← same]
    exact List.mem_append_right _ (List.mem_singleton.mpr rfl)
  have socket : doReadSock h (.datagram (image h.crc32 p)) s = .ret t := by
    rw [doReadSock,notFull]
    simp only [Bool.not_false,if_true,read]
  have noted := @doReadSock_noted h s sound (.datagram (image h.crc32 p))
  rw [socket] at noted
  have needNack : t.needNack = s.needNack := by
    refine (noted.nack.resolve_right (fun cut => ?_)).1
    have same : t.accepted = s.accepted := cut.1
    rw [accepted] at same
    exact absurd (List.append_right_eq_self.mp same) (List.cons_ne_nil _ _)
  have replies := moves_replies moves
  have ended : readSocket h (some (.datagram (image h.crc32 p))) s =
      .ret (if !t.needNack then { t with needAck := true } else t) := by
    rw [readSocket,socket]
    rfl
  refine ⟨_,ended,?_⟩
  split
  next => exact ⟨after.frame rfl,forward,accepted,replies,needNack,fun _ => rfl⟩
  next owed =>
    refine ⟨after,forward,accepted,replies,needNack,fun none => ?_⟩
    rw [needNack,none] at owed
    exact absurd rfl owed

theorem waitAndConnect_links {slot : UInt32} (waiting : Waiting s slot) (retry : Nat) {p : Pkt} (valid : Encodable p)
    (whole : p.tr = false) (number : p.seq = initialSeqnum) :
    ∃ u, waitAndConnect h retry slot (.datagram (image h.crc32 p)) true s = .running u ∧ s.expected < u.expected ∧
      s.drained ≤ u.drained ∧ Took s u := by
  obtain ⟨q,read,agrees⟩ := netRecvfrom_image (h := h) valid (s.recvBuf.head slot)
  have first : q.seq = initialSeqnum := agrees.seq.symm.trans number
  obtain ⟨fresh,sound,room,_⟩ := waiting.linked read first
  generalize held : Receiver.holding s (s.recvBuf.put slot q) = base at fresh sound room
  have own : base.recvBuf.head slot = q := by rw [← held]; exact s.recvBuf.put_head_self slot q
  have place : base.recvBuf.slot 0 = slot := by rw [← held]; exact waiting.place.symm
  have clear : bit base.oosMask 0 = false := by rw [fresh.oosMask,bit_zero]
  have live : 0 < base.recvBuf.size := by rw [← held]; exact waiting.live
  have seq : base.expectedSeq = q.seq := by rw [sound.expectedSeq,fresh.expected,first]; rfl
  have none : distance base = some 0 := by
    apply if_neg
    intro one
    have set : bit base.oosMask 0 = true := (and_one_iff _).mp one
    rw [clear] at set
    contradiction
  have timed : Sound (Receiver.timed slot base) := sound.frame rfl
  have again : Receiver.holding (Receiver.timed slot base) ((Receiver.timed slot base).recvBuf.put slot q) =
      Receiver.timed slot base := by
    have same : base.recvBuf.put slot q = base.recvBuf := by rw [← own,CircularArray.put_head_eq]
    change Receiver.holding (Receiver.timed slot base) (base.recvBuf.put slot q) = _
    rw [same]
    rfl
  have counted : q.seq = serial (Receiver.timed slot base).expected := seq.symm.trans timed.expectedSeq
  have accepted := @acceptPkt_next h (Receiver.timed slot base) timed clear live room q counted
  have timedPlace : (Receiver.timed slot base).recvBuf.slot 0 = slot := place
  rw [timedPlace,again] at accepted
  have processed : processIncomingPkt h slot base = .ret (Receiver.storing (Receiver.timed slot base) q 0) := by
    rw [processIncomingPkt_whole slot none (by rw [own]; exact agrees.tr.symm.trans whole),own,seq,UInt8.sub_self]
    exact accepted
  have opened : connected h slot base =
      .running { Receiver.storing (Receiver.timed slot base) q 0 with phase := .receiving, needAck := true } := by
    rw [connected,processed]
  have stored := @Sound.stored _ timed q 0 clear live (Nat.zero_le _) room counted
  have before := waiting.fresh.expected
  have drained := waiting.fresh.drained
  have positive : 0 < (Receiver.storing (Receiver.timed slot base) q 0).expected := by
    refine Nat.pos_of_ne_zero (fun nothing => stored.isLeast.1 ?_)
    rw [nothing]
    exact List.mem_append_right _ (List.mem_singleton.mpr fresh.expected.symm)
  have waited : waitAndConnect h retry slot (.datagram (image h.crc32 p)) true s = connected h slot base := by
    simp only [waitAndConnect,read,first,ne_eq,not_true,if_false,if_true]
    rw [← held]
    rfl
  refine ⟨_,waited.trans opened,by rw [before]; exact positive,by rw [drained]; exact Nat.zero_le _,?_⟩
  rw [← held]
  exact ⟨rfl,rfl,rfl,fun _ => rfl⟩

end Receiver

section Sender

variable {h : Host} {s u : Sender}

theorem readSocket_acked (valid : Valid h.crc32 s) {reply : Pkt} (encodable : Encodable reply)
    (type : reply.type = ptypeAck) {n : Nat} (number : reply.seq = serial n) (after : s.acked < n) (sent : n ≤ s.sent)
    (stale : Pkt) : ∃ u, Transmit.readSocket h stale (some (.datagram (image h.crc32 reply))) s = .ret u ∧
      Valid h.crc32 u ∧ u.acked = n ∧ u.sent = s.sent ∧ u.wire = s.wire ∧ u.dupAck = 0 ∧ u.retryCount = 0 := by
  obtain ⟨pkt,received,agrees⟩ := netRecvfrom_image (h := h) encodable stale
  have inflight := valid.inflight
  unfold maxWindowSize at inflight
  have seq : pkt.seq = serial n := agrees.seq.symm.trans number
  have gap : (pkt.seq - s.lastAck).toNat = n - s.acked := by
    rw [seq,valid.lastAck,serial_sub (Nat.le_of_lt after) (by omega)]
  have inside : (pkt.seq - s.lastAck).toNat ≤ s.outstanding := by
    rw [gap,Sender.outstanding]
    omega
  have through : netRecvPkt h stale s.lastAck (s.lastSent - s.lastAck + 1) (.datagram (image h.crc32 reply)) =
      (.netOk,pkt) := by
    rw [netRecvPkt_eq,received]
    refine if_neg (fun beyond => UInt8.not_lt.mpr (UInt8.le_iff_toNat_le.mpr ?_) beyond.2)
    rw [valid.win]
    exact inside
  have idle : Valid h.crc32 { s with retryCount := 0 } := valid.frame rfl
  have response := @processPkt_response h h.crc32 _ idle pkt inside
  have known := response_heard idle inside response
  have handled : Transmit.readSocket h stale (some (.datagram (image h.crc32 reply))) s =
      Transmit.processPkt h pkt { s with retryCount := 0 } := by
    simp only [Transmit.readSocket,Transmit.handleSocketRead,through]
  have ack : pkt.type = ptypeAck := agrees.type.symm.trans type
  have moved : pkt.seq ≠ s.lastAck := by
    intro same
    rw [same,UInt8.sub_self] at gap
    change 0 = n - s.acked at gap
    omega
  rw [handled]
  generalize Transmit.processPkt h pkt { s with retryCount := 0 } = outcome at response known ⊢
  cases response with
  | ignored other => exact absurd ack other.1
  | notFound nack _ => exact absurd (nack.symm.trans ack) (by decide)
  | resent nack _ _ => exact absurd (nack.symm.trans ack) (by decide)
  | repeated _ same _ => exact absurd same moved
  | nothing _ same _ _ => exact absurd same moved
  | fast _ same _ _ => exact absurd same moved
  | acked _ _ =>
    refine ⟨_,rfl,known.1,?_,rfl,rfl,rfl,rfl⟩
    change s.acked + (pkt.seq - s.lastAck).toNat = n
    omega

end Sender

/-- What is still to be acknowledged, sent, written and accepted. -/
def remaining (chunks : List Chunk) (p : System) : Nat :=
  (chunks.length + 1 - p.sender.state.acked) + (chunks.length + 1 - p.sender.state.sent) +
    (chunks.length + 1 - p.receiver.state.drained) + (chunks.length + 1 - p.receiver.state.expected)

def Ongoing (p : System) : Prop := (∃ s, p.sender = .running s) ∧ ∃ r, p.receiver.Unfailed r

def Done (p : System) : Prop := (∃ s, p.sender = .returned 0 s) ∧ ∃ r, p.receiver.Unfailed r

def Closer (chunks : List Chunk) (p q : System) : Prop := Done q ∨ Ongoing q ∧ remaining chunks q < remaining chunks p

def Advances (hs hr : Host) (chunks : List Chunk) (p : System) : Prop :=
  ∃ action q, Admitted hs hr chunks p action ∧ Network.Step hs hr p action q ∧ Closer chunks p q

section Pair

variable {hs hr : Host} {capacity maxWindow : UInt32} {chunks : List Chunk} {p : System} {s : Sender} {r : Receiver}

theorem Closer.send (running : p.sender = .running s) (attending : ∃ r, p.receiver.Unfailed r) {t : Sender}
    (acked : s.acked ≤ t.acked) (sent : s.sent ≤ t.sent)
    (more : s.acked < t.acked ∧ s.acked < chunks.length + 1 ∨ s.sent < t.sent ∧ s.sent < chunks.length + 1) :
    Closer chunks p { p with sender := Transmit.afterTurn (.ret t) } := by
  rw [Transmit.afterTurn]
  split
  next =>
    refine Or.inr ⟨⟨⟨t,rfl⟩,attending⟩,?_⟩
    unfold remaining
    rw [running]
    simp only [Config.state_running]
    omega
  next => exact Or.inl ⟨⟨t,rfl⟩,attending⟩

theorem Closer.receive (running : p.sender = .running s) {d : Config Halt Receiver} {t : Receiver}
    (unfailed : d.Unfailed t) (drained : p.receiver.state.drained ≤ t.drained)
    (expected : p.receiver.state.expected ≤ t.expected)
    (more : p.receiver.state.drained < t.drained ∧ p.receiver.state.drained < chunks.length + 1 ∨
      p.receiver.state.expected < t.expected ∧ p.receiver.state.expected < chunks.length + 1) :
    Closer chunks p { p with receiver := d } := by
  refine Or.inr ⟨⟨⟨s,running⟩,t,unfailed⟩,?_⟩
  unfold remaining
  simp only [unfailed.state]
  omega

theorem Advances.send (running : p.sender = .running s) (attending : ∃ r, p.receiver.Unfailed r)
    {event : Transmit.Event} (admitted : Admitted hs hr chunks p (.send event)) {t : Sender}
    (taken : Transmit.turn hs 0 s event = some (.ret t)) (acked : s.acked ≤ t.acked) (sent : s.sent ≤ t.sent)
    (more : s.acked < t.acked ∧ s.acked < chunks.length + 1 ∨ s.sent < t.sent ∧ s.sent < chunks.length + 1) :
    Advances hs hr chunks p := by
  have step := Transmit.Step.turn 0 s event _ taken
  rw [← running] at step
  exact ⟨.send event,_,admitted,.send event _ step,.send running attending acked sent more⟩

theorem Advances.receive (running : p.sender = .running s) (waiting : p.receiver = .running r) {event : Event}
    (admitted : Admitted hs hr chunks p (.receive event)) {t : Receiver}
    (taken : next hr (.running r) event = some (.running t)) (drained : r.drained ≤ t.drained)
    (expected : r.expected ≤ t.expected)
    (more : r.drained < t.drained ∧ r.drained < chunks.length + 1 ∨ r.expected < t.expected ∧
      r.expected < chunks.length + 1) :
    Advances hs hr chunks p := by
  rw [← waiting] at taken
  have closer := @Closer.receive chunks p s running _ t (Or.inl rfl)
  rw [waiting] at closer
  exact ⟨.receive event,_,admitted,.receive event _ taken,closer drained expected more⟩

variable (smooth : Smooth hs hr) (joint : Joint hs hr capacity chunks p) (agreed : Agreed hs hr maxWindow chunks p)
  (running : p.sender = .running s)

include joint running

theorem acked_le : s.acked ≤ p.receiver.state.drained := by
  have acked := joint.acked
  rw [running] at acked
  exact acked

include agreed

include smooth

end Pair

section Ending

variable {hs hr : Host} {capacity maxWindow : UInt32} {chunks : List Chunk} {p : System} {s : Sender} {r : Receiver}

/-- With chunks of the file before it, the empty chunk never waits while the socket is read. -/
theorem unended_of_agreed (joint : Joint hs hr capacity chunks p) (agreed : Agreed hs hr maxWindow chunks p)
    (some : chunks ≠ []) (nonempty : ∀ bytes ∈ chunks, bytes.val ≠ []) (unfailed : p.sender.Unfailed s)
    (event : Event) :
    EndOfTransfer.Unended p.receiver event := by
  have first (r : Receiver) (waiting : p.receiver = .running r) (phase : r.phase = .receiving)
      (set : bit r.oosMask 0 = true) : EndOfTransfer.lastLength r ≠ 0 := by
    have consistent := joint.consistent
    have carrying := joint.carrying
    have beyond := Accord.expected_le joint.consistent (agreed.accepted s unfailed)
    rw [waiting] at consistent carrying beyond
    change r.expected ≤ s.sent at beyond
    have sound : Sound r := by simpa only [Consistent,phase] using consistent
    have ones := trailingOnes_shift set
    have front := sound.expected
    have quiet : p.receiver.state.replies = [] := by
      rw [waiting]
      exact (joint.waiting r waiting set).2
    have single : s.sent ≤ 1 := by
      rcases unfailed with running | returned
      · exact (joint.opening quiet s running).sent
      · have finished := joint.finished nonempty returned
        have steady := joint.steady
        have read := joint.read
        rw [returned] at steady read
        have short := List.IsPrefix.length_le read
        rw [feed,List.length_append,List.length_singleton] at short
        have sentRead := (steady rfl).1.sentRead
        rw [waiting] at finished
        change chunks.length < r.drained at finished
        change s.input.length ≤ chunks.length + 1 at short
        omega
    have none : r.drained = 0 := by omega
    have one : trailingOnes r.oosMask = 1 := by omega
    have positive := List.length_pos_iff.mpr some
    have held := carrying.held 0 set
    change content (r.recvBuf.get 0) = content (streamOf chunks (r.drained + 0)) at held
    rw [content_streamOf,none,List.getElem?_eq_getElem positive,Option.getD_some] at held
    intro empty
    rw [EndOfTransfer.lastLength,one] at empty
    change ((r.recvBuf.get 0).length.toNat : Int) = 0 at empty
    rw [content,Int.ofNat_eq_zero.mp empty] at held
    exact nonempty _ (List.getElem_mem positive) held.symm
  cases state : p.receiver with
  | returned code r => trivial
  | halted reason r => trivial
  | running r =>
    cases event with
    | failed => trivial
    | timeout => trivial
    | datagram input linked => trivial
    | ready socket file =>
      cases socket with
      | none => trivial
      | some input => exact fun phase set _ => first r state phase set

theorem reachable_poised (same : hr.crc32 = hs.crc32) (complete : ∀ n, hr.write n = .complete)
    (small : capacity.toNat ≤ 128) (least : 1 ≤ maxWindow.toNat) (most : maxWindow.toNat ≤ maxWindowSize)
    (some : chunks ≠ []) (nonempty : ∀ bytes ∈ chunks, bytes.val ≠ [])
    (reached : Reach (Network.Start hr capacity maxWindow) (Network.Step hs hr) (Admitted hs hr chunks) p)
    (unfailed : ∃ s, p.sender.Unfailed s) : EndOfTransfer.Poised p.receiver := by
  induction reached with
  | start p first => exact EndOfTransfer.start_poised first.2
  | step p action q before admitted taken ih =>
    obtain ⟨joint,agreed⟩ := reachable_agreed same complete small least most nonempty before
    obtain ⟨t,after⟩ := unfailed
    obtain ⟨s,unfailed⟩ := unfailed_before taken after
    cases taken with
    | send event c turned => exact ih ⟨s,unfailed⟩
    | receive event d turned =>
      exact EndOfTransfer.next_poised (fun n => Or.inl (complete n)) joint.consistent (ih ⟨s,unfailed⟩)
        (joint.timely same admitted) (unended_of_agreed joint agreed some nonempty unfailed event) turned

end Ending

end Trtp.Completion
