import Trtp.Acknowledgement
import Trtp.Window
import Trtp.WireFormat

/-! What the ACKs of a run promise: the expected number, and the numbers behind it
up to the right edge of the window. -/
namespace Trtp.Promise
open Lib.Circular Lib.Mask Lib.Reorder Lib.Run Packet Codec Process Net Receive ReceiveBuffer ReceiverRuns
open DataStream InOrder Acknowledgement Marking Window WireFormat

def windowField (data : List UInt8) : Nat := octet data 0 % 32

/-- The first number that is not in the window any more. -/
def rightEdge (r : Reply) : Nat := r.number + windowField r.datagram

def acks (replies : List Reply) : List Reply := replies.filter (fun r => r.type = ptypeAck)

/-- From one ACK to the next the value does not go back, and it has not passed the limit. -/
structure Advancing (value : Reply → Nat) (limit : Nat) (replies : List Reply) : Prop where
  sorted : (acks replies).Pairwise (fun a b => value a ≤ value b)
  below : ∀ a ∈ acks replies, value a ≤ limit

variable {h : Host} {value : Reply → Nat} {limit : Nat} {replies news : List Reply} {s t : Receiver}

theorem Advancing.silent (value : Reply → Nat) (limit : Nat) : Advancing value limit [] :=
  ⟨List.Pairwise.nil,by simp [acks]⟩

theorem Advancing.tell (advancing : Advancing value limit replies) {further : Nat} (forward : limit ≤ further)
    (told : ∀ r ∈ news, r.type = ptypeAck → value r = further) : Advancing value further (replies ++ news) := by
  have split : acks (replies ++ news) = acks replies ++ acks news := List.filter_append ..
  have named : ∀ r ∈ acks news, value r = further := by
    intro r member
    obtain ⟨member,ack⟩ := List.mem_filter.mp member
    exact told r member (of_decide_eq_true ack)
  have before : ∀ a ∈ acks replies, value a ≤ further := fun a member => Nat.le_trans (advancing.below a member) forward
  constructor
  · rw [split,List.pairwise_append]
    refine ⟨advancing.sorted,?_,?_⟩
    · refine List.Pairwise.imp_of_mem (R := fun _ _ => True) ?_ (List.pairwise_of_forall (fun _ _ => trivial))
      intro a b left right _
      rw [named a left,named b right]
    · intro a left b right
      rw [named b right]
      exact before a left
  · intro a member
    rw [split] at member
    rcases List.mem_append.mp member with earlier | last
    · exact before a earlier
    · exact Nat.le_of_eq (named a last)

theorem ack_of_news {r : Reply} (kind : r = ackReply h s ∨ s.needNack = true ∧ r = nackReply h s.nackSeq s)
    (ack : r.type = ptypeAck) :
    r = ackReply h s := by
  rcases kind with rfl | ⟨_,rfl⟩
  · rfl
  · have impossible : ptypeNack = ptypeAck := ack
    contradiction

theorem windowField_image (crc32 : List UInt8 → UInt32) (p : Pkt) : windowField (image crc32 p) = p.window.toNat := by
  have flags : octet (image crc32 p) 0 = p.window.toNat + 32 * p.tr.toNat + 64 * p.type.toNat := p.flags_toNat
  have window := p.window.isLt
  rw [windowField,flags]
  omega

theorem rightEdge_ackReply (sound : Sound s) : rightEdge (ackReply h s) = s.drained + s.maxWindow.toNat := by
  have datagram : (ackReply h s).datagram = image h.crc32 { Pkt.zero with
      type := ptypeAck, seq := s.expectedSeq, ts := s.lastTs, window := BitVec.ofNat 5 (Receive.windowSize s).toNat } :=
    replyPkt_datagram h ptypeAck s.expectedSeq s
  have left := sound.windowSize
  have ones := sound.ones_le
  have expected := sound.expected
  have most := sound.most
  unfold maxWindowSize at most
  rw [rightEdge,datagram,windowField_image]
  change s.expected + (BitVec.ofNat 5 (Receive.windowSize s).toNat).toNat = _
  rw [BitVec.toNat_ofNat]
  omega

theorem Ledger.enter_expected (l : Ledger) (k : Nat) (gap : UInt8) : l.expected ≤ (l.enter k gap).expected := by
  unfold Marking.Ledger.enter
  dsimp only
  split
  · exact Nat.le_refl _
  · exact Nat.le_add_right _ _

variable {maxWindow : UInt32} {c : Config Halt Receiver}

theorem reachable_numbers {allowed : Config Halt Receiver → Event → Prop}
    (reached : Reach (Start h maxWindow) (Step h) allowed c) :
    Advancing Reply.number c.state.expected c.state.replies := by
  have base (c : Config Halt Receiver) (first : Start h maxWindow c) :
      Advancing Reply.number c.state.expected c.state.replies := by
    obtain ⟨new,slot,buf,made,allocated,rfl⟩ := first
    exact .silent _ _
  refine reached.invariant base ?_
  intro c event d advancing _ taken
  obtain ⟨s,rfl,_⟩ := step_cases taken
  obtain ⟨l,m,entered,writes,told⟩ := (next_ledger taken).entered
  have forward : s.expected ≤ l.expected ∧ l.replies = s.replies := by
    rcases entered.cases with rfl | ⟨buf,place,entry⟩
    · exact ⟨Nat.le_refl _,rfl⟩
    · obtain ⟨k,gap,_,rfl⟩ := entry.enters
      exact ⟨Ledger.enter_expected (ledger s) k gap,Marking.Ledger.enter_replies (ledger s) k gap⟩
  have shifted := writes.shifted
  have expected : m.expected = l.expected := shifted.expected
  have replies : m.replies = s.replies := shifted.replies.trans forward.2
  have same : d.state.expected = m.expected := congrArg Ledger.expected told.ledger
  obtain ⟨news,replied,kinds⟩ := told.answered.news
  rw [replied,replies,same,expected]
  refine advancing.tell forward.1 ?_
  intro r member ack
  rw [ack_of_news (kinds r member) ack]
  exact expected

theorem reachable_edges (obliging : Obliging h) (least : 1 ≤ maxWindow.toNat) (most : maxWindow.toNat ≤ maxWindowSize)
    (reached : Reach (Start h maxWindow) (Step h) (Timely h) c) :
    Consistent c ∧ Advancing rightEdge (c.state.drained + c.state.maxWindow.toNat) c.state.replies := by
  have base (c : Config Halt Receiver) (first : Start h maxWindow c) :
      Consistent c ∧ Advancing rightEdge (c.state.drained + c.state.maxWindow.toNat) c.state.replies := by
    obtain ⟨new,slot,buf,made,allocated,rfl⟩ := first
    exact ⟨start_waiting least most made allocated,.silent _ _⟩
  refine reached.invariant base ?_
  rintro c event d ⟨inv,advancing⟩ timely taken
  obtain ⟨after,evolved⟩ := next_evolved obliging inv timely taken
  refine ⟨after,?_⟩
  rcases evolved.summary with ⟨_,fresh⟩ | ⟨base,m,began,sound,moves,answered⟩
  · rw [fresh.replies]
    exact .silent _ _
  · have started : Advancing rightEdge (base.drained + base.maxWindow.toNat) base.replies := by
      rcases began with rfl | ⟨_,fresh⟩
      · exact advancing
      · rw [fresh.replies]
        exact .silent _ _
    have forward := moves_drained sound moves
    have window := Moves.maxWindow moves
    have drained := congrArg Receiver.drained answered.same
    have kept := congrArg Receiver.maxWindow answered.same
    change d.state.drained = m.drained at drained
    change d.state.maxWindow = m.maxWindow at kept
    obtain ⟨news,replied,kinds⟩ := answered.news
    rw [replied,moves_replies moves,drained,kept]
    refine started.tell (by rw [window]; omega) ?_
    intro r member ack
    rw [ack_of_news (kinds r member) ack]
    exact rightEdge_ackReply (Moves.sound moves sound)

/-- The number in an ACK never goes back, whatever arrives and however the writes end.
Nor does the right edge of the window, as long as no packet is let through while
in-sequence data waits: what one ACK has promised, later ones do not take back. -/
theorem receive_advances (h : Host) (maxWindow : UInt32) (least : 1 ≤ maxWindow.toNat)
    (most : maxWindow.toNat ≤ maxWindowSize) (c : Config Halt Receiver) :
    (Reach (Start h maxWindow) (Step h) (fun _ _ => True) c →
      Advancing Reply.number c.state.expected c.state.replies) ∧
    (Obliging h → Reach (Start h maxWindow) (Step h) (Timely h) c →
      Advancing rightEdge (c.state.drained + maxWindow.toNat) c.state.replies) := by
  refine ⟨reachable_numbers,?_⟩
  intro obliging reached
  have fixed := (reachable_limited least reached).bounded.fixed
  have edges := (reachable_edges obliging least most reached).2
  rwa [fixed] at edges

theorem receive_advances_gap : ∃ s : Receiver,
    s.replies.map (fun r => (r.number,rightEdge r)) = [(1,31),(1,32),(3,32),(3,34)] ∧
    Advancing Reply.number s.expected s.replies ∧ Advancing rightEdge (s.drained + 31) s.replies := by
  have runs : runningWith (fun s => s.replies.map (fun r => (r.number,rightEdge r)) == [(1,31),(1,32),(3,32),(3,34)])
      ([some 0,none,none,some 2,some 1,none,none,some 4].foldlM (tendChunk balkingHost countingStream)
        (firstWait 31)) = true := by decide +kernel
  obtain ⟨s,played,promised⟩ := exists_of_runningWith runs
  have reached {allowed : Config Halt Receiver → Event → Prop} (wide : ∀ c event, Timely balkingHost c event →
      allowed c event) : Reach (Start balkingHost 31) (Step balkingHost) allowed (.running s) := by
    refine Reach.play (fun _ _ _ tended => ?_) (.start _ (firstWait_start balkingHost 31)) _ played
    obtain ⟨event,_,⟨_,timely⟩,taken⟩ := tendChunk_admitted tended
    exact ⟨event,wide _ _ timely,taken⟩
  obtain ⟨numbers,edges⟩ := receive_advances balkingHost 31 (by decide) (by decide) (.running s)
  exact ⟨s,beq_iff_eq.mp promised,numbers (reached fun _ _ _ => trivial),
    edges balkingHost_obliging (reached fun _ _ timely => timely)⟩

end Trtp.Promise
