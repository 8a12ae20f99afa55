import Trtp.DataStream

/-! In-order delivery: what the receiver writes is the beginning of the stream. -/
namespace Trtp.InOrder
open Lib.Circular Lib.Mask Lib.Run Lib.Serial Packet Codec Process Buffer Net Receive
open ReceiveBuffer ReceiverRuns DataStream

/-- A marked place holds the chunk it is marked for, and what was written are the
chunks before the front of the buffer. -/
structure Carrying (payload : Nat → List UInt8) (s : Receiver) : Prop where
  held : ∀ i, bit s.oosMask i = true → content (s.recvBuf.get i) = payload (s.drained + i)
  written : s.output = (List.range s.drained).flatMap payload

variable {h : Host} {payload : Nat → List UInt8} {source : Nat → Pkt → Prop} {s t : Receiver}

theorem Carrying.fresh (fresh : Fresh s) : Carrying payload s where
  held i set := by
    rw [fresh.oosMask,bit_zero] at set
    contradiction
  written := by
    rw [fresh.output,fresh.drained]
    rfl

theorem Carrying.frame (carrying : Carrying payload s) (same : Receiver.core t = Receiver.core s) :
    Carrying payload t := by
  have base : Carrying payload (Receiver.core s) := ⟨carrying.held,carrying.written⟩
  rw [← same] at base
  exact ⟨base.held,base.written⟩

theorem Carrying.answered (carrying : Carrying payload s) (answered : Answered h s t) : Carrying payload t := by
  have kept := carrying.frame answered.same
  exact ⟨kept.held,kept.written⟩

theorem Carrying.move (carrying : Carrying payload s) (sound : Sound s)
    (faithful : ∀ n pkt, source n pkt → pkt.tr = false → content pkt = payload n) (move : Move source s t) :
    Carrying payload t := by
  cases move with
  | idle _ same => exact carrying.frame same
  | reserved buf kept =>
    refine ⟨?_,carrying.written⟩
    intro i set
    exact (congrArg content (kept.kept i set)).trans (carrying.held i set)
  | stored pkt gap clear inside near room read whole number =>
    have most := sound.most
    have fits := sound.aligned.fits
    unfold maxWindowSize at most
    refine ⟨?_,carrying.written⟩
    intro i set
    change bit (setBit s.oosMask gap) i = true at set
    rw [bit_setBit s.oosMask (by omega)] at set
    by_cases same : i = gap
    · subst same
      have own : (Receiver.storing s pkt i).recvBuf.get i = pkt := s.recvBuf.get_put pkt i
      rw [own,faithful _ pkt read whole,sound.expected_eq_drained clear]
      rfl
    · have marked : bit s.oosMask i = true := by simpa [same] using set
      have bound := sound.filled i marked
      have other : (Receiver.storing s pkt gap).recvBuf.get i = s.recvBuf.get i :=
        s.recvBuf.get_put_other pkt (by omega) (by omega) same
      rw [other]
      exact carrying.held i marked
  | drained set =>
    constructor
    · intro i marked
      change bit (s.oosMask >>> 1) i = true at marked
      rw [bit_shift] at marked
      change content (s.recvBuf.pop.get i) = payload (s.drained + 1 + i)
      rw [s.recvBuf.get_pop,carrying.held (i + 1) marked]
      congr 1
      omega
    · have front := carrying.held 0 set
      change s.output ++ content (s.recvBuf.get 0) = (List.range (s.drained + 1)).flatMap payload
      rw [front,carrying.written,List.range_succ,List.flatMap_append]
      simp

theorem Carrying.moves (carrying : Carrying payload s) (sound : Sound s)
    (faithful : ∀ n pkt, source n pkt → pkt.tr = false → content pkt = payload n) (moves : Moves source s t) :
    Carrying payload t := by
  have both : Sound t ∧ Carrying payload t := by
    induction moves with
    | refl => exact ⟨sound,carrying⟩
    | tail _ move ih => exact ⟨move.sound ih.1,ih.2.move ih.1 faithful move⟩
  exact both.2

theorem arrived_content {stream : Nat → Pkt} (isStream : IsStream stream) {c : Config Halt Receiver} {event : Event}
    (delivered : Delivered h stream c event) {base : Receiver} (sound : Sound base)
    (same : base.expected = c.state.expected) (n : Nat) (pkt : Pkt) (arrived : Arrived h (socket event) base n pkt)
    (whole : pkt.tr = false) :
    content pkt = content (stream n) ∧ socket event = some (.datagram (image h.crc32 (stream n))) := by
  have brought (data : Recv) (read : socket event = some data) : Brought h stream base.expected data := by
    rw [same]
    exact delivered data read
  obtain ⟨agrees,input⟩ := arrived_stream isStream sound.most brought arrived whole
  exact ⟨content_agrees agrees,input⟩

theorem reachable_carrying (obliging : Obliging h) {maxWindow : UInt32} (least : 1 ≤ maxWindow.toNat)
    (most : maxWindow.toNat ≤ maxWindowSize) {stream : Nat → Pkt} (isStream : IsStream stream)
    {c : Config Halt Receiver}
    (reached : Reach (Start h maxWindow) (Step h) (fun c event => Delivered h stream c event ∧ Timely h c event) c) :
    Carrying (fun i => content (stream i)) c.state := by
  refine reachable_rule obliging least most (fun _ _ both => both.2) (fun _ fresh => .fresh fresh) ?_
    (fun _ _ before replies => before.answered replies) reached
  intro c event admitted base sound same s t here before move
  exact before.move here
    (fun n pkt arrived whole => (arrived_content isStream admitted.1 sound same n pkt arrived whole).1) move

/-- In a run in which no untruncated DATA packet is let through while in-sequence data
waits, the bytes written are the payloads of the first chunks of the stream. -/
theorem receive_inOrder (h : Host) (obliging : Obliging h) (maxWindow : UInt32) (least : 1 ≤ maxWindow.toNat)
    (most : maxWindow.toNat ≤ maxWindowSize) (stream : Nat → Pkt) (isStream : IsStream stream)
    (c : Config Halt Receiver)
    (reached : Reach (Start h maxWindow) (Step h) (fun c event => Delivered h stream c event ∧ Timely h c event) c) :
    ∃ k, c.state.output = (List.range k).flatMap (fun i => content (stream i)) :=
  ⟨c.state.drained,(reachable_carrying obliging least most isStream reached).written⟩

/-- Chunk 2 comes twice and before chunk 1, chunk 4 before chunk 3, and every second write
would block: five bytes are written, in order, with ten writes. -/
theorem receive_inOrder_balking : ∃ s : Receiver, s.output = [0,1,2,3,4] ∧ s.accepted = [0,2,2,1,4,3] ∧
    s.fileWrites = 10 ∧ ∃ k, s.output = (List.range k).flatMap (fun i => content (countingStream i)) := by
  have runs : runningWith (fun s => (s.output == [0,1,2,3,4] && s.accepted == [0,2,2,1,4,3]) && s.fileWrites == 10)
      ([some 0,none,none,some 2,some 2,some 1,none,none,some 4,some 3,none,none].foldlM
        (tendChunk balkingHost countingStream) (firstWait 31)) = true := by decide +kernel
  obtain ⟨s,played,passed⟩ := exists_of_runningWith runs
  obtain ⟨both,writes⟩ := (Bool.and_eq_true _ _).mp passed
  obtain ⟨output,accepted⟩ := (Bool.and_eq_true _ _).mp both
  exact ⟨s,beq_iff_eq.mp output,beq_iff_eq.mp accepted,beq_iff_eq.mp writes,receive_inOrder balkingHost
    balkingHost_obliging 31 (by decide) (by decide) countingStream countingStream_isStream (.running s)
    (tendChunk_play _ played)⟩

/-- Chunk 2 is read before chunk 0 is written, and takes the place of chunk 1. -/
theorem receive_disordered : ¬ ∀ (h : Host) (maxWindow : UInt32) (stream : Nat → Pkt) (c : Config Halt Receiver),
    Obliging h → 1 ≤ maxWindow.toNat → maxWindow.toNat ≤ maxWindowSize → IsStream stream →
    Reach (Start h maxWindow) (Step h) (fun c event => Delivered h stream c event) c →
    ∃ k, c.state.output = (List.range k).flatMap (fun i => content (stream i)) := by
  intro claim
  have wrong : runningWith (fun s => s.output == [0,2])
      ([0,2].foldlM (bring steadyHost countingStream) (firstWait 31)) = true := by decide +kernel
  obtain ⟨s,played,output⟩ := exists_of_runningWith wrong
  obtain ⟨k,correct⟩ := claim steadyHost 31 countingStream (.running s) (fun _ => Or.inl rfl) (by decide) (by decide)
    countingStream_isStream (bring_play _ (fun _ _ _ brought => bring_delivered brought) played)
  have written : s.output = [0,2] := by simpa using output
  have single : (fun i => content (countingStream i)) = fun i => [serial i] := rfl
  change s.output = _ at correct
  rw [written,single,← List.map_eq_flatMap] at correct
  have two : k = 2 := by simpa using (congrArg List.length correct).symm
  subst two
  revert correct
  decide

end Trtp.InOrder
