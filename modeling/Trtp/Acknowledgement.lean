import Trtp.InOrder

/-! Cumulative acknowledgements: the number in an ACK is the first one that the
receiver has not accepted. -/
namespace Trtp.Acknowledgement
open Lib.Circular Lib.Mask Lib.Reorder Lib.Run Lib.Serial Packet Codec Process Buffer Net Receive ReceiveBuffer
open ReceiverRuns DataStream InOrder

def Stored (stream : Nat → Pkt) (s : Receiver) (n : Nat) : Prop :=
  n < s.drained ∨ bit s.oosMask (n - s.drained) = true ∧ content (s.recvBuf.get (n - s.drained)) = content (stream n)

structure Honest (h : Host) (stream : Nat → Pkt) (s : Receiver) (r : Reply) : Prop where
  least : IsLeast {n | n ∉ s.accepted} r.number
  stored : ∀ n < r.number, Stored stream s n
  datagram : ∃ ts window, r.datagram =
    image h.crc32 { Pkt.zero with type := ptypeAck, seq := serial r.number, ts := ts, window := window }

variable {h : Host} {stream : Nat → Pkt} {source : Nat → Pkt → Prop} {s t : Receiver}

theorem moves_accepted (moves : Moves source s t) :
    ∃ more, t.accepted = s.accepted ++ more ∧ ∀ n ∈ more, ∃ pkt, source n pkt ∧ pkt.tr = false := by
  induction moves with
  | refl => exact ⟨[],(List.append_nil _).symm,by simp⟩
  | @tail m t _ move ih =>
    obtain ⟨more,appended,all⟩ := ih
    cases move with
    | idle _ same =>
      have accepted := congrArg Receiver.accepted same
      exact ⟨more,accepted.trans appended,all⟩
    | reserved buf kept => exact ⟨more,appended,all⟩
    | stored pkt gap clear inside near room read whole number =>
      refine ⟨more ++ [m.expected + gap],?_,?_⟩
      · change m.accepted ++ [m.expected + gap] = _
        rw [appended,List.append_assoc]
      · intro n member
        rcases List.mem_append.mp member with before | last
        · exact all n before
        · rw [List.mem_singleton.mp last]
          exact ⟨pkt,read,whole⟩
    | drained set => exact ⟨more,appended,all⟩

theorem moves_drained (sound : Sound s) (moves : Moves source s t) : s.drained ≤ t.drained :=
  (Reassembly.steps_mono (Moves.refines moves sound)).2

theorem moves_expected (sound : Sound s) (moves : Moves source s t) : s.expected ≤ t.expected := by
  obtain ⟨more,appended,_⟩ := moves_accepted moves
  refine sound.isLeast.2 (fun member => (Moves.sound moves sound).isLeast.1 ?_)
  rw [appended]
  exact List.mem_append_left more member

theorem ackReply_honest (sound : Sound s) (carrying : Carrying (fun i => content (stream i)) s) :
    Honest h stream s (ackReply h s) where
  least := sound.isLeast
  stored n before := by
    have accepted : n ∈ (view s).accepted := by
      by_contra missing
      have least := sound.missing.2 missing
      change n < s.expected at before
      omega
    rcases accepted with passed | set
    · exact Or.inl passed
    · rcases Nat.lt_or_ge n s.drained with passed | after
      · exact Or.inl passed
      · have held := carrying.held _ set
        rw [Nat.add_sub_cancel' after] at held
        exact Or.inr ⟨set,held⟩
  datagram := by
    refine ⟨s.lastTs,BitVec.ofNat 5 (windowSize s).toNat,?_⟩
    change (replyPkt h ptypeAck s.expectedSeq s).datagram = _
    rw [replyPkt_datagram,sound.expectedSeq]
    rfl

theorem Honest.answered {r : Reply} (honest : Honest h stream s r) (answered : Answered h s t) :
    Honest h stream t r := by
  have accepted := congrArg Receiver.accepted answered.same
  have drained := congrArg Receiver.drained answered.same
  have mask := congrArg Receiver.oosMask answered.same
  have buffer := congrArg Receiver.recvBuf answered.same
  change t.accepted = s.accepted at accepted
  change t.drained = s.drained at drained
  change t.oosMask = s.oosMask at mask
  change t.recvBuf = s.recvBuf at buffer
  refine ⟨by rw [accepted]; exact honest.least,?_,honest.datagram⟩
  intro n before
  rw [Stored,drained,mask,buffer]
  exact honest.stored n before

theorem moves_replies (moves : Moves source s t) : t.replies = s.replies := by
  induction moves with
  | refl => rfl
  | tail _ move ih =>
    cases move with
    | idle _ same =>
      have replies := congrArg Receiver.replies same
      exact replies.trans ih
    | reserved buf kept => exact ih
    | stored pkt gap clear inside near room read whole number => exact ih
    | drained set => exact ih

/-- In every step of a run in which no untruncated DATA packet is let through while
in-sequence data waits, each chunk that is accepted is the one that was read, and
each ACK carries the number of the first chunk that is not yet accepted. -/
theorem receive_acknowledges (h : Host) (obliging : Obliging h) (maxWindow : UInt32) (least : 1 ≤ maxWindow.toNat)
    (most : maxWindow.toNat ≤ maxWindowSize) (stream : Nat → Pkt) (isStream : IsStream stream)
    (c : Config Halt Receiver)
    (reached : Reach (Start h maxWindow) (Step h) (fun c event => Delivered h stream c event ∧ Timely h c event) c)
    (event : Event) (delivered : Delivered h stream c event) (timely : Timely h c event)
    (d : Config Halt Receiver) (taken : Step h c event d) :
    (∃ more, d.state.accepted = c.state.accepted ++ more ∧
      ∀ n ∈ more, socket event = some (.datagram (image h.crc32 (stream n)))) ∧
    ∃ news, d.state.replies = c.state.replies ++ news ∧
      ∀ r ∈ news, r.type = ptypeAck → Honest h stream d.state r := by
  have inv := reachable_consistent obliging least most (fun _ _ both => both.2) reached
  have carrying := reachable_carrying obliging least most isStream reached
  rcases (next_evolved obliging inv timely taken).2.summary with ⟨before,after⟩ | ⟨base,m,began,sound,moves,answered⟩
  · refine ⟨⟨[],?_,by simp⟩,[],?_,by simp⟩
    · rw [before.accepted,after.accepted]
      rfl
    · rw [before.replies,after.replies]
      rfl
  · obtain ⟨same,accepted,replies⟩ := Fresh.agree began
    obtain ⟨more,appended,all⟩ := moves_accepted moves
    obtain ⟨news,replied,kinds⟩ := answered.news
    have started : Carrying (fun i => content (stream i)) base := by
      rcases began with rfl | ⟨_,empty⟩
      · exact carrying
      · exact .fresh empty
    have held := started.moves sound
      (fun n pkt arrived whole => (arrived_content isStream delivered sound same n pkt arrived whole).1) moves
    refine ⟨⟨more,?_,?_⟩,news,?_,?_⟩
    · have unchanged := congrArg Receiver.accepted answered.same
      change d.state.accepted = m.accepted at unchanged
      rw [unchanged,appended,accepted]
    · intro n member
      obtain ⟨pkt,arrived,whole⟩ := all n member
      exact (arrived_content isStream delivered sound same n pkt arrived whole).2
    · rw [replied,moves_replies moves,replies]
    · intro r member ack
      rcases kinds r member with rfl | ⟨_,rfl⟩
      · exact (ackReply_honest (Moves.sound moves sound) held).answered answered
      · have impossible : ptypeNack = ptypeAck := ack
        contradiction

/-- Chunks 0, 2 and 1 have been accepted and written when chunk 4 arrives: the ACK that
follows names chunk 3. -/
theorem receive_acknowledges_gap : ∃ (s t : Receiver) (event : Event) (r : Reply),
    socket event = some (chunk balkingHost countingStream 4) ∧ Step balkingHost (.running s) event (.running t) ∧
    t.accepted = [0,2,1,4] ∧ t.replies = s.replies ++ [r] ∧ r.type = ptypeAck ∧ r.number = 3 ∧
    Honest balkingHost countingStream t r := by
  have runs : runningWith (fun s => runningWith (fun t => answers s t == [(ptypeAck,3)] && t.accepted == [0,2,1,4])
        (tendChunk balkingHost countingStream (.running s) (some 4)))
      ([some 0,none,none,some 2,some 1,none,none].foldlM (tendChunk balkingHost countingStream) (firstWait 31)) =
      true := by decide +kernel
  obtain ⟨s,played,rest⟩ := exists_of_runningWith runs
  obtain ⟨t,last,passed⟩ := exists_of_runningWith rest
  obtain ⟨told,accepted⟩ := (Bool.and_eq_true _ _).mp passed
  obtain ⟨event,read,⟨delivered,timely⟩,taken⟩ := tendChunk_admitted last
  obtain ⟨_,news,appended,all⟩ := receive_acknowledges balkingHost balkingHost_obliging 31 (by decide) (by decide)
    countingStream countingStream_isStream (.running s) (tendChunk_play _ played) event delivered timely
      (.running t) taken
  obtain ⟨r,rfl,ack,number⟩ := answers_single appended (beq_iff_eq.mp told)
  exact ⟨s,t,event,r,read,taken,beq_iff_eq.mp accepted,appended,ack,number,all r (List.mem_singleton_self r) ack⟩

def blockedHost : Host := { steadyHost with write := fun _ => .again }

/-- Three chunks in order while the output blocks: the last ACK names chunk 4. -/
theorem receive_skips : ¬ ∀ (h : Host) (maxWindow : UInt32) (stream : Nat → Pkt) (c : Config Halt Receiver)
    (event : Event) (d : Config Halt Receiver), Obliging h → 1 ≤ maxWindow.toNat →
    maxWindow.toNat ≤ maxWindowSize → IsStream stream →
    Reach (Start h maxWindow) (Step h) (fun c event => Delivered h stream c event) c →
    Delivered h stream c event → Step h c event d →
    ∃ news, d.state.replies = c.state.replies ++ news ∧
      ∀ r ∈ news, r.type = ptypeAck → IsLeast {n | n ∉ d.state.accepted} r.number := by
  intro claim
  have wrong : runningWith (fun s => runningWith (fun t => answers s t == [(ptypeAck,4)] && t.accepted == [0,1,2])
        (bring blockedHost countingStream (.running s) 2))
      ([0,1].foldlM (bring blockedHost countingStream) (firstWait 31)) = true := by decide +kernel
  obtain ⟨s,played,rest⟩ := exists_of_runningWith wrong
  obtain ⟨t,last,passed⟩ := exists_of_runningWith rest
  obtain ⟨event,delivered,taken⟩ := bring_delivered last
  have reached : Reach (Start blockedHost 31) (Step blockedHost) (fun c event =>
      Delivered blockedHost countingStream c event) (.running s) :=
    bring_play _ (fun _ _ _ brought => bring_delivered brought) played
  obtain ⟨news,appended,all⟩ := claim blockedHost 31 countingStream (.running s) event (.running t)
    (fun _ => Or.inr rfl) (by decide) (by decide) countingStream_isStream reached delivered taken
  change t.replies = s.replies ++ news at appended
  obtain ⟨told,accepted⟩ := (Bool.and_eq_true _ _).mp passed
  obtain ⟨r,rfl,ack,four⟩ := answers_single appended (beq_iff_eq.mp told)
  have least := all r (List.mem_singleton_self r) ack
  have list : t.accepted = [0,1,2] := beq_iff_eq.mp accepted
  have skipped : r.number ≤ 3 := least.2 (by
    change 3 ∉ t.accepted
    rw [list]
    decide)
  omega

end Trtp.Acknowledgement
