import Trtp.DataStream

/-! The receive buffer under arbitrary datagrams.
A packet that is stored while in-sequence data waits is marked one place too low,
and from then on the mask, the ring and the expected number disagree. Without
that no datagram stops the receiver or fills its buffer beyond the last place. -/
namespace Trtp.Overflow
open Lib.Circular Lib.Mask Lib.Run Lib.Serial Packet Codec Process Buffer Net Receive
open ReceiveBuffer ReceiverRuns DataStream

def DataOnly (h : Host) (event : Event) : Prop :=
  ∀ input, socket event = some input → ∃ p, Encodable p ∧ p.type = ptypeData ∧ p.tr = false ∧
    (input = .datagram (image h.crc32 p) ∨ input = .datagram (truncate (image h.crc32 p)))

/-- No assertion has failed, no shift was too long, no NULL pointer was followed;
the buffer holds no more than its places, and something whenever it is to be emptied. -/
structure Safe (c : Config Halt Receiver) : Prop where
  alive : ∀ reason s, c ≠ .halted reason s
  fits : pktbufUsed c.state.recvBuf ≤ recvCapacity
  filled : c.state.oosMask &&& 1 = 1 → pktbufEmpty c.state.recvBuf = false

theorem Safe.of_sound {c : Config Halt Receiver} (sound : Sound c.state) (alive : ∀ reason s, c ≠ .halted reason s) :
    Safe c where
  alive := alive
  fits := by
    have fits := sound.aligned.fits
    rw [sound.capacity] at fits
    exact UInt32.le_iff_toNat_le.mpr fits
  filled set := pktbufEmpty_false (sound.filled 0 ((and_one_iff _).mp set))

theorem Safe.of_waiting {c : Config Halt Receiver} {slot : UInt32} (waiting : Waiting c.state slot)
    (alive : ∀ reason s, c ≠ .halted reason s) : Safe c where
  alive := alive
  fits := by
    have sound := waiting.filled Pkt.zero rfl
    have fits := sound.aligned.fits
    rw [sound.capacity] at fits
    exact UInt32.le_iff_toNat_le.mpr fits
  filled set := by
    rw [waiting.fresh.oosMask] at set
    contradiction

theorem Safe.of_consistent {c : Config Halt Receiver} (inv : Consistent c) : Safe c := by
  cases c with
  | halted reason s => exact inv.elim
  | returned code s =>
    rcases inv with sound | ⟨slot,waiting⟩
    · exact .of_sound sound (by simp)
    · exact .of_waiting waiting (by simp)
  | running s =>
    cases phase : s.phase with
    | connecting retry slot =>
      have waiting : Waiting s slot := by simpa only [Consistent,phase] using inv
      exact .of_waiting waiting (by simp)
    | receiving =>
      have sound : Sound s := by simpa only [Consistent,phase] using inv
      exact .of_sound sound (by simp)
    | lingering retry =>
      have sound : Sound s := by simpa only [Consistent,phase] using inv
      exact .of_sound sound (by simp)

/-- Whatever the datagrams are, the receiver is safe as long as no untruncated DATA
packet is let through while in-sequence data waits in the buffer. -/
theorem receive_safe (h : Host) (obliging : Obliging h) (maxWindow : UInt32) (least : 1 ≤ maxWindow.toNat)
    (most : maxWindow.toNat ≤ maxWindowSize) (c : Config Halt Receiver)
    (reached : Reach (Start h maxWindow) (Step h) (Timely h) c) : Safe c :=
  .of_consistent (reachable_consistent obliging least most (fun _ _ timely => timely) reached)

theorem steadyHost_obliging : Obliging steadyHost := fun _ => Or.inl rfl

/-- Behind the missing chunk 1 lie chunks 2 and 4; an ACK, a datagram that cannot be
decoded and the truncated chunk 3 have arrived as well. -/
theorem receive_safe_gap : ∃ s : Receiver, s.oosMask = 10 ∧ s.accepted = [0,2,4] ∧ pktbufUsed s.recvBuf = 4 ∧
    Safe (.running s) := by
  let ack : Recv := .datagram (image steadyHost.crc32 { Pkt.zero with type := ptypeAck, seq := 1 })
  let cut : Recv := .datagram (truncate (image steadyHost.crc32 (countingStream 3)))
  let whole := chunk steadyHost countingStream
  have runs : runningWith (fun s => (s.oosMask == 10 && s.accepted == [0,2,4]) && pktbufUsed s.recvBuf == 4)
      ([some (whole 0),none,some (whole 2),some ack,some (.datagram [1,2,3]),some cut,some (whole 4)].foldlM
        (tend steadyHost) (firstWait 31)) = true := by decide +kernel
  obtain ⟨s,played,passed⟩ := exists_of_runningWith runs
  obtain ⟨both,used⟩ := (Bool.and_eq_true _ _).mp passed
  obtain ⟨mask,accepted⟩ := (Bool.and_eq_true _ _).mp both
  exact ⟨s,beq_iff_eq.mp mask,beq_iff_eq.mp accepted,beq_iff_eq.mp used,receive_safe steadyHost steadyHost_obliging 31
    (by decide) (by decide) (.running s) (tend_play _ played)⟩

def releaseHost : Host := { steadyHost with debug := false }

theorem bring_dataOnly (h : Host) {c d : Config Halt Receiver} {i : Nat}
    (brought : bring h countingStream c i = some d) :
    ∃ event, DataOnly h event ∧ Step h c event d := by
  obtain ⟨event,read,_,taken⟩ := bring_step brought
  refine ⟨event,?_,taken⟩
  intro input found
  obtain rfl := Option.some.inj (read.symm.trans found)
  exact ⟨countingStream i,countingStream_isStream.valid i,rfl,rfl,Or.inl rfl⟩

/-- Chunk 0 opens the connection, chunk 2 is read before chunk 0 is written, and then
chunk 1 fails the assertion of pktbuf_slotfor_seq, also in a release build. -/
theorem receive_unsafe : ¬ ∀ (h : Host) (maxWindow : UInt32) (c : Config Halt Receiver), Obliging h →
    1 ≤ maxWindow.toNat → maxWindow.toNat ≤ maxWindowSize →
    Reach (Start h maxWindow) (Step h) (fun _ event => DataOnly h event) c → Safe c := by
  intro claim
  have dies : stopped ([0,2,1].foldlM (bring releaseHost countingStream) (firstWait 31)) = true := by decide +kernel
  obtain ⟨reason,s,played⟩ := exists_of_stopped dies
  have reached : Reach (Start releaseHost 31) (Step releaseHost) (fun _ event => DataOnly releaseHost event)
      (.halted reason s) :=
    bring_play _ (fun _ _ _ brought => bring_dataOnly releaseHost brought) played
  exact (claim releaseHost 31 _ (fun _ => Or.inl rfl) (by decide) (by decide) reached).alive reason s rfl

end Trtp.Overflow
