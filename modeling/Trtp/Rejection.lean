import Trtp.DataStream
import Trtp.Marking

/-! Rejected datagrams. Each is received into a live place of the ring before it is
checked; that place is never one that holds data, and gets its number back. -/
namespace Trtp.Rejection
open Lib.Circular Lib.Mask Lib.Run Lib.Serial Packet Process Buffer Net Receive ReceiveBuffer Marking DataStream

/-- The live places are numbered consecutively, the marked ones hold data, a mark
is still free, and the expected number follows the run of ones. -/
structure WellFormed (s : Receiver) : Prop where
  capacity : s.recvBuf.capacity = recvCapacity
  fits : s.recvBuf.size ≤ recvCapacity.toNat
  consecutive : ∀ i < s.recvBuf.size, (s.recvBuf.get i).seq = (s.recvBuf.get 0).seq + UInt8.ofNat i
  held : ∀ i, bit s.oosMask i = true →
    i < s.recvBuf.size ∧ (s.recvBuf.get i).type = ptypeData ∧ (s.recvBuf.get i).tr = false
  few : popcount s.oosMask < s.maxWindow.toNat
  most : s.maxWindow.toNat ≤ maxWindowSize
  expected : s.recvBuf.size ≠ 0 → s.expectedSeq = (s.recvBuf.get 0).seq + UInt8.ofNat (trailingOnes s.oosMask)

/-- What arrives is not accepted: it cannot be received or decoded, lies out of the
window or has another type, or else it is truncated. -/
def Refused (h : Host) (input : Recv) (s : Receiver) : Prop :=
  ∀ place buf pkt, LetThrough h input s place buf pkt → pkt.tr = true

/-- The mask, the expected number and all marked packets in their places are left alone. -/
structure Intact (s t : Receiver) : Prop where
  oosMask : t.oosMask = s.oosMask
  expectedSeq : t.expectedSeq = s.expectedSeq
  places : ∀ i, t.recvBuf.slot i = s.recvBuf.slot i
  packets : ∀ i, bit s.oosMask i = true → t.recvBuf.get i = s.recvBuf.get i

variable {h : Host} {s : Receiver}

theorem WellFormed.aligned (well : WellFormed s) :
    ∃ base, Aligned s.recvBuf base ∧ s.expectedSeq = serial (base + trailingOnes s.oosMask) := by
  have fits : s.recvBuf.size ≤ s.recvBuf.capacity.toNat := by
    rw [well.capacity]
    exact well.fits
  by_cases empty : s.recvBuf.size = 0
  · have ones : trailingOnes s.oosMask = 0 := by
      apply trailingOnes_eq_zero
      by_contra set
      have live := (well.held 0 (by simpa using set)).1
      omega
    refine ⟨s.expectedSeq.toNat,⟨fits,by omega⟩,?_⟩
    rw [ones]
    simp [serial]
  · refine ⟨(s.recvBuf.get 0).seq.toNat,Consecutive.aligned well.consecutive fits,?_⟩
    rw [well.expected empty,← serial_seq (s.recvBuf.get 0).seq]
    simp [serial]

theorem WellFormed.holding (well : WellFormed s) {base : Nat} {buf : Pktbuf}
    (capacity : buf.capacity = s.recvBuf.capacity) (aligned : Aligned buf base)
    (expected : s.expectedSeq = serial (base + trailingOnes s.oosMask)) (grown : s.recvBuf.size ≤ buf.size)
    (kept : ∀ i, bit s.oosMask i = true → buf.get i = s.recvBuf.get i) :
    WellFormed (Receiver.holding s buf) where
  capacity := capacity.trans well.capacity
  fits := by
    have fits := aligned.fits
    rwa [capacity,well.capacity] at fits
  consecutive := aligned.consecutive
  held i set := by
    obtain ⟨inside,type,whole⟩ := well.held i set
    have same : (Receiver.holding s buf).recvBuf.get i = s.recvBuf.get i := kept i set
    rw [same]
    exact ⟨Nat.lt_of_lt_of_le inside grown,type,whole⟩
  few := well.few
  most := well.most
  expected live := by
    change s.expectedSeq = (buf.get 0).seq + UInt8.ofNat (trailingOnes s.oosMask)
    rw [expected,aligned.seq 0 (Nat.pos_of_ne_zero live)]
    simp [serial]

/-- The place of the expected packet is found, or allocated behind the last packet,
and whatever is received there can be undone by giving it its number back. -/
theorem WellFormed.restored (well : WellFormed s) : ∃ place buf,
    pktbufSlotforSeq h s.recvBuf s.expectedSeq = .ok (place,buf) ∧ ∀ pkt : Pkt,
      WellFormed (Receiver.holding s (buf.put place { pkt with seq := s.expectedSeq })) ∧
      Intact s (Receiver.holding s (buf.put place { pkt with seq := s.expectedSeq })) := by
  obtain ⟨base,aligned,expected⟩ := well.aligned
  have ones := trailingOnes_le_popcount s.oosMask
  have few := well.few
  have most := well.most
  unfold maxWindowSize at most
  have capacity : s.recvBuf.capacity.toNat = 32 := by
    rw [well.capacity]
    rfl
  have start : s.recvBuf.size = 0 → trailingOnes s.oosMask = 0 := by
    intro empty
    apply trailingOnes_eq_zero
    by_contra set
    have live := (well.held 0 (by simpa using set)).1
    omega
  obtain ⟨more,found,extended,still,size,_⟩ :=
    slotforSeq_reserve h aligned (k := trailingOnes s.oosMask) (by omega) (by omega) start
  refine ⟨_,more,by rw [expected]; exact found,?_⟩
  intro pkt
  have inside : trailingOnes s.oosMask < more.size := by omega
  have kept (i : Nat) (set : bit s.oosMask i = true) :
      (more.put (more.slot (trailingOnes s.oosMask)) { pkt with seq := s.expectedSeq }).get i = s.recvBuf.get i := by
    have live := (well.held i set).1
    have fits := still.fits
    rw [more.get_put_other _ (by omega) (by omega) ?_,extended.kept i live]
    rintro rfl
    rw [bit_trailingOnes] at set
    contradiction
  rw [← extended.slot]
  exact ⟨well.holding extended.capacity (still.put inside expected) expected extended.grown kept,
    rfl,rfl,extended.slot,kept⟩

/-- Whatever is not accepted leaves a well-formed receiver well formed, with all
its data; do_receive_data returns, so that no assertion fails. -/
theorem doReceiveData_refused (h : Host) (input : Recv) (s : Receiver) (well : WellFormed s)
    (refused : Refused h input s) :
    ∃ t, (doReceiveData h input s = .ret t ∨ doReceiveData h input s = .err t) ∧ WellFormed t ∧ Intact s t := by
  obtain ⟨place,buf,found,restored⟩ := well.restored (h := h)
  have reading := doReceiveData_cases h input s
  generalize doReceiveData h input s = outcome at reading ⊢
  cases reading with
  | stuck reason lost =>
    rw [found] at lost
    contradiction
  | failed slot more pkt got =>
    obtain ⟨rfl,rfl⟩ := Prod.mk.inj (Except.ok.inj (found.symm.trans got))
    exact ⟨_,Or.inr rfl,restored pkt⟩
  | dropped slot more pkt got dropped =>
    obtain ⟨rfl,rfl⟩ := Prod.mk.inj (Except.ok.inj (found.symm.trans got))
    exact ⟨_,Or.inl rfl,restored pkt⟩
  | processed slot more pkt got received data =>
    obtain ⟨rfl,rfl⟩ := Prod.mk.inj (Except.ok.inj (found.symm.trans got))
    have truncated := refused place buf pkt ⟨found,received,data⟩
    have live : bit s.oosMask 0 = true → 0 < buf.size := fun set => ((restored pkt).1.held 0 set).1
    obtain ⟨d,_,ended⟩ := @processIncomingPkt_eq h (Receiver.holding s buf) live place pkt
    rw [if_pos truncated] at ended
    obtain ⟨well',intact⟩ := restored pkt
    exact ⟨_,Or.inl ended,⟨well'.1,well'.2,well'.3,well'.4,well'.5,well'.6,well'.7⟩,
      intact.1,intact.2,intact.3,intact.4⟩

def oneWaiting : Receiver :=
  { start 31 (newPlaces.push.put 0 (countingStream 0)) 0 with phase := .receiving, oosMask := 1, expectedSeq := 1 }

theorem oneWaiting_wellFormed : WellFormed oneWaiting where
  capacity := rfl
  fits := by decide
  consecutive i inside := by
    have size : oneWaiting.recvBuf.size = 1 := by decide
    obtain rfl : i = 0 := by omega
    rfl
  held i set := by
    obtain rfl : i = 0 := Nat.testBit_one_eq_true_iff_self_eq_zero.mp set
    exact ⟨by decide,rfl,rfl⟩
  few := by decide
  most := by decide
  expected _ := by decide

def cutSecond : Recv := .datagram (Codec.truncate (Codec.image steadyHost.crc32 (countingStream 1)))

theorem cutSecond_refused : Refused steadyHost cutSecond oneWaiting := by
  intro place buf pkt through
  obtain ⟨q,received,truncated,_⟩ := netRecvfrom_truncate (h := steadyHost) (countingStream_isStream.valid 1) rfl
    (buf.head place)
  have read := (netRecvPkt_ok through.read).1
  rw [cutSecond,received] at read
  obtain rfl : q = pkt := (Prod.mk.inj read).2
  exact truncated

theorem doReceiveData_refused_truncated : ∃ t, (doReceiveData steadyHost cutSecond oneWaiting = .ret t ∨
    doReceiveData steadyHost cutSecond oneWaiting = .err t) ∧ WellFormed t ∧ Intact oneWaiting t :=
  doReceiveData_refused steadyHost cutSecond oneWaiting oneWaiting_wellFormed cutSecond_refused

end Trtp.Rejection
