import Trtp.Buffer

/-! The place of a packet by its number. pktbuf_slotfor_seq admits the number that lies
exactly a capacity behind the first one, for which the buffer has no place. -/
namespace Trtp.Lookup
open Lib.Circular Lib.Serial Packet Process Buffer

def position (buf : Pktbuf) (seqnum : UInt8) : Nat := if buf.size = 0 then 0 else (seqnum - (buf.get 0).seq).toNat

/-- The live place returned carries the number at its position, and the packets that were
live are where and what they were. -/
structure Located (buf : Pktbuf) (seqnum : UInt8) (place : UInt32) (more : Pktbuf) : Prop where
  live : position buf seqnum < more.size
  found : place = more.slot (position buf seqnum)
  seq : (more.head place).seq = seqnum
  grown : buf.size ≤ more.size
  kept : ∀ i < buf.size, more.slot i = buf.slot i ∧ more.get i = buf.get i
  consecutive : Consecutive more
  capacity : more.capacity = buf.capacity
  fits : more.size ≤ buf.capacity.toNat

/-- The search stops through an assertion or finds the place. -/
def Finds (h : Host) (buf : Pktbuf) (seqnum : UInt8) : Prop :=
  pktbufSlotforSeq h buf seqnum = .error .exit ∨
    ∃ place more, pktbufSlotforSeq h buf seqnum = .ok (place,more) ∧ Located buf seqnum place more

variable {h : Host} {buf : Pktbuf} {seqnum : UInt8}

theorem finds_reserved {base k : Nat} (aligned : Aligned buf base) (room : k < buf.capacity.toNat) (small : k < 256)
    (start : buf.size = 0 → k = 0) (number : serial (base + k) = seqnum) (distance : position buf seqnum = k) :
    Finds h buf seqnum := by
  obtain ⟨more,found,extended,still,size,_⟩ := slotforSeq_reserve h aligned room small start
  have fits := aligned.fits
  rw [number] at found
  refine Or.inr ⟨_,more,found,?_⟩
  exact {
    live := by omega
    found := by rw [distance,extended.slot]
    seq := by
      rw [← extended.slot,← number]
      exact still.seq k (by omega)
    grown := extended.grown
    kept := fun i inside => ⟨extended.slot i,extended.kept i inside⟩
    consecutive := still.consecutive
    capacity := extended.capacity
    fits := by omega }

theorem slotforSeq_eq (live : 0 < buf.size) : pktbufSlotforSeq h buf seqnum =
    if position buf seqnum ≤ buf.capacity.toNat then
      extendTo h (seqnum - (buf.get 0).seq) (buf.get 0).seq 256 buf >>= fun more =>
        assert h ((more.head (more.slot (position buf seqnum))).seq == seqnum) >>= fun _ =>
          .ok (more.slot (position buf seqnum),more)
    else .error .exit := by
  have distance : position buf seqnum = (seqnum - (buf.get 0).seq).toNat := if_neg (by omega)
  have front : (buf.head (buf.slot 0)).seq = (buf.get 0).seq := rfl
  have allocated : enqueueIfEmpty h buf seqnum = .ok buf := by
    rw [enqueueIfEmpty,pktbufEmpty_false live]
    rfl
  have place (more : Pktbuf) : bufGet (firstItem more + (seqnum - (buf.get 0).seq).toUInt32) more =
      more.slot (position buf seqnum) := by
    have number : (seqnum - (buf.get 0).seq).toUInt32 = UInt32.ofNat (position buf seqnum) := by
      rw [distance]
      simp
    rw [number]
    exact more.mask_add _ _
  have test : (seqnum - (buf.get 0).seq).toUInt32 ≤ buf.capacity ↔ position buf seqnum ≤ buf.capacity.toNat := by
    rw [UInt32.le_iff_toNat_le,UInt8.toNat_toUInt32,distance]
  rw [pktbufSlotforSeq,allocated]
  simp only [bind,Except.bind,pktbufFirst_live live,front,place]
  by_cases near : position buf seqnum ≤ buf.capacity.toNat
  · rw [if_pos near,assertAlways_true (decide_eq_true (test.mpr near))]
    rfl
  · have refused : assertAlways (decide ((seqnum - (buf.get 0).seq).toUInt32 ≤ buf.capacity)) = .error .exit :=
      if_neg (by simpa using fun passed => near (test.mp passed))
    rw [if_neg near,refused]

theorem short_iff {offset : UInt8} : offset.toUInt32 < pktbufUsed buf ↔ offset.toNat < buf.size := by
  rw [UInt32.lt_iff_toNat_lt,UInt8.toNat_toUInt32]
  rfl

theorem extendTo_exit (debug : h.debug = true) {offset firstSeq : UInt8} (fuel : Nat) (buf : Pktbuf)
    (fits : buf.size ≤ buf.capacity.toNat) (far : buf.capacity.toNat ≤ offset.toNat)
    (enough : buf.capacity.toNat < buf.size + fuel) : extendTo h offset firstSeq fuel buf = .error .exit := by
  induction fuel generalizing buf with
  | zero => omega
  | succ fuel ih =>
    have short : ¬ offset.toUInt32 < pktbufUsed buf := by
      rw [short_iff]
      omega
    rw [extendTo,if_neg short]
    rcases Nat.lt_or_eq_of_le fits with room | full
    · have bound := buf.capacity_le
      have size := buf.size_push (by omega)
      rw [pktbufEnqueue_room h room]
      refine ih _ ?_ far ?_
      · change buf.push.size ≤ buf.capacity.toNat
        omega
      · change buf.capacity.toNat < buf.push.size + fuel
        omega
    · have refused : assert h (!pktbufFull buf) = .error .exit := by
        rw [assert,if_pos debug,(pktbufFull_iff buf).mpr (Nat.le_of_eq full.symm)]
        rfl
      rw [pktbufEnqueue,refused]
      rfl

/-- Without them it goes on, over the first packet, until the number is covered. -/
theorem extendTo_beyond (release : h.debug = false) {offset firstSeq : UInt8} (fuel : Nat) (buf : Pktbuf)
    (enough : offset.toNat < buf.size + fuel) :
    ∃ more, extendTo h offset firstSeq fuel buf = .ok more ∧ offset.toNat < more.size := by
  induction fuel generalizing buf with
  | zero => exact ⟨buf,rfl,enough⟩
  | succ fuel ih =>
    rw [extendTo]
    by_cases short : offset.toUInt32 < pktbufUsed buf
    · exact ⟨buf,if_pos short,short_iff.mp short⟩
    · have most : buf.size ≤ offset.toNat := Nat.not_lt.mp (fun inside => short (short_iff.mpr inside))
      have limit := offset.toNat_lt
      have size := buf.size_push (by omega)
      have allocated : pktbufEnqueue h buf = .ok (buf.slot buf.size,buf.push) := by
        rw [pktbufEnqueue,assert,if_neg (by rw [release]; decide),← buf.mask_last]
        rfl
      rw [if_neg short,allocated]
      refine ih _ ?_
      change offset.toNat < buf.push.size + fuel
      omega

theorem finds_stopped (debug : h.debug = true) (live : 0 < buf.size) (fits : buf.size ≤ buf.capacity.toNat)
    (edge : position buf seqnum = buf.capacity.toNat) : Finds h buf seqnum := by
  have distance : position buf seqnum = (seqnum - (buf.get 0).seq).toNat := if_neg (by omega)
  have limit := (seqnum - (buf.get 0).seq).toNat_lt
  have stopped : extendTo h (seqnum - (buf.get 0).seq) (buf.get 0).seq 256 buf = .error .exit :=
    extendTo_exit debug 256 buf fits (by omega) (by omega)
  left
  rw [slotforSeq_eq live,if_pos (Nat.le_of_eq edge),stopped]
  rfl

theorem not_finds_overrun (release : h.debug = false) (live : 0 < buf.size)
    (edge : position buf seqnum = buf.capacity.toNat) : ¬ Finds h buf seqnum := by
  have distance : position buf seqnum = (seqnum - (buf.get 0).seq).toNat := if_neg (by omega)
  have limit := (seqnum - (buf.get 0).seq).toNat_lt
  have enough : (seqnum - (buf.get 0).seq).toNat < buf.size + 256 := by omega
  obtain ⟨most,extended,covered⟩ := @extendTo_beyond h release _ (buf.get 0).seq 256 buf enough
  have passed : assert h ((most.head (most.slot (position buf seqnum))).seq == seqnum) = .ok () :=
    if_neg (by rw [release]; decide)
  have overrun := @slotforSeq_eq h buf seqnum live
  rw [if_pos (Nat.le_of_eq edge),extended] at overrun
  simp only [bind,Except.bind,passed] at overrun
  rintro (stopped | ⟨place,more,found,located⟩)
  · rw [overrun] at stopped
    contradiction
  · obtain ⟨_,rfl⟩ := Prod.mk.inj (Except.ok.inj (overrun.symm.trans found))
    have within := located.fits
    omega

theorem finds_refused (live : 0 < buf.size) (beyond : buf.capacity.toNat < position buf seqnum) :
    Finds h buf seqnum := by
  left
  rw [slotforSeq_eq live,if_neg (Nat.not_le.mpr beyond)]

/-- The search fails just when assertions are off and the number lies a whole capacity
behind the first packet: then the first packet is overwritten. -/
theorem slotforSeq_iff (h : Host) (buf : Pktbuf) (seqnum : UInt8) (small : buf.capacity.toNat ≤ 128)
    (fits : buf.size ≤ buf.capacity.toNat) (consecutive : Consecutive buf) :
    Finds h buf seqnum ↔ h.debug = true ∨ position buf seqnum ≠ buf.capacity.toNat := by
  have positive := buf.capacity_pos
  rcases Nat.eq_zero_or_pos buf.size with none | live
  · have distance : position buf seqnum = 0 := if_pos none
    have ready : Aligned buf seqnum.toNat := ⟨fits,by omega⟩
    refine iff_of_true ?_ (Or.inr (by omega))
    exact finds_reserved ready positive (by decide) (fun _ => rfl) (serial_seq seqnum) distance
  · rcases Nat.lt_trichotomy (position buf seqnum) buf.capacity.toNat with inside | edge | beyond
    · have distance : position buf seqnum = (seqnum - (buf.get 0).seq).toNat := if_neg (by omega)
      have number : serial ((buf.get 0).seq.toNat + position buf seqnum) = seqnum := by
        rw [distance,← serial_add,serial_seq]
        grind
      refine iff_of_true ?_ (Or.inr (by omega))
      exact finds_reserved (consecutive.aligned fits) inside (by omega) (by omega) number rfl
    · cases debug : h.debug with
      | true => exact iff_of_true (finds_stopped debug live fits edge) (Or.inl rfl)
      | false => exact iff_of_false (not_finds_overrun debug live edge) (by simp [edge])
    · exact iff_of_true (finds_refused live beyond) (Or.inr (by omega))

def releaseHost : Host := { steadyHost with debug := false }

theorem two_pow2 : ∃ k ≤ 30, (2 : UInt32).toNat = 2 ^ k := ⟨1,by decide,by decide⟩

def fullPair : Pktbuf := ⟨0,2,2,fun i => { Pkt.zero with seq := i.toUInt8 },two_pow2⟩

theorem fullPair_consecutive : Consecutive fullPair := by
  intro i inside
  have size : fullPair.size = 2 := rfl
  have numbered : ∀ i < 2, (fullPair.get i).seq = (fullPair.get 0).seq + UInt8.ofNat i := by decide
  exact numbered i (by omega)

theorem slotforSeq_iff_fullPair : Finds releaseHost fullPair 1 ↔ releaseHost.debug = true ∨ position fullPair 1 ≠ 2 :=
  slotforSeq_iff releaseHost fullPair 1 (by decide) (by decide) fullPair_consecutive

/-- Packet 2 is put over packet 0, and the buffer holds three packets in two places. -/
theorem slotforSeq_overruns : ¬ ∀ (h : Host) (buf : Pktbuf) (seqnum : UInt8), buf.capacity.toNat ≤ 128 →
    buf.size ≤ buf.capacity.toNat → Consecutive buf → Finds h buf seqnum := by
  intro claim
  have live : 0 < fullPair.size := by decide
  have edge : position fullPair 2 = fullPair.capacity.toNat := by decide
  exact not_finds_overrun rfl live edge (claim releaseHost fullPair 2 (by decide) (by decide) fullPair_consecutive)

end Trtp.Lookup
