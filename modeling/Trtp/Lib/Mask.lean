import Mathlib.Data.Finset.Card
import Mathlib.Data.Nat.Bitwise

/-! Sets of positions below 32 kept as the bits of a machine word: membership,
insertion, the shift that forgets position zero, the run of positions that
starts at zero and the number of members. -/
namespace Trtp.Lib.Mask

def bit (m : UInt32) (i : Nat) : Bool := m.toNat.testBit i

def setBit (m : UInt32) (k : Nat) : UInt32 := m ||| (1 <<< UInt32.ofNat k)

/-- The number of turns of `for (; m & 1; m >>= 1)`, at most `fuel`. -/
def onesWithin : Nat → UInt32 → Nat
  | 0, _ => 0
  | fuel + 1, m => if m &&& 1 = 1 then onesWithin fuel (m >>> 1) + 1 else 0

def trailingOnes (m : UInt32) : Nat := onesWithin 32 m

def members (m : UInt32) : Finset Nat := (Finset.range 32).filter (fun i => bit m i = true)

def popcount (m : UInt32) : Nat := (members m).card

theorem bit_beyond (m : UInt32) {i : Nat} (beyond : 32 ≤ i) : bit m i = false := by
  apply Nat.testBit_eq_false_of_lt
  calc m.toNat < 2 ^ 32 := m.toNat_lt
    _ ≤ 2 ^ i := Nat.pow_le_pow_right (by omega) beyond

theorem lt_of_bit {m : UInt32} {i : Nat} (set : bit m i = true) : i < 32 := by
  by_contra beyond
  rw [bit_beyond m (by omega)] at set
  contradiction

@[simp] theorem bit_zero (i : Nat) : bit 0 i = false := by
  simp [bit]

theorem bit_ext {m n : UInt32} (same : ∀ i < 32, bit m i = bit n i) : m = n := by
  apply UInt32.toNat_inj.mp
  apply Nat.eq_of_testBit_eq
  intro i
  rcases Nat.lt_or_ge i 32 with inside | beyond
  · exact same i inside
  · exact (bit_beyond m beyond).trans (bit_beyond n beyond).symm

theorem and_one_iff (m : UInt32) : m &&& 1 = 1 ↔ bit m 0 = true := by
  rw [← UInt32.toNat_inj,UInt32.toNat_and]
  simp [bit]

theorem bit_shift (m : UInt32) (i : Nat) : bit (m >>> 1) i = bit m (i + 1) := by
  simp [bit,UInt32.toNat_shiftRight,Nat.testBit_shiftRight,Nat.add_comm]

theorem bit_setBit (m : UInt32) {k : Nat} (small : k < 32) (i : Nat) :
    bit (setBit m k) i = (bit m i || decide (i = k)) := by
  rcases Nat.lt_or_ge i 32 with inside | beyond
  · have amount : (UInt32.ofNat k).toNat % 32 = k := by
      rw [UInt32.toNat_ofNat']
      omega
    simp only [bit,setBit,UInt32.toNat_or,UInt32.toNat_shiftLeft,Nat.testBit_or,amount]
    rw [Nat.testBit_mod_two_pow]
    simp only [inside,decide_true,Bool.true_and,UInt32.toNat_one,Nat.one_shiftLeft,Nat.testBit_two_pow]
    simp [eq_comm]
  · rw [bit_beyond _ beyond,bit_beyond _ beyond]
    simp
    omega

theorem onesWithin_le (fuel : Nat) (m : UInt32) : onesWithin fuel m ≤ fuel := by
  induction fuel generalizing m with
  | zero => exact Nat.le_refl 0
  | succ fuel ih =>
    unfold onesWithin
    split
    · exact Nat.succ_le_succ (ih _)
    · exact Nat.zero_le _

theorem bit_of_lt_onesWithin (fuel : Nat) (m : UInt32) (i : Nat) (before : i < onesWithin fuel m) :
    bit m i = true := by
  induction fuel generalizing m i with
  | zero => simp [onesWithin] at before
  | succ fuel ih =>
    unfold onesWithin at before
    split at before
    next set =>
      cases i with
      | zero => exact (and_one_iff m).mp set
      | succ i =>
        rw [← bit_shift]
        exact ih _ _ (by omega)
    next clear => omega

theorem bit_onesWithin (fuel : Nat) (m : UInt32) (stopped : onesWithin fuel m < fuel) :
    bit m (onesWithin fuel m) = false := by
  induction fuel generalizing m with
  | zero => omega
  | succ fuel ih =>
    unfold onesWithin at stopped ⊢
    split at stopped
    next set =>
      rw [if_pos set,← bit_shift]
      exact ih _ (by omega)
    next clear =>
      rw [if_neg clear]
      simpa [and_one_iff] using clear

theorem trailingOnes_le (m : UInt32) : trailingOnes m ≤ 32 := onesWithin_le 32 m

theorem bit_of_lt_trailingOnes {m : UInt32} {i : Nat} (before : i < trailingOnes m) : bit m i = true :=
  bit_of_lt_onesWithin 32 m i before

@[simp] theorem bit_trailingOnes (m : UInt32) : bit m (trailingOnes m) = false := by
  rcases Nat.lt_or_ge (trailingOnes m) 32 with inside | beyond
  · exact bit_onesWithin 32 m inside
  · exact bit_beyond m beyond

/-- The run of ones is determined by its members and the hole that ends it. -/
theorem trailingOnes_unique {m : UInt32} {t : Nat} (ones : ∀ i < t, bit m i = true)
    (hole : bit m t = false) : trailingOnes m = t := by
  rcases Nat.lt_trichotomy (trailingOnes m) t with before | same | after
  · have set := ones _ before
    rw [bit_trailingOnes] at set
    contradiction
  · exact same
  · rw [bit_of_lt_trailingOnes after] at hole
    contradiction

theorem trailingOnes_eq_zero {m : UInt32} (clear : bit m 0 = false) : trailingOnes m = 0 :=
  trailingOnes_unique (by omega) clear

theorem trailingOnes_pos {m : UInt32} (set : bit m 0 = true) : 0 < trailingOnes m := by
  by_contra none
  have zero : trailingOnes m = 0 := by omega
  have clear := bit_trailingOnes m
  rw [zero,set] at clear
  contradiction

theorem trailingOnes_shift {m : UInt32} (set : bit m 0 = true) :
    trailingOnes (m >>> 1) + 1 = trailingOnes m := by
  symm
  apply trailingOnes_unique
  · intro i before
    cases i with
    | zero => exact set
    | succ i =>
      rw [← bit_shift]
      exact bit_of_lt_trailingOnes (by omega)
  · rw [← bit_shift]
    exact bit_trailingOnes _

theorem mem_members {m : UInt32} {i : Nat} : i ∈ members m ↔ bit m i = true := by
  simp only [members,Finset.mem_filter,Finset.mem_range]
  exact ⟨fun both => both.2,fun set => ⟨lt_of_bit set,set⟩⟩

theorem members_setBit (m : UInt32) {k : Nat} (small : k < 32) :
    members (setBit m k) = insert k (members m) := by
  ext i
  simp only [mem_members,Finset.mem_insert,bit_setBit m small,Bool.or_eq_true,decide_eq_true_eq]
  exact or_comm

theorem popcount_setBit (m : UInt32) {k : Nat} (small : k < 32) :
    popcount (setBit m k) ≤ popcount m + 1 := by
  unfold popcount
  rw [members_setBit m small]
  exact Finset.card_insert_le k (members m)

theorem popcount_le (m : UInt32) : popcount m ≤ 32 :=
  Nat.le_trans (Finset.card_filter_le _ _) (Nat.le_of_eq (Finset.card_range 32))

theorem popcount_shift (m : UInt32) : popcount (m >>> 1) ≤ popcount m := by
  apply Finset.card_le_card_of_injOn (· + 1)
  · intro i member
    have set := mem_members.mp (Finset.mem_coe.mp member)
    rw [bit_shift] at set
    exact Finset.mem_coe.mpr (mem_members.mpr set)
  · intro i _ j _ equal
    simpa using equal

theorem popcount_shift_lt {m : UInt32} (set : bit m 0 = true) : popcount (m >>> 1) < popcount m := by
  have rest : (members (m >>> 1)).image (· + 1) ⊆ (members m).erase 0 := by
    intro i member
    obtain ⟨j,inside,rfl⟩ := Finset.mem_image.mp member
    have later := mem_members.mp inside
    rw [bit_shift] at later
    exact Finset.mem_erase.mpr ⟨Nat.succ_ne_zero j,mem_members.mpr later⟩
  have front : 0 ∈ members m := mem_members.mpr set
  calc popcount (m >>> 1) = ((members (m >>> 1)).image (· + 1)).card :=
        (Finset.card_image_of_injective _ (add_left_injective 1)).symm
    _ ≤ ((members m).erase 0).card := Finset.card_le_card rest
    _ < popcount m := Finset.card_erase_lt_of_mem front

theorem trailingOnes_le_popcount (m : UInt32) : trailingOnes m ≤ popcount m := by
  have run : Finset.range (trailingOnes m) ⊆ members m := by
    intro i member
    exact mem_members.mpr (bit_of_lt_trailingOnes (Finset.mem_range.mp member))
  simpa [popcount] using Finset.card_le_card run

/-- A mask inside the first `w` positions is full when its run of ones reaches `w`. -/
theorem full_iff {m : UInt32} {w : Nat} (inside : ∀ i, bit m i = true → i < w) :
    w ≤ popcount m ↔ w ≤ trailingOnes m := by
  have within : members m ⊆ Finset.range w := by
    intro i member
    exact Finset.mem_range.mpr (inside i (mem_members.mp member))
  constructor
  · intro many
    have all : members m = Finset.range w := Finset.eq_of_subset_of_card_le within (by simpa [popcount] using many)
    by_contra short
    have set : bit m (trailingOnes m) = true := by
      rw [← mem_members,all,Finset.mem_range]
      omega
    rw [bit_trailingOnes] at set
    contradiction
  · exact fun run => Nat.le_trans run (trailingOnes_le_popcount m)

theorem two_pow_of_popcount_eq_one {m : UInt32} (single : popcount m = 1) :
    ∃ k < 32, m.toNat = 2 ^ k := by
  obtain ⟨k,only⟩ := Finset.card_eq_one.mp single
  have set : bit m k = true := mem_members.mp (by rw [only]; exact Finset.mem_singleton_self k)
  refine ⟨k,lt_of_bit set,?_⟩
  apply Nat.eq_of_testBit_eq
  intro i
  have inside : bit m i = true ↔ i = k := by
    rw [← mem_members,only,Finset.mem_singleton]
  rw [Nat.testBit_two_pow]
  by_cases same : i = k
  · subst same
    simpa [bit] using set
  · have clear : bit m i = false := by simpa [same] using inside
    have other : k ≠ i := fun equal => same equal.symm
    simpa [bit,other] using clear

end Trtp.Lib.Mask
