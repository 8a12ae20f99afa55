import Mathlib.Order.Bounds.Basic
import Mathlib.Logic.Relation
import Mathlib.Data.Set.Insert
import Trtp.Lib.Mask

/-! Putting the numbered items of a stream in order.
Items are accepted in any order and passed on in the order of their numbers; the
state is the set of numbers accepted and the count of items passed on. A mask
over a base is one way to keep such a state. -/
namespace Trtp.Lib.Reorder
open Mask

@[ext] structure Reassembly where
  accepted : Set Nat
  passed : Nat
  closed : ∀ n < passed, n ∈ accepted

namespace Reassembly

def empty : Reassembly := ⟨∅,0,by simp⟩

def accept (r : Reassembly) (n : Nat) : Reassembly where
  accepted := insert n r.accepted
  passed := r.passed
  closed i before := Set.mem_insert_of_mem n (r.closed i before)

def pass (r : Reassembly) (ready : r.passed ∈ r.accepted) : Reassembly where
  accepted := r.accepted
  passed := r.passed + 1
  closed i before := by
    rcases Nat.lt_succ_iff_lt_or_eq.mp before with earlier | rfl
    · exact r.closed i earlier
    · exact ready

/-- What may happen to the items of the stream. -/
inductive Step (r : Reassembly) : Reassembly → Prop
  | accept (n : Nat) : Step r (r.accept n)
  | pass (ready : r.passed ∈ r.accepted) : Step r (r.pass ready)

/-- `n` is the next item the stream waits for. -/
def Missing (r : Reassembly) (n : Nat) : Prop := IsLeast {i | i ∉ r.accepted} n

variable {r t : Reassembly}

theorem Step.mono (step : Step r t) : r.accepted ⊆ t.accepted ∧ r.passed ≤ t.passed := by
  cases step with
  | accept n => exact ⟨Set.subset_insert n r.accepted,Nat.le_refl _⟩
  | pass ready => exact ⟨Set.Subset.refl _,Nat.le_succ _⟩

theorem steps_mono (steps : Relation.ReflTransGen Step r t) : r.accepted ⊆ t.accepted ∧ r.passed ≤ t.passed := by
  induction steps with
  | refl => exact ⟨Set.Subset.refl _,Nat.le_refl _⟩
  | tail _ step ih =>
    obtain ⟨more,later⟩ := step.mono
    exact ⟨ih.1.trans more,ih.2.trans later⟩

/-- The state kept as a count of the items passed on and a mask of those
accepted from there on. -/
def masked (base : Nat) (m : UInt32) : Reassembly where
  accepted := {n | n < base ∨ bit m (n - base) = true}
  passed := base
  closed _ before := Or.inl before

@[simp] theorem masked_passed (base : Nat) (m : UInt32) : (masked base m).passed = base := rfl

theorem mem_masked {base n : Nat} {m : UInt32} :
    n ∈ (masked base m).accepted ↔ n < base ∨ bit m (n - base) = true := Iff.rfl

theorem mem_masked_add {base i : Nat} {m : UInt32} : base + i ∈ (masked base m).accepted ↔ bit m i = true := by
  rw [mem_masked,Nat.add_sub_cancel_left]
  exact or_iff_right (by omega)

theorem masked_zero : masked 0 0 = empty := by
  ext n
  · simp [masked,empty]
  · rfl

theorem masked_accept (base : Nat) (m : UInt32) {k : Nat} (small : k < 32) :
    masked base (setBit m k) = (masked base m).accept (base + k) := by
  ext n
  · change n < base ∨ bit (setBit m k) (n - base) = true ↔ n = base + k ∨ n < base ∨ bit m (n - base) = true
    rw [bit_setBit m small,Bool.or_eq_true,decide_eq_true_eq]
    constructor
    · rintro (passed | set | same)
      · exact Or.inr (Or.inl passed)
      · exact Or.inr (Or.inr set)
      · by_cases passed : n < base
        · exact Or.inr (Or.inl passed)
        · exact Or.inl (by omega)
    · rintro (rfl | passed | set)
      · exact Or.inr (Or.inr (by omega))
      · exact Or.inl passed
      · exact Or.inr (Or.inl set)
  · rfl

theorem masked_pass (base : Nat) (m : UInt32) (set : bit m 0 = true) :
    masked (base + 1) (m >>> 1) = (masked base m).pass (Or.inr (by rw [masked_passed,Nat.sub_self]; exact set)) := by
  ext n
  · change n < base + 1 ∨ bit (m >>> 1) (n - (base + 1)) = true ↔ n < base ∨ bit m (n - base) = true
    rw [bit_shift]
    rcases Nat.lt_trichotomy n base with before | rfl | after
    · exact iff_of_true (Or.inl (by omega)) (Or.inl before)
    · exact iff_of_true (Or.inl (by omega)) (Or.inr (by simpa using set))
    · have position : n - (base + 1) + 1 = n - base := by omega
      rw [position]
      constructor
      · exact Or.imp_left (by omega)
      · exact Or.imp_left (by omega)
  · rfl

/-- The item waited for is where the run of ones ends. -/
theorem masked_missing (base : Nat) (m : UInt32) : (masked base m).Missing (base + trailingOnes m) := by
  constructor
  · intro held
    rw [mem_masked_add,bit_trailingOnes] at held
    contradiction
  · intro n absent
    by_contra early
    apply absent
    rcases Nat.lt_or_ge n base with passed | after
    · exact Or.inl passed
    · exact Or.inr (bit_of_lt_trailingOnes (by omega))

end Reassembly

end Trtp.Lib.Reorder
