import Mathlib.Data.List.Basic
import Mathlib.Data.Nat.ModEq

/-! A circular array addressed by two free-running 32-bit indices.
The capacity is a power of two, so that masking an index is a remainder and
stays one when the index itself wraps around. Nothing here bounds the number of
items by the capacity: that is for the user of the ring to keep. -/
namespace Trtp.Lib.Circular

structure CircularArray (α : Type) where
  first : UInt32
  last : UInt32
  capacity : UInt32
  head : UInt32 → α
  pow2 : ∃ k ≤ 30, capacity.toNat = 2 ^ k

namespace CircularArray

variable {α : Type}

def mask (r : CircularArray α) (i : UInt32) : UInt32 := i &&& (r.capacity - 1)

def used (r : CircularArray α) : UInt32 := r.last - r.first

def size (r : CircularArray α) : Nat := r.used.toNat

def slot (r : CircularArray α) (i : Nat) : UInt32 := r.mask (r.first + UInt32.ofNat i)

def get (r : CircularArray α) (i : Nat) : α := r.head (r.slot i)

def items (r : CircularArray α) : List α := (List.range r.size).map r.get

def put (r : CircularArray α) (place : UInt32) (x : α) : CircularArray α :=
  { r with head := fun j => if j = place then x else r.head j }

def push (r : CircularArray α) : CircularArray α := { r with last := r.last + 1 }

def pop (r : CircularArray α) : CircularArray α := { r with first := r.first + 1 }

def drop (r : CircularArray α) (k : Nat) : CircularArray α := { r with first := r.first + UInt32.ofNat k }

variable (r : CircularArray α) (place : UInt32) (x : α)

@[simp] theorem put_first : (r.put place x).first = r.first := rfl
@[simp] theorem put_last : (r.put place x).last = r.last := rfl
@[simp] theorem put_capacity : (r.put place x).capacity = r.capacity := rfl
@[simp] theorem put_size : (r.put place x).size = r.size := rfl
@[simp] theorem put_mask (i : UInt32) : (r.put place x).mask i = r.mask i := rfl
@[simp] theorem put_slot (i : Nat) : (r.put place x).slot i = r.slot i := rfl
theorem put_head (j : UInt32) : (r.put place x).head j = if j = place then x else r.head j := rfl
@[simp] theorem put_head_self : (r.put place x).head place = x := if_pos rfl

theorem put_head_eq : r.put place (r.head place) = r := by
  have same (j : UInt32) : (if j = place then r.head place else r.head j) = r.head j := by
    split
    next equal => rw [equal]
    next => rfl
  unfold put
  simp only [same]

@[simp] theorem put_put (y : α) : (r.put place x).put place y = r.put place y := by
  unfold put
  congr 1
  funext j
  by_cases same : j = place
  · rw [if_pos same,if_pos same]
  · simp only [if_neg same]

@[simp] theorem push_first : r.push.first = r.first := rfl
@[simp] theorem push_last : r.push.last = r.last + 1 := rfl
@[simp] theorem push_capacity : r.push.capacity = r.capacity := rfl
@[simp] theorem push_head : r.push.head = r.head := rfl
@[simp] theorem push_mask (i : UInt32) : r.push.mask i = r.mask i := rfl
@[simp] theorem push_slot (i : Nat) : r.push.slot i = r.slot i := rfl
@[simp] theorem push_get (i : Nat) : r.push.get i = r.get i := rfl
@[simp] theorem pop_first : r.pop.first = r.first + 1 := rfl
@[simp] theorem pop_last : r.pop.last = r.last := rfl
@[simp] theorem pop_capacity : r.pop.capacity = r.capacity := rfl
@[simp] theorem pop_head : r.pop.head = r.head := rfl
@[simp] theorem pop_mask (i : UInt32) : r.pop.mask i = r.mask i := rfl

@[simp] theorem drop_first (k : Nat) : (r.drop k).first = r.first + UInt32.ofNat k := rfl
@[simp] theorem drop_last (k : Nat) : (r.drop k).last = r.last := rfl
@[simp] theorem drop_capacity (k : Nat) : (r.drop k).capacity = r.capacity := rfl
@[simp] theorem drop_head (k : Nat) : (r.drop k).head = r.head := rfl
@[simp] theorem drop_mask (k : Nat) (i : UInt32) : (r.drop k).mask i = r.mask i := rfl

@[simp] theorem drop_zero : r.drop 0 = r := by
  simp [drop]

theorem pop_drop (k : Nat) : r.pop.drop k = r.drop (k + 1) := by
  have moved : r.first + 1 + UInt32.ofNat k = r.first + UInt32.ofNat (k + 1) := by
    rw [UInt32.ofNat_add]
    grind
  simp only [drop,pop,moved]

theorem capacity_pos : 0 < r.capacity.toNat := by
  obtain ⟨k,_,power⟩ := r.pow2
  rw [power]
  exact Nat.two_pow_pos k

theorem capacity_le : r.capacity.toNat ≤ 2 ^ 30 := by
  obtain ⟨k,bound,power⟩ := r.pow2
  rw [power]
  exact Nat.pow_le_pow_right (by omega) bound

theorem capacity_dvd : r.capacity.toNat ∣ 2 ^ 32 := by
  obtain ⟨k,bound,power⟩ := r.pow2
  rw [power]
  exact Nat.pow_dvd_pow 2 (by omega)

theorem mask_toNat (i : UInt32) : (r.mask i).toNat = i.toNat % r.capacity.toNat := by
  obtain ⟨k,_,power⟩ := r.pow2
  have positive := r.capacity_pos
  have less : (1 : UInt32) ≤ r.capacity := by
    rw [UInt32.le_iff_toNat_le]
    exact positive
  rw [mask,UInt32.toNat_and,UInt32.toNat_sub_of_le _ _ less,power]
  exact Nat.and_two_pow_sub_one_eq_mod _ _

theorem mask_lt (i : UInt32) : (r.mask i).toNat < r.capacity.toNat := by
  rw [mask_toNat]
  exact Nat.mod_lt _ r.capacity_pos

theorem mask_of_lt {i : UInt32} (small : i.toNat < r.capacity.toNat) : r.mask i = i := by
  apply UInt32.toNat_inj.mp
  rw [mask_toNat,Nat.mod_eq_of_lt small]

@[simp] theorem mask_mask (i : UInt32) : r.mask (r.mask i) = r.mask i := r.mask_of_lt (r.mask_lt i)

theorem mask_ofNat (n : Nat) : (r.mask (UInt32.ofNat n)).toNat = n % r.capacity.toNat := by
  rw [mask_toNat,UInt32.toNat_ofNat',Nat.mod_mod_of_dvd _ r.capacity_dvd]

/-- Masking commutes with the wrap-around of the index. -/
theorem mask_add (i j : UInt32) : r.mask (r.mask i + j) = r.mask (i + j) := by
  apply UInt32.toNat_inj.mp
  rw [mask_toNat,mask_toNat,UInt32.toNat_add,UInt32.toNat_add,Nat.mod_mod_of_dvd _ r.capacity_dvd,
    Nat.mod_mod_of_dvd _ r.capacity_dvd,mask_toNat,Nat.mod_add_mod]

theorem slot_toNat (i : Nat) : (r.slot i).toNat = (r.first.toNat + i) % r.capacity.toNat := by
  rw [slot,mask_toNat,UInt32.toNat_add,Nat.mod_mod_of_dvd _ r.capacity_dvd,UInt32.toNat_ofNat',
    Nat.add_mod,Nat.mod_mod_of_dvd _ r.capacity_dvd,← Nat.add_mod]

theorem slot_eq_mask {base : Nat} (aligned : r.first = UInt32.ofNat base) (i : Nat) :
    r.slot i = r.mask (UInt32.ofNat (base + i)) := by
  rw [slot,aligned,← UInt32.ofNat_add]

theorem mask_ne {a b : Nat} (before : a < b) (close : b < a + r.capacity.toNat) :
    r.mask (UInt32.ofNat a) ≠ r.mask (UInt32.ofNat b) := by
  intro same
  have residues : a % r.capacity.toNat = b % r.capacity.toNat := by
    rw [← mask_ofNat,← mask_ofNat,same]
  obtain ⟨d,rfl⟩ := Nat.exists_eq_add_of_le (Nat.le_of_lt before)
  have apart : 0 ≡ d [MOD r.capacity.toNat] := Nat.ModEq.add_left_cancel' a residues
  rw [Nat.ModEq,Nat.zero_mod,Nat.mod_eq_of_lt (by omega)] at apart
  omega

theorem slot_zero : r.slot 0 = r.mask r.first := by
  simp [slot]

theorem slot_inj {i j : Nat} (left : i < r.capacity.toNat) (right : j < r.capacity.toNat)
    (same : r.slot i = r.slot j) : i = j := by
  have residues : (r.first.toNat + i) % r.capacity.toNat = (r.first.toNat + j) % r.capacity.toNat := by
    rw [← slot_toNat,← slot_toNat,same]
  have close : i ≡ j [MOD r.capacity.toNat] := Nat.ModEq.add_left_cancel' _ residues
  rwa [Nat.ModEq,Nat.mod_eq_of_lt left,Nat.mod_eq_of_lt right] at close

theorem mask_last : r.mask r.last = r.slot r.size := by
  have whole : r.first + (r.last - r.first) = r.last := by grind
  simp [slot,size,used,whole]

theorem mask_pred_last (live : 0 < r.size) : r.mask (r.last - 1) = r.slot (r.size - 1) := by
  have least : (1 : UInt32) ≤ r.used := by
    rw [UInt32.le_iff_toNat_le]
    exact live
  have count : UInt32.ofNat (r.size - 1) = r.used - 1 := by
    apply UInt32.toNat_inj.mp
    have small := r.used.toNat_lt
    rw [UInt32.toNat_sub_of_le _ _ least,UInt32.toNat_ofNat',UInt32.toNat_one,size]
    omega
  have back : r.first + (r.used - 1) = r.last - 1 := by
    rw [used]
    grind
  rw [slot,count,back]

theorem slot_pop (i : Nat) : r.pop.slot i = r.slot (i + 1) := by
  have moved : r.first + 1 + UInt32.ofNat i = r.first + UInt32.ofNat (i + 1) := by
    rw [UInt32.ofNat_add]
    grind
  simp only [slot,pop_first,pop_mask,moved]

theorem get_pop (i : Nat) : r.pop.get i = r.get (i + 1) := by
  rw [get,get,slot_pop,pop_head]

theorem size_push (room : r.size < 2 ^ 32 - 1) : r.push.size = r.size + 1 := by
  have shifted : r.push.used = r.used + 1 := by
    simp only [used,push_last,push_first]
    grind
  rw [size,shifted,UInt32.toNat_add,UInt32.toNat_one]
  exact Nat.mod_eq_of_lt (by simp only [size] at room; omega)

theorem size_pop (live : 0 < r.size) : r.pop.size + 1 = r.size := by
  have shifted : r.pop.used = r.used - 1 := by
    simp only [used,pop_last,pop_first]
    grind
  have least : (1 : UInt32) ≤ r.used := by
    rw [UInt32.le_iff_toNat_le]
    exact live
  rw [size,shifted,UInt32.toNat_sub_of_le _ _ least,UInt32.toNat_one]
  exact Nat.sub_add_cancel live

theorem slot_drop (k i : Nat) : (r.drop k).slot i = r.slot (i + k) := by
  have moved : r.first + UInt32.ofNat k + UInt32.ofNat i = r.first + UInt32.ofNat (i + k) := by
    rw [UInt32.ofNat_add]
    grind
  simp only [slot,drop_first,drop_mask,moved]

theorem get_drop (k i : Nat) : (r.drop k).get i = r.get (i + k) := by
  rw [get,get,slot_drop,drop_head]

theorem size_drop {k : Nat} (live : k ≤ r.size) : (r.drop k).size + k = r.size := by
  induction k generalizing r with
  | zero => rw [drop_zero,Nat.add_zero]
  | succ k ih =>
    have size := r.size_pop (by omega)
    have later := ih r.pop (by omega)
    rw [← pop_drop]
    omega

theorem size_of_indices {base stop : Nat} (front : r.first = UInt32.ofNat base)
    (back : r.last = UInt32.ofNat stop) (ordered : base ≤ stop) (short : stop < base + 2 ^ 32) :
    r.size = stop - base := by
  rw [size,used,front,back,UInt32.toNat_sub,UInt32.toNat_ofNat',UInt32.toNat_ofNat']
  omega

theorem size_eq_zero : r.size = 0 ↔ r.first = r.last := by
  rw [size,used]
  constructor
  · intro none
    have equal : r.last - r.first = 0 := UInt32.toNat_inj.mp none
    grind
  · intro equal
    rw [equal]
    simp

@[simp] theorem get_put (i : Nat) : (r.put (r.slot i) x).get i = x := if_pos rfl

theorem get_put_other {i j : Nat} (left : i < r.capacity.toNat) (right : j < r.capacity.toNat)
    (apart : j ≠ i) : (r.put (r.slot i) x).get j = r.get j := by
  apply if_neg
  intro same
  exact apart (r.slot_inj right left same)

@[simp] theorem items_length : r.items.length = r.size := by
  simp [items]

theorem items_pop (live : 0 < r.size) : r.items = r.get 0 :: r.pop.items := by
  have size := r.size_pop live
  unfold items
  rw [← size,List.range_succ_eq_map,List.map_cons,List.map_map]
  congr 1
  apply List.map_congr_left
  intro i _
  exact (r.get_pop i).symm

theorem items_push (room : r.size < r.capacity.toNat) :
    (r.push.put (r.slot r.size) x).items = r.items ++ [x] := by
  have bound := r.capacity_le
  have size := r.size_push (by omega)
  unfold items
  rw [put_size,size,List.range_succ,List.map_append]
  congr 1
  · apply List.map_congr_left
    intro i member
    have before := List.mem_range.mp member
    exact r.push.get_put_other x (i := r.size) (j := i) room (by simp; omega) (by omega)
  · simp only [List.map_cons,List.map_nil]
    exact congrArg (fun y => [y]) (r.push.get_put x r.size)

end CircularArray

end Trtp.Lib.Circular
