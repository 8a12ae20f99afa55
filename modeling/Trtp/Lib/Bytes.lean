import Mathlib.Data.List.Basic
import Mathlib.Tactic.IntervalCases

/-! Fixed blocks of memory and the little-endian words stored in them.
A block is total: a read beyond its end gives zero and a write beyond its end
is dropped, so that no operation needs a bound to be well defined. -/
namespace Trtp.Lib.Bytes

abbrev Block (n : Nat) := Fin n → UInt8

def byteAt {n : Nat} (b : Block n) (i : Nat) : UInt8 := if h : i < n then b ⟨i,h⟩ else 0

def slice {n : Nat} (b : Block n) (off len : Nat) : List UInt8 :=
  (List.range len).map (fun i => byteAt b (off + i))

def blit {n : Nat} (b : Block n) (off : Nat) (bytes : List UInt8) : Block n :=
  fun i => if i.val < off then b i else (bytes[i.val - off]?).getD (b i)

def byteOf (x i : Nat) : UInt8 := UInt8.ofNat (x / 256 ^ i)

def bytes16 (x : UInt16) : List UInt8 := [byteOf x.toNat 0,byteOf x.toNat 1]

def bytes32 (x : UInt32) : List UInt8 :=
  [byteOf x.toNat 0,byteOf x.toNat 1,byteOf x.toNat 2,byteOf x.toNat 3]

def word16 (b0 b1 : UInt8) : UInt16 := UInt16.ofNat (b0.toNat + 256 * b1.toNat)

def word32 (b0 b1 b2 b3 : UInt8) : UInt32 :=
  UInt32.ofNat (b0.toNat + 256 * b1.toNat + 65536 * b2.toNat + 16777216 * b3.toNat)

/-- Exchange the two bytes of a word: the conversion between the host order of
a little-endian machine and the network order, either way. -/
def swap16 (x : UInt16) : UInt16 := word16 (byteOf x.toNat 1) (byteOf x.toNat 0)

def swap32 (x : UInt32) : UInt32 :=
  word32 (byteOf x.toNat 3) (byteOf x.toNat 2) (byteOf x.toNat 1) (byteOf x.toNat 0)

def wordAt {n : Nat} (b : Block n) (off : Nat) : UInt32 :=
  word32 (byteAt b off) (byteAt b (off + 1)) (byteAt b (off + 2)) (byteAt b (off + 3))

theorem byteOf_toNat (x i : Nat) : (byteOf x i).toNat = x / 256 ^ i % 256 := by
  simp [byteOf]

theorem word16_toNat (b0 b1 : UInt8) : (word16 b0 b1).toNat = b0.toNat + 256 * b1.toNat := by
  have h0 := b0.toNat_lt
  have h1 := b1.toNat_lt
  simp only [word16,UInt16.toNat_ofNat']
  omega

theorem word32_toNat (b0 b1 b2 b3 : UInt8) : (word32 b0 b1 b2 b3).toNat =
    b0.toNat + 256 * b1.toNat + 65536 * b2.toNat + 16777216 * b3.toNat := by
  have h0 := b0.toNat_lt
  have h1 := b1.toNat_lt
  have h2 := b2.toNat_lt
  have h3 := b3.toNat_lt
  simp only [word32,UInt32.toNat_ofNat']
  omega

@[simp] theorem byteOf_word16 (b0 b1 : UInt8) :
    byteOf (word16 b0 b1).toNat 0 = b0 ∧ byteOf (word16 b0 b1).toNat 1 = b1 := by
  have h0 := b0.toNat_lt
  have h1 := b1.toNat_lt
  constructor <;> apply UInt8.toNat_inj.mp <;> rw [byteOf_toNat,word16_toNat] <;> omega

@[simp] theorem byteOf_word32 (b0 b1 b2 b3 : UInt8) :
    byteOf (word32 b0 b1 b2 b3).toNat 0 = b0 ∧ byteOf (word32 b0 b1 b2 b3).toNat 1 = b1 ∧
      byteOf (word32 b0 b1 b2 b3).toNat 2 = b2 ∧ byteOf (word32 b0 b1 b2 b3).toNat 3 = b3 := by
  have h0 := b0.toNat_lt
  have h1 := b1.toNat_lt
  have h2 := b2.toNat_lt
  have h3 := b3.toNat_lt
  refine ⟨?_,?_,?_,?_⟩ <;> apply UInt8.toNat_inj.mp <;> rw [byteOf_toNat,word32_toNat] <;> omega

@[simp] theorem word16_bytes (x : UInt16) : word16 (byteOf x.toNat 0) (byteOf x.toNat 1) = x := by
  have h := x.toNat_lt
  apply UInt16.toNat_inj.mp
  rw [word16_toNat,byteOf_toNat,byteOf_toNat]
  omega

@[simp] theorem word32_bytes (x : UInt32) :
    word32 (byteOf x.toNat 0) (byteOf x.toNat 1) (byteOf x.toNat 2) (byteOf x.toNat 3) = x := by
  have h := x.toNat_lt
  apply UInt32.toNat_inj.mp
  rw [word32_toNat,byteOf_toNat,byteOf_toNat,byteOf_toNat,byteOf_toNat]
  omega

@[simp] theorem swap16_swap16 (x : UInt16) : swap16 (swap16 x) = x := by
  simp [swap16]

@[simp] theorem swap32_swap32 (x : UInt32) : swap32 (swap32 x) = x := by
  simp [swap32]

theorem swap16_eq_zero {x : UInt16} : swap16 x = 0 ↔ x = 0 := by
  constructor
  · intro zero
    rw [← swap16_swap16 x,zero]
    decide
  · rintro rfl
    decide

@[simp] theorem slice_length {n : Nat} (b : Block n) (off len : Nat) : (slice b off len).length = len := by
  simp [slice]

theorem slice_getElem? {n : Nat} (b : Block n) (off len i : Nat) (inside : i < len) :
    (slice b off len)[i]? = some (byteAt b (off + i)) := by
  simp [slice,inside]

theorem slice_congr {n m : Nat} (a : Block n) (b : Block m) (off off' len : Nat)
    (same : ∀ i < len, byteAt a (off + i) = byteAt b (off' + i)) : slice a off len = slice b off' len := by
  apply List.map_congr_left
  intro i member
  exact same i (List.mem_range.mp member)

theorem slice_append {n : Nat} (b : Block n) (off len more : Nat) :
    slice b off (len + more) = slice b off len ++ slice b (off + len) more := by
  simp [slice,List.range_add,Nat.add_assoc,Function.comp_def]

theorem slice_take {n : Nat} (b : Block n) (off len k : Nat) (bound : k ≤ len) :
    (slice b off len).take k = slice b off k := by
  obtain ⟨more,rfl⟩ := Nat.exists_eq_add_of_le bound
  rw [slice_append]
  simp

theorem byteAt_of_lt {n : Nat} (b : Block n) {i : Nat} (inside : i < n) : byteAt b i = b ⟨i,inside⟩ := by
  simp [byteAt,inside]

theorem byteAt_blit {n : Nat} (b : Block n) (off : Nat) (bytes : List UInt8) {i : Nat} (inside : i < n) :
    byteAt (blit b off bytes) i = if i < off then byteAt b i else (bytes[i - off]?).getD (byteAt b i) := by
  simp [byteAt_of_lt _ inside,blit]

theorem byteAt_blit_before {n : Nat} (b : Block n) (off : Nat) (bytes : List UInt8) {i : Nat}
    (before : i < off) : byteAt (blit b off bytes) i = byteAt b i := by
  by_cases inside : i < n
  · rw [byteAt_blit b off bytes inside,if_pos before]
  · simp [byteAt,inside]

theorem byteAt_blit_after {n : Nat} (b : Block n) (off : Nat) (bytes : List UInt8) {i : Nat}
    (after : off + bytes.length ≤ i) : byteAt (blit b off bytes) i = byteAt b i := by
  by_cases inside : i < n
  · have absent : bytes[i - off]? = none := List.getElem?_eq_none (by omega)
    rw [byteAt_blit b off bytes inside,if_neg (by omega),absent,Option.getD_none]
  · simp [byteAt,inside]

theorem slice_blit {n : Nat} (b : Block n) (off : Nat) (bytes : List UInt8)
    (inside : off + bytes.length ≤ n) : slice (blit b off bytes) off bytes.length = bytes := by
  apply List.ext_getElem
  · simp
  · intro i left right
    simp only [slice,List.getElem_map,List.getElem_range]
    rw [byteAt_blit b off bytes (by omega),if_neg (by omega)]
    simp [right]

theorem slice_blit_before {n : Nat} (b : Block n) (off : Nat) (bytes : List UInt8) (start len : Nat)
    (before : start + len ≤ off) : slice (blit b off bytes) start len = slice b start len :=
  slice_congr _ _ _ _ _ (fun i inside => byteAt_blit_before b off bytes (by omega))

theorem wordAt_blit {n : Nat} (b : Block n) (off : Nat) (x : UInt32) (inside : off + 4 ≤ n) :
    wordAt (blit b off (bytes32 x)) off = x := by
  unfold wordAt
  rw [byteAt_blit _ _ _ (by omega),byteAt_blit _ _ _ (by omega),byteAt_blit _ _ _ (by omega),
    byteAt_blit _ _ _ (by omega)]
  simp [bytes32]

theorem wordAt_congr {n m : Nat} (a : Block n) (b : Block m) (off off' : Nat)
    (same : ∀ i < 4, byteAt a (off + i) = byteAt b (off' + i)) : wordAt a off = wordAt b off' := by
  unfold wordAt
  rw [← Nat.add_zero off,← Nat.add_zero off',same 0 (by omega)]
  simp only [Nat.add_zero]
  rw [same 1 (by omega),same 2 (by omega),same 3 (by omega)]

end Trtp.Lib.Bytes
