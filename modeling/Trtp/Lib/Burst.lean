import Mathlib.Data.List.Basic
import Mathlib.Data.Nat.Bitwise
import Trtp.Lib.Crc

/-! Error bursts against a reflected CRC of any width whose polynomial has its top
bit set. A step of the register is linear, so that two messages leave different
registers exactly when their difference, fed to an empty register, does not vanish;
and a burst no longer than the register cannot be shifted out of it. -/
namespace Trtp.Lib.Burst

section Register

variable {w : Nat} (poly : BitVec w)

def shift (s : BitVec w) : BitVec w := if s.getLsbD 0 then (s >>> 1) ^^^ poly else s >>> 1

def bitWord (b : Bool) : BitVec w := (BitVec.ofBool b).setWidth w

def feed (s : BitVec w) (bits : List Bool) : BitVec w :=
  bits.foldl (fun s b => shift poly (s ^^^ bitWord b)) s

def shifts : Nat → BitVec w → BitVec w
  | 0, s => s
  | n + 1, s => shifts n (shift poly s)

/-- The register holds a bit that `m` steps do not bring to its low end. -/
def High (m : Nat) (s : BitVec w) : Prop := ∃ k, m ≤ k ∧ s.getLsbD k = true

variable {poly}

theorem getLsbD_shift (s : BitVec w) (i : Nat) :
    (shift poly s).getLsbD i = (s.getLsbD (i + 1) ^^ (s.getLsbD 0 && poly.getLsbD i)) := by
  unfold shift
  split
  next low => simp [low,Nat.add_comm]
  next low => simp [low,Nat.add_comm]

theorem getLsbD_bitWord (b : Bool) (i : Nat) : (bitWord b : BitVec w).getLsbD (i + 1) = false := by
  simp [bitWord]

theorem bitWord_false : (bitWord false : BitVec w) = 0 := by
  apply BitVec.eq_of_getLsbD_eq
  intro i _
  simp [bitWord]

theorem shift_xor (s t : BitVec w) : shift poly (s ^^^ t) = shift poly s ^^^ shift poly t := by
  apply BitVec.eq_of_getLsbD_eq
  intro i _
  simp only [BitVec.getLsbD_xor,getLsbD_shift]
  cases s.getLsbD 0 <;> cases t.getLsbD 0 <;> cases s.getLsbD (i + 1) <;> cases t.getLsbD (i + 1) <;>
    cases poly.getLsbD i <;> rfl

theorem shift_zero : shift poly 0 = 0 := by
  apply BitVec.eq_of_getLsbD_eq
  intro i _
  simp [getLsbD_shift]

theorem bitWord_xor (a b : Bool) : (bitWord (a ^^ b) : BitVec w) = bitWord a ^^^ bitWord b := by
  apply BitVec.eq_of_getLsbD_eq
  intro i _
  cases a <;> cases b <;> simp [bitWord]

/-- What two messages leave differs by what their difference leaves. -/
theorem feed_xor (s t : BitVec w) {a b : List Bool} (same : a.length = b.length) :
    feed poly s a ^^^ feed poly t b = feed poly (s ^^^ t) (List.zipWith (· ^^ ·) a b) := by
  induction a generalizing s t b with
  | nil =>
    obtain rfl := List.length_eq_zero_iff.mp same.symm
    rfl
  | cons x a ih =>
    obtain _ | ⟨y,b⟩ := b
    · contradiction
    · have regrouped : shift poly (s ^^^ bitWord x) ^^^ shift poly (t ^^^ bitWord y) =
          shift poly (s ^^^ t ^^^ bitWord (x ^^ y)) := by
        rw [← shift_xor,bitWord_xor]
        congr 1
        ac_rfl
      have rest := ih (shift poly (s ^^^ bitWord x)) (shift poly (t ^^^ bitWord y)) (Nat.succ.inj same)
      rw [regrouped] at rest
      exact rest

theorem High.load {m : Nat} {s : BitVec w} (high : High m s) {b : Bool} (clear : m = 0 → b = false) :
    High m (s ^^^ bitWord b) := by
  obtain ⟨k,beyond,set⟩ := high
  refine ⟨k,beyond,?_⟩
  obtain _ | k := k
  · rw [clear (by omega),bitWord_false]
    simpa using set
  · rw [BitVec.getLsbD_xor,getLsbD_bitWord,set]
    rfl

theorem High.shift (top : poly.getLsbD (w - 1) = true) {m : Nat} (fits : m ≤ w) {s : BitVec w} (high : High m s) :
    High (m - 1) (shift poly s) := by
  cases low : s.getLsbD 0 with
  | true =>
    -- The polynomial sets the top bit, which the shift has left clear.
    refine ⟨w - 1,by omega,?_⟩
    rw [getLsbD_shift,BitVec.getLsbD_of_ge s (w - 1 + 1) (by omega),low,top]
    rfl
  | false =>
    obtain ⟨k,beyond,set⟩ := high
    obtain _ | k := k
    · rw [low] at set
      contradiction
    · refine ⟨k,by omega,?_⟩
      rw [getLsbD_shift,set,low]
      rfl

/-- A bit above the rest of the burst is never shifted out. -/
theorem High.feed (top : poly.getLsbD (w - 1) = true) {m : Nat} (fits : m ≤ w) {s : BitVec w} (high : High m s)
    {bits : List Bool} (near : ∀ i, bits[i]? = some true → i < m) : feed poly s bits ≠ 0 := by
  induction bits generalizing m s with
  | nil =>
    obtain ⟨k,_,set⟩ := high
    change s ≠ 0
    rintro rfl
    simp at set
  | cons b bits ih =>
    have clear (vanished : m = 0) : b = false := by
      subst vanished
      cases b with
      | false => rfl
      | true => exact absurd (near 0 rfl) (Nat.not_lt_zero 0)
    refine ih (by omega) ((high.load clear).shift top fits) ?_
    intro i set
    have before := near (i + 1) set
    omega

/-- A burst within the width of the register leaves a trace in it. -/
theorem feed_burst (top : poly.getLsbD (w - 1) = true) {bits : List Bool} {start : Nat} (present : true ∈ bits)
    (near : ∀ i, bits[i]? = some true → start ≤ i ∧ i < start + w) : feed poly 0 bits ≠ 0 := by
  induction bits generalizing start with
  | nil => contradiction
  | cons b bits ih =>
    cases b with
    | false =>
      have idle : shift poly (0 ^^^ bitWord false) = 0 := by
        rw [bitWord_false]
        exact (congrArg (shift poly) BitVec.xor_zero).trans shift_zero
      change feed poly (shift poly (0 ^^^ bitWord false)) bits ≠ 0
      rw [idle]
      refine @ih (start - 1) (by simpa using present) ?_
      intro i set
      have inside := near (i + 1) set
      omega
    | true =>
      have first := near 0 rfl
      have low : ((0 : BitVec w) ^^^ bitWord true).getLsbD 0 = true := by
        simp [bitWord]
        omega
      have entered : High (w - 1) (shift poly (0 ^^^ bitWord true)) := by
        refine ⟨w - 1,Nat.le_refl _,?_⟩
        rw [getLsbD_shift,low,top,BitVec.getLsbD_of_ge _ (w - 1 + 1) (by omega)]
        rfl
      refine entered.feed top (Nat.sub_le w 1) ?_
      intro i set
      have inside := near (i + 1) set
      omega

/-- Several bits at once, as a table-driven implementation takes them. -/
theorem shifts_xor (n : Nat) (s v : BitVec w) (short : ∀ i, n ≤ i → v.getLsbD i = false) :
    shifts poly n (s ^^^ v) = feed poly s ((List.range n).map v.getLsbD) := by
  induction n generalizing s v with
  | zero =>
    have empty : v = 0 := by
      apply BitVec.eq_of_getLsbD_eq
      intro i _
      rw [short i (Nat.zero_le i)]
      simp
    rw [empty]
    exact BitVec.xor_zero
  | succ n ih =>
    have parted : shift poly (s ^^^ v) = shift poly (s ^^^ bitWord (v.getLsbD 0)) ^^^ (v >>> 1) := by
      apply BitVec.eq_of_getLsbD_eq
      intro i _
      have entered : (bitWord (v.getLsbD 0) : BitVec w).getLsbD 0 = v.getLsbD 0 := by
        rcases Nat.eq_zero_or_pos w with rfl | wide
        · simp
        · simp [bitWord,wide]
      simp only [BitVec.getLsbD_xor,getLsbD_shift,getLsbD_bitWord,entered,BitVec.getLsbD_ushiftRight,
        Nat.add_comm 1 i,Bool.xor_false]
      cases s.getLsbD (i + 1) <;> cases v.getLsbD (i + 1) <;>
        cases ((s.getLsbD 0 ^^ v.getLsbD 0) && poly.getLsbD i) <;> rfl
    have rest := ih (shift poly (s ^^^ bitWord (v.getLsbD 0))) (v >>> 1) (by
      intro i beyond
      rw [BitVec.getLsbD_ushiftRight]
      exact short (1 + i) (by omega))
    have later : (List.range n).map (v >>> 1).getLsbD = ((List.range n).map Nat.succ).map v.getLsbD := by
      rw [List.map_map]
      apply List.map_congr_left
      intro i _
      rw [BitVec.getLsbD_ushiftRight,Nat.add_comm]
      rfl
    rw [shifts,parted,rest,later,List.range_succ_eq_map]
    rfl

end Register

def bitAt (data : List UInt8) (i : Nat) : Bool := (data.getD (i / 8) 0).toNat.testBit (i % 8)

def bits (data : List UInt8) : List Bool := (List.range (8 * data.length)).map (bitAt data)

/-- `b` is `a` after one burst of errors that spans at most `size` bits. -/
structure Garbled (size : Nat) (a b : List UInt8) : Prop where
  length : b.length = a.length
  differ : b ≠ a
  near : ∃ start, ∀ i, bitAt b i ≠ bitAt a i → start ≤ i ∧ i < start + size

variable {a b : List UInt8}

theorem bitAt_take {n i : Nat} (inside : i < 8 * n) : bitAt (a.take n) i = bitAt a i := by
  have before : i / 8 < n := by omega
  simp only [bitAt,List.getD_eq_getElem?_getD,List.getElem?_take,if_pos before]

theorem bitAt_drop (n i : Nat) : bitAt (a.drop n) i = bitAt a (8 * n + i) := by
  have place : (8 * n + i) / 8 = n + i / 8 ∧ (8 * n + i) % 8 = i % 8 := by omega
  simp only [bitAt,List.getD_eq_getElem?_getD,List.getElem?_drop,place.1,place.2]

theorem byte_ext {x y : UInt8} (same : ∀ i < 8, x.toNat.testBit i = y.toNat.testBit i) : x = y := by
  apply UInt8.toNat_inj.mp
  apply Nat.eq_of_testBit_eq
  intro i
  rcases Nat.lt_or_ge i 8 with low | high
  · exact same i low
  · have bound : 2 ^ 8 ≤ 2 ^ i := Nat.pow_le_pow_right (by omega) high
    rw [Nat.testBit_lt_two_pow (Nat.lt_of_lt_of_le x.toNat_lt bound),
      Nat.testBit_lt_two_pow (Nat.lt_of_lt_of_le y.toNat_lt bound)]

theorem bitAt_ext (length : a.length = b.length) (same : ∀ i < 8 * a.length, bitAt a i = bitAt b i) : a = b := by
  apply List.ext_getElem length
  intro n left right
  apply byte_ext
  intro i inside
  have bit := same (8 * n + i) (by omega)
  have place : (8 * n + i) / 8 = n ∧ (8 * n + i) % 8 = i := by omega
  rwa [bitAt,bitAt,place.1,place.2,List.getD_eq_getElem _ _ left,List.getD_eq_getElem _ _ right] at bit

theorem getD_eq_of_bits {n : Nat} (same : ∀ i < 8, bitAt b (8 * n + i) = bitAt a (8 * n + i)) :
    b.getD n 0 = a.getD n 0 := by
  apply byte_ext
  intro i inside
  have bit := same i inside
  have place : (8 * n + i) / 8 = n ∧ (8 * n + i) % 8 = i := by omega
  rwa [bitAt,bitAt,place.1,place.2] at bit

theorem bitAt_congr {i : Nat} (same : b.getD (i / 8) 0 = a.getD (i / 8) 0) : bitAt b i = bitAt a i := by
  rw [bitAt,bitAt,same]

/-- What a burst leaves in a part of the message. -/
theorem Garbled.part {size : Nat} {c d : List UInt8} (garbled : Garbled size a b) (off : Nat)
    (length : d.length = c.length) (differ : d ≠ c)
    (inside : ∀ i, bitAt d i ≠ bitAt c i → bitAt b (off + i) ≠ bitAt a (off + i)) :
    Garbled size c d := by
  obtain ⟨_,_,start,near⟩ := garbled
  refine ⟨length,differ,start - off,?_⟩
  intro i changed
  have bounds := near (off + i) (inside i changed)
  omega

theorem bits_cons (x : UInt8) (data : List UInt8) :
    bits (x :: data) = (List.range 8).map x.toBitVec.getLsbD ++ bits data := by
  have total : 8 * (x :: data).length = 8 + 8 * data.length := by
    rw [List.length_cons]
    omega
  rw [bits,total,List.range_add,List.map_append,List.map_map,bits]
  congr 1
  apply List.map_congr_left
  intro i _
  have place : (8 + i) / 8 = i / 8 + 1 ∧ (8 + i) % 8 = i % 8 := by omega
  rw [Function.comp,bitAt,bitAt,place.1,place.2]
  rfl

def poly32 : BitVec 32 := 0xEDB88320

theorem shiftBit_toBitVec (crc : UInt32) : (Crc.shiftBit crc).toBitVec = shift poly32 crc.toBitVec := by
  have low : crc &&& 1 = 1 ↔ crc.toBitVec.getLsbD 0 = true := by
    rw [← UInt32.toBitVec_inj,UInt32.toBitVec_and,BitVec.getLsbD,Nat.testBit_zero,decide_eq_true_eq]
    rw [← BitVec.toNat_inj,BitVec.toNat_and]
    change crc.toNat &&& 1 = 1 ↔ _
    rw [Nat.and_one_is_mod]
    rfl
  unfold Crc.shiftBit shift
  by_cases set : crc &&& 1 = 1
  · rw [if_pos set,if_pos (low.mp set)]
    rfl
  · rw [if_neg set,if_neg (fun odd => set (low.mpr odd))]
    rfl

theorem feedByte_toBitVec (crc : UInt32) (x : UInt8) : (Crc.feedByte crc x).toBitVec =
    feed poly32 crc.toBitVec ((List.range 8).map x.toBitVec.getLsbD) := by
  have wide : (List.range 8).map x.toBitVec.getLsbD = (List.range 8).map (x.toUInt32.toBitVec).getLsbD := by
    apply List.map_congr_left
    intro i member
    have inside := List.mem_range.mp member
    rw [UInt8.toBitVec_toUInt32,BitVec.getLsbD_setWidth]
    simp
    omega
  rw [wide,← shifts_xor]
  · simp only [Crc.feedByte,shifts,← shiftBit_toBitVec,← UInt32.toBitVec_xor]
    rfl
  · intro i beyond
    rw [UInt8.toBitVec_toUInt32,BitVec.getLsbD_setWidth,BitVec.getLsbD_of_ge _ i beyond,Bool.and_false]

theorem feedBytes_toBitVec (data : List UInt8) (crc : UInt32) :
    (data.foldl Crc.feedByte crc).toBitVec = feed poly32 crc.toBitVec (bits data) := by
  induction data generalizing crc with
  | nil => rfl
  | cons x data ih =>
    rw [List.foldl_cons,ih,feedByte_toBitVec,bits_cons,feed,feed,feed,List.foldl_append]

/-- CRC-32 detects every error burst of at most 32 bits. -/
theorem crc32_burst (garbled : Garbled 32 a b) : Crc.crc32 b ≠ Crc.crc32 a := by
  obtain ⟨length,differ,start,near⟩ := garbled
  intro same
  have registers : b.foldl Crc.feedByte 0xFFFFFFFF = a.foldl Crc.feedByte 0xFFFFFFFF := by
    have cancelled := congrArg (· ^^^ (0xFFFFFFFF : UInt32)) same
    simpa [Crc.crc32,UInt32.xor_assoc] using cancelled
  have equal := congrArg UInt32.toBitVec registers
  rw [feedBytes_toBitVec,feedBytes_toBitVec] at equal
  have lengths : (bits b).length = (bits a).length := by simp [bits,length]
  have found {i : Nat} {x : Bool} (set : (List.zipWith (· ^^ ·) (bits b) (bits a))[i]? = some x) :
      x = (bitAt b i ^^ bitAt a i) := by
    obtain ⟨inside,value⟩ := List.getElem?_eq_some_iff.mp set
    simp only [List.getElem_zipWith,bits,List.getElem_map,List.getElem_range] at value
    exact value.symm
  have vanished : feed poly32 0 (List.zipWith (· ^^ ·) (bits b) (bits a)) = 0 := by
    have difference := @feed_xor 32 poly32 (UInt32.toBitVec 0xFFFFFFFF) (UInt32.toBitVec 0xFFFFFFFF) _ _ lengths
    rw [equal,BitVec.xor_self,BitVec.xor_self] at difference
    exact difference.symm
  refine @feed_burst 32 poly32 (by decide) _ start ?_ ?_ vanished
  · by_contra absent
    apply differ
    apply bitAt_ext length
    intro i inside
    rw [length] at inside
    have held : (List.zipWith (· ^^ ·) (bits b) (bits a))[i]? = some (bitAt b i ^^ bitAt a i) := by
      simp [bits,inside,length]
    cases changed : bitAt b i ^^ bitAt a i with
    | false => exact bne_eq_false_iff_eq.mp changed
    | true =>
      rw [changed] at held
      exact absurd (List.mem_of_getElem? held) absent
  · intro i set
    apply near
    intro unchanged
    have value := found set
    rw [unchanged,Bool.xor_self] at value
    contradiction

end Trtp.Lib.Burst
