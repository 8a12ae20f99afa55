import Mathlib.Data.Nat.Init
import Mathlib.Tactic.Linarith

/-! Serial numbers: unbounded counts seen through eight bits.
A serial number determines the count it stands for as soon as the count is
known to lie within 200 of a reference point and inside a small window. -/
namespace Trtp.Lib.Serial

/-- The serial number of a count. -/
def serial (n : Nat) : UInt8 := UInt8.ofNat n

/-- Two counts are near when they differ by at most 200. -/
def Near (a b : Nat) : Prop := a ≤ b + 200 ∧ b ≤ a + 200

instance (a b : Nat) : Decidable (Near a b) := inferInstanceAs (Decidable (_ ∧ _))

theorem serial_toNat (n : Nat) : (serial n).toNat = n % 256 := by
  simp [serial]

@[simp] theorem serial_succ (n : Nat) : serial n + 1 = serial (n + 1) := by
  simp [serial]

theorem serial_add (n : Nat) (k : UInt8) : serial n + k = serial (n + k.toNat) := by
  simp [serial]

theorem serial_eq_iff {a b : Nat} : serial a = serial b ↔ a % 256 = b % 256 := by
  rw [← UInt8.toNat_inj,serial_toNat,serial_toNat]

theorem serial_sub {a b : Nat} (ordered : b ≤ a) (close : a < b + 256) :
    (serial a - serial b).toNat = a - b := by
  rw [UInt8.toNat_sub,serial_toNat,serial_toNat]
  omega

/-- A near count whose serial number falls in a window of at most 55 numbers
lies in that window itself. -/
theorem near_window {a b w : Nat} (near : Near a b) (inside : (serial a - serial b).toNat ≤ w)
    (small : w ≤ 55) : b ≤ a ∧ a ≤ b + w := by
  rw [UInt8.toNat_sub,serial_toNat,serial_toNat] at inside
  obtain ⟨above,below⟩ := near
  omega

theorem near_gap {a b w : Nat} (near : Near a b) (inside : (serial a - serial b).toNat ≤ w)
    (small : w ≤ 55) : a = b + (serial a - serial b).toNat := by
  obtain ⟨ordered,bound⟩ := near_window near inside small
  rw [serial_sub ordered (by omega)]
  omega

theorem serial_offset (x : UInt8) (b : Nat) : serial (b + (x - serial b).toNat) = x := by
  rw [← serial_add]
  grind

/-- Of the counts with the serial number `x`, the one closest to a reference point. -/
def nearest (base : Nat) (x : UInt8) : Nat :=
  let back := (serial base - x).toNat
  if back ≤ base ∧ back < 128 then base - back else base + (x - serial base).toNat

@[simp] theorem serial_nearest (base : Nat) (x : UInt8) : serial (nearest base x) = x := by
  unfold nearest
  dsimp only
  split
  next behind =>
    have sum : serial (base - (serial base - x).toNat) + (serial base - x) = serial base := by
      rw [serial_add,Nat.sub_add_cancel behind.1]
    grind
  next => exact serial_offset x base

/-- A count is the nearest one to every reference point less than half a round away. -/
theorem nearest_serial {base n : Nat} (above : n ≤ base + 127) (below : base ≤ n + 127) :
    nearest base (serial n) = n := by
  have back : (serial base - serial n).toNat = (256 - n % 256 + base % 256) % 256 := by
    rw [UInt8.toNat_sub,serial_toNat,serial_toNat]
  have ahead : (serial n - serial base).toNat = (256 - base % 256 + n % 256) % 256 := by
    rw [UInt8.toNat_sub,serial_toNat,serial_toNat]
  unfold nearest
  dsimp only
  rw [back,ahead]
  split <;> omega

end Trtp.Lib.Serial
