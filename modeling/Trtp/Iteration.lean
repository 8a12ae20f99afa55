import Trtp.Fifo

/-! The iteration over the packet buffer, foreach_pktbuf and pktbuf_at.
The flag that ends the inner loop of the macro is set once and for all, and the check of
pktbuf_at compares a place in the array with the number of packets. -/
namespace Trtp.Iteration
open Lib.Circular Lib.Queue Packet Process Buffer Fifo

/-- The two loops of foreach_pktbuf over absolute indices; the inner one runs the body, which
is recorded by the place it is run for, while `_iter_keep` is set. The outer one need not
end within `fuel` turns. -/
def foreachLoop (buf : Pktbuf) : Nat → UInt32 → Bool → List UInt32 → Option (Except Halt (List UInt32))
  | 0, _, _, _ => none
  | fuel + 1, idx, keep, visited =>
    if idx = buf.last then some (.ok visited)
    else match pktbufAt buf idx with
    | .error reason => some (.error reason)
    | .ok place => foreachLoop buf fuel (idx + 1) false (if keep then visited ++ [place] else visited)

def foreachPktbuf (buf : Pktbuf) (fuel : Nat) : Option (Except Halt (List UInt32)) :=
  foreachLoop buf fuel buf.first true []

/-- The body is run once for each live packet, in order, and no assertion fails. -/
def Visits (buf : Pktbuf) : Prop := ∃ fuel, foreachPktbuf buf fuel = some (.ok ((List.range buf.size).map buf.slot))

/-- Each live index passes the check of pktbuf_at and leads to its packet. -/
def Covers (buf : Pktbuf) : Prop := ∀ i < buf.size, pktbufAt buf (buf.first + UInt32.ofNat i) = .ok (buf.slot i)

/-- Only live indices pass the check of pktbuf_at. -/
def Bounded (buf : Pktbuf) : Prop :=
  ∀ idx place, pktbufAt buf idx = .ok place → ∃ i < buf.size, idx = buf.first + UInt32.ofNat i

variable {buf : Pktbuf}

theorem pktbufAt_eq (buf : Pktbuf) (idx : UInt32) : pktbufAt buf idx =
    if idx.toNat % buf.capacity.toNat < buf.size then .ok (buf.mask idx) else .error .exit := by
  have test : maskIndex idx buf < pktbufUsed buf ↔ idx.toNat % buf.capacity.toNat < buf.size := by
    rw [UInt32.lt_iff_toNat_lt,maskIndex,buf.mask_toNat]
    rfl
  rw [pktbufAt]
  by_cases inside : idx.toNat % buf.capacity.toNat < buf.size
  · rw [if_pos inside,assertAlways_true (decide_eq_true (test.mpr inside))]
    rfl
  · have refused : assertAlways (decide (maskIndex idx buf < pktbufUsed buf)) = .error .exit :=
      if_neg (by simpa using fun passed => inside (test.mp passed))
    rw [if_neg inside,refused]
    rfl

theorem pktbufAt_ok {idx place : UInt32} (passed : pktbufAt buf idx = .ok place) :
    idx.toNat % buf.capacity.toNat < buf.size := by
  rw [pktbufAt_eq] at passed
  by_contra outside
  rw [if_neg outside] at passed
  contradiction

theorem foreachLoop_ends (buf : Pktbuf) (left : Nat) (idx : UInt32) (keep : Bool) (visited : List UInt32)
    (distance : (buf.last - idx).toNat = left) :
    ∃ result, foreachLoop buf (left + 1) idx keep visited = some result := by
  induction left generalizing idx keep visited with
  | zero =>
    have same : idx = buf.last := by
      have equal : buf.last - idx = 0 := UInt32.toNat_inj.mp distance
      grind
    exact ⟨_,by rw [foreachLoop,if_pos same]⟩
  | succ left ih =>
    have other : idx ≠ buf.last := by
      rintro rfl
      simp at distance
    have least : (1 : UInt32) ≤ buf.last - idx := by
      rw [UInt32.le_iff_toNat_le,distance]
      exact Nat.succ_le_succ (Nat.zero_le _)
    have nearer : (buf.last - (idx + 1)).toNat = left := by
      have moved : buf.last - (idx + 1) = buf.last - idx - 1 := by grind
      rw [moved,UInt32.toNat_sub_of_le _ _ least,distance]
      rfl
    rw [foreachLoop,if_neg other]
    split
    next reason _ => exact ⟨_,rfl⟩
    next place _ => exact ih _ _ _ nearer

theorem foreachLoop_spent {fuel : Nat} {idx : UInt32} {visited last : List UInt32}
    (ended : foreachLoop buf fuel idx false visited = some (.ok last)) : last = visited := by
  induction fuel generalizing idx with
  | zero => contradiction
  | succ fuel ih =>
    rw [foreachLoop] at ended
    split at ended
    next => exact (Except.ok.inj (Option.some.inj ended)).symm
    next =>
      split at ended
      next => simp at ended
      next => exact ih ended

theorem firstItem_toNat (buf : Pktbuf) : (firstItem buf).toNat = buf.first.toNat % buf.capacity.toNat :=
  buf.mask_toNat buf.first

theorem visits_iff (buf : Pktbuf) : Visits buf ↔ buf.size = 0 ∨ buf.size = 1 ∧ firstItem buf = 0 := by
  constructor
  · rintro ⟨fuel,ended⟩
    rcases Nat.eq_zero_or_pos buf.size with none | some
    · exact Or.inl none
    · have other : buf.first ≠ buf.last := fun same => by
        rw [buf.size_eq_zero.mpr same] at some
        contradiction
      cases fuel with
      | zero => contradiction
      | succ fuel =>
        rw [foreachPktbuf,foreachLoop,if_neg other] at ended
        split at ended
        next => simp at ended
        next place passed =>
          have once := congrArg List.length (foreachLoop_spent ended)
          have single : buf.size = 1 := by simpa using once
          have front := pktbufAt_ok passed
          refine Or.inr ⟨single,UInt32.toNat_inj.mp ?_⟩
          rw [firstItem_toNat]
          exact Nat.lt_one_iff.mp (by omega)
  · rintro (none | ⟨single,front⟩)
    · refine ⟨1,?_⟩
      rw [foreachPktbuf,foreachLoop,if_pos (buf.size_eq_zero.mp none),none]
      rfl
    · have other : buf.first ≠ buf.last := fun same => by
        rw [buf.size_eq_zero.mpr same] at single
        contradiction
      have inside : buf.first.toNat % buf.capacity.toNat < buf.size := by
        rw [← firstItem_toNat,front,single]
        decide
      have stop : buf.first + 1 = buf.last := by
        have distance : buf.last - buf.first = 1 := UInt32.toNat_inj.mp single
        grind
      refine ⟨2,?_⟩
      rw [foreachPktbuf,foreachLoop,if_neg other,pktbufAt_eq,if_pos inside]
      simp only [foreachLoop,if_pos stop,if_true,List.nil_append]
      rw [single,← buf.slot_zero]
      rfl

theorem covers_iff (fits : buf.size ≤ buf.capacity.toNat) :
    Covers buf ↔ buf.size = 0 ∨ firstItem buf = 0 ∨ pktbufFull buf = true := by
  have positive := buf.capacity_pos
  have start := firstItem_toNat buf
  have place (i : Nat) : (buf.first + UInt32.ofNat i).toNat % buf.capacity.toNat =
      ((firstItem buf).toNat + i) % buf.capacity.toNat := by
    rw [← buf.mask_toNat,start,Nat.mod_add_mod]
    exact buf.slot_toNat i
  have first : (firstItem buf).toNat < buf.capacity.toNat := by
    rw [start]
    exact Nat.mod_lt _ positive
  constructor
  · intro covers
    by_contra neither
    obtain ⟨some,turned,room⟩ : buf.size ≠ 0 ∧ firstItem buf ≠ 0 ∧ ¬ pktbufFull buf = true := by
      simpa only [not_or] using neither
    rw [pktbufFull_iff] at room
    have moved : (firstItem buf).toNat ≠ 0 := fun zero => turned (UInt32.toNat_inj.mp zero)
    -- A live packet whose place is not below the number of packets: the first one, or
    -- the one that lies exactly at that number.
    rcases Nat.lt_or_ge (firstItem buf).toNat buf.size with below | beyond
    · have passed := pktbufAt_ok (covers (buf.size - (firstItem buf).toNat) (by omega))
      rw [place,Nat.mod_eq_of_lt (by omega)] at passed
      omega
    · have passed := pktbufAt_ok (covers 0 (by omega))
      rw [place,Nat.mod_eq_of_lt (by omega)] at passed
      omega
  · intro either i inside
    have within : (buf.first + UInt32.ofNat i).toNat % buf.capacity.toNat < buf.size := by
      rw [place]
      rcases either with none | front | full
      · omega
      · rw [front,UInt32.toNat_zero,Nat.zero_add,Nat.mod_eq_of_lt (by omega)]
        exact inside
      · have all := (pktbufFull_iff buf).mp full
        exact Nat.lt_of_lt_of_le (Nat.mod_lt _ positive) all
    rw [pktbufAt_eq,if_pos within]
    rfl

theorem bounded_iff (fits : buf.size ≤ buf.capacity.toNat) : Bounded buf ↔ buf.size = 0 := by
  have positive := buf.capacity_pos
  have limit := buf.capacity_le
  constructor
  · intro bounded
    by_contra some
    -- An index that stands for place 0, and the same one a full turn later.
    have passes (n : Nat) : pktbufAt buf (UInt32.ofNat (n * buf.capacity.toNat)) =
        .ok (buf.mask (UInt32.ofNat (n * buf.capacity.toNat))) := by
      have front : (UInt32.ofNat (n * buf.capacity.toNat)).toNat % buf.capacity.toNat = 0 := by
        rw [← buf.mask_toNat,buf.mask_ofNat,Nat.mul_mod_left]
      rw [pktbufAt_eq,if_pos (by omega)]
    obtain ⟨i,inside,first⟩ := bounded _ _ (passes 0)
    obtain ⟨j,within,second⟩ := bounded _ _ (passes 1)
    have apart : UInt32.ofNat (j + 0) = UInt32.ofNat (i + buf.capacity.toNat) := by
      rw [UInt32.ofNat_add,UInt32.ofNat_add]
      simp only [Nat.zero_mul,Nat.one_mul] at first second
      grind
    have equal := congrArg UInt32.toNat apart
    rw [UInt32.toNat_ofNat',UInt32.toNat_ofNat'] at equal
    omega
  · intro none idx place passed
    have inside := pktbufAt_ok passed
    omega

/-- In every buffer that calls of pktbuf_enqueue and pktbuf_dequeue lead to, the iteration
ends; it visits all live packets just when there is none, or a single one in the first
place of the array. pktbuf_at finds all live packets just when none is live, when the array
is full or when the first packet is in its first place. -/
theorem foreachPktbuf_iff (h : Host) (capacity : UInt32) (new buf : Pktbuf)
    (made : pktbufNew capacity true = .ok (some new)) (ops : List (Op Pkt)) (admitted : Admits capacity.toNat [] ops)
    (results : List (Option Pkt)) (reached : runAll (perform h) new ops = .ok (results,buf)) :
    (∃ fuel result, foreachPktbuf buf fuel = some result) ∧
    (Visits buf ↔ buf.size = 0 ∨ buf.size = 1 ∧ firstItem buf = 0) ∧
    (Covers buf ↔ buf.size = 0 ∨ firstItem buf = 0 ∨ pktbufFull buf = true) ∧
    (Bounded buf ↔ buf.size = 0) := by
  obtain ⟨last,ended,represents⟩ := runAll_represents (h := h) made admitted
  obtain ⟨_,rfl⟩ := Prod.mk.inj (Except.ok.inj (reached.symm.trans ended))
  have fits : buf.size ≤ buf.capacity.toNat := by
    rw [represents.size,represents.places]
    exact represents.fits
  have ends := foreachLoop_ends buf _ buf.first true [] rfl
  exact ⟨⟨_,ends⟩,visits_iff buf,covers_iff fits,bounded_iff fits⟩

theorem foreachPktbuf_iff_threeThroughTwo : ∃ results buf,
    runAll (perform steadyHost) twoPlaces threeThroughTwo = .ok (results,buf) ∧
      (Visits buf ↔ buf.size = 0 ∨ buf.size = 1 ∧ firstItem buf = 0) := by
  obtain ⟨buf,ended,_⟩ := runAll_represents (h := steadyHost) twoPlaces_new threeThroughTwo_admitted
  exact ⟨_,buf,ended,
    (foreachPktbuf_iff steadyHost 2 twoPlaces buf twoPlaces_new threeThroughTwo threeThroughTwo_admitted _ ended).2.1⟩

theorem foreachPktbuf_once : ¬ ∀ (h : Host) (capacity : UInt32) (new buf : Pktbuf) (ops : List (Op Pkt))
    (results : List (Option Pkt)), pktbufNew capacity true = .ok (some new) → Admits capacity.toNat [] ops →
    runAll (perform h) new ops = .ok (results,buf) → Visits buf := by
  intro claim
  let ops : List (Op Pkt) := [.enqueue (numbered 0),.enqueue (numbered 1)]
  have admitted : Admits (2 : UInt32).toNat [] ops := ⟨Nat.zero_lt_two,Nat.one_lt_two,trivial⟩
  obtain ⟨buf,ended,represents⟩ := runAll_represents (h := steadyHost) twoPlaces_new admitted
  have size : buf.size = 2 := represents.size
  rcases (visits_iff buf).mp (claim steadyHost 2 twoPlaces buf ops _ twoPlaces_new admitted ended) with none | single
  · omega
  · omega

end Trtp.Iteration
