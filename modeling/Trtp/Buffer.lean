import Trtp.Process
import Trtp.Lib.Circular
import Trtp.Lib.Mask
import Trtp.Lib.Serial
import Trtp.Packet

/-! The packet buffer of pktbuf.h and pktbuf.c.
A pointer to a packet of the buffer is its index in the array, a NULL pointer
is `none`, and a failed assertion ends the process. -/
namespace Trtp.Buffer
open Lib.Circular Lib.Mask Lib.Serial Packet Process

abbrev Pktbuf := CircularArray Pkt

def setSeq (buf : Pktbuf) (i : UInt32) (seq : UInt8) : Pktbuf :=
  buf.put i { buf.head i with seq := seq }

/-- `memory` tells whether calloc finds the memory. -/
def pktbufNew (capacity : UInt32) (memory : Bool) : Except Halt (Option Pktbuf) :=
  if single : popcount capacity = 1 then
    if small : capacity.toNat ≤ 4294967295 / 2 then
      let pow2 := by
        obtain ⟨k,_,power⟩ := two_pow_of_popcount_eq_one single
        refine ⟨k,?_,power⟩
        by_contra large
        have least : 2 ^ 31 ≤ 2 ^ k := Nat.pow_le_pow_right (by omega) (by omega)
        omega
      .ok (if memory then some ⟨0,0,capacity,fun _ => Pkt.zero,pow2⟩ else none)
    else .error .exit
  else .error .exit

def pktbufEmpty (buf : Pktbuf) : Bool := buf.first == buf.last
def pktbufUsed (buf : Pktbuf) : UInt32 := buf.used
def pktbufFreeslots (buf : Pktbuf) : UInt32 := buf.capacity - pktbufUsed buf
def pktbufFull (buf : Pktbuf) : Bool := pktbufUsed buf ≥ buf.capacity

def maskIndex (i : UInt32) (buf : Pktbuf) : UInt32 := buf.mask i
def firstItem (buf : Pktbuf) : UInt32 := maskIndex buf.first buf
def lastItem (buf : Pktbuf) : UInt32 := maskIndex (buf.last - 1) buf
def bufGet (idx : UInt32) (buf : Pktbuf) : UInt32 := maskIndex idx buf

def pktbufFirst (buf : Pktbuf) : Option UInt32 :=
  if !pktbufEmpty buf then some (bufGet (firstItem buf) buf) else none

def pktbufLast (buf : Pktbuf) : Option UInt32 :=
  if !pktbufEmpty buf then some (bufGet (lastItem buf) buf) else none

def pktbufDequeue (h : Host) (buf : Pktbuf) : Except Halt (UInt32 × Pktbuf) := do
  assert h (!pktbufEmpty buf)
  return (bufGet buf.first buf,{ buf with first := buf.first + 1 })

def pktbufEnqueue (h : Host) (buf : Pktbuf) : Except Halt (UInt32 × Pktbuf) := do
  assert h (!pktbufFull buf)
  return (bufGet buf.last buf,{ buf with last := buf.last + 1 })

/-- The first place of an empty buffer is the wanted one by definition. -/
def enqueueIfEmpty (h : Host) (buf : Pktbuf) (seqnum : UInt8) : Except Halt Pktbuf :=
  if pktbufEmpty buf then do
    let (i,buf) ← pktbufEnqueue h buf
    return setSeq buf i seqnum
  else return buf

/-- The loop of pktbuf_slotfor_seq that allocates slots up to `offset`. -/
def extendTo (h : Host) (offset firstSeq : UInt8) : Nat → Pktbuf → Except Halt Pktbuf
  | 0, buf => .ok buf
  | fuel + 1, buf =>
    if offset.toUInt32 < pktbufUsed buf then .ok buf
    else do
      let (i,buf) ← pktbufEnqueue h buf
      extendTo h offset firstSeq fuel
        (setSeq buf i (firstSeq.toUInt32 + pktbufUsed buf - 1).toUInt8)

def pktbufSlotforSeq (h : Host) (buf : Pktbuf) (seqnum : UInt8) : Except Halt (UInt32 × Pktbuf) := do
  let buf ← enqueueIfEmpty h buf seqnum
  match pktbufFirst buf with
  | none => .error .segv
  | some front =>
    let firstSeq := (buf.head front).seq
    let offset := seqnum - firstSeq
    assertAlways (offset.toUInt32 ≤ buf.capacity)
    -- The offset is below 256, so that no more turns than this are taken.
    let buf ← extendTo h offset firstSeq 256 buf
    let i := bufGet (firstItem buf + offset.toUInt32) buf
    assert h ((buf.head i).seq == seqnum)
    return (i,buf)

def pktbufAt (buf : Pktbuf) (idx : UInt32) : Except Halt UInt32 := do
  let maskedIdx := maskIndex idx buf
  assertAlways (maskedIdx < pktbufUsed buf)
  return bufGet idx buf

/-- The live packets carry the serial numbers of the counts from `base` on, and
there is a place for each of them. -/
structure Aligned (buf : Pktbuf) (base : Nat) : Prop where
  fits : buf.size ≤ buf.capacity.toNat
  seq : ∀ i < buf.size, (buf.get i).seq = serial (base + i)

/-- The live packets are numbered one after the other, modulo 256. -/
def Consecutive (buf : Pktbuf) : Prop := ∀ i < buf.size, (buf.get i).seq = (buf.get 0).seq + UInt8.ofNat i

theorem serial_seq (seq : UInt8) : serial seq.toNat = seq := by
  simp [serial]

theorem Consecutive.aligned {buf : Pktbuf} (consecutive : Consecutive buf) (fits : buf.size ≤ buf.capacity.toNat) :
    Aligned buf (buf.get 0).seq.toNat := by
  refine ⟨fits,?_⟩
  intro i inside
  rw [consecutive i inside,← serial_seq (buf.get 0).seq]
  simp [serial]

theorem Aligned.consecutive {buf : Pktbuf} {base : Nat} (aligned : Aligned buf base) : Consecutive buf := by
  intro i inside
  rw [aligned.seq i inside,aligned.seq 0 (by omega)]
  simp [serial]

structure Extends (buf more : Pktbuf) : Prop where
  first : more.first = buf.first
  capacity : more.capacity = buf.capacity
  grown : buf.size ≤ more.size
  kept : ∀ i < buf.size, more.get i = buf.get i

theorem Extends.refl (buf : Pktbuf) : Extends buf buf :=
  ⟨rfl,rfl,Nat.le_refl _,fun _ _ => rfl⟩

theorem Extends.trans {buf more most : Pktbuf} (left : Extends buf more) (right : Extends more most) :
    Extends buf most where
  first := right.first.trans left.first
  capacity := right.capacity.trans left.capacity
  grown := Nat.le_trans left.grown right.grown
  kept i inside := (right.kept i (Nat.lt_of_lt_of_le inside left.grown)).trans (left.kept i inside)

theorem Extends.slot {buf more : Pktbuf} (same : Extends buf more) (i : Nat) : more.slot i = buf.slot i := by
  simp only [CircularArray.slot,CircularArray.mask,same.first,same.capacity]

theorem pktbufEmpty_iff (buf : Pktbuf) : pktbufEmpty buf = true ↔ buf.size = 0 := by
  rw [buf.size_eq_zero,pktbufEmpty,beq_iff_eq]

theorem pktbufEmpty_false {buf : Pktbuf} (live : 0 < buf.size) : pktbufEmpty buf = false := by
  rw [Bool.eq_false_iff,ne_eq,pktbufEmpty_iff]
  omega

theorem pktbufFull_iff (buf : Pktbuf) : pktbufFull buf = true ↔ buf.capacity.toNat ≤ buf.size := by
  rw [pktbufFull,decide_eq_true_eq,ge_iff_le,UInt32.le_iff_toNat_le]
  rfl

theorem pktbufFull_false {buf : Pktbuf} (room : buf.size < buf.capacity.toNat) : pktbufFull buf = false := by
  rw [Bool.eq_false_iff,ne_eq,pktbufFull_iff]
  omega

theorem pktbufNew_fields {capacity : UInt32} {buf : Pktbuf} (made : pktbufNew capacity true = .ok (some buf)) :
    buf.first = 0 ∧ buf.last = 0 ∧ buf.capacity = capacity ∧ ∀ i, buf.head i = Pkt.zero := by
  unfold pktbufNew at made
  split at made
  next =>
    split at made
    next =>
      obtain rfl := Option.some.inj (Except.ok.inj made)
      exact ⟨rfl,rfl,rfl,fun _ => rfl⟩
    next => simp at made
  next => simp at made

theorem bufGet_first (buf : Pktbuf) : bufGet (firstItem buf) buf = buf.slot 0 := by
  rw [bufGet,firstItem,maskIndex,maskIndex,buf.mask_mask,buf.slot_zero]

theorem pktbufFirst_live {buf : Pktbuf} (live : 0 < buf.size) : pktbufFirst buf = some (buf.slot 0) := by
  simp [pktbufFirst,pktbufEmpty_false live,bufGet_first]

theorem pktbufFirst_empty {buf : Pktbuf} (empty : buf.size = 0) : pktbufFirst buf = none := by
  simp [pktbufFirst,(pktbufEmpty_iff buf).mpr empty]

theorem pktbufDequeue_live (h : Host) {buf : Pktbuf} (live : 0 < buf.size) :
    pktbufDequeue h buf = .ok (buf.slot 0,buf.pop) := by
  have checked : assert h (!pktbufEmpty buf) = .ok () := assert_true h (by simp [pktbufEmpty_false live])
  rw [pktbufDequeue,checked,buf.slot_zero]
  rfl

theorem pktbufEnqueue_room (h : Host) {buf : Pktbuf} (room : buf.size < buf.capacity.toNat) :
    pktbufEnqueue h buf = .ok (buf.slot buf.size,buf.push) := by
  have checked : assert h (!pktbufFull buf) = .ok () := assert_true h (by simp [pktbufFull_false room])
  rw [pktbufEnqueue,checked,← buf.mask_last]
  rfl

theorem pktbufAt_live {buf : Pktbuf} {i : UInt32} (inside : i < buf.used)
    (fits : buf.size ≤ buf.capacity.toNat) : pktbufAt buf i = .ok i := by
  have place : buf.mask i = i := by
    apply buf.mask_of_lt
    exact Nat.lt_of_lt_of_le (UInt32.lt_iff_toNat_lt.mp inside) fits
  have checked : assertAlways (decide (i < pktbufUsed buf)) = .ok () :=
    assertAlways_true (decide_eq_true inside)
  simp only [pktbufAt,maskIndex,bufGet,place,checked]
  rfl

namespace Aligned

variable {buf : Pktbuf} {base : Nat}

theorem pop (aligned : Aligned buf base) (live : 0 < buf.size) : Aligned buf.pop (base + 1) := by
  have size := buf.size_pop live
  have fits := aligned.fits
  refine ⟨by simp only [CircularArray.pop_capacity]; omega,?_⟩
  intro i inside
  rw [buf.get_pop,aligned.seq (i + 1) (by omega)]
  congr 1
  omega

theorem put (aligned : Aligned buf base) {k : Nat} (inside : k < buf.size) {p : Pkt}
    (seq : p.seq = serial (base + k)) : Aligned (buf.put (buf.slot k) p) base := by
  have fits := aligned.fits
  refine ⟨fits,?_⟩
  intro i bound
  rw [CircularArray.put_size] at bound
  by_cases same : i = k
  · rw [same,buf.get_put,seq]
  · rw [buf.get_put_other p (by omega) (by omega) same]
    exact aligned.seq i bound

theorem push (aligned : Aligned buf base) (room : buf.size < buf.capacity.toNat) {p : Pkt}
    (seq : p.seq = serial (base + buf.size)) : Aligned (buf.push.put (buf.slot buf.size) p) base := by
  have bound := buf.capacity_le
  have size := buf.size_push (by omega)
  refine ⟨by simp only [CircularArray.put_size,CircularArray.put_capacity,CircularArray.push_capacity]; omega,?_⟩
  intro i inside
  rw [CircularArray.put_size,size] at inside
  by_cases last : i = buf.size
  · subst last
    exact (congrArg Pkt.seq (buf.push.get_put p buf.size)).trans seq
  · have other := buf.push.get_put_other p (i := buf.size) (j := i) room (by simp; omega) last
    exact (congrArg Pkt.seq other).trans (aligned.seq i (by omega))

end Aligned

theorem extends_push {buf : Pktbuf} (room : buf.size < buf.capacity.toNat) (p : Pkt) :
    Extends buf (buf.push.put (buf.slot buf.size) p) := by
  have bound := buf.capacity_le
  have size := buf.size_push (by omega)
  refine ⟨rfl,rfl,by rw [CircularArray.put_size]; omega,?_⟩
  intro i inside
  exact buf.push.get_put_other p (i := buf.size) (j := i) room (by simp; omega) (by omega)

theorem reserved_seq {used : UInt32} {base size : Nat} (count : used.toNat = size + 1) :
    ((serial base).toUInt32 + used - 1).toUInt8 = serial (base + size) := by
  have predecessor : (serial base).toUInt32 + used - 1 = (serial base).toUInt32 + (used - 1) := by grind
  have least : (1 : UInt32) ≤ used := by
    rw [UInt32.le_iff_toNat_le,count]
    simp
  apply UInt8.toNat_inj.mp
  rw [predecessor,UInt32.toNat_toUInt8,UInt32.toNat_add,UInt8.toNat_toUInt32,UInt32.toNat_sub_of_le _ _ least,
    count,serial_toNat,serial_toNat,UInt32.toNat_one]
  omega

/-- The loop allocates up to the wanted place, and the new packets continue the numbering. -/
theorem extendTo_reserve (h : Host) {offset : UInt8} {k base : Nat} (wanted : offset.toNat = k) (fuel : Nat)
    (buf : Pktbuf) (aligned : Aligned buf base) (room : k < buf.capacity.toNat)
    (enough : k + 1 ≤ buf.size + fuel) :
    ∃ more, extendTo h offset (serial base) fuel buf = .ok more ∧ Extends buf more ∧
      Aligned more base ∧ more.size = max buf.size (k + 1) ∧ (k < buf.size → more = buf) := by
  induction fuel generalizing buf with
  | zero => exact ⟨buf,rfl,.refl buf,aligned,by omega,fun _ => rfl⟩
  | succ fuel ih =>
    have test : offset.toUInt32 < pktbufUsed buf ↔ k < buf.size := by
      rw [UInt32.lt_iff_toNat_lt,UInt8.toNat_toUInt32,wanted]
      rfl
    unfold extendTo
    by_cases inside : k < buf.size
    · rw [if_pos (test.mpr inside)]
      exact ⟨buf,rfl,.refl buf,aligned,by omega,fun _ => rfl⟩
    · have free : buf.size < buf.capacity.toNat := by omega
      have bound := buf.capacity_le
      have size := buf.size_push (by omega)
      let p : Pkt := { buf.push.head (buf.slot buf.size) with
        seq := ((serial base).toUInt32 + pktbufUsed buf.push - 1).toUInt8 }
      have seq : p.seq = serial (base + buf.size) := reserved_seq size
      have next := ih (buf.push.put (buf.slot buf.size) p) (aligned.push free seq) room
        (by rw [CircularArray.put_size]; omega)
      obtain ⟨more,ended,extended,stillAligned,total,_⟩ := next
      refine ⟨more,?_,(extends_push free p).trans extended,stillAligned,?_,fun live => absurd live inside⟩
      · rw [if_neg (fun inside' => inside (test.mp inside')),pktbufEnqueue_room h free]
        exact ended
      · rw [total,CircularArray.put_size]
        omega

theorem enqueueIfEmpty_front (h : Host) {buf : Pktbuf} {base k : Nat} (aligned : Aligned buf base)
    (start : buf.size = 0 → k = 0) :
    ∃ front, enqueueIfEmpty h buf (serial (base + k)) = .ok front ∧ Extends buf front ∧
      Aligned front base ∧ front.size = max buf.size 1 ∧ (0 < buf.size → front = buf) := by
  unfold enqueueIfEmpty
  by_cases empty : buf.size = 0
  · have positive := buf.capacity_pos
    have free : buf.size < buf.capacity.toNat := by omega
    have bound := buf.capacity_le
    have size := buf.size_push (by omega)
    let p : Pkt := { buf.push.head (buf.slot buf.size) with seq := serial (base + k) }
    have seq : p.seq = serial (base + buf.size) := by
      rw [empty,← start empty]
    refine ⟨buf.push.put (buf.slot buf.size) p,?_,extends_push free p,aligned.push free seq,?_,by omega⟩
    · rw [if_pos ((pktbufEmpty_iff buf).mpr empty),pktbufEnqueue_room h free]
      rfl
    · rw [CircularArray.put_size]
      omega
  · refine ⟨buf,?_,.refl buf,aligned,by omega,fun _ => rfl⟩
    rw [pktbufEmpty_false (by omega)]
    rfl

/-- Within the capacity, pktbuf_slotfor_seq returns the place of the requested
number, and the packets that were live before stay where and what they are. -/
theorem slotforSeq_reserve (h : Host) {buf : Pktbuf} {base k : Nat} (aligned : Aligned buf base)
    (room : k < buf.capacity.toNat) (small : k < 256) (start : buf.size = 0 → k = 0) :
    ∃ more, pktbufSlotforSeq h buf (serial (base + k)) = .ok (buf.slot k,more) ∧ Extends buf more ∧
      Aligned more base ∧ more.size = max buf.size (k + 1) ∧ (k < buf.size → more = buf) := by
  obtain ⟨front,allocated,extended,frontAligned,size,same⟩ := enqueueIfEmpty_front h aligned start
  have live : 0 < front.size := by omega
  have first := pktbufFirst_live live
  have firstSeq : (front.head (front.slot 0)).seq = serial base := frontAligned.seq 0 (by omega)
  have wanted : (serial (base + k) - serial base).toNat = k := by
    rw [serial_sub (by omega) (by omega)]
    omega
  have frontRoom : k < front.capacity.toNat := by rw [extended.capacity]; exact room
  have checked : assertAlways ((serial (base + k) - serial base).toUInt32 ≤ front.capacity) = .ok () := by
    apply assertAlways_true
    rw [decide_eq_true_eq,UInt32.le_iff_toNat_le,UInt8.toNat_toUInt32,wanted]
    omega
  obtain ⟨more,ended,further,moreAligned,total,unchanged⟩ :=
    extendTo_reserve h wanted 256 front frontAligned frontRoom (by omega)
  have place : bufGet (firstItem more + (serial (base + k) - serial base).toUInt32) more = more.slot k := by
    have offset : (serial (base + k) - serial base).toUInt32 = UInt32.ofNat k := by
      apply UInt32.toNat_inj.mp
      rw [UInt8.toNat_toUInt32,wanted,UInt32.toNat_ofNat']
      omega
    rw [offset]
    exact more.mask_add _ _
  have found : assert h ((more.head (more.slot k)).seq == serial (base + k)) = .ok () :=
    assert_true h (beq_iff_eq.mpr (moreAligned.seq k (by omega)))
  have whole : Extends buf more := extended.trans further
  refine ⟨more,?_,whole,moreAligned,by omega,?_⟩
  · rw [pktbufSlotforSeq,allocated]
    simp only [bind,Except.bind,first,firstSeq,checked,ended,place,found]
    rw [whole.slot]
    rfl
  · intro live
    rw [unchanged (by omega),same (by omega)]

theorem slotforSeq_live (h : Host) {buf : Pktbuf} {base k : Nat} (aligned : Aligned buf base)
    (inside : k < buf.size) (small : k < 256) :
    pktbufSlotforSeq h buf (serial (base + k)) = .ok (buf.slot k,buf) := by
  have fits := aligned.fits
  obtain ⟨more,found,_,_,_,unchanged⟩ := slotforSeq_reserve h aligned (by omega) small (by omega)
  rw [found,unchanged inside]

theorem pktbufEnqueue_eq {h : Host} {buf more : Pktbuf} {i : UInt32} (allocated : pktbufEnqueue h buf = .ok (i,more)) :
    i = buf.slot buf.size ∧ more = buf.push := by
  unfold pktbufEnqueue at allocated
  cases checked : assert h (!pktbufFull buf) with
  | error reason =>
    rw [checked] at allocated
    contradiction
  | ok _ =>
    rw [checked] at allocated
    obtain ⟨rfl,rfl⟩ := Prod.mk.inj (Except.ok.inj allocated)
    exact ⟨buf.mask_last,rfl⟩

theorem extendTo_front {h : Host} {offset firstSeq : UInt8} (fuel : Nat) (buf : Pktbuf) {more : Pktbuf}
    (extended : extendTo h offset firstSeq fuel buf = .ok more) :
    more.first = buf.first ∧ more.capacity = buf.capacity ∧
      (0 < buf.size → offset.toNat < buf.capacity.toNat → more.get 0 = buf.get 0) := by
  induction fuel generalizing buf with
  | zero =>
    obtain rfl := Except.ok.inj extended
    exact ⟨rfl,rfl,fun _ _ => rfl⟩
  | succ fuel ih =>
    unfold extendTo at extended
    split at extended
    next =>
      obtain rfl := Except.ok.inj extended
      exact ⟨rfl,rfl,fun _ _ => rfl⟩
    next short =>
      cases allocated : pktbufEnqueue h buf with
      | error reason =>
        rw [allocated] at extended
        contradiction
      | ok result =>
        obtain ⟨i,pushed⟩ := result
        obtain ⟨rfl,rfl⟩ := pktbufEnqueue_eq allocated
        rw [allocated] at extended
        obtain ⟨first,capacity,front⟩ := ih _ extended
        refine ⟨first,capacity,?_⟩
        intro live near
        have used : buf.size ≤ offset.toNat := by
          have ordered := UInt32.le_iff_toNat_le.mp (UInt32.not_lt.mp short)
          rwa [UInt8.toNat_toUInt32] at ordered
        have bound := buf.capacity_le
        have grown := buf.size_push (by omega)
        have kept : (setSeq buf.push (buf.slot buf.size)
            (firstSeq.toUInt32 + pktbufUsed buf.push - 1).toUInt8).get 0 = buf.push.get 0 :=
          buf.push.get_put_other _ (i := buf.size) (j := 0) (by simp; omega) (by simp; omega) (by omega)
        exact (front (by change 0 < buf.push.size; omega) near).trans kept

theorem enqueueIfEmpty_cases {h : Host} {buf front : Pktbuf} {seq : UInt8}
    (allocated : enqueueIfEmpty h buf seq = .ok front) :
    front.first = buf.first ∧ front.capacity = buf.capacity ∧
      ((front.get 0).seq = seq ∨ 0 < buf.size ∧ front = buf) := by
  unfold enqueueIfEmpty at allocated
  split at allocated
  next empty =>
    cases pushed : pktbufEnqueue h buf with
    | error reason =>
      rw [pushed] at allocated
      contradiction
    | ok result =>
      obtain ⟨i,more⟩ := result
      obtain ⟨rfl,rfl⟩ := pktbufEnqueue_eq pushed
      rw [pushed] at allocated
      obtain rfl := Except.ok.inj allocated
      rw [(pktbufEmpty_iff buf).mp empty]
      exact ⟨rfl,rfl,Or.inl (congrArg Pkt.seq (buf.push.get_put _ 0))⟩
  next live =>
    obtain rfl := Except.ok.inj allocated
    rw [pktbufEmpty_iff] at live
    exact ⟨rfl,rfl,Or.inr ⟨Nat.pos_of_ne_zero live,rfl⟩⟩

theorem slotforSeq_front {h : Host} {buf more : Pktbuf} {seq : UInt8} {place : UInt32}
    (found : pktbufSlotforSeq h buf seq = .ok (place,more)) :
    more.first = buf.first ∧ more.capacity = buf.capacity ∧
      (place = more.slot 0 ∨ 0 < buf.size ∧ more.get 0 = buf.get 0) := by
  unfold pktbufSlotforSeq at found
  cases allocated : enqueueIfEmpty h buf seq with
  | error reason =>
    rw [allocated] at found
    contradiction
  | ok front =>
    obtain ⟨first,capacity,either⟩ := enqueueIfEmpty_cases allocated
    rw [allocated] at found
    simp only [bind,Except.bind] at found
    by_cases live : 0 < front.size
    · rw [pktbufFirst_live live] at found
      simp only at found
      have own : seq - (front.head (front.slot 0)).seq = seq - (front.get 0).seq := rfl
      rw [own] at found
      generalize distance : seq - (front.get 0).seq = offset at found
      by_cases near : offset.toUInt32 ≤ front.capacity
      · rw [assertAlways_true (decide_eq_true near)] at found
        cases extended : extendTo h offset (front.head (front.slot 0)).seq 256 front with
        | error reason => simp [extended] at found
        | ok last =>
          obtain ⟨same,size,kept⟩ := extendTo_front 256 front extended
          simp only [extended] at found
          split at found
          next => contradiction
          next =>
            obtain ⟨rfl,rfl⟩ := Prod.mk.inj (Except.ok.inj found)
            have position : bufGet (firstItem last + offset.toUInt32) last = last.slot offset.toNat := by
              have number : offset.toUInt32 = UInt32.ofNat offset.toNat := by simp
              rw [number]
              exact last.mask_add _ _
            refine ⟨same.trans first,size.trans capacity,?_⟩
            rw [position]
            have bound : offset.toNat ≤ last.capacity.toNat := by
              have ordered := UInt32.le_iff_toNat_le.mp near
              rwa [UInt8.toNat_toUInt32,← size] at ordered
            rcases Nat.lt_or_eq_of_le bound with inside | turn
            · rcases either with same' | ⟨live',rfl⟩
              · left
                rw [same'] at distance
                have none : offset = 0 := by grind
                rw [none]
                rfl
              · exact Or.inr ⟨live',kept live (by rwa [← size])⟩
            · left
              apply UInt32.toNat_inj.mp
              rw [last.slot_toNat,last.slot_toNat,turn,Nat.add_mod_right,Nat.add_zero]
      · have refused : assertAlways (decide (offset.toUInt32 ≤ front.capacity)) = .error .exit :=
          if_neg (by simpa using near)
        rw [refused] at found
        contradiction
    · rw [pktbufFirst_empty (by omega)] at found
      contradiction

end Trtp.Buffer
