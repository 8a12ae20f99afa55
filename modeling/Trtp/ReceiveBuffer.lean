import Trtp.Receive
import Trtp.Lib.Reorder

/-! The receive buffer between the socket and the output file.
As long as no packet is stored while in-sequence packets wait for the output, the
mask, the ring and the expected number stay aligned. All that the handlers do is
then a sequence of few kinds of moves, and what each move keeps is said once. -/
namespace Trtp.ReceiveBuffer
open Lib.Circular Lib.Mask Lib.Reorder Lib.Run Lib.Serial Packet Process Buffer Net Receive

def view (s : Receiver) : Reassembly := .masked s.drained s.oosMask

structure Sound (s : Receiver) : Prop where
  least : 1 ≤ s.maxWindow.toNat
  most : s.maxWindow.toNat ≤ maxWindowSize
  capacity : s.recvBuf.capacity = recvCapacity
  aligned : Aligned s.recvBuf s.drained
  filled : ∀ i, bit s.oosMask i = true → i < s.recvBuf.size
  few : popcount s.oosMask ≤ s.maxWindow.toNat
  expected : s.expected = s.drained + trailingOnes s.oosMask
  expectedSeq : s.expectedSeq = serial s.expected
  accepted : ∀ n, n ∈ s.accepted ↔ n ∈ (view s).accepted

/-- The packets that are marked in the mask stay as they are. -/
structure Retained (mask : UInt32) (drained : Nat) (buf more : Pktbuf) : Prop where
  capacity : more.capacity = buf.capacity
  grown : buf.size ≤ more.size
  aligned : Aligned more drained
  kept : ∀ i, bit mask i = true → more.get i = buf.get i

/-- The receiver without what no other part of its state depends on. -/
def Receiver.core (s : Receiver) : Receiver :=
  { s with
    phase := .receiving, lastTs := 0, needAck := false, needNack := false, nackSeq := 0
    lastWrittenLen := 0, pfdsCount := 0, fileWrites := 0, writes := 0 }

def Receiver.holding (s : Receiver) (buf : Pktbuf) : Receiver := { s with recvBuf := buf }

/-- A packet has been stored `gap` places behind the expected one. -/
def Receiver.storing (s : Receiver) (pkt : Pkt) (gap : Nat) : Receiver :=
  { s with
    recvBuf := s.recvBuf.put (s.recvBuf.slot gap) pkt
    oosMask := setBit s.oosMask gap
    accepted := s.accepted ++ [s.expected + gap]
    expected := s.drained + trailingOnes (setBit s.oosMask gap)
    expectedSeq := serial (s.drained + trailingOnes (setBit s.oosMask gap)) }

/-- The packet at the front has been written. -/
def Receiver.draining (s : Receiver) : Receiver :=
  { s with
    recvBuf := s.recvBuf.pop
    oosMask := s.oosMask >>> 1
    drained := s.drained + 1
    output := s.output ++ (s.recvBuf.get 0).payload (s.recvBuf.get 0).length.toNat }

/-- What the handlers do to the buffer; `source` relates the packets read from the
socket to the numbers they stand for. -/
inductive Move (source : Nat → Pkt → Prop) (s : Receiver) : Receiver → Prop
  | idle (t : Receiver) (same : Receiver.core t = Receiver.core s) : Move source s t
  | reserved (buf : Pktbuf) (kept : Retained s.oosMask s.drained s.recvBuf buf) :
      Move source s (Receiver.holding s buf)
  | stored (pkt : Pkt) (gap : Nat) (clear : bit s.oosMask 0 = false) (inside : gap < s.recvBuf.size)
      (near : gap ≤ s.maxWindow.toNat) (room : popcount s.oosMask < s.maxWindow.toNat)
      (read : source (s.expected + gap) pkt) (whole : pkt.tr = false)
      (number : pkt.seq = serial (s.expected + gap)) :
      Move source s (Receiver.storing s pkt gap)
  | drained (set : bit s.oosMask 0 = true) : Move source s (Receiver.draining s)

def Moves (source : Nat → Pkt → Prop) : Receiver → Receiver → Prop := Relation.ReflTransGen (Move source)

variable {h : Host} {source : Nat → Pkt → Prop} {s t : Receiver}

theorem windowSize_toNat (ones : trailingOnes s.oosMask ≤ s.maxWindow.toNat) :
    (windowSize s).toNat = s.maxWindow.toNat - trailingOnes s.oosMask := by
  have bound := s.maxWindow.toNat_lt
  have count : (UInt32.ofNat (trailingOnes s.oosMask)).toNat = trailingOnes s.oosMask := by
    rw [UInt32.toNat_ofNat']
    omega
  have ordered : UInt32.ofNat (trailingOnes s.oosMask) ≤ s.maxWindow := by
    rw [UInt32.le_iff_toNat_le,count]
    exact ones
  rw [windowSize,UInt32.toNat_sub_of_le _ _ ordered,count]

theorem advance_toNat (most : s.maxWindow.toNat ≤ maxWindowSize) (ones : trailingOnes s.oosMask ≤ s.maxWindow.toNat) :
    (s.maxWindow - windowSize s).toUInt8.toNat = trailingOnes s.oosMask := by
  have size := windowSize_toNat ones
  unfold maxWindowSize at most
  have ordered : windowSize s ≤ s.maxWindow := by
    rw [UInt32.le_iff_toNat_le,size]
    omega
  rw [UInt32.toNat_toUInt8,UInt32.toNat_sub_of_le _ _ ordered,size]
  omega

theorem core_fields (same : Receiver.core t = Receiver.core s) : t.recvBuf = s.recvBuf ∧ t.oosMask = s.oosMask := by
  have buffer := congrArg Receiver.recvBuf same
  have mask := congrArg Receiver.oosMask same
  exact ⟨buffer,mask⟩

namespace Sound

theorem frame (sound : Sound s) (same : Receiver.core t = Receiver.core s) : Sound t := by
  have base : Sound (Receiver.core s) := ⟨sound.1,sound.2,sound.3,sound.4,sound.5,sound.6,sound.7,sound.8,sound.9⟩
  rw [← same] at base
  exact ⟨base.1,base.2,base.3,base.4,base.5,base.6,base.7,base.8,base.9⟩

theorem reserved (sound : Sound s) {buf : Pktbuf} (kept : Retained s.oosMask s.drained s.recvBuf buf) :
    Sound (Receiver.holding s buf) where
  least := sound.least
  most := sound.most
  capacity := kept.capacity.trans sound.capacity
  aligned := kept.aligned
  filled i set := Nat.lt_of_lt_of_le (sound.filled i set) kept.grown
  few := sound.few
  expected := sound.expected
  expectedSeq := sound.expectedSeq
  accepted := sound.accepted

theorem expected_eq_drained (sound : Sound s) (clear : bit s.oosMask 0 = false) : s.expected = s.drained := by
  rw [sound.expected,trailingOnes_eq_zero clear]
  rfl

theorem stored (sound : Sound s) {pkt : Pkt} {gap : Nat} (clear : bit s.oosMask 0 = false)
    (inside : gap < s.recvBuf.size) (near : gap ≤ s.maxWindow.toNat)
    (room : popcount s.oosMask < s.maxWindow.toNat) (number : pkt.seq = serial (s.expected + gap)) :
    Sound (Receiver.storing s pkt gap) := by
  have most := sound.most
  unfold maxWindowSize at most
  have small : gap < 32 := by omega
  have front := sound.expected_eq_drained clear
  rw [front] at number
  refine ⟨sound.least,sound.most,sound.capacity,sound.aligned.put inside number,?_,?_,rfl,rfl,?_⟩
  · intro i set
    have member : (bit s.oosMask i || decide (i = gap)) = true := by
      rw [← bit_setBit s.oosMask small]
      exact set
    rcases Bool.or_eq_true _ _ ▸ member with before | same
    · exact sound.filled i before
    · rw [of_decide_eq_true same]
      exact inside
  · exact Nat.le_trans (popcount_setBit s.oosMask small) room
  · intro n
    have inserted : (view (Receiver.storing s pkt gap)) = (view s).accept (s.drained + gap) :=
      Reassembly.masked_accept s.drained s.oosMask small
    rw [inserted]
    change n ∈ s.accepted ++ [s.expected + gap] ↔ n = s.drained + gap ∨ n ∈ (view s).accepted
    rw [List.mem_append,List.mem_singleton,sound.accepted n,front]
    exact or_comm

theorem drained (sound : Sound s) (set : bit s.oosMask 0 = true) : Sound (Receiver.draining s) := by
  have live := sound.filled 0 set
  have size := s.recvBuf.size_pop live
  have run := trailingOnes_shift set
  refine ⟨sound.least,sound.most,sound.capacity,sound.aligned.pop live,?_,?_,?_,sound.expectedSeq,?_⟩
  · intro i marked
    have before : bit s.oosMask (i + 1) = true := (bit_shift s.oosMask i).symm.trans marked
    have bound := sound.filled (i + 1) before
    change i < s.recvBuf.pop.size
    omega
  · exact Nat.le_trans (popcount_shift s.oosMask) sound.few
  · change s.expected = s.drained + 1 + trailingOnes (s.oosMask >>> 1)
    rw [sound.expected]
    omega
  · intro n
    have passed : view (Receiver.draining s) = (view s).pass _ := Reassembly.masked_pass s.drained s.oosMask set
    rw [passed]
    exact sound.accepted n

theorem missing (sound : Sound s) : (view s).Missing s.expected := by
  rw [sound.expected]
  exact Reassembly.masked_missing s.drained s.oosMask

theorem isLeast (sound : Sound s) : IsLeast {n | n ∉ s.accepted} s.expected := by
  have missing := sound.missing
  have same : {n | n ∉ s.accepted} = {n | n ∉ (view s).accepted} := by
    ext n
    exact not_congr (sound.accepted n)
  rw [same]
  exact missing

theorem ones_le (sound : Sound s) : trailingOnes s.oosMask ≤ s.maxWindow.toNat :=
  Nat.le_trans (trailingOnes_le_popcount s.oosMask) sound.few

theorem windowSize (sound : Sound s) : (windowSize s).toNat = s.maxWindow.toNat - trailingOnes s.oosMask :=
  windowSize_toNat sound.ones_le

theorem window8 (sound : Sound s) :
    (Receive.windowSize s).toUInt8.toNat = s.maxWindow.toNat - trailingOnes s.oosMask := by
  have most := sound.most
  unfold maxWindowSize at most
  rw [UInt32.toNat_toUInt8,sound.windowSize]
  omega

theorem advance (sound : Sound s) :
    (s.maxWindow - Receive.windowSize s).toUInt8.toNat = trailingOnes s.oosMask :=
  advance_toNat sound.most sound.ones_le

end Sound

/-- Step lemma: every move keeps the buffer sound. -/
theorem Move.sound (sound : Sound s) (move : Move source s t) : Sound t := by
  cases move with
  | idle _ same => exact sound.frame same
  | reserved buf kept => exact sound.reserved kept
  | stored pkt gap clear inside near room read whole number => exact sound.stored clear inside near room number
  | drained set => exact sound.drained set

theorem Moves.sound (moves : Moves source s t) (sound : Sound s) : Sound t := by
  induction moves with
  | refl => exact sound
  | tail _ move ih => exact move.sound ih

theorem Moves.maxWindow (moves : Moves source s t) : t.maxWindow = s.maxWindow := by
  induction moves with
  | refl => rfl
  | tail _ move ih =>
    cases move with
    | idle _ same => exact (congrArg Receiver.maxWindow same).trans ih
    | reserved buf kept => exact ih
    | stored pkt gap clear inside near room read whole number => exact ih
    | drained set => exact ih

theorem Move.refines (sound : Sound s) (move : Move source s t) :
    view t = view s ∨ Reassembly.Step (view s) (view t) := by
  cases move with
  | idle _ same =>
    have mask := congrArg Receiver.oosMask same
    have drained := congrArg Receiver.drained same
    change t.oosMask = s.oosMask at mask
    change t.drained = s.drained at drained
    left
    rw [view,view,mask,drained]
  | reserved buf kept => exact Or.inl rfl
  | stored pkt gap clear inside near room read whole number =>
    have most := sound.most
    unfold maxWindowSize at most
    right
    have inserted : view (Receiver.storing s pkt gap) = (view s).accept (s.drained + gap) :=
      Reassembly.masked_accept s.drained s.oosMask (by omega)
    rw [inserted]
    exact .accept _
  | drained set =>
    right
    have passed : view (Receiver.draining s) = (view s).pass _ := Reassembly.masked_pass s.drained s.oosMask set
    rw [passed]
    exact .pass _

/-- The receive buffer refines the stream that is put in order. -/
theorem Moves.refines (moves : Moves source s t) (sound : Sound s) :
    Relation.ReflTransGen Reassembly.Step (view s) (view t) := by
  induction moves with
  | refl => exact .refl
  | tail before move ih =>
    rcases move.refines (Moves.sound before sound) with same | step
    · rw [same]
      exact ih
    · exact ih.tail step

theorem Retained.of_extends (sound : Sound s) {more : Pktbuf} (extended : Extends s.recvBuf more)
    (aligned : Aligned more s.drained) : Retained s.oosMask s.drained s.recvBuf more :=
  ⟨extended.capacity,extended.grown,aligned,fun i set => extended.kept i (sound.filled i set)⟩

theorem Retained.trans {mask : UInt32} {drained : Nat} {buf more most : Pktbuf} (left : Retained mask drained buf more)
    (right : Retained mask drained more most) : Retained mask drained buf most :=
  ⟨right.capacity.trans left.capacity,Nat.le_trans left.grown right.grown,right.aligned,
    fun i set => (right.kept i set).trans (left.kept i set)⟩

theorem Retained.put (sound : Sound s) (live : trailingOnes s.oosMask < s.recvBuf.size) {pkt : Pkt}
    (number : pkt.seq = s.expectedSeq) : Retained s.oosMask s.drained s.recvBuf
      (s.recvBuf.put (s.recvBuf.slot (trailingOnes s.oosMask)) pkt) := by
  rw [sound.expectedSeq,sound.expected] at number
  have fits := sound.aligned.fits
  refine ⟨rfl,Nat.le_refl _,sound.aligned.put live number,?_⟩
  intro i set
  have inside := sound.filled i set
  apply s.recvBuf.get_put_other pkt (by omega) (by omega)
  rintro rfl
  rw [bit_trailingOnes] at set
  contradiction

namespace Sound

theorem ones_of_empty (sound : Sound s) (none : s.recvBuf.size = 0) : trailingOnes s.oosMask = 0 := by
  apply trailingOnes_eq_zero
  by_contra set
  have live := sound.filled 0 (by simpa using set)
  omega

theorem reserve (sound : Sound s) {k : Nat} (room : k < 32) (start : s.recvBuf.size = 0 → k = 0) :
    ∃ more, pktbufSlotforSeq h s.recvBuf (serial (s.drained + k)) = .ok (s.recvBuf.slot k,more) ∧
      Extends s.recvBuf more ∧ Retained s.oosMask s.drained s.recvBuf more ∧
        more.size = max s.recvBuf.size (k + 1) := by
  have capacity : s.recvBuf.capacity.toNat = 32 := by
    rw [sound.capacity]
    rfl
  obtain ⟨more,found,extended,aligned,size,_⟩ :=
    slotforSeq_reserve h sound.aligned (k := k) (by omega) (by omega) start
  exact ⟨more,found,extended,.of_extends sound extended aligned,size⟩

end Sound

theorem distance_live (live : bit s.oosMask 0 = true → 0 < s.recvBuf.size) :
    ∃ d, distance s = some d ∧ (bit s.oosMask 0 = false → d = 0) := by
  by_cases set : bit s.oosMask 0 = true
  · refine ⟨s.expectedSeq - (s.recvBuf.head (s.recvBuf.slot 0)).seq - 1,?_,?_⟩
    · rw [distance,if_pos ((and_one_iff _).mpr set),pktbufFirst_live (live set)]
      rfl
    · intro clear
      rw [clear] at set
      contradiction
  · refine ⟨0,?_,fun _ => rfl⟩
    rw [distance,if_neg (fun one => set ((and_one_iff _).mp one))]

theorem setSeq_put (buf : Pktbuf) (place : UInt32) (pkt : Pkt) (seq : UInt8) :
    setSeq (buf.put place pkt) place seq = buf.put place { pkt with seq := seq } := by
  simp only [setSeq,CircularArray.put_head_self,CircularArray.put_put]

theorem trailingOnes_setBit_ahead {m : UInt32} {k : Nat} (clear : bit m 0 = false) (ahead : 0 < k) (small : k < 32) :
    trailingOnes (setBit m k) = 0 := by
  apply trailingOnes_eq_zero
  rw [bit_setBit m small,clear]
  simp
  omega

/-- The state acceptPkt leaves behind, from what it computes. -/
def accepted (s : Receiver) (gap : Nat) (buf : Pktbuf) (seq : UInt8) (count : Nat) : Outcome Halt Receiver :=
  .ret { s with
    recvBuf := buf, oosMask := setBit s.oosMask gap, accepted := s.accepted ++ [s.expected + gap]
    expectedSeq := seq, expected := count }

/-- A packet behind a gap is copied, and the expected place gets its number back. -/
theorem acceptPkt_ahead (sound : Sound s) (clear : bit s.oosMask 0 = false) (live : 0 < s.recvBuf.size)
    {pkt : Pkt} {gap : UInt8} (ahead : gap > 0) (small : gap.toNat < 32)
    (number : pkt.seq = serial (s.expected + gap.toNat)) :
    ∃ more, Retained s.oosMask s.drained s.recvBuf more ∧ more.size = max s.recvBuf.size (gap.toNat + 1) ∧
      acceptPkt h (s.recvBuf.slot 0) 0 gap (Receiver.holding s (s.recvBuf.put (s.recvBuf.slot 0) pkt)) =
        .ret (Receiver.storing (Receiver.holding s more) pkt gap.toNat) := by
  have front := sound.expected_eq_drained clear
  have ones := trailingOnes_eq_zero clear
  have after := trailingOnes_setBit_ahead clear (UInt8.lt_iff_toNat_lt.mp ahead) small
  let restored := s.recvBuf.put (s.recvBuf.slot 0) { pkt with seq := s.expectedSeq }
  have placed : Retained s.oosMask s.drained s.recvBuf restored := by
    have same := @Retained.put s sound (by rw [ones]; exact live) { pkt with seq := s.expectedSeq } rfl
    rwa [ones] at same
  obtain ⟨more,found,extended,kept,size⟩ := (sound.reserved placed).reserve (h := h) small
    (fun none => absurd live (by change s.recvBuf.size = 0 at none; omega))
  have called : pktbufSlotforSeq h (setSeq (s.recvBuf.put (s.recvBuf.slot 0) pkt) (s.recvBuf.slot 0) s.expectedSeq)
      ((s.recvBuf.put (s.recvBuf.slot 0) pkt).head (s.recvBuf.slot 0)).seq = .ok (s.recvBuf.slot gap.toNat,more) := by
    rw [setSeq_put,CircularArray.put_head_self,number,front]
    exact found
  have copied : more.head (s.recvBuf.slot 0) = { pkt with seq := s.expectedSeq } := by
    have same : more.get 0 = restored.get 0 := extended.kept 0 live
    rw [CircularArray.get,extended.slot] at same
    exact same.trans (s.recvBuf.get_put _ 0)
  have slot : more.slot gap.toNat = s.recvBuf.slot gap.toNat := extended.slot gap.toNat
  have same : accepted s gap.toNat (more.put (s.recvBuf.slot gap.toNat) { more.head (s.recvBuf.slot 0) with
      seq := ((s.recvBuf.put (s.recvBuf.slot 0) pkt).head (s.recvBuf.slot 0)).seq })
      s.expectedSeq s.expected = .ret (Receiver.storing (Receiver.holding s more) pkt gap.toNat) := by
    rw [CircularArray.put_head_self,copied,← slot,sound.expectedSeq,front]
    simp only [accepted,Receiver.storing,Receiver.holding,after,Nat.add_zero,front]
  refine ⟨more,?_,size,?_⟩
  · exact ⟨kept.capacity.trans placed.capacity,kept.grown,kept.aligned,fun i set => (kept.kept i set).trans
      (placed.kept i set)⟩
  · have position : (0 : UInt8).toNat + gap.toNat = gap.toNat := Nat.zero_add _
    unfold acceptPkt
    rw [if_neg (by omega),if_pos ahead,position]
    change Outcome.call _ (pktbufSlotforSeq h (setSeq (s.recvBuf.put (s.recvBuf.slot 0) pkt) (s.recvBuf.slot 0)
      s.expectedSeq) ((s.recvBuf.put (s.recvBuf.slot 0) pkt).head (s.recvBuf.slot 0)).seq) _ = _
    rw [called]
    exact same

/-- The expected packet is left in its place, and the expected number moves on over the run of ones. -/
theorem acceptPkt_next (sound : Sound s) (clear : bit s.oosMask 0 = false) (live : 0 < s.recvBuf.size)
    (room : popcount s.oosMask < s.maxWindow.toNat) {pkt : Pkt} (number : pkt.seq = serial s.expected) :
    acceptPkt h (s.recvBuf.slot 0) 0 0 (Receiver.holding s (s.recvBuf.put (s.recvBuf.slot 0) pkt)) =
      .ret (Receiver.storing s pkt 0) := by
  have front := sound.expected_eq_drained clear
  have step := (sound.stored clear live (Nat.zero_le _) room number).advance
  have seq : s.expectedSeq + (s.maxWindow - windowSize (Receiver.storing s pkt 0)).toUInt8 =
      serial (s.drained + trailingOnes (setBit s.oosMask 0)) := by
    rw [sound.expectedSeq,serial_add,front]
    exact congrArg (fun n => serial (s.drained + n)) step
  have count : s.expected + (s.maxWindow - windowSize (Receiver.storing s pkt 0)).toUInt8.toNat =
      s.drained + trailingOnes (setBit s.oosMask 0) := by
    rw [front]
    exact congrArg (s.drained + ·) step
  have same : accepted s 0 (s.recvBuf.put (s.recvBuf.slot 0) pkt)
      (s.expectedSeq + (s.maxWindow - windowSize (Receiver.storing s pkt 0)).toUInt8)
      (s.expected + (s.maxWindow - windowSize (Receiver.storing s pkt 0)).toUInt8.toNat) =
      .ret (Receiver.storing s pkt 0) := by
    rw [seq,count]
    rfl
  exact same

theorem acceptPkt_stores (sound : Sound s) (clear : bit s.oosMask 0 = false) (live : 0 < s.recvBuf.size)
    (room : popcount s.oosMask < s.maxWindow.toNat) {pkt : Pkt} {gap : UInt8} (small : gap.toNat < 32)
    (number : pkt.seq = serial (s.expected + gap.toNat)) :
    ∃ more, Retained s.oosMask s.drained s.recvBuf more ∧ more.size = max s.recvBuf.size (gap.toNat + 1) ∧
      acceptPkt h (s.recvBuf.slot 0) 0 gap (Receiver.holding s (s.recvBuf.put (s.recvBuf.slot 0) pkt)) =
        .ret (Receiver.storing (Receiver.holding s more) pkt gap.toNat) := by
  by_cases ahead : gap > 0
  · exact acceptPkt_ahead (h := h) sound clear live ahead small number
  · have none : gap = 0 := by
      have zero := UInt8.le_iff_toNat_le.mp (UInt8.not_lt.mp ahead)
      exact UInt8.toNat_inj.mp (Nat.le_zero.mp zero)
    subst none
    have size : s.recvBuf.size = max s.recvBuf.size ((0 : UInt8).toNat + 1) := by
      change s.recvBuf.size = max s.recvBuf.size 1
      omega
    exact ⟨s.recvBuf,⟨rfl,Nat.le_refl _,sound.aligned,fun _ _ => rfl⟩,size,acceptPkt_next sound clear live room number⟩

theorem seq_of_gap {pkt : Pkt} {seq : UInt8} (none : ¬ pkt.seq - seq > 0) : { pkt with seq := seq } = pkt := by
  have zero : pkt.seq - seq = 0 :=
    UInt8.toNat_inj.mp (Nat.le_zero.mp (UInt8.le_iff_toNat_le.mp (UInt8.not_lt.mp none)))
  have same : seq = pkt.seq := by grind
  rw [same]

theorem processIncomingPkt_eq (live : bit s.oosMask 0 = true → 0 < s.recvBuf.size) (place : UInt32) (pkt : Pkt) :
    ∃ d, (bit s.oosMask 0 = false → d = 0) ∧
      processIncomingPkt h place (Receiver.holding s (s.recvBuf.put place pkt)) =
        if pkt.tr then
          .ret { Receiver.holding s (s.recvBuf.put place { pkt with seq := s.expectedSeq }) with
            lastTs := pkt.ts, needNack := true, nackSeq := pkt.seq }
        else acceptPkt h place d (pkt.seq - s.expectedSeq)
          (Receiver.holding { s with lastTs := pkt.ts } (s.recvBuf.put place pkt)) := by
  obtain ⟨d,found,zero⟩ := @distance_live
    (Receiver.holding { s with lastTs := pkt.ts } (s.recvBuf.put place pkt)) live
  refine ⟨d,zero,?_⟩
  simp only [Receiver.holding] at found ⊢
  simp only [processIncomingPkt,CircularArray.put_head_self,found,setSeq_put]
  split
  next =>
    split
    next => rfl
    next none => rw [seq_of_gap none]
  next => rfl

def Receiver.timed (place : UInt32) (s : Receiver) : Receiver := { s with lastTs := (s.recvBuf.head place).ts }

/-- The receiver when it has noted that the packet at `place` was truncated. -/
def Receiver.refusing (place : UInt32) (s : Receiver) : Receiver :=
  { s with
    lastTs := (s.recvBuf.head place).ts, needNack := true, nackSeq := (s.recvBuf.head place).seq
    recvBuf := if (s.recvBuf.head place).seq - s.expectedSeq > 0 then setSeq s.recvBuf place s.expectedSeq
      else s.recvBuf }

theorem processIncomingPkt_lost (place : UInt32) (lost : distance s = none) :
    processIncomingPkt h place s = .halt .segv (Receiver.timed place s) := by
  have lost' : distance (Receiver.timed place s) = none := lost
  unfold processIncomingPkt
  unfold Receiver.timed at lost' ⊢
  simp only [lost']

theorem processIncomingPkt_cut (place : UInt32) {d : UInt8} (found : distance s = some d)
    (cut : (s.recvBuf.head place).tr = true) : processIncomingPkt h place s = .ret (Receiver.refusing place s) := by
  have found' : distance { s with lastTs := (s.recvBuf.head place).ts } = some d := found
  unfold processIncomingPkt
  simp only [found',cut,if_true,Receiver.refusing]
  split
  next => rfl
  next => rfl

theorem processIncomingPkt_whole (place : UInt32) {d : UInt8} (found : distance s = some d)
    (whole : (s.recvBuf.head place).tr = false) : processIncomingPkt h place s =
      acceptPkt h place d ((s.recvBuf.head place).seq - s.expectedSeq) (Receiver.timed place s) := by
  have found' : distance { s with lastTs := (s.recvBuf.head place).ts } = some d := found
  unfold processIncomingPkt
  simp only [found',whole,Bool.false_eq_true,if_false]
  rfl

/-- An untruncated DATA packet inside the window is read while in-sequence data
waits in the buffer: the case in which process_incoming_pkt takes its distance
from the start of the buffer one too small. -/
def Early (h : Host) (s : Receiver) (input : Recv) : Prop :=
  bit s.oosMask 0 = true ∧ rbufFull s = false ∧ ∃ stale pkt,
    netRecvPkt h stale s.expectedSeq (windowSize s).toUInt8 input = (.netOk,pkt) ∧
    pkt.type = ptypeData ∧ pkt.tr = false

/-- The packet that what the socket held stands for in the state in which it is read. -/
structure Arrived (h : Host) (socket : Option Recv) (s : Receiver) (n : Nat) (pkt : Pkt) : Prop where
  read : ∃ input stale, socket = some input ∧ netRecvfrom h stale input = (.netOk,pkt)
  number : pkt.seq = serial n
  after : s.expected ≤ n
  near : n ≤ s.expected + s.maxWindow.toNat

theorem Sound.arrived (sound : Sound s) {input : Recv} {stale pkt : Pkt}
    (read : netRecvfrom h stale input = (.netOk,pkt))
    (near : (pkt.seq - s.expectedSeq).toNat ≤ s.maxWindow.toNat) :
    Arrived h (some input) s (s.expected + (pkt.seq - s.expectedSeq).toNat) pkt where
  read := ⟨input,stale,rfl,read⟩
  number := by rw [sound.expectedSeq,serial_offset]
  after := Nat.le_add_right _ _
  near := Nat.add_le_add_left near _

theorem rbufFull_iff (sound : Sound s) : rbufFull s = false ↔ popcount s.oosMask < s.maxWindow.toNat := by
  have bound := s.maxWindow.toNat_lt
  have few := sound.few
  have count : (UInt32.ofNat (popcount s.oosMask)).toNat = popcount s.oosMask := by
    rw [UInt32.toNat_ofNat']
    omega
  rw [rbufFull,decide_eq_false_iff_not,ge_iff_le,UInt32.le_iff_toNat_le,count]
  exact Nat.not_le

/-- What is left behind when a packet was received: the place of the expected packet,
or a packet stored at some distance from it, and the place of the last of them. -/
inductive Received (h : Host) (input : Recv) (s t : Receiver) : Prop
  | reserved (buf : Pktbuf) (kept : Retained s.oosMask s.drained s.recvBuf buf)
      (size : buf.size = max s.recvBuf.size (trailingOnes s.oosMask + 1))
      (same : Receiver.core t = Receiver.core (Receiver.holding s buf))
  | stored (buf : Pktbuf) (pkt : Pkt) (gap : Nat) (kept : Retained s.oosMask s.drained s.recvBuf buf)
      (size : buf.size = max s.recvBuf.size (gap + 1)) (clear : bit s.oosMask 0 = false)
      (arrived : Arrived h (some input) s (s.expected + gap) pkt) (whole : pkt.tr = false)
      (same : Receiver.core t = Receiver.core (Receiver.storing (Receiver.holding s buf) pkt gap))

theorem Received.moves {input : Recv} (received : Received h input s t)
    (room : popcount s.oosMask < s.maxWindow.toNat) :
    Moves (Arrived h (some input) s) s t := by
  cases received with
  | reserved buf kept size same =>
    have reserved : Moves (Arrived h (some input) s) s (Receiver.holding s buf) := .single (.reserved buf kept)
    exact reserved.tail (.idle t same)
  | stored buf pkt gap kept size clear arrived whole same =>
    have reserved : Moves (Arrived h (some input) s) s (Receiver.holding s buf) := .single (.reserved buf kept)
    have inside : gap < buf.size := by omega
    have near : gap ≤ s.maxWindow.toNat := Nat.le_of_add_le_add_left arrived.near
    have stored : Move (Arrived h (some input) s) (Receiver.holding s buf) _ :=
      .stored pkt gap clear inside near room arrived whole arrived.number
    exact (reserved.tail stored).tail (.idle t same)

theorem Received.after {input : Recv} {buf : Pktbuf} (kept : Retained s.oosMask s.drained s.recvBuf buf)
    (size : buf.size = max s.recvBuf.size (trailingOnes s.oosMask + 1))
    (received : Received h input (Receiver.holding s buf) t) : Received h input s t := by
  cases received with
  | reserved more kept' size' same =>
    change more.size = max buf.size (trailingOnes s.oosMask + 1) at size'
    rw [size,Nat.max_assoc,Nat.max_self] at size'
    exact .reserved more (kept.trans kept') size' same
  | stored more pkt gap kept' size' clear arrived whole same =>
    have none : trailingOnes s.oosMask = 0 := trailingOnes_eq_zero clear
    change more.size = max buf.size (gap + 1) at size'
    rw [size,none,Nat.max_assoc,Nat.max_eq_right (Nat.le_add_left 1 gap)] at size'
    exact .stored more pkt gap (kept.trans kept') size' clear ⟨arrived.1,arrived.2,arrived.3,arrived.4⟩ whole same

/-- What is done with a packet that was received into the expected place, as long
as only truncated packets arrive while in-sequence data is waiting. -/
theorem processIncomingPkt_received (sound : Sound s) (live : trailingOnes s.oosMask < s.recvBuf.size)
    (room : popcount s.oosMask < s.maxWindow.toNat) {input : Recv} {pkt : Pkt}
    (arrived : Arrived h (some input) s (s.expected + (pkt.seq - s.expectedSeq).toNat) pkt)
    (timely : bit s.oosMask 0 = true → pkt.tr = true) :
    ∃ t, processIncomingPkt h (s.recvBuf.slot (trailingOnes s.oosMask))
        (Receiver.holding s (s.recvBuf.put (s.recvBuf.slot (trailingOnes s.oosMask)) pkt)) = .ret t ∧
      Received h input s t ∧ t.lastWrittenLen = s.lastWrittenLen := by
  have most := sound.most
  have near := arrived.near
  unfold maxWindowSize at most
  obtain ⟨d,zero,ended⟩ := @processIncomingPkt_eq h s (fun set => sound.filled 0 set)
    (s.recvBuf.slot (trailingOnes s.oosMask)) pkt
  by_cases cut : pkt.tr = true
  · rw [if_pos cut] at ended
    exact ⟨_,ended,.reserved _ (Retained.put sound live rfl) (Nat.max_eq_left live).symm rfl,rfl⟩
  · have whole : pkt.tr = false := by simpa using cut
    have clear : bit s.oosMask 0 = false := by
      by_contra set
      exact cut (timely (by simpa using set))
    rw [if_neg cut,zero clear] at ended
    rw [trailingOnes_eq_zero clear] at live ended ⊢
    have timed : Sound { s with lastTs := pkt.ts } := sound.frame rfl
    obtain ⟨buf,kept,size,stored⟩ := acceptPkt_stores (h := h) timed clear live room (by omega) arrived.number
    exact ⟨_,ended.trans stored,.stored buf pkt _ kept size clear arrived whole rfl,rfl⟩

/-- What do_receive_data does: it finds no slot; it restores the number of the slot that it has
read into, after an error or a packet that it drops; or it processes the packet. -/
inductive Reading (h : Host) (input : Recv) (s : Receiver) : Outcome Halt Receiver → Prop
  | stuck (reason : Halt) (lost : pktbufSlotforSeq h s.recvBuf s.expectedSeq = .error reason) :
      Reading h input s (.halt reason s)
  | failed (place : UInt32) (buf : Pktbuf) (pkt : Pkt)
      (found : pktbufSlotforSeq h s.recvBuf s.expectedSeq = .ok (place,buf)) :
      Reading h input s (.err (Receiver.holding s (buf.put place { pkt with seq := s.expectedSeq })))
  | dropped (place : UInt32) (buf : Pktbuf) (pkt : Pkt)
      (found : pktbufSlotforSeq h s.recvBuf s.expectedSeq = .ok (place,buf))
      (refused : ∀ other, netRecvPkt h (buf.head place) s.expectedSeq (windowSize s).toUInt8 input = (.netOk,other) →
        other.type ≠ ptypeData) :
      Reading h input s (.ret (Receiver.holding s (buf.put place { pkt with seq := s.expectedSeq })))
  | processed (place : UInt32) (buf : Pktbuf) (pkt : Pkt)
      (found : pktbufSlotforSeq h s.recvBuf s.expectedSeq = .ok (place,buf))
      (read : netRecvPkt h (buf.head place) s.expectedSeq (windowSize s).toUInt8 input = (.netOk,pkt))
      (data : pkt.type = ptypeData) :
      Reading h input s (processIncomingPkt h place (Receiver.holding s (buf.put place pkt)))

theorem doReceiveData_cases (h : Host) (input : Recv) (s : Receiver) : Reading h input s (doReceiveData h input s) := by
  unfold doReceiveData
  cases found : pktbufSlotforSeq h s.recvBuf s.expectedSeq with
  | error reason => exact .stuck reason found
  | ok result =>
    obtain ⟨place,buf⟩ := result
    simp only [Outcome.call_ok]
    cases received : netRecvPkt h (buf.head place) s.expectedSeq (windowSize s).toUInt8 input with
    | mk status pkt =>
      cases status with
      | netError => exact .failed place buf pkt found
      | netDrop => exact .dropped place buf pkt found (fun other same => by simp [received] at same)
      | netOk =>
        by_cases data : pkt.type = ptypeData
        · simp only [ne_eq,data,not_true,if_false]
          exact .processed place buf pkt found received data
        · simp only [ne_eq,data,not_false_iff,if_true]
          refine .dropped place buf pkt found (fun other same => ?_)
          obtain rfl := (Prod.mk.inj (received.symm.trans same)).2
          exact data

theorem doReceiveData_received (sound : Sound s) {input : Recv} (room : rbufFull s = false)
    (timely : ¬ Early h s input) :
    (doReceiveData h input s).Meets (fun t => Received h input s t ∧ t.lastWrittenLen = s.lastWrittenLen)
      (Received h input s) (fun _ _ => False) := by
  have few := (rbufFull_iff sound).mp room
  have most := sound.most
  have ones := trailingOnes_le_popcount s.oosMask
  unfold maxWindowSize at most
  obtain ⟨more,found,extended,kept,size⟩ := sound.reserve (h := h) (k := trailingOnes s.oosMask) (by omega)
    sound.ones_of_empty
  have inside : trailingOnes s.oosMask < more.size := by omega
  have place : more.slot (trailingOnes s.oosMask) = s.recvBuf.slot (trailingOnes s.oosMask) := extended.slot _
  rw [← sound.expected,← sound.expectedSeq] at found
  have larger := sound.reserved kept
  have restored (pkt : Pkt) : Received h input s (Receiver.holding s
      (more.put (s.recvBuf.slot (trailingOnes s.oosMask)) { pkt with seq := s.expectedSeq })) := by
    have placed := @Retained.put (Receiver.holding s more) larger inside { pkt with seq := s.expectedSeq } rfl
    rw [← place]
    exact .reserved _ (kept.trans placed) size rfl
  have reading := doReceiveData_cases h input s
  generalize doReceiveData h input s = outcome at reading ⊢
  cases reading with
  | stuck reason lost =>
    rw [found] at lost
    contradiction
  | failed slot buf pkt got =>
    obtain ⟨rfl,rfl⟩ := Prod.mk.inj (Except.ok.inj (found.symm.trans got))
    exact restored pkt
  | dropped slot buf pkt got refused =>
    obtain ⟨rfl,rfl⟩ := Prod.mk.inj (Except.ok.inj (found.symm.trans got))
    exact ⟨restored pkt,rfl⟩
  | processed slot buf pkt got received data =>
    obtain ⟨rfl,rfl⟩ := Prod.mk.inj (Except.ok.inj (found.symm.trans got))
    obtain ⟨read,near⟩ := netRecvPkt_ok received
    rw [sound.window8] at near
    have truncated : bit s.oosMask 0 = true → pkt.tr = true := by
      intro waiting
      by_contra whole
      exact timely ⟨waiting,room,_,pkt,received,data,by simpa using whole⟩
    have arrived := @Sound.arrived h _ larger input _ pkt read (by
      change (pkt.seq - s.expectedSeq).toNat ≤ s.maxWindow.toNat
      omega)
    obtain ⟨t,ended,taken,length⟩ := processIncomingPkt_received larger inside few arrived truncated
    change processIncomingPkt h (more.slot (trailingOnes s.oosMask))
      (Receiver.holding s (more.put (more.slot (trailingOnes s.oosMask)) pkt)) = .ret t at ended
    rw [place] at ended
    rw [ended]
    exact ⟨taken.after kept size,length⟩

theorem doReceiveData_moves (sound : Sound s) {input : Recv} (room : rbufFull s = false) (timely : ¬ Early h s input) :
    (doReceiveData h input s).Meets (Moves (Arrived h (some input) s) s) (Moves (Arrived h (some input) s) s)
      (fun _ _ => False) := by
  have few := (rbufFull_iff sound).mp room
  exact (doReceiveData_received sound room timely).mono (fun _ met => met.1.moves few) (fun _ met => met.moves few)
    (fun _ _ never => never)

/-- The receiver after `writes` calls of write, of which one wrote `bytes`. -/
def Receiver.wrote (s : Receiver) (len : Int) (writes : Nat) (bytes : List UInt8) : Receiver :=
  { s with lastWrittenLen := len, fileWrites := writes, output := s.output ++ bytes }

def Receiver.removed (s : Receiver) (buf : Pktbuf) : Receiver :=
  { s with recvBuf := buf, oosMask := s.oosMask >>> 1, drained := s.drained + 1 }

theorem dequeueFirst_rule {good : Receiver → Prop} {payload : List UInt8} {next : Receiver → Outcome Halt Receiver}
    {len : Int} {writes : Nat} (stopped : good (Receiver.wrote s len writes payload))
    (further : ∀ buf, good (next (Receiver.removed (Receiver.wrote s len writes payload) buf)).state) :
    good (dequeueFirst h payload { s with lastWrittenLen := len, fileWrites := writes } next).state := by
  cases found : pktbufDequeue h s.recvBuf with
  | error reason =>
    simp only [dequeueFirst,found,Outcome.call]
    exact stopped
  | ok result =>
    simp only [dequeueFirst,found,Outcome.call]
    exact further result.2

/-- Rule of do_empty_rbuf: what holds when nothing is written and when one write is tried, and
is kept by the removal of a packet, holds between the states before and after. -/
theorem emptyLoop_rule {rel : Receiver → Receiver → Prop} (nothing : ∀ s, rel s s)
    (tried : ∀ s len writes bytes, bit s.oosMask 0 = true → rel s (Receiver.wrote s len writes bytes))
    (passed : ∀ s t len writes bytes buf, bit s.oosMask 0 = true →
      rel (Receiver.removed (Receiver.wrote s len writes bytes) buf) t → rel s t)
    (h : Host) (fuel : Nat) (s : Receiver) : rel s (emptyLoop h fuel s).state := by
  induction fuel generalizing s with
  | zero => exact nothing s
  | succ fuel ih =>
    unfold emptyLoop
    split
    next one =>
      have set : bit s.oosMask 0 = true := (and_one_iff _).mp one
      have looked (len : Int) (writes : Nat) : rel s { s with lastWrittenLen := len, fileWrites := writes } := by
        have silent := tried s len writes [] set
        rwa [Receiver.wrote,List.append_nil] at silent
      cases assert h (!pktbufEmpty s.recvBuf) with
      | error reason => exact nothing s
      | ok _ =>
        simp only [Outcome.call_ok]
        cases pktbufFirst s.recvBuf with
        | none => exact nothing s
        | some front =>
          simp only
          split
          next =>
            split
            next => exact looked _ _
            next => exact looked _ _
            next count => exact tried s _ _ _ set
            next => exact dequeueFirst_rule (tried s _ _ _ set) (fun buf => passed s _ _ _ _ buf set (ih _))
          next =>
            exact @dequeueFirst_rule _ _ _ _ _ _ s.fileWrites (tried s _ _ _ set)
              (fun buf => passed s _ _ _ _ buf set (ih _))
    next => exact nothing s

/-- Every attempted write of a packet completes or would block. -/
def Obliging (h : Host) : Prop := ∀ n, h.write n = .complete ∨ h.write n = .again

theorem dequeueFirst_eq (live : 0 < s.recvBuf.size) (payload : List UInt8)
    (next : Receiver → Outcome Halt Receiver) : dequeueFirst h payload s next = next { s with
      output := s.output ++ payload, recvBuf := s.recvBuf.pop, oosMask := s.oosMask >>> 1
      drained := s.drained + 1 } := by
  rw [dequeueFirst]
  simp only [pktbufDequeue_live h live,Outcome.call_ok]

/-- The receiver once it has tried to write the packet at the front. -/
def Receiver.writing (s : Receiver) : Receiver :=
  { s with
    lastWrittenLen := (s.recvBuf.get 0).length.toNat
    fileWrites := if (s.recvBuf.get 0).length ≠ 0 then s.fileWrites + 1 else s.fileWrites }

/-- The packet at the front cannot be written now; an empty one is not written at all. -/
def Blocks (h : Host) (s : Receiver) : Prop := (s.recvBuf.get 0).length ≠ 0 ∧ h.write s.fileWrites = .again

instance (h : Host) (s : Receiver) : Decidable (Blocks h s) := inferInstanceAs (Decidable (_ ∧ _))

theorem emptyLoop_turn (live : 0 < s.recvBuf.size) (obliging : Obliging h) (set : bit s.oosMask 0 = true) (fuel : Nat) :
    emptyLoop h (fuel + 1) s = if Blocks h s then .ret (Receiver.writing s)
      else emptyLoop h fuel (Receiver.draining (Receiver.writing s)) := by
  have checked : assert h (!pktbufEmpty s.recvBuf) = .ok () := assert_true h (by simp [pktbufEmpty_false live])
  have front : s.recvBuf.head (s.recvBuf.slot 0) = s.recvBuf.get 0 := rfl
  have unfolded := emptyLoop.eq_2 h s fuel
  rw [if_pos ((and_one_iff _).mpr set),checked,pktbufFirst_live live,Outcome.call_ok] at unfolded
  simp only [front] at unfolded
  by_cases last : (s.recvBuf.get 0).length = 0
  · have writing : Receiver.writing s = { s with lastWrittenLen := (s.recvBuf.get 0).length.toNat } := by
      rw [Receiver.writing,if_neg (not_not.mpr last)]
    have nothing : (s.recvBuf.get 0).payload (s.recvBuf.get 0).length.toNat = [] := by
      rw [last]
      rfl
    have empty : Receiver.draining (Receiver.writing s) = { Receiver.draining (Receiver.writing s) with
        output := (Receiver.writing s).output ++ [] } := by
      rw [← nothing]
      rfl
    rw [if_neg (not_not.mpr last),← writing,dequeueFirst_eq (s := Receiver.writing s) live] at unfolded
    rw [unfolded,if_neg (fun blocks => blocks.1 last),empty]
    rfl
  · have writing : Receiver.writing s = { s with
        lastWrittenLen := (s.recvBuf.get 0).length.toNat, fileWrites := s.fileWrites + 1 } := by
      rw [Receiver.writing,if_pos last]
    rw [if_pos last,← writing] at unfolded
    rcases obliging s.fileWrites with complete | blocked
    · have free : ¬ Blocks h s := by
        intro blocks
        rw [blocks.2] at complete
        contradiction
      rw [complete] at unfolded
      rw [if_neg free]
      exact unfolded.trans (dequeueFirst_eq (s := Receiver.writing s) live _ _)
    · rw [blocked] at unfolded
      rw [if_pos ⟨last,blocked⟩]
      exact unfolded

theorem emptyLoop_done (clear : bit s.oosMask 0 = false) (fuel : Nat) : emptyLoop h fuel s = .ret s := by
  cases fuel with
  | zero => rfl
  | succ fuel =>
    have stop : ¬ s.oosMask &&& 1 = 1 := by
      rw [and_one_iff,clear]
      decide
    rw [emptyLoop,if_neg stop]

/-- The loop writes from the front; when no write blocks it writes all that is in sequence. -/
theorem emptyLoop_moves (obliging : Obliging h) (fuel : Nat) (s : Receiver) (sound : Sound s) :
    ∃ t, emptyLoop h fuel s = .ret t ∧ Moves source s t ∧
      ((∀ n, h.write n = .complete) → trailingOnes s.oosMask ≤ fuel → bit t.oosMask 0 = false) := by
  induction fuel generalizing s with
  | zero =>
    refine ⟨s,rfl,.refl,?_⟩
    intro _ short
    have clear := bit_trailingOnes s.oosMask
    rwa [Nat.le_zero.mp short] at clear
  | succ fuel ih =>
    by_cases set : bit s.oosMask 0 = true
    · let m := Receiver.writing s
      have idle : Move source s m := .idle m rfl
      have taken : Move source m (Receiver.draining m) := .drained set
      rw [emptyLoop_turn (sound.filled 0 set) obliging set]
      split
      next blocks =>
        refine ⟨m,rfl,.single idle,?_⟩
        intro complete
        have blocked := blocks.2
        rw [complete] at blocked
        contradiction
      next =>
        obtain ⟨t,ended,moves,empty⟩ := ih (Receiver.draining m) (taken.sound (idle.sound sound))
        refine ⟨t,ended,(moves.head taken).head idle,?_⟩
        intro complete short
        apply empty complete
        have shorter := trailingOnes_shift set
        change trailingOnes (s.oosMask >>> 1) ≤ fuel
        omega
    · have clear : bit s.oosMask 0 = false := by simpa using set
      exact ⟨s,emptyLoop_done clear _,.refl,fun _ _ => clear⟩

def ackReply (h : Host) (s : Receiver) : Reply :=
  ⟨ptypeAck,s.expected,(replyPkt h ptypeAck s.expectedSeq s).datagram⟩

def nackReply (h : Host) (seq : UInt8) (s : Receiver) : Reply :=
  ⟨ptypeNack,nearest s.expected seq,(replyPkt h ptypeNack seq s).datagram⟩

/-- Between `s` and `t` nothing was done but to reply. -/
structure Answered (h : Host) (s t : Receiver) : Prop where
  same : Receiver.core { t with replies := s.replies } = Receiver.core s
  news : ∃ news, t.replies = s.replies ++ news ∧ ∀ r ∈ news,
    r = ackReply h s ∨ s.needNack = true ∧ r = nackReply h s.nackSeq s

theorem Answered.silent (same : Receiver.core t = Receiver.core s) : Answered h s t := by
  have replies := congrArg Receiver.replies same
  change t.replies = s.replies at replies
  refine ⟨?_,[],by rw [replies,List.append_nil],by simp⟩
  rw [← replies]
  exact same

theorem Answered.sound (answered : Answered h s t) (sound : Sound s) : Sound t := by
  have kept := sound.frame answered.same
  exact ⟨kept.1,kept.2,kept.3,kept.4,kept.5,kept.6,kept.7,kept.8,kept.9⟩

theorem sendReply_cases (h : Host) (type : BitVec 2) (seq : UInt8) (number : Nat) (s : Receiver) :
    sendReply h type seq number s = .ret { s with
      writes := s.writes + 1, replies := s.replies ++ [⟨type,number,(replyPkt h type seq s).datagram⟩] } ∨
    sendReply h type seq number s = .err { s with writes := s.writes + 1 } := by
  unfold sendReply
  split
  next => exact Or.inl rfl
  next => exact Or.inr rfl

theorem sendAck_answered (h : Host) (s : Receiver) :
    (sendAck h s).Meets (Answered h s) (Answered h s) (fun _ _ => False) := by
  unfold sendAck
  rcases sendReply_cases h ptypeAck s.expectedSeq s.expected s with sent | failed
  · rw [sent]
    exact ⟨rfl,[ackReply h s],rfl,fun r member => Or.inl (List.mem_singleton.mp member)⟩
  · rw [failed]
    exact .silent rfl

theorem sendNack_answered (h : Host) (owed : s.needNack = true) :
    (sendNack h s.nackSeq s).Meets (Answered h s) (Answered h s) (fun _ _ => False) := by
  unfold sendNack
  rcases sendReply_cases h ptypeNack s.nackSeq (nearest s.expected s.nackSeq) s with sent | failed
  · rw [sent]
    exact ⟨rfl,[nackReply h s.nackSeq s],rfl,fun r member => Or.inr ⟨owed,List.mem_singleton.mp member⟩⟩
  · rw [failed]
    exact .silent rfl

theorem Answered.after {first : Reply} (own : first = ackReply h s)
    (answered : Answered h { s with writes := s.writes + 1, replies := s.replies ++ [first] } t) : Answered h s t := by
  obtain ⟨same,news,appended,all⟩ := answered
  refine ⟨?_,first :: news,?_,?_⟩
  · exact congrArg (fun m : Receiver => ({ m with replies := s.replies } : Receiver)) same
  · rw [appended]
    change (s.replies ++ [first]) ++ news = _
    rw [List.append_assoc]
    rfl
  · intro r member
    rcases List.mem_cons.mp member with rfl | later
    · exact Or.inl own
    · exact all r later

theorem answer_answered (h : Host) (s : Receiver) :
    (answer h s).Meets (Answered h s) (Answered h s) (fun _ _ => False) := by
  have nacked (t : Receiver) : (if t.needNack then sendNack h t.nackSeq t else .ret t).Meets
      (Answered h t) (Answered h t) (fun _ _ => False) := by
    split
    next owed => exact sendNack_answered h owed
    next => exact .silent rfl
  unfold answer
  split
  next =>
    unfold sendAck
    rcases sendReply_cases h ptypeAck s.expectedSeq s.expected s with sent | failed
    · rw [sent]
      exact (nacked _).mono (fun _ later => .after rfl later) (fun _ later => .after rfl later) (fun _ _ never => never)
    · rw [failed]
      exact .silent rfl
  next => exact nacked s

inductive Awaited (h : Host) (retry : Nat) (slot : UInt32) (input : Recv) (linked : Bool) (s : Receiver) :
    Config Halt Receiver → Prop
  | aborted (pkt : Pkt) : Awaited h retry slot input linked s
      (.returned econnaborted (Receiver.holding s (s.recvBuf.put slot pkt)))
  | again (pkt : Pkt) : Awaited h retry slot input linked s
      (.running { Receiver.holding s (s.recvBuf.put slot pkt) with phase := .connecting (retry + 1) slot })
  | first (pkt : Pkt) (read : netRecvfrom h (s.recvBuf.head slot) input = (.netOk,pkt))
      (number : pkt.seq = initialSeqnum) (accepted : linked = true) :
      Awaited h retry slot input linked s (connected h slot (Receiver.holding s (s.recvBuf.put slot pkt)))

theorem waitAndConnect_cases (h : Host) (retry : Nat) (slot : UInt32) (input : Recv) (linked : Bool) (s : Receiver) :
    Awaited h retry slot input linked s (waitAndConnect h retry slot input linked s) := by
  have same : Receiver.holding s (s.recvBuf.put slot (s.recvBuf.head slot)) = s := by
    unfold Receiver.holding
    rw [CircularArray.put_head_eq]
  have retried (pkt : Pkt) : Awaited h retry slot input linked s
      (if retry + 1 ≥ maxRetries then .returned econnaborted (Receiver.holding s (s.recvBuf.put slot pkt))
        else .running { Receiver.holding s (s.recvBuf.put slot pkt) with phase := .connecting (retry + 1) slot }) := by
    split
    next => exact .aborted pkt
    next => exact .again pkt
  unfold waitAndConnect
  cases received : netRecvfrom h (s.recvBuf.head slot) input with
  | mk status pkt =>
    cases status with
    | netError =>
      have failed : Awaited h retry slot input linked s (.returned econnaborted _) := .aborted (s.recvBuf.head slot)
      rw [same] at failed
      exact failed
    | netDrop => exact retried pkt
    | netOk =>
      by_cases other : pkt.seq ≠ initialSeqnum
      · simp only [if_pos other]
        exact retried pkt
      · simp only [if_neg other]
        cases linked with
        | false => exact .aborted pkt
        | true => exact .first pkt received (not_not.mp other) rfl

inductive Lingered (h : Host) (retry : Nat) (s : Receiver) : Config Halt Receiver → Prop
  | done (code : Int) : Lingered h retry s (.returned code s)
  | replied (t : Receiver) (sent : sendAck h s = .ret t) :
      Lingered h retry s (.running { t with phase := .lingering (retry + 1) })
  | failed (t : Receiver) (sent : sendAck h s = .err t) : Lingered h retry s (.returned econnaborted t)

theorem linger_cases (h : Host) (retry : Nat) (event : Event) (s : Receiver) :
    Lingered h retry s (linger h retry event s) := by
  unfold linger
  split
  next =>
    split
    next => exact .done _
    next => exact .done _
  next =>
    split
    next =>
      have met := sendAck_answered h s
      cases sent : sendAck h s with
      | ret t => exact .replied t sent
      | err t => exact .failed t sent
      | halt reason t =>
        rw [sent] at met
        exact met.elim
    next => exact .done _
  next => exact .done _

/-- What each phase does at an event. -/
inductive Stepped (h : Host) (s : Receiver) : Event → Config Halt Receiver → Prop
  | awaited (retry : Nat) (slot : UInt32) (input : Recv) (linked : Bool) (phase : s.phase = .connecting retry slot) :
      Stepped h s (.datagram input linked) (waitAndConnect h retry slot input linked s)
  | aborted (event : Event) (phase : s.phase = .receiving) (late : event = .failed ∨ event = .timeout) :
      Stepped h s event (.returned econnaborted s)
  | turned (input : Option Recv) (file : Bool) (phase : s.phase = .receiving) :
      Stepped h s (.ready input file) (afterTurn (turn h input file s))
  | lingered (retry : Nat) (event : Event) (phase : s.phase = .lingering retry) :
      Stepped h s event (linger h retry event s)

/-- Inversion of a step. -/
theorem step_cases {c d : Config Halt Receiver} {event : Event} (taken : Step h c event d) :
    ∃ s, c = .running s ∧ Stepped h s event d := by
  cases c with
  | returned code s => simp [Step,next] at taken
  | halted reason s => simp [Step,next] at taken
  | running s =>
    refine ⟨s,rfl,?_⟩
    cases phase : s.phase with
    | connecting retry slot =>
      cases event with
      | datagram input linked =>
        obtain rfl : waitAndConnect h retry slot input linked s = d := by simpa [Step,next,phase] using taken
        exact .awaited retry slot input linked phase
      | failed => simp [Step,next,phase] at taken
      | timeout => simp [Step,next,phase] at taken
      | ready input file => simp [Step,next,phase] at taken
    | receiving =>
      cases event with
      | datagram input linked => simp [Step,next,phase] at taken
      | failed =>
        obtain rfl : .returned econnaborted s = d := by simpa [Step,next,phase] using taken
        exact .aborted _ phase (Or.inl rfl)
      | timeout =>
        obtain rfl : .returned econnaborted s = d := by simpa [Step,next,phase] using taken
        exact .aborted _ phase (Or.inr rfl)
      | ready input file =>
        obtain rfl : afterTurn (turn h input file s) = d := by simpa [Step,next,phase] using taken
        exact .turned input file phase
    | lingering retry =>
      have last (event : Event) (taken : Step h (.running s) event d)
        (other : ∀ input linked, event ≠ .datagram input linked) :
          Stepped h s event d := by
        obtain rfl : linger h retry event s = d := by
          cases event with
          | datagram input linked => exact absurd rfl (other input linked)
          | _ => simpa [Step,next,phase] using taken
        exact .lingered retry event phase
      cases event with
      | datagram input linked => simp [Step,next,phase] at taken
      | failed => exact last _ taken (by simp)
      | timeout => exact last _ taken (by simp)
      | ready input file => exact last _ taken (by simp)

end Trtp.ReceiveBuffer
