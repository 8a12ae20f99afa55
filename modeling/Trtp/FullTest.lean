import Trtp.Overflow
import Trtp.Window

/-! The two tests for a full buffer. They agree as long as every packet that is
stored is marked inside the window. -/
namespace Trtp.FullTest
open Lib.Circular Lib.Mask Lib.Run Lib.Serial Packet Codec Process Buffer Net Receive ReceiveBuffer ReceiverRuns
open Marking Window DataStream Overflow

/-- An untruncated DATA packet is let through whose distance from the start of the
buffer and gap add up to a place behind the window. -/
def Outside (h : Host) (s : Receiver) (input : Recv) : Prop :=
  rbufFull s = false ∧ ∃ stale pkt d,
    netRecvPkt h stale s.expectedSeq (windowSize s).toUInt8 input = (.netOk,pkt) ∧
    pkt.type = ptypeData ∧ pkt.tr = false ∧ distance s = some d ∧
    s.maxWindow.toNat ≤ d.toNat + (pkt.seq - s.expectedSeq).toNat

def Inside (h : Host) : Config Halt Receiver → Event → Prop
  | .running s, .ready (some input) _ => s.phase = .receiving → ¬ Outside h s input
  | _, _ => True

variable {h : Host} {s : Receiver}

theorem distance_of_front {t : Receiver} (one : t.oosMask &&& 1 = 1) (live : 0 < t.recvBuf.size) :
    distance t = some (t.expectedSeq - (t.recvBuf.get 0).seq - 1) := by
  rw [distance,if_pos one,pktbufFirst_live live]
  rfl

theorem distance_of_clear {t : Receiver} (clear : ¬ t.oosMask &&& 1 = 1) : distance t = some 0 := if_neg clear

theorem distance_of_empty {t : Receiver} (one : t.oosMask &&& 1 = 1) (empty : t.recvBuf.size = 0) :
    distance t = none := by
  rw [distance,if_pos one,pktbufFirst_empty empty]
  rfl

theorem turn_around (a b : UInt8) : (a - b - 1).toNat + (b - a).toNat = 255 := by
  have opposite : a - b - 1 = 255 - (b - a) := by grind
  have most : b - a ≤ 255 := by
    rw [UInt8.le_iff_toNat_le]
    have bound := (b - a).toNat_lt
    change _ ≤ 255
    omega
  have bound := UInt8.le_iff_toNat_le.mp most
  rw [opposite,UInt8.toNat_sub_of_le _ _ most]
  exact Nat.sub_add_cancel bound

/-- Receiving into the place of the expected packet leaves its distance alone, as
far as the packet can be marked at all. -/
theorem letThrough_distance {input : Recv} {place : UInt32} {buf : Pktbuf} {pkt : Pkt}
    (through : LetThrough h input s place buf pkt) {d : UInt8}
    (far : distance (Receiver.holding s (buf.put place pkt)) = some d)
    (small : d.toNat + (pkt.seq - s.expectedSeq).toNat < 32) : distance s = some d := by
  by_cases one : s.oosMask &&& 1 = 1
  · by_cases live : 0 < buf.size
    · rw [@distance_of_front (Receiver.holding s (buf.put place pkt)) one live] at far
      obtain rfl := Option.some.inj far
      obtain ⟨_,_,either⟩ := slotforSeq_front through.found
      by_cases front : buf.slot 0 = place
      · exfalso
        have own : (buf.put place pkt).get 0 = pkt := by
          rw [← front]
          exact buf.get_put pkt 0
        change (s.expectedSeq - ((buf.put place pkt).get 0).seq - 1).toNat + _ < 32 at small
        rw [own,turn_around] at small
        omega
      · rcases either with same | ⟨before,kept⟩
        · exact absurd same.symm front
        · have other : (buf.put place pkt).get 0 = s.recvBuf.get 0 := (if_neg front).trans kept
          rw [distance_of_front one before]
          change some (s.expectedSeq - _ - 1) = some (s.expectedSeq - ((buf.put place pkt).get 0).seq - 1)
          rw [other]
    · have empty : (buf.put place pkt).size = 0 := by
        rw [CircularArray.put_size]
        omega
      rw [@distance_of_empty (Receiver.holding s (buf.put place pkt)) one empty] at far
      contradiction
  · rw [@distance_of_clear (Receiver.holding s (buf.put place pkt)) one] at far
    rw [distance_of_clear one]
    exact far

def Framed (maxWindow : UInt32) (l : Ledger) : Prop :=
  l.maxWindow = maxWindow ∧ ∀ i, bit l.mask i = true → i < maxWindow.toNat

theorem Framed.enter {maxWindow : UInt32} {l : Ledger} (framed : Framed maxWindow l) {k : Nat} (small : k < 32)
    (near : k < maxWindow.toNat) (gap : UInt8) : Framed maxWindow (l.enter k gap) := by
  refine ⟨(l.enter_maxWindow k gap).trans framed.1,?_⟩
  intro i set
  rw [Ledger.enter_mask,bit_setBit l.mask small,Bool.or_eq_true,decide_eq_true_eq] at set
  rcases set with before | rfl
  · exact framed.2 i before
  · exact near

theorem Framed.write {maxWindow : UInt32} {l m : Ledger} (framed : Framed maxWindow l) (write : Ledger.Write l m) :
    Framed maxWindow m := by
  refine ⟨write.shifted.maxWindow.trans framed.1,?_⟩
  intro i set
  rw [write.shifted.mask i] at set
  exact Nat.lt_of_le_of_lt (Nat.le_add_right i _) (framed.2 _ set)

theorem reachable_framed {maxWindow : UInt32} (least : 1 ≤ maxWindow.toNat) {c : Config Halt Receiver}
    (reached : Reach (Start h maxWindow) (Step h) (Inside h) c) : Framed maxWindow (ledger c.state) := by
  have blank : Framed maxWindow (.blank maxWindow) := ⟨rfl,fun i set => by
    change bit 0 i = true at set
    rw [bit_zero] at set
    contradiction⟩
  refine reachable_ledger blank ?_ ?_ (fun l m framed write => framed.write write)
    (fun l replies framed => ⟨framed.1,framed.2⟩) reached
  · rintro s input file l inside phase framed ⟨room,place,buf,pkt,through,whole,d,far,small,rfl⟩
    have own : (Receiver.holding s (buf.put place pkt)).recvBuf.head place = pkt := buf.put_head_self place pkt
    rw [own] at whole small ⊢
    have near : d.toNat + (pkt.seq - s.expectedSeq).toNat < maxWindow.toNat := by
      by_contra outside
      refine inside phase ⟨room,_,pkt,d,through.read,through.data,whole,letThrough_distance through far small,?_⟩
      have fixed : s.maxWindow = maxWindow := framed.1
      rw [fixed]
      omega
    exact @Framed.enter maxWindow (ledger s) framed _ small near _
  · rintro s retry slot input l _ _ before ⟨pkt,_,number,_,d,far,small,rfl⟩
    have framed : Framed maxWindow (ledger s) := by
      rw [before]
      exact blank
    have own : (Receiver.holding s (s.recvBuf.put slot pkt)).recvBuf.head slot = pkt := s.recvBuf.put_head_self slot pkt
    have mask : s.oosMask = 0 := congrArg Ledger.mask before
    have expectedSeq : s.expectedSeq = 0 := congrArg Ledger.expectedSeq before
    have zero : d = 0 := by
      have clear : ¬ s.oosMask &&& 1 = 1 := by
        rw [mask]
        decide
      rw [@distance_of_clear (Receiver.holding s (s.recvBuf.put slot pkt)) clear] at far
      exact (Option.some.inj far).symm
    have front :
        d.toNat + (((Receiver.holding s (s.recvBuf.put slot pkt)).recvBuf.head slot).seq - s.expectedSeq).toNat = 0 := by
      rw [own,number,expectedSeq,zero]
      rfl
    exact @Framed.enter maxWindow (ledger s) framed _ small (by
      change d.toNat + (((Receiver.holding s (s.recvBuf.put slot pkt)).recvBuf.head slot).seq - s.expectedSeq).toNat < _
      omega) _

/-- As long as no packet is stored outside the window, the buffer is full exactly
when the advertised window is zero, and what arrives otherwise is received. -/
theorem receive_fullTest (h : Host) (maxWindow : UInt32) (least : 1 ≤ maxWindow.toNat) (c : Config Halt Receiver)
    (reached : Reach (Start h maxWindow) (Step h) (Inside h) c) :
    (rbufFull c.state = true ↔ windowSize c.state = 0) ∧
    ∀ input, windowSize c.state ≠ 0 → doReadSock h input c.state = doReceiveData h input c.state := by
  have framed := reachable_framed least reached
  have fixed : c.state.maxWindow = maxWindow := framed.1
  have bounded : Bounded maxWindow c.state := (reachable_limited least reached).bounded
  have agree : rbufFull c.state = true ↔ windowSize c.state = 0 := by
    have left := bounded.left
    have ones := bounded.ones
    have none : windowSize c.state = 0 ↔ maxWindow.toNat ≤ trailingOnes c.state.oosMask := by
      rw [← UInt32.toNat_inj,left]
      change _ = 0 ↔ _
      omega
    have full := full_iff framed.2
    change maxWindow.toNat ≤ popcount c.state.oosMask ↔ maxWindow.toNat ≤ trailingOnes c.state.oosMask at full
    rw [none,← full,rbufFull,decide_eq_true_eq,ge_iff_le,UInt32.le_iff_toNat_le,ofNat_popcount,fixed]
  refine ⟨agree,?_⟩
  intro input positive
  have room : rbufFull c.state = false := by
    by_contra full
    exact positive (agree.mp (by simpa using full))
  rw [doReadSock,room]
  rfl

theorem chunk_inside {stream : Nat → Pkt} (isStream : IsStream stream) (clear : bit s.oosMask 0 = false) {i : Nat}
    (near : (serial i - s.expectedSeq).toNat < s.maxWindow.toNat) : ¬ Outside h s (chunk h stream i) := by
  rintro ⟨_,stale,pkt,d,read,_,_,far,beyond⟩
  have idle : ¬ s.oosMask &&& 1 = 1 := by
    rw [and_one_iff,clear]
    simp
  rw [distance_of_clear idle] at far
  obtain rfl := Option.some.inj far
  obtain ⟨q,received,agrees⟩ := @netRecvfrom_image h _ (isStream.valid i) stale
  have same : q = pkt := (Prod.mk.inj (received.symm.trans (netRecvPkt_ok read).1)).2
  have number : pkt.seq = serial i := by rw [← same,← agrees.seq,isStream.number]
  rw [number] at beyond
  change s.maxWindow.toNat ≤ 0 + (serial i - s.expectedSeq).toNat at beyond
  omega

def tendInside (h : Host) (c : Config Halt Receiver) (i : Option Nat) : Option (Config Halt Receiver) :=
  if i.all (fun i => (serial i - c.state.expectedSeq).toNat < c.state.maxWindow.toNat) then
    tend h c (i.map (chunk h countingStream))
  else none

theorem tendInside_inside {c d : Config Halt Receiver} {i : Option Nat} (tended : tendInside h c i = some d) :
    ∃ event, Inside h c event ∧ Step h c event d := by
  unfold tendInside at tended
  split at tended
  next near =>
    obtain ⟨taken,s,rfl,clear⟩ := tend_cases tended
    refine ⟨_,?_,taken⟩
    cases i with
    | none => trivial
    | some i =>
      have inside : ¬ Outside h s (chunk h countingStream i) :=
        chunk_inside countingStream_isStream (clear _ rfl) (of_decide_eq_true near)
      change Inside h (.running s) (occasion s.phase (some (chunk h countingStream i)))
      cases s.phase with
      | connecting retryCount slot => trivial
      | receiving => exact fun _ => inside
      | lingering retry => exact fun _ => inside
  next => contradiction

/-- A window of two with chunk 2 stored behind a gap is not full; with chunk 1 before it,
which cannot be written yet, it is. -/
theorem receive_fullTest_twoPlaces : ∃ s t : Receiver, s.oosMask = 2 ∧ rbufFull s = false ∧ windowSize s ≠ 0 ∧
    t.oosMask = 3 ∧ rbufFull t = true ∧ windowSize t = 0 := by
  have runs : runningWith (fun s => (s.oosMask == 2 && windowSize s == 2) && runningWith (fun t => t.oosMask == 3 &&
        rbufFull t) (tendInside balkingHost (.running s) (some 1)))
      ([some 0,none,none,some 2].foldlM (tendInside balkingHost) (firstWait 2)) = true := by decide +kernel
  obtain ⟨s,played,passed⟩ := exists_of_runningWith runs
  obtain ⟨before,rest⟩ := (Bool.and_eq_true _ _).mp passed
  obtain ⟨gap,two⟩ := (Bool.and_eq_true _ _).mp before
  obtain ⟨t,last,passed⟩ := exists_of_runningWith rest
  obtain ⟨both,full⟩ := (Bool.and_eq_true _ _).mp passed
  have positive : windowSize s ≠ 0 := by
    rw [beq_iff_eq.mp two]
    decide
  have reached : Reach (Start balkingHost 2) (Step balkingHost) (Inside balkingHost) (.running s) :=
    Reach.play (fun _ _ _ tended => tendInside_inside tended) (.start _ (firstWait_start balkingHost 2)) _ played
  obtain ⟨event,inside,taken⟩ := tendInside_inside last
  have partly := receive_fullTest balkingHost 2 (by decide) (.running s) reached
  have wholly := receive_fullTest balkingHost 2 (by decide) (.running t) (.step _ event _ reached inside taken)
  have notFull : rbufFull s = false := by
    by_contra other
    exact positive (partly.1.mp (by simpa using other))
  exact ⟨s,t,beq_iff_eq.mp gap,notFull,positive,beq_iff_eq.mp both,full,wholly.1.mp full⟩

/-- With a window of one, chunk 0 is written, chunk 1 comes too early and is
discarded, chunk 2 is stored: the buffer is full while a window of one is advertised. -/
theorem receive_fullTests_disagree : ¬ ∀ (h : Host) (maxWindow : UInt32) (c : Config Halt Receiver), Obliging h →
    1 ≤ maxWindow.toNat → maxWindow.toNat ≤ maxWindowSize →
    Reach (Start h maxWindow) (Step h) (fun _ event => DataOnly h event) c →
    (rbufFull c.state = true ↔ windowSize c.state = 0) := by
  intro claim
  have wrong : runningWith (fun s => rbufFull s && windowSize s != 0)
      ([0,1,2].foldlM (bring steadyHost countingStream) (firstWait 1)) = true := by decide +kernel
  obtain ⟨s,played,passed⟩ := exists_of_runningWith wrong
  obtain ⟨full,positive⟩ := (Bool.and_eq_true _ _).mp passed
  have agree := claim steadyHost 1 (.running s) steadyHost_obliging (by decide) (by decide)
    (bring_play _ (fun _ _ _ brought => bring_dataOnly steadyHost brought) played)
  exact absurd (agree.mp full) (bne_iff_ne.mp positive)

end Trtp.FullTest
