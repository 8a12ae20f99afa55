import Trtp.DataStream
import Trtp.Marking

/-! The advertised window: as many numbers as the buffer still has room for. -/
namespace Trtp.Window
open Lib.Circular Lib.Mask Lib.Run Packet Codec Process Buffer Net Receive ReceiveBuffer Marking DataStream

structure Limited (maxWindow : UInt32) (l : Ledger) : Prop where
  fixed : l.maxWindow = maxWindow
  few : popcount l.mask ≤ maxWindow.toNat

variable {h : Host} {maxWindow : UInt32} {l m : Ledger} {s : Receiver}

theorem Limited.enter (limited : Limited maxWindow l) (room : popcount l.mask < maxWindow.toNat) {k : Nat}
    (small : k < 32) (gap : UInt8) : Limited maxWindow (l.enter k gap) := by
  refine ⟨(l.enter_maxWindow k gap).trans limited.fixed,?_⟩
  rw [Ledger.enter_mask]
  exact Nat.le_trans (popcount_setBit l.mask small) room

theorem Limited.write (limited : Limited maxWindow l) (write : Ledger.Write l m) : Limited maxWindow m := by
  cases write with
  | tried set len bytes => exact ⟨limited.fixed,limited.few⟩
  | passed set len bytes => exact ⟨limited.fixed,Nat.le_trans (popcount_shift l.mask) limited.few⟩

theorem ofNat_popcount (mask : UInt32) : (UInt32.ofNat (popcount mask)).toNat = popcount mask := by
  have bound := popcount_le mask
  rw [UInt32.toNat_ofNat']
  omega

theorem room_of_rbufFull (open' : rbufFull s = false) : popcount s.oosMask < s.maxWindow.toNat := by
  rw [rbufFull,decide_eq_false_iff_not,ge_iff_le,UInt32.le_iff_toNat_le,ofNat_popcount] at open'
  exact Nat.lt_of_not_le open'

theorem room_of_blank (least : 1 ≤ maxWindow.toNat) (blank : ledger s = .blank maxWindow) :
    popcount s.oosMask < maxWindow.toNat := by
  have mask : s.oosMask = 0 := congrArg Ledger.mask blank
  have none : popcount (0 : UInt32) = 0 := by decide
  rw [mask]
  omega

theorem reachable_limited (least : 1 ≤ maxWindow.toNat) {allowed : Config Halt Receiver → Event → Prop}
    {c : Config Halt Receiver} (reached : Reach (Start h maxWindow) (Step h) allowed c) :
    Limited maxWindow (ledger c.state) := by
  have none : popcount (0 : UInt32) = 0 := by decide
  refine reachable_ledger ⟨rfl,by change popcount (0 : UInt32) ≤ _; omega⟩ ?_ ?_
    (fun l m limited write => limited.write write) (fun l replies limited => ⟨limited.fixed,limited.few⟩) reached
  · rintro s input file l _ _ limited ⟨open',place,buf,pkt,_,taken⟩
    have room := room_of_rbufFull open'
    rw [show s.maxWindow = maxWindow from limited.fixed] at room
    obtain ⟨k,gap,small,rfl⟩ := taken.enters
    exact @Limited.enter maxWindow (ledger s) limited room _ small gap
  · rintro s retry slot input l _ _ blank ⟨pkt,_,_,taken⟩
    have room := room_of_blank least blank
    have limited : Limited maxWindow (ledger s) := ⟨by rw [blank]; rfl,Nat.le_of_lt room⟩
    obtain ⟨k,gap,small,rfl⟩ := taken.enters
    exact @Limited.enter maxWindow (ledger s) limited room _ small gap

/-- The ledger where a shift may set any one bit, as one that is too long does on
some machine: a mark is set when the buffer is not full, or a packet is written. -/
inductive Loose (l : Ledger) : Ledger → Prop
  | marked (room : UInt32.ofNat (popcount l.mask) < l.maxWindow) (m : Ledger) (fixed : m.maxWindow = l.maxWindow)
      (one : popcount m.mask ≤ popcount l.mask + 1) : Loose l m
  | written (m : Ledger) (write : Ledger.Write l m) : Loose l m

theorem Limited.loose (limited : Limited maxWindow l) (loose : Loose l m) : Limited maxWindow m := by
  cases loose with
  | marked room m fixed one =>
    have few := Nat.lt_of_lt_of_eq (UInt32.lt_iff_toNat_lt.mp room) (congrArg UInt32.toNat limited.fixed)
    rw [ofNat_popcount] at few
    exact ⟨fixed.trans limited.fixed,Nat.le_trans one few⟩
  | written m write => exact limited.write write

theorem Limited.looseRun (limited : Limited maxWindow l) (run : Relation.ReflTransGen Loose l m) :
    Limited maxWindow m := by
  induction run with
  | refl => exact limited
  | tail _ loose ih => exact ih.loose loose

/-- What is left of the window is what window_size() computes. -/
structure Bounded (maxWindow : UInt32) (s : Receiver) : Prop where
  fixed : s.maxWindow = maxWindow
  few : popcount s.oosMask ≤ maxWindow.toNat
  ones : trailingOnes s.oosMask ≤ maxWindow.toNat
  left : (windowSize s).toNat = maxWindow.toNat - trailingOnes s.oosMask

theorem Limited.bounded (limited : Limited maxWindow (ledger s)) : Bounded maxWindow s := by
  have fixed : s.maxWindow = maxWindow := limited.fixed
  have ones : trailingOnes s.oosMask ≤ maxWindow.toNat := Nat.le_trans (trailingOnes_le_popcount _) limited.few
  refine ⟨fixed,limited.few,ones,?_⟩
  rw [← fixed] at ones ⊢
  exact windowSize_toNat ones

/-- A reply is an encoded packet that carries the whole of window_size(). -/
def Announces (h : Host) (s : Receiver) (r : Reply) : Prop :=
  ∃ p, r.datagram = image h.crc32 p ∧ p.type = r.type ∧ p.window.toNat = (windowSize s).toNat

theorem replyPkt_announces (bounded : Bounded maxWindow s) (most : maxWindow.toNat ≤ maxWindowSize) (type : BitVec 2)
    (seq : UInt8) (number : Nat) : Announces h s ⟨type,number,(replyPkt h type seq s).datagram⟩ := by
  refine ⟨_,replyPkt_datagram h type seq s,rfl,?_⟩
  have left := bounded.left
  unfold maxWindowSize at most
  change (BitVec.ofNat 5 (windowSize s).toNat).toNat = _
  rw [BitVec.toNat_ofNat]
  omega

/-- The mask of `s` with the expected packet. -/
def withExpected (s : Receiver) : Receiver := { s with oosMask := setBit s.oosMask 0 }

theorem Taken.front {place : UInt32} (taken : Taken s place l) (clear : bit s.oosMask 0 = false)
    (next : l.accepted = s.accepted ++ [s.expected]) : l = (ledger s).enter 0 0 := by
  obtain ⟨d,found,_,rfl⟩ := taken.entered
  have zero : d = 0 := by
    rw [distance,if_neg (fun one => by simp [(and_one_iff _).mp one] at clear)] at found
    exact (Option.some.inj found).symm
  have gap : (s.recvBuf.head place).seq - s.expectedSeq = 0 := by
    rw [Ledger.enter_accepted] at next
    change s.accepted ++ [s.expected + _] = _ at next
    have same : s.expected + ((s.recvBuf.head place).seq - s.expectedSeq).toNat = s.expected := by simpa using next
    apply UInt8.toNat_inj.mp
    change _ = 0
    omega
  rw [gap,zero]
  rfl

theorem enter_advance (limited : Limited maxWindow (ledger s)) (most : maxWindow.toNat ≤ maxWindowSize)
    (room : popcount s.oosMask < maxWindow.toNat) :
    let k := (maxWindow - windowSize (withExpected s)).toUInt8
    1 ≤ k.toNat ∧ k.toNat ≤ maxWindow.toNat ∧ ((ledger s).enter 0 0).expectedSeq = s.expectedSeq + k ∧
      ((ledger s).enter 0 0).expected = s.expected + k.toNat := by
  have fixed : s.maxWindow = maxWindow := limited.fixed
  have few : popcount (setBit s.oosMask 0) ≤ maxWindow.toNat := Nat.le_trans (popcount_setBit _ (by omega)) room
  have ones : trailingOnes (setBit s.oosMask 0) ≤ maxWindow.toNat := Nat.le_trans (trailingOnes_le_popcount _) few
  have set : bit (setBit s.oosMask 0) 0 = true := by
    rw [bit_setBit _ (by omega)]
    simp
  have positive := trailingOnes_pos set
  have step : (maxWindow - windowSize (withExpected s)).toUInt8.toNat = trailingOnes (setBit s.oosMask 0) := by
    rw [← fixed] at most ones ⊢
    exact @advance_toNat (withExpected s) most ones
  refine ⟨by omega,by omega,?_,?_⟩
  · rw [← fixed]
    rfl
  · rw [← fixed]
    rfl

/-- Whatever arrives and however the writes end, window_size() is the room that is
left in the window, also where marks are set elsewhere from then on; every reply
carries it, and an in-sequence packet that finds nothing in sequence before it moves
the expected number on within the window. -/
theorem receive_window (h : Host) (maxWindow : UInt32) (least : 1 ≤ maxWindow.toNat)
    (most : maxWindow.toNat ≤ maxWindowSize) (c : Config Halt Receiver)
    (reached : Reach (Start h maxWindow) (Step h) (fun _ _ => True) c) :
    Bounded maxWindow c.state ∧
    (∀ s, Relation.ReflTransGen Loose (ledger c.state) (ledger s) → Bounded maxWindow s) ∧
    ∀ event d, Step h c event d →
      (∃ news, d.state.replies = c.state.replies ++ news ∧ ∀ r ∈ news, Announces h d.state r) ∧
      (bit c.state.oosMask 0 = false → d.state.accepted = c.state.accepted ++ [c.state.expected] →
        let k := (maxWindow - windowSize (withExpected c.state)).toUInt8
        1 ≤ k.toNat ∧ k.toNat ≤ maxWindow.toNat ∧ d.state.expectedSeq = c.state.expectedSeq + k ∧
          d.state.expected = c.state.expected + k.toNat) := by
  have limited := reachable_limited least reached
  refine ⟨limited.bounded,fun s run => (limited.looseRun run).bounded,?_⟩
  intro event d step
  have after : Limited maxWindow (ledger d.state) := reachable_limited least (.step c event d reached trivial step)
  obtain ⟨s,rfl,_⟩ := step_cases step
  obtain ⟨l,m,entered,writes,told⟩ := (next_ledger step).entered
  have shifted := writes.shifted
  rw [← told.restored] at shifted
  constructor
  · obtain ⟨news,replied,all⟩ := told.answered.news
    have quiet : l.replies = s.replies := by
      rcases entered.cases with rfl | ⟨buf,place,taken⟩
      · rfl
      · obtain ⟨k,gap,_,rfl⟩ := taken.enters
        exact Ledger.enter_replies _ k gap
    have before : m.replies = s.replies := shifted.replies.trans quiet
    have bounded : Bounded maxWindow m := by
      rw [told.ledger] at after
      exact Limited.bounded ⟨after.fixed,after.few⟩
    refine ⟨news,by rw [replied,before]; rfl,?_⟩
    intro r member
    have size : windowSize d.state = windowSize m := by
      rw [windowSize_eq,windowSize_eq,told.ledger]
      rfl
    unfold Announces
    rw [size]
    rcases all r member with rfl | ⟨_,rfl⟩
    · exact replyPkt_announces bounded most _ _ _
    · exact replyPkt_announces bounded most _ _ _
  · intro clear next
    have expectedSeq : d.state.expectedSeq = l.expectedSeq := shifted.expectedSeq
    have expected : d.state.expected = l.expected := shifted.expected
    have accepted : d.state.accepted = l.accepted := shifted.accepted
    rw [accepted] at next
    rcases entered.cases with rfl | ⟨buf,place,taken⟩
    · change s.accepted = s.accepted ++ [s.expected] at next
      simp at next
    · have front := @Taken.front l (Receiver.holding s buf) place taken clear next
      have room : popcount s.oosMask < maxWindow.toNat := by
        cases entered with
        | kept =>
          change s.accepted = s.accepted ++ [s.expected] at next
          simp at next
        | read input file _ ready phase entry =>
          have room := room_of_rbufFull entry.room
          rwa [show s.maxWindow = maxWindow from limited.fixed] at room
        | first retry slot input _ arrived phase entry =>
          exact room_of_blank least (reachable_blank reached rfl phase)
      have step := enter_advance limited most room
      rw [expectedSeq,expected,front]
      exact step

/-- Chunk 1 arrives before chunk 2 and cannot be written: two places of 31 are taken, and the
ACK that follows says so. -/
theorem receive_window_gap : ∃ (s t : Receiver) (event : Event) (r : Reply), s.oosMask = 2 ∧ Bounded 31 s ∧
    ReceiverRuns.socket event = some (chunk balkingHost countingStream 1) ∧
    Step balkingHost (.running s) event (.running t) ∧
    t.replies = s.replies ++ [r] ∧ r.type = ptypeAck ∧ r.number = 3 ∧ windowSize t = 29 ∧
    Announces balkingHost t r := by
  have runs : runningWith (fun s => s.oosMask == 2 && runningWith (fun t => answers s t == [(ptypeAck,3)] &&
        windowSize t == 29) (tendChunk balkingHost countingStream (.running s) (some 1)))
      ([some 0,none,none,some 2].foldlM (tendChunk balkingHost countingStream)
        (firstWait 31)) = true := by decide +kernel
  obtain ⟨s,played,rest⟩ := exists_of_runningWith runs
  obtain ⟨mask,rest⟩ := (Bool.and_eq_true _ _).mp rest
  obtain ⟨t,last,passed⟩ := exists_of_runningWith rest
  obtain ⟨told,size⟩ := (Bool.and_eq_true _ _).mp passed
  obtain ⟨event,read,_,taken⟩ := tendChunk_admitted last
  have reached : Reach (Start balkingHost 31) (Step balkingHost) (fun _ _ => True) (.running s) :=
    Reach.play (fun _ _ _ tended => (tendChunk_admitted tended).imp fun _ admitted => ⟨trivial,admitted.2.2⟩)
      (.start _ (firstWait_start balkingHost 31)) _ played
  obtain ⟨bounded,_,steps⟩ := receive_window balkingHost 31 (by decide) (by decide) (.running s) reached
  obtain ⟨⟨news,appended,all⟩,_⟩ := steps event (.running t) taken
  obtain ⟨r,rfl,ack,number⟩ := answers_single appended (beq_iff_eq.mp told)
  exact ⟨s,t,event,r,beq_iff_eq.mp mask,bounded,read,taken,appended,ack,number,beq_iff_eq.mp size,
    all r (List.mem_singleton_self r)⟩

end Trtp.Window
