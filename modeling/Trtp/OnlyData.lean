import Trtp.DataStream
import Trtp.Marking

/-! Only data is delivered. The packets of the main loop are checked for their
type, the packet that opens the connection is not. -/
namespace Trtp.OnlyData
open Lib.Circular Lib.Mask Lib.Run Lib.Serial Packet Codec Process Buffer Net Receive ReceiveBuffer ReceiverRuns
open Marking DataStream

def ReadsData (h : Host) (event : Event) : Prop :=
  ∃ input stale pkt, socket event = some input ∧ netRecvfrom h stale input = (.netOk,pkt) ∧
    pkt.type = ptypeData ∧ pkt.tr = false

/-- What a step does is done on account of data: a mark that was not there, a new
expected number, a chunk accepted; and what is written at the front stood there
before or has just been read. -/
structure Caused (h : Host) (event : Event) (s t : Receiver) : Prop where
  gained : ∀ i, bit t.oosMask i = true → bit s.oosMask (i + (t.drained - s.drained)) = false → ReadsData h event
  advanced : t.expectedSeq ≠ s.expectedSeq → ReadsData h event
  accepted : t.accepted ≠ s.accepted → ReadsData h event ∧ t.accepted.length = s.accepted.length + 1
  written : t.drained ≠ s.drained ∨ t.output ≠ s.output ∨ t.lastWrittenLen ≠ s.lastWrittenLen →
    bit s.oosMask 0 = true ∨ ReadsData h event

structure Counted (l : Ledger) : Prop where
  marks : l.drained + popcount l.mask ≤ l.accepted.length
  still : l.accepted = [] → l.expectedSeq = initialSeqnum ∧ l.lastWrittenLen = -1 ∧ l.output = []

/-- The packet that opens the connection is a DATA packet. -/
def DataFirst (h : Host) : Config Halt Receiver → Event → Prop
  | .running s, .datagram input true => ∀ retry slot pkt, s.phase = .connecting retry slot →
      netRecvfrom h (s.recvBuf.head slot) input = (.netOk,pkt) → pkt.seq = initialSeqnum → pkt.type = ptypeData
  | _, _ => True

variable {h : Host} {s : Receiver} {event : Event} {l m : Ledger}

theorem Entered.data (entered : Entered h event s l) (first : DataFirst h (.running s) event) :
    l = ledger s ∨ ReadsData h event ∧ ∃ k gap, k < 32 ∧ l = (ledger s).enter k gap := by
  cases entered with
  | kept => exact Or.inl rfl
  | read input file _ ready phase entry =>
    subst ready
    obtain ⟨_,place,buf,pkt,through,taken⟩ := entry
    have whole : pkt.tr = false := by
      have same : (Receiver.holding s (buf.put place pkt)).recvBuf.head place = pkt := buf.put_head_self place pkt
      rw [← same]
      exact taken.whole
    exact Or.inr ⟨⟨input,_,pkt,rfl,(netRecvPkt_ok through.read).1,through.data,whole⟩,taken.enters⟩
  | first retry slot input _ arrived phase entry =>
    subst arrived
    obtain ⟨pkt,read,number,taken⟩ := entry
    have whole : pkt.tr = false := by
      have same : (Receiver.holding s (s.recvBuf.put slot pkt)).recvBuf.head slot = pkt :=
        s.recvBuf.put_head_self slot pkt
      rw [← same]
      exact taken.whole
    exact Or.inr ⟨⟨input,_,pkt,rfl,read,first retry slot pkt phase read number,whole⟩,taken.enters⟩

theorem Counted.enter (counted : Counted l) {k : Nat} (small : k < 32) (gap : UInt8) : Counted (l.enter k gap) := by
  have marks := counted.marks
  have more := popcount_setBit l.mask small
  constructor
  · rw [Ledger.enter_drained,Ledger.enter_mask,Ledger.enter_accepted,List.length_append,List.length_singleton]
    omega
  · intro none
    rw [Ledger.enter_accepted] at none
    simp at none

theorem Counted.write (counted : Counted l) (write : Ledger.Write l m) : Counted m := by
  have balance := write.balance
  have accepted := write.shifted.accepted
  refine ⟨by rw [accepted]; exact Nat.le_trans balance counted.marks,?_⟩
  intro none
  rw [accepted] at none
  have marks := counted.marks
  have set : bit l.mask 0 = true := by cases write <;> assumption
  have least := Nat.lt_of_lt_of_le (trailingOnes_pos set) (trailingOnes_le_popcount l.mask)
  rw [none,List.length_nil] at marks
  omega

theorem reachable_counted {maxWindow : UInt32} {allowed : Config Halt Receiver → Event → Prop}
    {c : Config Halt Receiver} (reached : Reach (Start h maxWindow) (Step h) allowed c) : Counted (ledger c.state) := by
  have blank : Counted (.blank maxWindow) := by
    refine ⟨?_,fun _ => ⟨rfl,rfl,rfl⟩⟩
    change 0 + popcount 0 ≤ 0
    decide
  refine reachable_ledger blank ?_ ?_ (fun l m counted write => counted.write write)
    (fun l replies counted => ⟨counted.marks,counted.still⟩) reached
  · rintro s input file l _ _ counted ⟨_,place,buf,pkt,_,taken⟩
    obtain ⟨k,gap,small,rfl⟩ := taken.enters
    exact @Counted.enter (ledger s) counted k small gap
  · rintro s retry slot input l _ _ before ⟨pkt,_,_,taken⟩
    obtain ⟨k,gap,small,rfl⟩ := taken.enters
    have counted : Counted (ledger s) := by
      rw [before]
      exact blank
    exact @Counted.enter (ledger s) counted k small gap

theorem step_caused (first : DataFirst h (.running s) event) {d : Config Halt Receiver}
    (taken : Step h (.running s) event d) : Caused h event s d.state := by
  obtain ⟨l,m,entered,writes,told⟩ := (next_ledger taken).entered
  have shifted := writes.shifted
  have still := writes.idle
  rw [← told.restored] at shifted still
  have accepted : d.state.accepted = l.accepted := shifted.accepted
  rcases Entered.data entered first with rfl | ⟨reads,k,gap,small,rfl⟩
  · have expectedSeq : d.state.expectedSeq = s.expectedSeq := shifted.expectedSeq
    refine ⟨?_,fun moved => absurd expectedSeq moved,fun moved => absurd accepted moved,?_⟩
    · intro i set clear
      have same : bit d.state.oosMask i = bit s.oosMask (i + (d.state.drained - s.drained)) := shifted.mask i
      rw [same,clear] at set
      contradiction
    · intro moved
      left
      by_contra other
      have clear : bit s.oosMask 0 = false := by simpa using other
      have same := still clear
      have drained : d.state.drained = s.drained := congrArg Ledger.drained same
      have output : d.state.output = s.output := congrArg Ledger.output same
      have length : d.state.lastWrittenLen = s.lastWrittenLen := congrArg Ledger.lastWrittenLen same
      rcases moved with moved | moved | moved <;> contradiction
  · refine ⟨fun _ _ _ => reads,fun _ => reads,fun _ => ⟨reads,?_⟩,fun _ => Or.inr reads⟩
    rw [accepted,Ledger.enter_accepted,List.length_append,List.length_singleton]
    rfl

/-- In a run in which the connection is opened by a DATA packet, whatever else
arrives, marks, chunks and the end of the transfer come of DATA packets only. -/
theorem receive_onlyData (h : Host) (maxWindow : UInt32) (c : Config Halt Receiver)
    (reached : Reach (Start h maxWindow) (Step h) (DataFirst h) c) :
    Counted (ledger c.state) ∧ ∀ event d, DataFirst h c event → Step h c event d → Caused h event c.state d.state := by
  refine ⟨reachable_counted reached,?_⟩
  intro event d first taken
  obtain ⟨s,rfl,_⟩ := step_cases taken
  exact step_caused first taken

/-- What opens the connection is a DATA packet. -/
def opening (h : Host) (s : Receiver) (input : Recv) : Bool :=
  match s.phase with
  | .connecting _ slot =>
    let (status,pkt) := netRecvfrom h (s.recvBuf.head slot) input
    status ≠ .netOk || pkt.seq ≠ initialSeqnum || pkt.type = ptypeData
  | _ => true

def greet (h : Host) (c : Config Halt Receiver) (input : Option Recv) : Option (Config Halt Receiver) :=
  if input.all (opening h c.state) then next h c (occasion c.state.phase input) else none

theorem greet_dataFirst {c d : Config Halt Receiver} {input : Option Recv} (greeted : greet h c input = some d) :
    DataFirst h c (occasion c.state.phase input) ∧ Step h c (occasion c.state.phase input) d := by
  unfold greet at greeted
  split at greeted
  next opened =>
    refine ⟨?_,greeted⟩
    obtain ⟨s,rfl,_⟩ := step_cases greeted
    change DataFirst h (.running s) (occasion s.phase input)
    cases input with
    | none => trivial
    | some data =>
      cases phase : s.phase with
      | receiving => trivial
      | lingering retry => trivial
      | connecting retry slot =>
        intro other place pkt same read number
        obtain ⟨_,rfl⟩ := Phase.connecting.inj (phase.symm.trans same)
        change opening h s data = true at opened
        simpa [opening,phase,read,number] using opened
  next => contradiction

def datagramOf (type : BitVec 2) (seq : UInt8) : Recv :=
  .datagram (image steadyHost.crc32 { Pkt.zero with type := type, seq := seq })

/-- An ACK numbered 5 does not open the connection, a NACK numbered 1 and then an ACK numbered 1
are not stored as chunk 1, which comes after them. -/
theorem receive_onlyData_strays : ∃ (s t u : Receiver) (ack data : Event),
    socket ack = some (datagramOf ptypeAck 1) ∧ Step steadyHost (.running s) ack (.running t) ∧ t.accepted = [0] ∧
    socket data = some (chunk steadyHost countingStream 1) ∧ Step steadyHost (.running t) data (.running u) ∧
    u.accepted = [0,1] ∧ Counted (ledger t) ∧ Caused steadyHost ack s t ∧ Caused steadyHost data t u := by
  let whole := chunk steadyHost countingStream
  have runs : runningWith (fun s => runningWith
    (fun t => t.accepted == [0] && runningWith (fun u => u.accepted == [0,1])
        (greet steadyHost (.running t) (some (whole 1))))
        (greet steadyHost (.running s) (some (datagramOf ptypeAck 1))))
      ([some (datagramOf ptypeAck 5),some (whole 0),none,some (datagramOf ptypeNack 1)].foldlM
        (greet steadyHost) (firstWait 31)) = true := by decide +kernel
  obtain ⟨s,played,rest⟩ := exists_of_runningWith runs
  obtain ⟨t,rejected,passed⟩ := exists_of_runningWith rest
  obtain ⟨one,rest⟩ := (Bool.and_eq_true _ _).mp passed
  obtain ⟨u,stored,two⟩ := exists_of_runningWith rest
  obtain ⟨ack,stray⟩ := greet_dataFirst rejected
  obtain ⟨data,arrived⟩ := greet_dataFirst stored
  have reached : Reach (Start steadyHost 31) (Step steadyHost) (DataFirst steadyHost) (.running s) :=
    Reach.play (fun _ _ _ greeted => ⟨_,greet_dataFirst greeted⟩) (.start _ (firstWait_start steadyHost 31)) _ played
  have before := receive_onlyData steadyHost 31 (.running s) reached
  have after := receive_onlyData steadyHost 31 (.running t) (.step _ _ _ reached ack stray)
  exact ⟨s,t,u,_,_,socket_occasion _ _,stray,beq_iff_eq.mp one,socket_occasion _ _,arrived,beq_iff_eq.mp two,after.1,
    before.2 _ _ ack stray,after.2 _ _ data arrived⟩

def strayAck : Pkt := { Pkt.zero with type := ptypeAck }

theorem strayAck_encodable : Encodable strayAck :=
  ⟨rfl,Nat.zero_le _,fun present => absurd rfl present,fun truncated => absurd truncated (by decide)⟩

theorem strayAck_noData (h : Host) : ¬ ReadsData h (.datagram (.datagram (image h.crc32 strayAck)) true) := by
  rintro ⟨input,stale,pkt,brought,read,data,_⟩
  obtain rfl := Option.some.inj brought
  obtain ⟨q,received,agrees⟩ := netRecvfrom_image (h := h) strayAck_encodable stale
  rw [received] at read
  obtain rfl : q = pkt := (Prod.mk.inj read).2
  have type : ptypeAck = ptypeData := agrees.type.trans data
  contradiction

/-- An ACK with number 0 opens the connection and is accepted as chunk 0. -/
theorem receive_ackAccepted : ¬ ∀ (h : Host) (maxWindow : UInt32) (c : Config Halt Receiver) (event : Event)
    (d : Config Halt Receiver), Reach (Start h maxWindow) (Step h) (fun _ _ => True) c → Step h c event d →
    Caused h event c.state d.state := by
  intro claim
  let event : Event := .datagram (.datagram (image steadyHost.crc32 strayAck)) true
  have opens : runningWith (fun t => t.accepted == [0] && t.expectedSeq == 1)
      (next steadyHost (firstWait 31) event) = true := by decide +kernel
  obtain ⟨t,taken,passed⟩ := exists_of_runningWith opens
  have caused := claim steadyHost 31 (firstWait 31) event (.running t) (.start _ (firstWait_start steadyHost 31)) taken
  have moved : t.expectedSeq ≠ (0 : UInt8) := by
    have one : t.expectedSeq = 1 := by simpa using ((Bool.and_eq_true _ _).mp passed).2
    rw [one]
    decide
  exact strayAck_noData steadyHost (caused.advanced moved)

end Trtp.OnlyData
