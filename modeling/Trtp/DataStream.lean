import Trtp.Codec
import Trtp.ReceiverRuns

/-! A stream of DATA packets as the receiver meets it: the packets are numbered in
order, and the network loses, repeats, reorders, truncates and corrupts them. -/
namespace Trtp.DataStream
open Lib.Circular Lib.Mask Lib.Run Lib.Serial Packet Codec Process Buffer Net Receive ReceiveBuffer ReceiverRuns

structure IsStream (stream : Nat → Pkt) : Prop where
  valid : ∀ i, Encodable (stream i)
  data : ∀ i, (stream i).type = ptypeData
  whole : ∀ i, (stream i).tr = false
  number : ∀ i, (stream i).seq = serial i

def content (p : Pkt) : List UInt8 := p.payload p.length.toNat

def Brought (h : Host) (stream : Nat → Pkt) (expected : Nat) (input : Recv) : Prop :=
  (∃ i, Near i expected ∧ (input = .datagram (image h.crc32 (stream i)) ∨
    input = .datagram (truncate (image h.crc32 (stream i))))) ∨
  ∀ stale, (netRecvfrom h stale input).1 ≠ .netOk

def Delivered (h : Host) (stream : Nat → Pkt) (c : Config Halt Receiver) (event : Event) : Prop :=
  ∀ input, socket event = some input → Brought h stream c.state.expected input

variable {h : Host} {stream : Nat → Pkt}

theorem netRecvfrom_decode {data : List UInt8} (fits : data.length ≤ 528) (stale : Pkt) :
    netRecvfrom h stale (.datagram data) = match pktDecode h.crc32 data stale with
      | (.pktOk,pkt) => (.netOk,pkt)
      | (_,pkt) => (.netDrop,pkt) := by
  have decoded : pktDecode h.crc32 data stale = pktDecodeInline h.crc32 (stale.overwrite data) data.length :=
    if_neg (by omega)
  rw [netRecvfrom_datagram,List.take_of_length_le fits,decoded]
  obtain ⟨status,pkt⟩ := pktDecodeInline h.crc32 (stale.overwrite data) data.length
  cases status <;> rfl

theorem image_fits {p : Pkt} (valid : Encodable p) : (image h.crc32 p).length ≤ 528 := by
  have bound := valid.length
  unfold maxPayloadSize at bound
  rw [image_length,pktLen]
  split <;> simp only [pktHeaderLen,pktFooterLen] <;> omega

theorem netRecvfrom_image {p : Pkt} (valid : Encodable p) (stale : Pkt) :
    ∃ q, netRecvfrom h stale (.datagram (image h.crc32 p)) = (.netOk,q) ∧ Agrees p q := by
  obtain ⟨q,decoded,agrees,_⟩ := pktDecode_image h.crc32 p stale valid
  refine ⟨q,?_,agrees⟩
  rw [netRecvfrom_decode (image_fits valid),decoded]

theorem netRecvfrom_truncate {p : Pkt} (valid : Encodable p) (data : p.type = ptypeData) (stale : Pkt) :
    ∃ q, netRecvfrom h stale (.datagram (truncate (image h.crc32 p))) = (.netOk,q) ∧ q.tr = true ∧ q.seq = p.seq := by
  have fits : (truncate (image h.crc32 p)).length ≤ 528 := by
    rw [truncate_image,Pkt.header_length]
    decide
  refine ⟨{ p with tr := true, crc1 := headerCrc h.crc32 p, tail := stale.tail },?_,rfl,rfl⟩
  rw [netRecvfrom_decode fits,pktDecode_truncate h.crc32 p stale data valid.length]

theorem netRecvfrom_truncate_other {p : Pkt} (type : validType p.type = true) (other : p.type ≠ ptypeData)
    (stale : Pkt) : (netRecvfrom h stale (.datagram (truncate (image h.crc32 p)))).1 = .netDrop := by
  have fits : (truncate (image h.crc32 p)).length ≤ 528 := by
    rw [truncate_image,Pkt.header_length]
    decide
  have refused := pktDecode_truncate_other h.crc32 p stale type other
  rw [netRecvfrom_decode fits]
  split
  next decoded =>
    rw [decoded] at refused
    contradiction
  next => rfl

theorem replyPkt_datagram (h : Host) (type : BitVec 2) (seq : UInt8) (s : Receiver) :
    (replyPkt h type seq s).datagram = image h.crc32 { Pkt.zero with
      type := type, seq := seq, ts := s.lastTs, window := BitVec.ofNat 5 (windowSize s).toNat } :=
  datagram_encoded h.crc32 _ (Nat.zero_le _)

/-- What arrives untruncated is the packet of the stream with the number that the
receiver takes it for. -/
theorem arrived_stream (isStream : IsStream stream) {base : Receiver} {input : Option Recv} {n : Nat} {pkt : Pkt}
    (small : base.maxWindow.toNat ≤ maxWindowSize)
    (brought : ∀ data, input = some data → Brought h stream base.expected data)
    (arrived : Arrived h input base n pkt) (whole : pkt.tr = false) :
    Agrees (stream n) pkt ∧ input = some (.datagram (image h.crc32 (stream n))) := by
  unfold maxWindowSize at small
  obtain ⟨⟨data,stale,rfl,read⟩,number,after,near⟩ := arrived
  rcases brought data rfl with ⟨i,close,rfl | rfl⟩ | rejected
  · obtain ⟨q,received,agrees⟩ := @netRecvfrom_image h _ (isStream.valid i) stale
    obtain rfl : q = pkt := by
      rw [received] at read
      exact (Prod.mk.inj read).2
    have same : serial n = serial i := by rw [← number,← agrees.seq,isStream.number]
    have equal : n = i := by
      have residues := serial_eq_iff.mp same
      obtain ⟨above,below⟩ := close
      omega
    subst equal
    exact ⟨agrees,rfl⟩
  · obtain ⟨q,received,truncated,_⟩ := @netRecvfrom_truncate h _ (isStream.valid i) (isStream.data i) stale
    rw [received] at read
    obtain rfl := (Prod.mk.inj read).2
    rw [truncated] at whole
    contradiction
  · have status := rejected stale
    rw [read] at status
    contradiction

theorem content_agrees {p q : Pkt} (agrees : Agrees p q) : content q = content p := by
  rw [content,← agrees.length]
  exact agrees.payload.symm

/-- The next event of the current phase, with the datagram of chunk `i`. -/
def bring (h : Host) (stream : Nat → Pkt) (c : Config Halt Receiver) (i : Nat) : Option (Config Halt Receiver) :=
  if Near i c.state.expected then
    match next h c (.datagram (.datagram (image h.crc32 (stream i))) true) with
    | some d => some d
    | none => next h c (.ready (some (.datagram (image h.crc32 (stream i)))) false)
  else none

theorem bring_step {c d : Config Halt Receiver} {i : Nat} (brought : bring h stream c i = some d) :
    ∃ event, socket event = some (.datagram (image h.crc32 (stream i))) ∧ Near i c.state.expected ∧
      Step h c event d := by
  unfold bring at brought
  split at brought
  next near =>
    split at brought
    next found first =>
      obtain rfl : found = d := Option.some.inj brought
      exact ⟨_,rfl,near,first⟩
    next => exact ⟨_,rfl,near,brought⟩
  next => contradiction

theorem bring_delivered {c d : Config Halt Receiver} {i : Nat} (brought : bring h stream c i = some d) :
    ∃ event, Delivered h stream c event ∧ Step h c event d := by
  obtain ⟨event,read,near,taken⟩ := bring_step brought
  refine ⟨event,?_,taken⟩
  intro input found
  obtain rfl := Option.some.inj (read.symm.trans found)
  exact Or.inl ⟨i,near,Or.inl rfl⟩

def countingStream (i : Nat) : Pkt :=
  { Pkt.zero with type := ptypeData, seq := serial i, length := 1, tail := fun j => if j = 0 then serial i else 0 }

theorem countingStream_isStream : IsStream countingStream where
  valid _ := ⟨rfl,by change 1 ≤ 512; omega,fun _ => ⟨rfl,rfl⟩,fun truncated => rfl⟩
  data _ := rfl
  whole _ := rfl
  number _ := rfl

def newPlaces : Pktbuf := ⟨0,0,recvCapacity,fun _ => Pkt.zero,⟨5,by decide,by decide⟩⟩

def firstWait (maxWindow : UInt32) : Config Halt Receiver := .running (start maxWindow newPlaces.push 0)

theorem firstWait_start (h : Host) (maxWindow : UInt32) : Start h maxWindow (firstWait maxWindow) := by
  have empty : newPlaces.size = 0 := by decide
  have room : newPlaces.size < newPlaces.capacity.toNat := by decide
  refine ⟨newPlaces,0,newPlaces.push,rfl,?_,rfl⟩
  rw [pktbufEnqueue_room h room,empty]
  rfl

theorem bring_play {allowed : Config Halt Receiver → Event → Prop} {maxWindow : UInt32} (chunks : List Nat)
    {d : Config Halt Receiver}
    (sound : ∀ c i d, bring h stream c i = some d → ∃ event, allowed c event ∧ Step h c event d)
    (played : chunks.foldlM (bring h stream) (firstWait maxWindow) = some d) :
    Reach (Start h maxWindow) (Step h) allowed d :=
  Reach.play sound (.start _ (firstWait_start h maxWindow)) chunks played

/-- Every second write would block. -/
def balkingHost : Host := { steadyHost with write := fun n => if n % 2 = 0 then .again else .complete }

theorem balkingHost_obliging : Obliging balkingHost := by
  intro n
  change (if n % 2 = 0 then Process.WriteResult.again else .complete) = _ ∨ (if n % 2 = 0 then _ else _) = _
  split
  next => exact Or.inr rfl
  next => exact Or.inl rfl

/-- The event that brings a datagram in the current phase, or a turn in which only the file is ready. -/
def occasion (phase : Phase) (input : Option Recv) : Event :=
  match input,phase with
  | some data,.connecting _ _ => .datagram data true
  | _,_ => .ready input true

theorem socket_occasion (phase : Phase) (input : Option Recv) : socket (occasion phase input) = input := by
  cases input <;> cases phase <;> rfl

/-- A datagram is read only while nothing in sequence waits to be written. -/
def tend (h : Host) (c : Config Halt Receiver) (input : Option Recv) : Option (Config Halt Receiver) :=
  if input.isSome && bit c.state.oosMask 0 then none else next h c (occasion c.state.phase input)

theorem tend_cases {c d : Config Halt Receiver} {input : Option Recv} (tended : tend h c input = some d) :
    Step h c (occasion c.state.phase input) d ∧ ∃ s, c = .running s ∧ ∀ data, input = some data →
    bit s.oosMask 0 = false := by
  unfold tend at tended
  split at tended
  next => contradiction
  next calm =>
    obtain ⟨s,rfl,_⟩ := step_cases tended
    refine ⟨tended,s,rfl,?_⟩
    rintro data rfl
    simpa using calm

theorem tend_timely {c d : Config Halt Receiver} {input : Option Recv} (tended : tend h c input = some d) :
    Timely h c (occasion c.state.phase input) ∧ Step h c (occasion c.state.phase input) d := by
  obtain ⟨taken,s,rfl,clear⟩ := tend_cases tended
  refine ⟨?_,taken⟩
  cases input with
  | none => trivial
  | some data =>
    have free : ¬ Early h s data := by
      rintro ⟨waiting,_⟩
      rw [clear data rfl] at waiting
      contradiction
    change Timely h (.running s) (occasion s.phase (some data))
    cases s.phase with
    | connecting retryCount slot => trivial
    | receiving => exact fun _ => free
    | lingering retry => exact fun _ => free

theorem tend_play {maxWindow : UInt32} (inputs : List (Option Recv)) {d : Config Halt Receiver}
    (played : inputs.foldlM (tend h) (firstWait maxWindow) = some d) :
    Reach (Start h maxWindow) (Step h) (Timely h) d :=
  Reach.play (fun _ _ _ tended => ⟨_,tend_timely tended⟩) (.start _ (firstWait_start h maxWindow)) inputs played

def chunk (h : Host) (stream : Nat → Pkt) (i : Nat) : Recv := .datagram (image h.crc32 (stream i))

/-- The datagrams are those of the chunks of a stream. -/
def tendChunk (h : Host) (stream : Nat → Pkt) (c : Config Halt Receiver) (i : Option Nat) :
    Option (Config Halt Receiver) :=
  if i.all (fun i => decide (Near i c.state.expected)) then tend h c (i.map (chunk h stream)) else none

theorem tendChunk_admitted {c d : Config Halt Receiver} {i : Option Nat} (tended : tendChunk h stream c i = some d) :
    ∃ event, socket event = i.map (chunk h stream) ∧ (Delivered h stream c event ∧ Timely h c event) ∧
      Step h c event d := by
  unfold tendChunk at tended
  split at tended
  next near =>
    obtain ⟨timely,taken⟩ := tend_timely tended
    refine ⟨_,socket_occasion _ _,⟨?_,timely⟩,taken⟩
    intro input brought
    rw [socket_occasion] at brought
    obtain ⟨j,rfl,rfl⟩ := Option.map_eq_some_iff.mp brought
    exact Or.inl ⟨j,of_decide_eq_true near,Or.inl rfl⟩
  next => contradiction

theorem tendChunk_play {maxWindow : UInt32} (chunks : List (Option Nat)) {d : Config Halt Receiver}
    (played : chunks.foldlM (tendChunk h stream) (firstWait maxWindow) = some d) :
    Reach (Start h maxWindow) (Step h) (fun c event => Delivered h stream c event ∧ Timely h c event) d :=
  Reach.play (fun _ _ _ tended => (tendChunk_admitted tended).imp fun _ admitted => admitted.2)
    (.start _ (firstWait_start h maxWindow)) chunks played

/-- The replies that `t` has sent after those of `s`, by type and number. -/
def answers (s t : Receiver) : List (BitVec 2 × Nat) :=
  (t.replies.drop s.replies.length).map (fun r => (r.type,r.number))

theorem answers_single {s t : Receiver} {news : List Reply} {type : BitVec 2} {n : Nat}
    (appended : t.replies = s.replies ++ news) (single : answers s t = [(type,n)]) :
    ∃ r, news = [r] ∧ r.type = type ∧ r.number = n := by
  rw [answers,appended,List.drop_left] at single
  obtain ⟨r,rfl,same⟩ := List.map_eq_singleton_iff.mp single
  exact ⟨r,rfl,congrArg Prod.fst same,congrArg Prod.snd same⟩

end Trtp.DataStream
