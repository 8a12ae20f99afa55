import Trtp.Acknowledgement
import Trtp.Progress

/-! The sender and the receiver joined by a network.
A datagram that was written to a socket may arrive at any later time, any number of
times, in any order, whole or truncated, or never; what arrives altered is rejected.
A reading socket meets it only while the number it carries is near the one expected. -/
namespace Trtp.Network
open Lib.Circular Lib.Mask Lib.Run Lib.Serial Packet Codec Process Buffer Net SendBuffer SenderRuns Progress
open ReceiveBuffer ReceiverRuns DataStream Acknowledgement
open Transmit (Sender Sending Chunk)
open Receive (Receiver Reply)

def endOfFile : Chunk := ⟨[],Nat.zero_le _⟩

def feed (chunks : List Chunk) : List Chunk := chunks ++ [endOfFile]

structure System where
  sender : Config Halt Sender
  receiver : Config Halt Receiver

inductive Action where
  | send (event : Transmit.Event)
  | receive (event : Receive.Event)

/-- The two processes take turns in any order; the network is what they have sent. -/
inductive Step (hs hr : Host) (p : System) : Action → System → Prop
  | send (event : Transmit.Event) (c : Config Halt Sender) (taken : Transmit.Step hs p.sender event c) :
      Step hs hr p (.send event) { p with sender := c }
  | receive (event : Receive.Event) (c : Config Halt Receiver) (taken : Receive.Step hr p.receiver event c) :
      Step hs hr p (.receive event) { p with receiver := c }

def Start (hr : Host) (capacity maxWindow : UInt32) (p : System) : Prop :=
  Transmit.Start capacity p.sender ∧ Receive.Start hr maxWindow p.receiver

def Unaltered (datagram : List UInt8) (input : Recv) : Prop :=
  input = .datagram datagram ∨ input = .datagram (truncate datagram)

def Rejected (h : Host) (input : Recv) : Prop := ∀ stale, (netRecvfrom h stale input).1 ≠ .netOk

def Forward (hs hr : Host) (p : System) (input : Recv) : Prop :=
  Rejected hr input ∨ ∃ e ∈ p.sender.state.wire, ∃ n bytes, e.number = some n ∧
    p.sender.state.input[n]? = some bytes ∧ e.datagram = chunkDatagram hs.crc32 n bytes ∧
    Near n p.receiver.state.expected ∧ Unaltered e.datagram input

def Backward (hs : Host) (p : System) (input : Recv) : Prop :=
  Rejected hs input ∨
    ∃ r ∈ p.receiver.state.replies, Near r.number p.sender.state.acked ∧ Unaltered r.datagram input

/-- The sockets hold what the network brings, and the input file is read in order. -/
def Admitted (hs hr : Host) (chunks : List Chunk) (p : System) : Action → Prop
  | .send (.ready _ socket file) =>
    (∀ input, socket = some input → Backward hs p input) ∧
      ∀ bytes, file = some (.data bytes) → (feed chunks)[p.sender.state.input.length]? = some bytes
  | .send _ => True
  | .receive event => ∀ input, socket event = some input → Forward hs hr p input

def streamOf (chunks : List Chunk) (i : Nat) : Pkt := chunkPkt i (chunks[i]?.getD endOfFile)

variable {hs hr : Host} {chunks : List Chunk} {p : System}

theorem streamOf_isStream (chunks : List Chunk) : IsStream (streamOf chunks) where
  valid i := chunkPkt_encodable i _
  data _ := rfl
  whole _ := rfl
  number _ := rfl

theorem content_streamOf (i : Nat) : content (streamOf chunks i) = (chunks[i]?.getD endOfFile).val :=
  chunkPkt_payload i _

theorem chunk_of_read {input : List Chunk} (read : input <+: feed chunks) {n : Nat} {bytes : Chunk}
    (known : input[n]? = some bytes) : chunks[n]?.getD endOfFile = bytes := by
  obtain ⟨rest,parts⟩ := read
  have inside := (List.getElem?_eq_some_iff.mp known).1
  have found : (feed chunks)[n]? = some bytes := by
    rw [← parts,List.getElem?_append_left inside,known]
  rw [feed] at found
  rcases Nat.lt_or_ge n chunks.length with before | after
  · rw [List.getElem?_append_left before] at found
    rw [found]
    rfl
  · rw [List.getElem?_append_right after,List.getElem?_singleton] at found
    split at found
    next =>
      rw [List.getElem?_eq_none after]
      exact Option.some.inj found
    next => contradiction

theorem written_take (k : Nat) : (List.range k).flatMap (fun i => content (streamOf chunks i)) =
    (chunks.take k).flatMap Subtype.val := by
  induction k with
  | zero => rfl
  | succ k ih =>
    rw [List.range_succ,List.flatMap_append,ih,List.take_add_one,List.flatMap_append,List.flatMap_singleton,
      content_streamOf]
    congr 1
    cases chunks[k]? with
    | none => rfl
    | some bytes => exact (List.append_nil bytes.val).symm

theorem Forward.brought (same : hr.crc32 = hs.crc32) (read : p.sender.state.input <+: feed chunks) {input : Recv}
    (forward : Forward hs hr p input) : Brought hr (streamOf chunks) p.receiver.state.expected input := by
  rcases forward with rejected | ⟨e,_,n,bytes,_,known,datagram,near,unaltered⟩
  · exact Or.inr rejected
  · have image : e.datagram = image hr.crc32 (streamOf chunks n) := by
      rw [datagram,same,streamOf,chunk_of_read read known]
      rfl
    rw [Unaltered,image] at unaltered
    exact Or.inl ⟨n,near,unaltered⟩

theorem Admitted.delivered (same : hr.crc32 = hs.crc32) (read : p.sender.state.input <+: feed chunks)
    {event : Receive.Event} (admitted : Admitted hs hr chunks p (.receive event)) :
    Delivered hr (streamOf chunks) p.receiver event :=
  fun input found => (admitted input found).brought same read

structure Genuine (h : Host) (r : Reply) : Prop where
  type : r.type = ptypeAck ∨ r.type = ptypeNack
  datagram : ∃ ts window, r.datagram = image h.crc32
    { Pkt.zero with type := r.type, seq := serial r.number, ts := ts, window := window }

theorem ackReply_genuine {s : Receiver} (sound : Sound s) : Genuine hr (ackReply hr s) where
  type := Or.inl rfl
  datagram := by
    refine ⟨s.lastTs,BitVec.ofNat 5 (Receive.windowSize s).toNat,?_⟩
    change (Receive.replyPkt hr ptypeAck s.expectedSeq s).datagram = _
    rw [replyPkt_datagram,sound.expectedSeq]
    rfl

theorem nackReply_genuine (s : Receiver) (seq : UInt8) : Genuine hr (nackReply hr seq s) where
  type := Or.inr rfl
  datagram := by
    refine ⟨s.lastTs,BitVec.ofNat 5 (Receive.windowSize s).toNat,?_⟩
    change (Receive.replyPkt hr ptypeNack seq s).datagram = image hr.crc32 { Pkt.zero with
      type := ptypeNack, seq := serial (nearest s.expected seq), ts := _, window := _ }
    rw [replyPkt_datagram,serial_nearest]

theorem Backward.heard (same : hr.crc32 = hs.crc32) {input : Recv} (backward : Backward hs p input)
    (genuine : ∀ r ∈ p.receiver.state.replies, Genuine hr r) {stale pkt : Pkt}
    (received : netRecvfrom hs stale input = (.netOk,pkt)) :
    ∃ r ∈ p.receiver.state.replies, Near r.number p.sender.state.acked ∧ pkt.type = r.type ∧
      pkt.seq = serial r.number := by
  rcases backward with rejected | ⟨r,member,near,unaltered⟩
  · have status := rejected stale
    rw [received] at status
    contradiction
  · obtain ⟨type,ts,window,datagram⟩ := genuine r member
    let reply : Pkt := { Pkt.zero with type := r.type, seq := serial r.number, ts := ts, window := window }
    have valid : validType r.type = true := by
      rcases type with ack | nack
      · rw [ack]
        rfl
      · rw [nack]
        rfl
    have encodable : Encodable reply :=
      ⟨valid,Nat.zero_le _,fun present => absurd rfl present,fun truncated => nomatch truncated⟩
    rw [Unaltered,datagram,same] at unaltered
    refine ⟨r,member,near,?_⟩
    rcases unaltered with rfl | rfl
    · obtain ⟨q,decoded,agrees⟩ := @netRecvfrom_image hs reply encodable stale
      rw [decoded] at received
      obtain rfl := (Prod.mk.inj received).2
      exact ⟨agrees.type.symm,agrees.seq.symm⟩
    · have other : r.type ≠ ptypeData := by
        rcases type with ack | nack
        · rw [ack]
          decide
        · rw [nack]
          decide
      have refused := netRecvfrom_truncate_other (h := hs) (p := reply) valid other stale
      rw [received] at refused
      contradiction

end Trtp.Network
