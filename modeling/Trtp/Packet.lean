import Mathlib.Data.Bool.Basic
import Trtp.Lib.Bytes

/-! The packet of packet_interface.h and its encoding in packet_implem.c.
A packet is the 528-byte struct of a little-endian host: bit-fields, words in
the order the struct holds them, then the payload area and the trailing crc2
as one block, for a short payload is followed by its CRC inside that block. -/
namespace Trtp.Packet
open Lib.Bytes

def maxPayloadSize : Nat := 512
def maxWindowSize : Nat := 31
def pktHeaderLen : Nat := 12
def pktCrc1Len : Nat := 4
def pktFooterLen : Nat := 4
def pktMinLen : Nat := pktHeaderLen
def pktTimestamp : UInt32 := 0xdeadbeef

def ptypeData : BitVec 2 := 1
def ptypeAck : BitVec 2 := 2
def ptypeNack : BitVec 2 := 3

inductive Status where
  | pktOk | eType | eTr | eLength | eCrc | eWindow | eSeqnum | eNomem | eNoheader | eUnconsistent
  deriving DecidableEq, Repr

/-- `struct pkt`; `tail` is the payload array followed by the crc2 field. -/
structure Pkt where
  window : BitVec 5
  tr : Bool
  type : BitVec 2
  seq : UInt8
  length : UInt16
  ts : UInt32
  crc1 : UInt32
  tail : Block 516

/-- What calloc and a static initializer leave in a struct pkt. -/
def Pkt.zero : Pkt := ⟨0,false,0,0,0,0,0,fun _ => 0⟩

def Pkt.flags (p : Pkt) : UInt8 :=
  UInt8.ofNat (p.window.toNat + 32 * p.tr.toNat + 64 * p.type.toNat)

def Pkt.header (p : Pkt) : List UInt8 :=
  [p.flags,p.seq] ++ bytes16 p.length ++ bytes32 p.ts ++ bytes32 p.crc1

def Pkt.bytes (p : Pkt) : Block 528 :=
  fun i => if i.val < 12 then p.header.getD i.val 0 else byteAt p.tail (i.val - 12)

def Pkt.ofBytes (b : Block 528) : Pkt where
  window := BitVec.ofNat 5 (byteAt b 0).toNat
  tr := (byteAt b 0).toNat / 32 % 2 == 1
  type := BitVec.ofNat 2 ((byteAt b 0).toNat / 64)
  seq := byteAt b 1
  length := word16 (byteAt b 2) (byteAt b 3)
  ts := wordAt b 4
  crc1 := wordAt b 8
  tail := fun i => byteAt b (12 + i.val)

/-- `memcpy(pkt, data, len)`, and what recvfrom writes to a packet. -/
def Pkt.overwrite (p : Pkt) (data : List UInt8) : Pkt := .ofBytes (blit p.bytes 0 data)

/-- `*(uint32_t*)&((char *)pkt)[off] = x`. -/
def Pkt.putWord (p : Pkt) (off : Nat) (x : UInt32) : Pkt := .ofBytes (blit p.bytes off (bytes32 x))

def Pkt.payload (p : Pkt) (len : Nat) : List UInt8 := slice p.tail 0 len

def Pkt.setCrc2 (p : Pkt) (x : UInt32) : Pkt := p.putWord 524 x

def ntohs (x : UInt16) : UInt16 := swap16 x
def htons (x : UInt16) : UInt16 := swap16 x
def ntohl (x : UInt32) : UInt32 := swap32 x
def htonl (x : UInt32) : UInt32 := swap32 x

/-- Subtraction of two size_t values. -/
def sizeSub (a b : Nat) : Nat := (a + 2 ^ 64 - b) % 2 ^ 64

def validLength (l : Nat) : Bool := l ≤ maxPayloadSize
def validWindow (w : Nat) : Bool := w ≤ maxWindowSize
def validType (t : BitVec 2) : Bool := t == ptypeData || t == ptypeAck || t == ptypeNack
def validTr (t : BitVec 2) (tr : Bool) : Bool := !tr || t == ptypeData

def pktLen (pkt : Pkt) : Nat :=
  if pkt.length ≠ 0 then pktHeaderLen + pktFooterLen + pkt.length.toNat else pktHeaderLen

/-- The datagram length of a packet whose length field is already in network order. -/
def pktLenSerial (pkt : Pkt) : Nat :=
  if pkt.length ≠ 0 then pktHeaderLen + pktFooterLen + (ntohs pkt.length).toNat else pktHeaderLen

section Codec

-- zlib's crc32 over a whole byte string.
variable (crc32 : List UInt8 → UInt32)

def crcOf (data : List UInt8) : UInt32 := crc32 data

/-- The last steps of pkt_decode_inline for DATA: CRC2 of a payload that is present. -/
def pktCheckCrc2 (pkt : Pkt) (rlen payloadLen : Nat) : Status × Pkt :=
  if payloadLen ≠ 0 then
    let crc2 := ntohl (wordAt pkt.bytes (rlen - pktFooterLen))
    let computedCrc2 := crcOf crc32 (pkt.payload payloadLen)
    if crc2 ≠ computedCrc2 then (.eCrc,pkt) else (.pktOk,pkt.setCrc2 crc2)
  else (.pktOk,pkt)

/-- The switch on the type that compares announced and received payload length. -/
def pktCheckPayload (pkt : Pkt) (rlen plen payloadLen : Nat) : Status × Pkt :=
  if pkt.type = ptypeData then
    if pkt.tr then
      if payloadLen ≠ 0 then (.eUnconsistent,pkt) else pktCheckCrc2 crc32 pkt rlen payloadLen
    else if plen ≠ payloadLen then (.eUnconsistent,pkt)
    else pktCheckCrc2 crc32 pkt rlen payloadLen
  else if payloadLen ≠ 0 ∨ plen ≠ 0 then (.eUnconsistent,pkt)
  else (.pktOk,pkt)

/-- Decode the first `rlen` bytes of a struct that holds a packet in wire format.
The TR bit is cleared while CRC1 is computed and stays cleared when that check fails. -/
def pktDecodeInline (pkt : Pkt) (rlen : Nat) : Status × Pkt :=
  if rlen < pktMinLen then (.eNoheader,pkt) else
  let plen := (ntohs pkt.length).toNat
  if !validType pkt.type then (.eType,pkt) else
  if !validTr pkt.type pkt.tr then (.eTr,pkt) else
  if !validLength plen then (.eLength,pkt) else
  let tr := pkt.tr
  let pkt := { pkt with tr := false }
  let crc1 := ntohl (wordAt pkt.bytes (pktHeaderLen - 4))
  let computedCrc1 := crcOf crc32 (slice pkt.bytes 0 (pktHeaderLen - 4))
  if crc1 ≠ computedCrc1 then (.eCrc,pkt) else
  let pkt := { pkt with crc1 := crc1, tr := tr }
  let payloadCrc2Len := sizeSub rlen pktHeaderLen
  let payloadLen := if payloadCrc2Len ≠ 0 then sizeSub payloadCrc2Len pktFooterLen else 0
  match pktCheckPayload crc32 pkt rlen plen payloadLen with
  | (.pktOk,pkt) => (.pktOk,{ pkt with length := UInt16.ofNat plen })
  | failed => failed

def pktDecode (data : List UInt8) (pkt : Pkt) : Status × Pkt :=
  if data.length > 528 then (.eUnconsistent,pkt)
  else pktDecodeInline crc32 (pkt.overwrite data) data.length

/-- Set all fields of a packet to their wire values. -/
def pktEncodeInline (pkt : Pkt) : Status × Pkt :=
  let plen := pkt.length.toNat
  let offset1 := pktHeaderLen - pktCrc1Len
  let offset2 := pktHeaderLen + pkt.length.toNat
  let pkt := { pkt with length := htons pkt.length }
  let tr := pkt.tr
  let pkt := { pkt with tr := false }
  let pkt := pkt.putWord offset1 (htonl (crcOf crc32 (slice pkt.bytes 0 offset1)))
  let pkt := { pkt with tr := tr }
  if plen ≠ 0 then
    (.pktOk,pkt.putWord offset2 (htonl (crcOf crc32 (pkt.payload plen))))
  else (.pktOk,pkt)

/-- Memory from the address of a buffer on. -/
abbrev Memory := Nat → UInt8

def Memory.store (mem : Memory) (data : List UInt8) : Memory :=
  fun i => (data[i]?).getD (mem i)

/-- A buffer seen as a struct pkt, and the buffer after that struct was modified. -/
def Memory.pkt (mem : Memory) : Pkt := .ofBytes (fun i => mem i.val)

def Memory.setPkt (mem : Memory) (p : Pkt) : Memory := mem.store (slice p.bytes 0 528)

/-- Encode into a caller's buffer of `len` bytes; `none` is a NULL pointer. The
result carries the status, the buffer and the value left in `*len`. -/
def pktEncode (pkt : Pkt) (buf : Option Memory) (len : Option Nat) :
    Status × Option Memory × Option Nat :=
  match buf,len with
  | some mem,some room =>
    let targetLen := pktLen pkt
    if room < targetLen then (.eNomem,some mem,some room) else
    let mem := mem.store (slice pkt.bytes 0 (targetLen - pktFooterLen))
    let (status,encoded) := pktEncodeInline crc32 mem.pkt
    (status,some (mem.setPkt encoded),some targetLen)
  | buf,len => (.eNomem,buf,len)

end Codec

/-- The bytes net_send hands to the socket for a packet in wire format. -/
def Pkt.datagram (p : Pkt) : List UInt8 := slice p.bytes 0 (pktLenSerial p)

theorem Pkt.header_length (p : Pkt) : p.header.length = 12 := rfl

theorem Pkt.flags_toNat (p : Pkt) : p.flags.toNat = p.window.toNat + 32 * p.tr.toNat + 64 * p.type.toNat := by
  have w := p.window.isLt
  have t := p.type.isLt
  have b := p.tr.toNat_le
  rw [Pkt.flags,UInt8.toNat_ofNat']
  omega

theorem Pkt.byteAt_bytes_header (p : Pkt) {i : Nat} (inside : i < 12) :
    byteAt p.bytes i = p.header.getD i 0 := by
  rw [byteAt_of_lt _ (by omega : i < 528)]
  exact if_pos inside

theorem Pkt.byteAt_bytes_tail (p : Pkt) (i : Nat) : byteAt p.bytes (12 + i) = byteAt p.tail i := by
  by_cases inside : i < 516
  · rw [byteAt_of_lt _ (by omega : 12 + i < 528)]
    simp only [Pkt.bytes]
    rw [if_neg (by omega),Nat.add_sub_cancel_left]
  · simp [byteAt,inside,show ¬ 12 + i < 528 by omega]

theorem Pkt.ext_fields {p q : Pkt} (window : p.window = q.window) (tr : p.tr = q.tr)
    (type : p.type = q.type) (seq : p.seq = q.seq) (length : p.length = q.length)
    (ts : p.ts = q.ts) (crc1 : p.crc1 = q.crc1) (tail : ∀ i < 516, byteAt p.tail i = byteAt q.tail i) :
    p = q := by
  have same : p.tail = q.tail := by
    funext i
    have equal := tail i.val i.isLt
    rwa [byteAt_of_lt _ i.isLt,byteAt_of_lt _ i.isLt] at equal
  cases p
  cases q
  simp_all

theorem Pkt.ofBytes_header (b : Block 528) (p : Pkt) (same : ∀ i < 12, byteAt b i = p.header.getD i 0) :
    Pkt.ofBytes b = { p with tail := fun i => byteAt b (12 + i.val) } := by
  have w := p.window.isLt
  have t := p.type.isLt
  have f := p.flags_toNat
  have first : byteAt b 0 = p.flags := same 0 (by omega)
  refine Pkt.ext_fields ?_ ?_ ?_ (same 1 (by omega)) ?_ ?_ ?_ (fun _ _ => rfl)
  · apply BitVec.eq_of_toNat_eq
    simp only [Pkt.ofBytes,first,f,BitVec.toNat_ofNat]
    have bit := p.tr.toNat_le
    omega
  · simp only [Pkt.ofBytes,first,f]
    cases p.tr <;> simp <;> omega
  · apply BitVec.eq_of_toNat_eq
    simp only [Pkt.ofBytes,first,f,BitVec.toNat_ofNat]
    have bit := p.tr.toNat_le
    omega
  · simp only [Pkt.ofBytes,same 2 (by omega),same 3 (by omega)]
    exact word16_bytes p.length
  · simp only [Pkt.ofBytes,wordAt,same 4 (by omega),same 5 (by omega),same 6 (by omega),same 7 (by omega)]
    exact word32_bytes p.ts
  · simp only [Pkt.ofBytes,wordAt,same 8 (by omega),same 9 (by omega),same 10 (by omega),same 11 (by omega)]
    exact word32_bytes p.crc1

theorem Pkt.ofBytes_bytes (p : Pkt) : Pkt.ofBytes p.bytes = p := by
  rw [Pkt.ofBytes_header p.bytes p (fun i inside => p.byteAt_bytes_header inside)]
  refine Pkt.ext_fields rfl rfl rfl rfl rfl rfl rfl ?_
  intro i inside
  rw [byteAt_of_lt _ inside]
  exact p.byteAt_bytes_tail i

end Trtp.Packet
