import Mathlib.Data.List.GetD
import Mathlib.Tactic.IntervalCases
import Mathlib.Tactic.Set
import Trtp.Lib.Crc
import Trtp.Packet

/-! What the encoder writes and what the decoder makes of it.
The wire image of a packet is given in closed form, independently of the struct
in which it is built, so that stale bytes of a reused struct visibly play no part. -/
namespace Trtp.Codec
open Lib.Bytes Packet

/-- The packets that the protocol puts on the wire: a payload only in a DATA
packet that is not truncated, TR only on DATA. -/
structure Encodable (p : Pkt) : Prop where
  type : validType p.type = true
  length : p.length.toNat ≤ maxPayloadSize
  payload : p.length ≠ 0 → p.type = ptypeData ∧ p.tr = false
  truncated : p.tr = true → p.type = ptypeData

structure Agrees (p q : Pkt) : Prop where
  window : p.window = q.window
  tr : p.tr = q.tr
  type : p.type = q.type
  seq : p.seq = q.seq
  length : p.length = q.length
  ts : p.ts = q.ts
  payload : p.payload p.length.toNat = q.payload p.length.toNat

def pseudoHeader (p : Pkt) : List UInt8 := slice p.bytes 0 8

def clearTr : List UInt8 → List UInt8
  | [] => []
  | b :: rest => (b &&& 0xdf) :: rest

def setTr : List UInt8 → List UInt8
  | [] => []
  | b :: rest => (b ||| 0x20) :: rest

/-- What a router keeps of a datagram that it truncates. -/
def truncate (datagram : List UInt8) : List UInt8 := setTr (datagram.take pktHeaderLen)

def crc2Field (p : Pkt) : UInt32 := wordAt p.tail 512

section Image

variable (crc32 : List UInt8 → UInt32)

def wireHeader (p : Pkt) : Pkt :=
  { p with
    length := htons p.length
    crc1 := htonl (crc32 (pseudoHeader { p with length := htons p.length, tr := false })) }

/-- The wire image of a packet. -/
def image (p : Pkt) : List UInt8 :=
  (wireHeader crc32 p).header ++
    if p.length ≠ 0 then
      p.payload p.length.toNat ++ bytes32 (htonl (crc32 (p.payload p.length.toNat)))
    else []

end Image

theorem slice_header (p : Pkt) {len : Nat} (inside : len ≤ 12) : slice p.bytes 0 len = p.header.take len := by
  apply List.ext_getElem
  · simp [p.header_length,inside]
  · intro i left right
    have before : i < len := by simpa using left
    have bound : i < p.header.length := by rw [p.header_length]; omega
    simp only [slice,List.getElem_map,List.getElem_range,List.getElem_take,Nat.zero_add]
    rw [p.byteAt_bytes_header (by omega),List.getD_eq_getElem _ _ bound]

theorem pseudoHeader_eq (p : Pkt) :
    pseudoHeader p = [p.flags,p.seq] ++ bytes16 p.length ++ bytes32 p.ts := by
  rw [pseudoHeader,slice_header p (by omega)]
  rfl

theorem slice_bytes (p : Pkt) (more : Nat) :
    slice p.bytes 0 (12 + more) = p.header ++ slice p.tail 0 more := by
  rw [slice_append,slice_header p (by omega)]
  congr 1
  exact slice_congr _ _ _ _ _ (fun i _ => by
    rw [Nat.zero_add,Nat.zero_add]
    exact p.byteAt_bytes_tail i)

theorem wordAt_crc1 (p : Pkt) : wordAt p.bytes 8 = p.crc1 := by
  simp only [wordAt,p.byteAt_bytes_header (show 8 < 12 by omega),p.byteAt_bytes_header (show 9 < 12 by omega),
    p.byteAt_bytes_header (show 10 < 12 by omega),p.byteAt_bytes_header (show 11 < 12 by omega)]
  exact word32_bytes p.crc1

theorem wordAt_tail (p : Pkt) (off : Nat) : wordAt p.bytes (12 + off) = wordAt p.tail off := by
  apply wordAt_congr
  intro i _
  rw [Nat.add_assoc]
  exact p.byteAt_bytes_tail _

theorem putWord_crc1 (p : Pkt) (x : UInt32) : p.putWord 8 x = { p with crc1 := x } := by
  rw [Pkt.putWord,Pkt.ofBytes_header _ { p with crc1 := x }]
  · refine Pkt.ext_fields rfl rfl rfl rfl rfl rfl rfl ?_
    intro i inside
    rw [byteAt_of_lt _ inside]
    change byteAt (blit p.bytes 8 (bytes32 x)) (12 + i) = byteAt p.tail i
    rw [byteAt_blit_after _ _ _ (by simp [bytes32]),p.byteAt_bytes_tail]
  · intro i inside
    rcases Nat.lt_or_ge i 8 with before | after
    · rw [byteAt_blit_before _ _ _ before,p.byteAt_bytes_header inside]
      interval_cases i <;> rfl
    · rw [byteAt_blit _ _ _ (by omega),if_neg (by omega)]
      interval_cases i <;> rfl

theorem putWord_tail (p : Pkt) (off : Nat) (x : UInt32) :
    p.putWord (12 + off) x = { p with tail := blit p.tail off (bytes32 x) } := by
  rw [Pkt.putWord,Pkt.ofBytes_header _ p]
  · refine Pkt.ext_fields rfl rfl rfl rfl rfl rfl rfl ?_
    intro i inside
    rw [byteAt_of_lt _ inside]
    change byteAt (blit p.bytes (12 + off) (bytes32 x)) (12 + i) = byteAt (blit p.tail off (bytes32 x)) i
    rw [byteAt_blit _ _ _ (by omega),byteAt_blit _ _ _ inside,p.byteAt_bytes_tail,Nat.add_sub_add_left]
    simp only [Nat.add_lt_add_iff_left]
  · intro i inside
    rw [byteAt_blit_before _ _ _ (by omega),p.byteAt_bytes_header inside]

theorem setCrc2_eq (p : Pkt) (x : UInt32) : p.setCrc2 x = { p with tail := blit p.tail 512 (bytes32 x) } :=
  putWord_tail p 512 x

theorem overwrite_header (stale p : Pkt) (rest : List UInt8) :
    stale.overwrite (p.header ++ rest) = { p with tail := blit stale.tail 0 rest } := by
  rw [Pkt.overwrite,Pkt.ofBytes_header _ p]
  · refine Pkt.ext_fields rfl rfl rfl rfl rfl rfl rfl ?_
    intro i inside
    have past : (p.header ++ rest)[12 + i]? = rest[i]? := by
      rw [List.getElem?_append_right (by simp [p.header_length]),p.header_length,Nat.add_sub_cancel_left]
    rw [byteAt_of_lt _ inside]
    change byteAt (blit stale.bytes 0 (p.header ++ rest)) (12 + i) = byteAt (blit stale.tail 0 rest) i
    rw [byteAt_blit _ _ _ (by omega),byteAt_blit _ _ _ inside,if_neg (by omega),if_neg (by omega),
      Nat.sub_zero,Nat.sub_zero,past,stale.byteAt_bytes_tail]
  · intro i inside
    have bound : i < p.header.length := by rw [p.header_length]; exact inside
    rw [byteAt_blit _ _ _ (by omega),if_neg (by omega),Nat.sub_zero,List.getElem?_append_left bound,
      List.getElem?_eq_getElem bound,Option.getD_some,List.getD_eq_getElem _ _ bound]

section Encode

variable (crc32 : List UInt8 → UInt32)

theorem pktEncodeInline_eq (p : Pkt) : pktEncodeInline crc32 p = (.pktOk,
    { wireHeader crc32 p with
      tail := if p.length ≠ 0 then
        blit p.tail p.length.toNat (bytes32 (htonl (crc32 (p.payload p.length.toNat)))) else p.tail }) := by
  have nonzero : p.length.toNat ≠ 0 ↔ p.length ≠ 0 := by
    rw [ne_eq,ne_eq,← UInt16.toNat_inj,UInt16.toNat_zero]
  simp only [pktEncodeInline,pktHeaderLen,pktCrc1Len,Nat.reduceSub,putWord_crc1,putWord_tail,crcOf]
  by_cases empty : p.length = 0
  · rw [if_neg (by rw [nonzero]; exact fun present => present empty),
      if_neg (fun present => present empty)]
    rfl
  · rw [if_pos (nonzero.mpr empty),if_pos empty]
    rfl

theorem pktLenSerial_wireHeader (p : Pkt) (tail : Block 516) :
    pktLenSerial { wireHeader crc32 p with tail := tail } = pktLen p := by
  simp only [pktLenSerial,pktLen,wireHeader,htons,ntohs,swap16_swap16]
  by_cases empty : p.length = 0
  · rw [if_neg (fun present => present (swap16_eq_zero.mpr empty)),if_neg (fun present => present empty)]
  · rw [if_pos (fun zero => empty (swap16_eq_zero.mp zero)),if_pos empty]

theorem image_length (p : Pkt) : (image crc32 p).length = pktLen p := by
  unfold image pktLen
  by_cases empty : p.length = 0
  · simp [empty,Pkt.header_length,pktHeaderLen]
  · simp [empty,Pkt.header_length,pktHeaderLen,pktFooterLen,Pkt.payload,bytes32]
    omega

theorem datagram_encoded (p : Pkt) (bound : p.length.toNat ≤ maxPayloadSize) :
    (pktEncodeInline crc32 p).2.datagram = image crc32 p := by
  unfold maxPayloadSize at bound
  rw [pktEncodeInline_eq]
  simp only [Pkt.datagram,pktLenSerial_wireHeader]
  unfold image pktLen
  by_cases empty : p.length = 0
  · simp only [empty,ne_eq,not_true_eq_false,if_false,pktHeaderLen]
    rw [slice_header _ (by omega),List.append_nil]
    rfl
  · have size : pktHeaderLen + pktFooterLen + p.length.toNat = 12 + (p.length.toNat + 4) := by
      simp only [pktHeaderLen,pktFooterLen]
      omega
    simp only [empty,ne_eq,not_false_eq_true,if_true]
    have written := slice_blit p.tail p.length.toNat
      (bytes32 (htonl (crc32 (p.payload p.length.toNat)))) (by simp [bytes32]; omega)
    simp only [bytes32,List.length_cons,List.length_nil,Nat.zero_add] at written
    rw [size,slice_bytes,slice_append,Nat.zero_add]
    simp only [bytes32]
    rw [slice_blit_before _ _ _ _ _ (by omega),written]
    rfl

theorem wireHeader_agrees {p q : Pkt} (same : Agrees p q) :
    (wireHeader crc32 p).header = (wireHeader crc32 q).header := by
  obtain ⟨window,tr,type,seq,length,ts,_⟩ := same
  simp only [Pkt.header,wireHeader,pseudoHeader_eq,Pkt.flags,window,tr,type,seq,length,ts]

theorem image_agrees {p q : Pkt} (same : Agrees p q) : image crc32 p = image crc32 q := by
  have payload := same.payload
  unfold image
  rw [wireHeader_agrees crc32 same,payload,same.length]

theorem image_take (p : Pkt) : (image crc32 p).take pktHeaderLen = (wireHeader crc32 p).header := by
  rw [image,List.take_append_of_le_length (by simp [Pkt.header_length,pktHeaderLen])]
  exact List.take_of_length_le (by simp [Pkt.header_length,pktHeaderLen])

end Encode

section Decode

variable (crc32 : List UInt8 → UInt32)

def headerCrc (p : Pkt) : UInt32 :=
  crc32 (pseudoHeader { p with length := htons p.length, tr := false })

theorem sizeSub_of_le {a b : Nat} (ordered : b ≤ a) (small : a < 2 ^ 64) : sizeSub a b = a - b := by
  rw [sizeSub,show a + 2 ^ 64 - b = (a - b) + 2 ^ 64 by omega,Nat.add_mod_right]
  exact Nat.mod_eq_of_lt (by omega)

theorem pktDecodeInline_header (p : Pkt) (tail : Block 516) (rlen : Nat) (whole : 12 ≤ rlen)
    (type : validType p.type = true) (tr : p.tr = true → p.type = ptypeData)
    (length : p.length.toNat ≤ maxPayloadSize) :
    pktDecodeInline crc32 { wireHeader crc32 p with tail := tail } rlen =
      match pktCheckPayload crc32
          { p with length := htons p.length, crc1 := headerCrc crc32 p, tail := tail } rlen p.length.toNat
          (if sizeSub rlen 12 ≠ 0 then sizeSub (sizeSub rlen 12) 4 else 0) with
      | (.pktOk,pkt) => (.pktOk,{ pkt with length := p.length })
      | failed => failed := by
  have flag : validTr p.type p.tr = true := by
    rw [validTr]
    cases set : p.tr with
    | false => rfl
    | true => simp [tr set]
  have size : validLength p.length.toNat = true := by simpa [validLength] using length
  have back : UInt16.ofNat p.length.toNat = p.length := UInt16.ofNat_toNat
  unfold pktDecodeInline
  simp only [pktMinLen,pktHeaderLen,pktFooterLen,Nat.not_lt.mpr whole,if_false,wireHeader,ntohs,htons,
    swap16_swap16,type,flag,size,Bool.not_true,Bool.false_eq_true,Nat.reduceSub,wordAt_crc1,ntohl,htonl,
    swap32_swap32,crcOf]
  have computed : slice ({ p with
      tr := false, length := swap16 p.length
      crc1 := swap32 (crc32 (pseudoHeader { p with tr := false, length := swap16 p.length }))
      tail := tail } : Pkt).bytes 0 8 = pseudoHeader { p with tr := false, length := swap16 p.length } := by
    rw [pseudoHeader_eq]
    exact pseudoHeader_eq _
  rw [computed]
  simp only [ne_eq,not_true_eq_false,if_false,headerCrc,htons,back]
  rfl

theorem pktDecodeInline_bare (p : Pkt) (tail : Block 516) (type : validType p.type = true)
    (tr : p.tr = true → p.type = ptypeData) (length : p.length.toNat ≤ maxPayloadSize)
    (absent : p.tr = true ∨ p.length = 0) :
    pktDecodeInline crc32 { wireHeader crc32 p with tail := tail } 12 =
      (.pktOk,{ p with crc1 := headerCrc crc32 p, tail := tail }) := by
  rw [pktDecodeInline_header crc32 p tail 12 (by omega) type tr length]
  have none : sizeSub 12 12 = 0 := by decide
  simp only [none,ne_eq,not_true_eq_false,if_false,pktCheckPayload,pktCheckCrc2]
  by_cases data : p.type = ptypeData
  · cases set : p.tr with
    | true => simp [data]
    | false =>
      have zero : p.length = 0 := by simpa [set] using absent
      simp [data,zero]
  · have clear : p.tr = false := by
      cases set : p.tr with
      | true => exact absurd (tr set) data
      | false => rfl
    have zero : p.length = 0 := by simpa [clear] using absent
    simp [data,zero]

theorem pktDecodeInline_payload (p : Pkt) (tail : Block 516) (data : p.type = ptypeData)
    (clear : p.tr = false) (length : p.length.toNat ≤ maxPayloadSize) (present : p.length ≠ 0)
    (crc2 : wordAt tail p.length.toNat = htonl (crc32 (slice tail 0 p.length.toNat))) :
    pktDecodeInline crc32 { wireHeader crc32 p with tail := tail } (16 + p.length.toNat) =
      (.pktOk,{ p with
        crc1 := headerCrc crc32 p
        tail := blit tail 512 (bytes32 (crc32 (slice tail 0 p.length.toNat))) }) := by
  have positive : p.length.toNat ≠ 0 := by
    rw [ne_eq,← UInt16.toNat_zero,UInt16.toNat_inj]
    exact present
  have more : sizeSub (16 + p.length.toNat) 12 = p.length.toNat + 4 := by
    unfold maxPayloadSize at length
    rw [sizeSub_of_le (by omega) (by omega)]
    omega
  have exact_length : sizeSub (p.length.toNat + 4) 4 = p.length.toNat := by
    unfold maxPayloadSize at length
    rw [sizeSub_of_le (by omega) (by omega)]
    omega
  have footer : 16 + p.length.toNat - pktFooterLen = 12 + p.length.toNat := by
    rw [pktFooterLen]
    omega
  rw [pktDecodeInline_header crc32 p tail _ (by omega) (by rw [data]; rfl) (fun _ => data) length]
  simp only [more,exact_length,ne_eq,Nat.add_eq_zero_iff,positive,false_and,not_false_eq_true,if_true,
    pktCheckPayload,pktCheckCrc2,data,clear,Bool.false_eq_true,if_false,not_true_eq_false,footer,
    wordAt_tail,crc2,ntohl,htonl,swap32_swap32,crcOf,Pkt.payload,setCrc2_eq]

theorem pktDecode_image (p stale : Pkt) (valid : Encodable p) :
    ∃ q, pktDecode crc32 (image crc32 p) stale = (.pktOk,q) ∧ Agrees p q ∧
      q.crc1 = headerCrc crc32 p ∧
      (p.length ≠ 0 → crc2Field q = crc32 (p.payload p.length.toNat)) := by
  have bound := valid.length
  unfold maxPayloadSize at bound
  have size := image_length crc32 p
  have fits : ¬ (image crc32 p).length > 528 := by
    rw [size,pktLen]
    split <;> simp only [pktHeaderLen,pktFooterLen] <;> omega
  rw [pktDecode,if_neg fits,size]
  unfold image
  rw [overwrite_header]
  by_cases empty : p.length = 0
  · have short : pktLen p = 12 := by simp [pktLen,empty,pktHeaderLen]
    rw [short]
    refine ⟨_,pktDecodeInline_bare crc32 p _ valid.type valid.truncated valid.length (Or.inr empty),?_,rfl,
      fun present => absurd empty present⟩
    exact ⟨rfl,rfl,rfl,rfl,rfl,rfl,by simp [empty,Pkt.payload,slice]⟩
  · obtain ⟨data,clear⟩ := valid.payload empty
    have long : pktLen p = 16 + p.length.toNat := by
      simp only [pktLen,empty,ne_eq,not_false_eq_true,if_true,pktHeaderLen,pktFooterLen]
    rw [long,if_pos empty]
    let rest := p.payload p.length.toNat ++ bytes32 (htonl (crc32 (p.payload p.length.toNat)))
    have total : rest.length = p.length.toNat + 4 := by simp [rest,Pkt.payload,bytes32]
    have written : slice (blit stale.tail 0 rest) 0 (p.length.toNat + 4) = rest := by
      rw [← total]
      exact slice_blit _ _ _ (by omega)
    have payload : slice (blit stale.tail 0 rest) 0 p.length.toNat = p.payload p.length.toNat := by
      rw [← slice_take _ _ _ _ (Nat.le_add_right p.length.toNat 4),written]
      exact List.take_left' (by simp [Pkt.payload])
    have crc2 : wordAt (blit stale.tail 0 rest) p.length.toNat =
        htonl (crc32 (p.payload p.length.toNat)) := by
      have found (i : Nat) (inside : i < 4) : byteAt (blit stale.tail 0 rest) (p.length.toNat + i) =
          byteOf (htonl (crc32 (p.payload p.length.toNat))).toNat i := by
        rw [byteAt_blit _ _ _ (by omega),if_neg (by omega),Nat.sub_zero,
          List.getElem?_append_right (by simp [Pkt.payload])]
        simp only [Pkt.payload,slice_length,Nat.add_sub_cancel_left,bytes32]
        interval_cases i <;> rfl
      rw [wordAt,← Nat.add_zero p.length.toNat,found 0 (by omega),Nat.add_zero,found 1 (by omega),
        found 2 (by omega),found 3 (by omega)]
      exact word32_bytes _
    refine ⟨_,pktDecodeInline_payload crc32 p _ data clear valid.length empty (by rw [payload]; exact crc2),
      ?_,rfl,?_⟩
    · refine ⟨rfl,rfl,rfl,rfl,rfl,rfl,?_⟩
      exact payload.symm.trans
        (slice_blit_before (blit stale.tail 0 rest) 512 _ 0 p.length.toNat (by omega)).symm
    · intro _
      exact (wordAt_blit (blit stale.tail 0 rest) 512 _ (by omega)).trans (congrArg crc32 payload)

theorem flags_setTr (p : Pkt) : p.flags ||| 0x20 = ({ p with tr := true } : Pkt).flags := by
  have every : ∀ (w : BitVec 5) (b : Bool) (t : BitVec 2),
      UInt8.ofNat (w.toNat + 32 * b.toNat + 64 * t.toNat) ||| 0x20 =
        UInt8.ofNat (w.toNat + 32 * true.toNat + 64 * t.toNat) := by decide
  exact every p.window p.tr p.type

theorem flags_clearTr (p : Pkt) : p.flags &&& 0xdf = ({ p with tr := false } : Pkt).flags := by
  have every : ∀ (w : BitVec 5) (b : Bool) (t : BitVec 2),
      UInt8.ofNat (w.toNat + 32 * b.toNat + 64 * t.toNat) &&& 0xdf =
        UInt8.ofNat (w.toNat + 32 * false.toNat + 64 * t.toNat) := by decide
  exact every p.window p.tr p.type

/-- Truncation by the network is the encoding of the same header with TR set. -/
theorem truncate_image (p : Pkt) :
    truncate (image crc32 p) = (wireHeader crc32 { p with tr := true }).header := by
  rw [truncate,image_take]
  have flag := flags_setTr (wireHeader crc32 p)
  change ((wireHeader crc32 p).flags ||| 0x20) :: _ = _
  rw [flag]
  rfl

theorem clearTr_image (p : Pkt) : clearTr ((image crc32 p).take 8) =
    pseudoHeader { p with length := htons p.length, tr := false } := by
  have first : (image crc32 p).take 8 = (wireHeader crc32 p).header.take 8 := by
    rw [← image_take,List.take_take]
    rfl
  have flag := flags_clearTr (wireHeader crc32 p)
  rw [first,pseudoHeader_eq]
  change ((wireHeader crc32 p).flags &&& 0xdf) :: _ = _
  rw [flag]
  rfl

theorem pktDecode_truncate_eq (p stale : Pkt) : pktDecode crc32 (truncate (image crc32 p)) stale =
    pktDecodeInline crc32 { wireHeader crc32 { p with tr := true } with tail := stale.tail } 12 := by
  have same : blit stale.tail 0 [] = stale.tail := by
    funext i
    simp [blit]
  have received := overwrite_header stale (wireHeader crc32 { p with tr := true }) []
  rw [List.append_nil,same] at received
  rw [truncate_image,pktDecode,if_neg (by rw [Pkt.header_length]; decide),received,Pkt.header_length]

theorem pktDecode_truncate (p stale : Pkt) (data : p.type = ptypeData)
    (length : p.length.toNat ≤ maxPayloadSize) :
    pktDecode crc32 (truncate (image crc32 p)) stale =
      (.pktOk,{ p with tr := true, crc1 := headerCrc crc32 p, tail := stale.tail }) := by
  rw [pktDecode_truncate_eq]
  exact pktDecodeInline_bare crc32 { p with tr := true } stale.tail (by change validType p.type = true; rw [data]; rfl)
    (fun _ => data) length (Or.inl rfl)

theorem pktDecode_truncate_other (p stale : Pkt) (type : validType p.type = true) (other : p.type ≠ ptypeData) :
    (pktDecode crc32 (truncate (image crc32 p)) stale).1 = .eTr := by
  have flagged : validTr p.type true = false := by simp [validTr,other]
  rw [pktDecode_truncate_eq,pktDecodeInline]
  simp only [wireHeader,pktMinLen,type,flagged]
  rfl

theorem store_slice (mem : Memory) (p : Pkt) {len : Nat} (bound : len ≤ 528) :
    (List.range len).map (mem.setPkt p) = slice p.bytes 0 len := by
  apply List.map_congr_left
  intro i member
  have inside := List.mem_range.mp member
  rw [Memory.setPkt,Memory.store,slice_getElem? _ _ _ _ (by omega)]
  rfl

theorem copied_agrees (p : Pkt) (mem : Memory) (bound : p.length.toNat ≤ maxPayloadSize) :
    Agrees p (mem.store (slice p.bytes 0 (pktLen p - pktFooterLen))).pkt := by
  unfold maxPayloadSize at bound
  set copied := mem.store (slice p.bytes 0 (pktLen p - pktFooterLen)) with copiedEq
  have found (i : Nat) (inside : i < pktLen p - pktFooterLen) : copied i = byteAt p.bytes i := by
    rw [copiedEq,Memory.store,slice_getElem? _ _ _ _ inside,Nat.zero_add]
    rfl
  have least : 8 ≤ pktLen p - pktFooterLen := by
    rw [pktLen]
    split <;> simp only [pktHeaderLen,pktFooterLen] <;> omega
  have same (i : Nat) (inside : i < 8) :
      byteAt (fun j : Fin 528 => copied j.val) i = byteAt p.bytes i := by
    rw [byteAt_of_lt _ (by omega : i < 528)]
    exact found i (by omega)
  have fields : Pkt.ofBytes p.bytes = p := p.ofBytes_bytes
  have length : copied.pkt.length = p.length := by
    rw [← congrArg Pkt.length fields]
    simp only [Memory.pkt,Pkt.ofBytes,same 2 (by omega),same 3 (by omega)]
  refine ⟨?_,?_,?_,?_,length.symm,?_,?_⟩
  · rw [← congrArg Pkt.window fields]
    simp only [Memory.pkt,Pkt.ofBytes,same 0 (by omega)]
  · rw [← congrArg Pkt.tr fields]
    simp only [Memory.pkt,Pkt.ofBytes,same 0 (by omega)]
  · rw [← congrArg Pkt.type fields]
    simp only [Memory.pkt,Pkt.ofBytes,same 0 (by omega)]
  · rw [← congrArg Pkt.seq fields]
    simp only [Memory.pkt,Pkt.ofBytes,same 1 (by omega)]
  · rw [← congrArg Pkt.ts fields]
    simp only [Memory.pkt,Pkt.ofBytes,wordAt,same 4 (by omega),same 5 (by omega),same 6 (by omega),
      same 7 (by omega)]
  · apply slice_congr
    intro i inside
    have present : p.length ≠ 0 := by
      intro zero
      simp [zero] at inside
    have room : pktLen p - pktFooterLen = 12 + p.length.toNat := by
      simp only [pktLen,present,ne_eq,not_false_eq_true,if_true,pktHeaderLen,pktFooterLen]
      omega
    rw [Nat.zero_add,← p.byteAt_bytes_tail,byteAt_of_lt (Memory.pkt copied).tail (by omega : i < 516)]
    have stored := byteAt_of_lt (fun j : Fin 528 => copied j.val) (by omega : 12 + i < 528)
    exact (stored.trans (found (12 + i) (by omega))).symm

/-- pkt_encode puts the wire image of the packet into the buffer. -/
theorem pktEncode_image (p : Pkt) (mem : Memory) (room : Nat) (bound : p.length.toNat ≤ maxPayloadSize)
    (enough : pktLen p ≤ room) :
    ∃ written, pktEncode crc32 p (some mem) (some room) = (.pktOk,some written,some (pktLen p)) ∧
      (List.range (pktLen p)).map written = image crc32 p := by
  have agrees := copied_agrees p mem bound
  set copied := mem.store (slice p.bytes 0 (pktLen p - pktFooterLen)) with copiedEq
  have status : (pktEncodeInline crc32 copied.pkt).1 = .pktOk := by rw [pktEncodeInline_eq]
  have short : pktLen p ≤ 528 := by
    unfold maxPayloadSize at bound
    rw [pktLen]
    split <;> simp only [pktHeaderLen,pktFooterLen] <;> omega
  have serial : pktLenSerial (pktEncodeInline crc32 copied.pkt).2 = pktLen p := by
    rw [pktEncodeInline_eq,pktLenSerial_wireHeader,pktLen,pktLen,agrees.length]
  refine ⟨copied.setPkt (pktEncodeInline crc32 copied.pkt).2,?_,?_⟩
  · simp only [pktEncode,Nat.not_lt.mpr enough,if_false,← copiedEq,status]
  · rw [store_slice _ _ short,image_agrees crc32 agrees,← datagram_encoded crc32 copied.pkt
      (by rw [← agrees.length]; exact bound),Pkt.datagram,serial]

end Decode

/-- Round trip over the whole format: what pkt_encode leaves in the buffer is
accepted by pkt_decode into any struct and yields the packet, its CRCs included. -/
theorem pktEncode_pktDecode (crc32 : List UInt8 → UInt32) (p stale : Pkt) (mem : Memory) (room : Nat)
    (valid : Encodable p) (enough : pktLen p ≤ room) :
    ∃ written decoded,
      pktEncode crc32 p (some mem) (some room) = (.pktOk,some written,some (pktLen p)) ∧
      pktDecode crc32 ((List.range (pktLen p)).map written) stale = (.pktOk,decoded) ∧
      decoded.type = p.type ∧ decoded.tr = p.tr ∧ decoded.window = p.window ∧ decoded.seq = p.seq ∧
      decoded.ts = p.ts ∧ decoded.length = p.length ∧
      decoded.payload p.length.toNat = p.payload p.length.toNat ∧
      decoded.crc1 = crc32 (clearTr (((List.range (pktLen p)).map written).take 8)) ∧
      (p.length ≠ 0 → crc2Field decoded = crc32 (p.payload p.length.toNat)) := by
  obtain ⟨written,encoded,content⟩ := pktEncode_image crc32 p mem room valid.length enough
  obtain ⟨decoded,accepted,same,crc1,crc2⟩ := pktDecode_image crc32 p stale valid
  refine ⟨written,decoded,encoded,by rw [content]; exact accepted,same.type.symm,same.tr.symm,
    same.window.symm,same.seq.symm,same.ts.symm,same.length.symm,same.payload.symm,?_,crc2⟩
  rw [content,clearTr_image]
  exact crc1

def threeBytes : Pkt :=
  { Pkt.zero with
    type := ptypeData, window := 31, seq := 255, length := 3, ts := pktTimestamp
    tail := fun i => if i.val < 3 then 97 else 0 }

theorem pktEncode_pktDecode_threeBytes : ∃ written decoded,
    pktEncode Lib.Crc.crc32 threeBytes (some (fun _ => 7)) (some 19) = (.pktOk,some written,some 19) ∧
    pktDecode Lib.Crc.crc32 ((List.range 19).map written) Pkt.zero = (.pktOk,decoded) ∧
    decoded.seq = 255 ∧ decoded.payload 3 = [97,97,97] := by
  obtain ⟨written,decoded,encoded,accepted,_,_,_,seq,_,_,payload,_⟩ :=
    pktEncode_pktDecode Lib.Crc.crc32 threeBytes Pkt.zero (fun _ => 7) 19
      ⟨by decide,by decide,by decide,by decide⟩ (by decide)
  exact ⟨written,decoded,encoded,accepted,seq,payload⟩

end Trtp.Codec
