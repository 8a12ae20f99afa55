import Trtp.WireFormat

/-! Datagrams that a router cuts: the header survives with its checksum, and no other
length is taken for a packet but the one that looks like an empty payload. -/
namespace Trtp.Truncation
open Lib.Bytes Packet Codec WireFormat

def cut (n : Nat) (datagram : List UInt8) : List UInt8 := setTr (datagram.take n)

variable {crc32 : List UInt8 → UInt32} {p : Pkt}

theorem setTr_append {front : List UInt8} (some : front ≠ []) (rest : List UInt8) :
    setTr (front ++ rest) = setTr front ++ rest := by
  cases front with
  | nil => contradiction
  | cons b front => rfl

theorem cut_image {n : Nat} (whole : 12 ≤ n) : cut n (image crc32 p) =
    (wireHeader crc32 { p with tr := true }).header ++ ((image crc32 p).drop 12).take (n - 12) := by
  obtain ⟨more,rfl⟩ := Nat.exists_eq_add_of_le whole
  have front : (image crc32 p).take 12 ≠ [] := by
    have header := image_take crc32 p
    change (image crc32 p).take 12 = _ at header
    rw [header]
    exact List.cons_ne_nil _ _
  have header : setTr ((image crc32 p).take 12) = _ := truncate_image crc32 p
  rw [cut,List.take_add,setTr_append front,header,Nat.add_sub_cancel_left]

theorem pktDecode_cut (stale : Pkt) (data : p.type = ptypeData) (bound : p.length.toNat ≤ maxPayloadSize) {n : Nat}
    (more : 12 < n) (inside : n < pktLen p) (other : n ≠ 16) :
    (pktDecode crc32 (cut n (image crc32 p)) stale).1 = .eUnconsistent := by
  have total := image_length crc32 p
  have limit : pktLen p ≤ 528 := by
    unfold maxPayloadSize at bound
    rw [pktLen]
    split <;> simp only [pktHeaderLen,pktFooterLen] <;> omega
  have size : (cut n (image crc32 p)).length = n := by
    rw [cut_image (by omega)]
    simp only [List.length_append,Pkt.header_length,List.length_take,List.length_drop,total]
    omega
  have some : payloadLen n ≠ 0 := by
    rw [ne_eq,payloadLen_eq_zero (by omega) (by omega)]
    omega
  have refused (q : Pkt) (isData : q.type = ptypeData) (truncated : q.tr = true) (plen : Nat) :
      pktCheckPayload crc32 q n plen (payloadLen n) = (.eUnconsistent,q) := by
    rw [pktCheckPayload,if_pos isData,if_pos truncated,if_pos some]
  let tail := blit stale.tail 0 (((image crc32 p).drop 12).take (n - 12))
  have read := pktDecodeInline_header crc32 { p with tr := true } tail n (by omega)
    (by change validType p.type = true; rw [data]; rfl) (fun _ => data) bound
  have failed := refused { p with
    tr := true, length := htons p.length, crc1 := headerCrc crc32 { p with tr := true }, tail := tail } data rfl
    p.length.toNat
  rw [pktDecode,if_neg (by omega),size,cut_image (by omega),overwrite_header]
  refine (congrArg Prod.fst read).trans ?_
  unfold payloadLen at failed
  simp only [failed]

/-- Truncation leaves every header field readable, and no other cut of a DATA packet
decodes except after 16 bytes. -/
theorem pktDecode_truncated (crc32 : List UInt8 → UInt32) (p stale : Pkt) (mem : Memory) (room : Nat)
    (data : p.type = ptypeData) (clear : p.tr = false) (bound : p.length.toNat ≤ maxPayloadSize)
    (enough : pktLen p ≤ room) :
    ∃ written decoded whole,
      pktEncode crc32 p (some mem) (some room) = (.pktOk,some written,some (pktLen p)) ∧
      let datagram := (List.range (pktLen p)).map written
      pktDecode crc32 datagram stale = (.pktOk,whole) ∧
      pktDecode crc32 (cut 12 datagram) stale = (.pktOk,decoded) ∧
      decoded.tr = true ∧ decoded.type = p.type ∧ decoded.window = p.window ∧ decoded.seq = p.seq ∧
      decoded.ts = p.ts ∧ decoded.length = p.length ∧ decoded.crc1 = whole.crc1 ∧
      decoded.crc1 = netWord datagram 8 ∧
      ∀ n, 12 < n → n < pktLen p → n ≠ 16 → (pktDecode crc32 (cut n datagram) stale).1 ≠ .pktOk := by
  have valid : Encodable p := ⟨by rw [data]; rfl,bound,fun _ => ⟨data,clear⟩,fun _ => data⟩
  obtain ⟨written,encoded,content⟩ := pktEncode_image crc32 p mem room bound enough
  obtain ⟨whole,accepted,_,crc1,_⟩ := pktDecode_image crc32 p stale valid
  have truncated := pktDecode_truncate crc32 p stale data bound
  refine ⟨written,{ p with tr := true, crc1 := headerCrc crc32 p, tail := stale.tail },whole,encoded,?_⟩
  rw [content]
  refine ⟨accepted,truncated,rfl,rfl,rfl,rfl,rfl,rfl,crc1.symm,?_,?_⟩
  · have found (i : Nat) (inside : i < 12) : (image crc32 p).getD i 0 = (wireHeader crc32 p).header.getD i 0 := by
      rw [image,List.getD_append _ _ _ _ (by rw [Pkt.header_length]; exact inside)]
    simp only [netWord,found 8 (by omega),found 9 (by omega),found 10 (by omega),found 11 (by omega)]
    change headerCrc crc32 p = word32 (byteOf (htonl (headerCrc crc32 p)).toNat 3)
      (byteOf (htonl (headerCrc crc32 p)).toNat 2) (byteOf (htonl (headerCrc crc32 p)).toNat 1)
      (byteOf (htonl (headerCrc crc32 p)).toNat 0)
    exact (swap32_swap32 _).symm
  · intro n more inside other
    rw [pktDecode_cut stale data bound more inside other]
    decide

theorem pktDecode_truncated_threeBytes : ∃ written decoded,
    pktEncode Lib.Crc.crc32 threeBytes (some (fun _ => 7)) (some 19) = (.pktOk,some written,some 19) ∧
    pktDecode Lib.Crc.crc32 (cut 12 ((List.range 19).map written)) Pkt.zero = (.pktOk,decoded) ∧
    decoded.tr = true ∧ decoded.length = 3 := by
  obtain ⟨written,decoded,_,encoded,_,accepted,tr,_,_,_,_,length,_⟩ :=
    pktDecode_truncated Lib.Crc.crc32 threeBytes Pkt.zero
    (fun _ => 7) 19 rfl rfl (by decide) (by decide)
  exact ⟨written,decoded,encoded,accepted,tr,length⟩

end Trtp.Truncation
