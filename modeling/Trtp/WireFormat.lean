import Trtp.Codec

/-! The wire format, byte by byte, and what the decoder accepts.
The decoder takes a datagram of 16 bytes for one without payload, and the four
bytes behind the header are then never looked at. -/
namespace Trtp.WireFormat
open Lib.Bytes Packet Codec

def octet (data : List UInt8) (i : Nat) : Nat := (data.getD i 0).toNat

def typeField (data : List UInt8) : Nat := octet data 0 / 64

def trField (data : List UInt8) : Nat := octet data 0 / 32 % 2

def lengthField (data : List UInt8) : Nat := 256 * octet data 2 + octet data 3

def netWord (data : List UInt8) (off : Nat) : UInt32 :=
  word32 (data.getD (off + 3) 0) (data.getD (off + 2) 0) (data.getD (off + 1) 0) (data.getD off 0)

structure Header (crc32 : List UInt8 → UInt32) (data : List UInt8) : Prop where
  whole : 12 ≤ data.length
  type : typeField data = 1 ∨ typeField data = 2 ∨ typeField data = 3
  tr : trField data = 1 → typeField data = 1
  bound : lengthField data ≤ 512
  control : typeField data ≠ 1 → lengthField data = 0
  crc1 : netWord data 8 = crc32 (clearTr (data.take 8))

structure Wire (crc32 : List UInt8 → UInt32) (data : List UInt8) : Prop extends Header crc32 data where
  bare : trField data = 1 ∨ lengthField data = 0 → data.length = 12
  payload : trField data = 0 → lengthField data ≠ 0 → data.length = 12 + lengthField data + 4 ∧
    netWord data (12 + lengthField data) = crc32 ((data.drop 12).take (lengthField data))

def Padded (crc32 : List UInt8 → UInt32) (data : List UInt8) : Prop :=
  data.length = 16 ∧ Wire crc32 (data.take 12)

variable {crc32 : List UInt8 → UInt32} {data : List UInt8}

theorem trField_cases (data : List UInt8) : trField data = 0 ∨ trField data = 1 := by
  unfold trField
  omega

structure Holds (p : Pkt) (data : List UInt8) : Prop where
  type : p.type.toNat = typeField data
  tr : p.tr.toNat = trField data
  length : (ntohs p.length).toNat = lengthField data
  crc1 : ntohl p.crc1 = netWord data 8
  pseudo : pseudoHeader { p with tr := false } = clearTr (data.take 8)
  tail : ∀ i, 12 + i < data.length → byteAt p.tail i = data.getD (12 + i) 0

theorem byteAt_received (stale : Pkt) (fits : data.length ≤ 528) {i : Nat} (inside : i < data.length) :
    byteAt (blit stale.bytes 0 data) i = data.getD i 0 := by
  rw [byteAt_blit _ _ _ (by omega),if_neg (by omega),Nat.sub_zero,List.getElem?_eq_getElem inside,Option.getD_some,
    List.getD_eq_getElem _ _ inside]

theorem swap16_word16 (b0 b1 : UInt8) : swap16 (word16 b0 b1) = word16 b1 b0 := by
  simp [swap16]

theorem swap32_word32 (b0 b1 b2 b3 : UInt8) : swap32 (word32 b0 b1 b2 b3) = word32 b3 b2 b1 b0 := by
  simp [swap32]

theorem ofBytes_flags (b : Block 528) : (Pkt.ofBytes b).flags = byteAt b 0 := by
  have bound := (byteAt b 0).toNat_lt
  apply UInt8.toNat_inj.mp
  rw [Pkt.flags_toNat]
  have tr : ((Pkt.ofBytes b).tr).toNat = (byteAt b 0).toNat / 32 % 2 := by
    change ((byteAt b 0).toNat / 32 % 2 == 1).toNat = _
    rcases Nat.mod_two_eq_zero_or_one ((byteAt b 0).toNat / 32) with zero | one
    · rw [zero]
      rfl
    · rw [one]
      rfl
  rw [tr]
  simp only [Pkt.ofBytes,BitVec.toNat_ofNat]
  omega

theorem overwrite_holds (stale : Pkt) (fits : data.length ≤ 528) (whole : 12 ≤ data.length) :
    Holds (stale.overwrite data) data := by
  have found (i : Nat) (inside : i < 12) : byteAt (blit stale.bytes 0 data) i = data.getD i 0 :=
    byteAt_received stale fits (by omega)
  have flags := (data.getD 0 0).toNat_lt
  refine ⟨?_,?_,?_,?_,?_,?_⟩
  · simp only [Pkt.overwrite,Pkt.ofBytes,found 0 (by omega),typeField,octet,BitVec.toNat_ofNat]
    omega
  · simp only [Pkt.overwrite,Pkt.ofBytes,found 0 (by omega),trField,octet]
    rcases Nat.mod_two_eq_zero_or_one ((data.getD 0 0).toNat / 32) with zero | one
    · rw [zero]
      rfl
    · rw [one]
      rfl
  · simp only [Pkt.overwrite,Pkt.ofBytes,found 2 (by omega),found 3 (by omega),ntohs,swap16_word16,word16_toNat,
      lengthField,octet]
    omega
  · simp only [Pkt.overwrite,Pkt.ofBytes,wordAt,found 8 (by omega),found 9 (by omega),found 10 (by omega),
      found 11 (by omega),ntohl,swap32_word32]
    rfl
  · have first : data.take 8 = [data.getD 0 0,data.getD 1 0,data.getD 2 0,data.getD 3 0,data.getD 4 0,data.getD 5 0,
        data.getD 6 0,data.getD 7 0] := by
      apply List.ext_getElem
      · simp
        omega
      · intro i left right
        have inside : i < 8 := by simpa using right
        rw [List.getElem_take]
        interval_cases i <;> exact (List.getD_eq_getElem _ _ (by omega)).symm
    have cleared : ({ stale.overwrite data with tr := false } : Pkt).flags = data.getD 0 0 &&& 0xdf := by
      rw [← flags_clearTr,Pkt.overwrite,ofBytes_flags,found 0 (by omega)]
    rw [first,pseudoHeader_eq,cleared]
    simp only [Pkt.overwrite,Pkt.ofBytes,wordAt,found 1 (by omega),found 2 (by omega),found 3 (by omega),
      found 4 (by omega),found 5 (by omega),found 6 (by omega),found 7 (by omega),bytes16,bytes32,byteOf_word16,
      byteOf_word32,clearTr]
    rfl
  · intro i inside
    rw [byteAt_of_lt _ (by omega : i < 516)]
    exact byteAt_received stale fits inside

/-- The payload length that the decoder computes from the number of bytes received. -/
def payloadLen (rlen : Nat) : Nat := if sizeSub rlen 12 ≠ 0 then sizeSub (sizeSub rlen 12) 4 else 0

theorem payloadLen_eq_zero {rlen : Nat} (whole : 12 ≤ rlen) (fits : rlen ≤ 528) :
    payloadLen rlen = 0 ↔ rlen = 12 ∨ rlen = 16 := by
  unfold payloadLen sizeSub
  split <;> omega

/-- Thirteen to fifteen bytes leave a length below zero, which wraps to a huge one. -/
theorem payloadLen_eq {rlen n : Nat} (whole : 12 ≤ rlen) (fits : rlen ≤ 528) (positive : n ≠ 0) (bound : n ≤ 512) :
    payloadLen rlen = n ↔ rlen = 12 + n + 4 := by
  unfold payloadLen sizeSub
  split <;> omega

/-- The last step of pkt_decode_inline: the length goes into host order if all checks passed. -/
def finished (plen : Nat) (checked : Status × Pkt) : Status × Pkt :=
  if checked.1 = .pktOk then (.pktOk,{ checked.2 with length := UInt16.ofNat plen }) else checked

/-- The exits of pkt_decode_inline, and what each leaves in the struct. -/
theorem pktDecodeInline_eq (p : Pkt) (rlen : Nat) : pktDecodeInline crc32 p rlen =
    if rlen < 12 then (.eNoheader,p) else
    if !validType p.type then (.eType,p) else
    if !validTr p.type p.tr then (.eTr,p) else
    if !validLength (ntohs p.length).toNat then (.eLength,p) else
    if ntohl p.crc1 ≠ crc32 (pseudoHeader { p with tr := false }) then (.eCrc,{ p with tr := false }) else
    finished (ntohs p.length).toNat
      (pktCheckPayload crc32 { p with crc1 := ntohl p.crc1 } rlen (ntohs p.length).toNat (payloadLen rlen)) := by
  unfold pktDecodeInline
  simp only [pktMinLen,pktHeaderLen,pktFooterLen,Nat.reduceSub,wordAt_crc1,crcOf]
  refine if_congr Iff.rfl rfl (if_congr Iff.rfl rfl (if_congr Iff.rfl rfl (if_congr Iff.rfl rfl ?_)))
  refine if_congr Iff.rfl rfl ?_
  split
  next pkt passed =>
    have ended : finished (ntohs p.length).toNat (.pktOk,pkt) =
        (.pktOk,{ pkt with length := UInt16.ofNat (ntohs p.length).toNat }) := if_pos rfl
    exact ended.symm.trans (congrArg (finished (ntohs p.length).toNat) passed).symm
  next failed other =>
    refine (if_neg ?_).symm
    intro passed
    exact other _ (Prod.ext passed rfl)

theorem finished_ok (plen : Nat) (checked : Status × Pkt) :
    (finished plen checked).1 = .pktOk ↔ checked.1 = .pktOk := by
  unfold finished
  split
  next passed => exact iff_of_true rfl passed
  next => exact Iff.rfl

theorem pktDecodeInline_ok_iff (p : Pkt) {rlen : Nat} (whole : 12 ≤ rlen) :
    (pktDecodeInline crc32 p rlen).1 = .pktOk ↔
      validType p.type = true ∧ validTr p.type p.tr = true ∧ validLength (ntohs p.length).toNat = true ∧
      ntohl p.crc1 = crc32 (pseudoHeader { p with tr := false }) ∧
      (pktCheckPayload crc32 { p with crc1 := ntohl p.crc1 } rlen (ntohs p.length).toNat
        (payloadLen rlen)).1 = .pktOk := by
  rw [pktDecodeInline_eq,if_neg (Nat.not_lt.mpr whole)]
  by_cases type : validType p.type = true
  · by_cases tr : validTr p.type p.tr = true
    · by_cases length : validLength (ntohs p.length).toNat = true
      · by_cases crc1 : ntohl p.crc1 = crc32 (pseudoHeader { p with tr := false })
        · simp only [type,tr,length,Bool.not_true,Bool.false_eq_true,if_false,ne_eq,crc1,not_true_eq_false,true_and]
          exact finished_ok _ _
        · simp [type,tr,length,crc1]
      · simp [type,tr,length]
    · simp [type,tr]
  · simp [type]

theorem pktCheckPayload_ok_iff (p : Pkt) (rlen plen len : Nat) : (pktCheckPayload crc32 p rlen plen len).1 = .pktOk ↔
    (p.type = ptypeData ∧ p.tr = true ∧ len = 0) ∨ (p.type ≠ ptypeData ∧ len = 0 ∧ plen = 0) ∨
    (p.type = ptypeData ∧ p.tr = false ∧ plen = len ∧
      (len ≠ 0 → ntohl (wordAt p.bytes (rlen - 4)) = crc32 (p.payload len))) := by
  unfold pktCheckPayload pktCheckCrc2
  simp only [pktFooterLen,crcOf]
  by_cases data : p.type = ptypeData
  · cases p.tr
    · by_cases same : plen = len
      · by_cases empty : len = 0
        · simp [data,same,empty]
        · by_cases crc2 : ntohl (wordAt p.bytes (rlen - 4)) = crc32 (p.payload len)
          · simp [data,same,empty,crc2]
          · simp [data,same,empty,crc2]
      · simp [data,same]
    · by_cases empty : len = 0
      · simp [data,empty]
      · simp [data,empty]
  · by_cases empty : len = 0
    · by_cases none : plen = 0
      · simp [data,empty,none]
      · simp [data,empty,none]
    · simp [data,empty]

theorem isData_iff {p : Pkt} (holds : Holds p data) : p.type = ptypeData ↔ typeField data = 1 := by
  rw [← holds.type,← BitVec.toNat_inj]
  rfl

theorem isTruncated_iff {p : Pkt} (holds : Holds p data) : p.tr = true ↔ trField data = 1 := by
  rw [← holds.tr]
  cases p.tr <;> simp

theorem header_iff {p : Pkt} (holds : Holds p data) (whole : 12 ≤ data.length) : Header crc32 data ↔
    validType p.type = true ∧ validTr p.type p.tr = true ∧ validLength (ntohs p.length).toNat = true ∧
      ntohl p.crc1 = crc32 (pseudoHeader { p with tr := false }) ∧
      (p.type ≠ ptypeData → (ntohs p.length).toNat = 0) := by
  have type : validType p.type = true ↔ typeField data = 1 ∨ typeField data = 2 ∨ typeField data = 3 := by
    rw [← holds.type]
    generalize p.type = t
    revert t
    decide
  have tr : validTr p.type p.tr = true ↔ (trField data = 1 → typeField data = 1) := by
    rw [← isTruncated_iff holds,← isData_iff holds]
    unfold validTr
    cases p.tr <;> simp
  have length : validLength (ntohs p.length).toNat = true ↔ lengthField data ≤ 512 := by
    rw [holds.length]
    exact decide_eq_true_iff
  rw [type,tr,length,holds.length,holds.crc1,holds.pseudo,ne_eq,isData_iff holds]
  constructor
  · intro header
    exact ⟨header.type,header.tr,header.bound,header.crc1,header.control⟩
  · rintro ⟨type,tr,bound,crc1,control⟩
    exact ⟨whole,type,tr,bound,control,crc1⟩

theorem payload_held {p : Pkt} (holds : Holds p data) {len : Nat} (inside : 12 + len ≤ data.length) :
    p.payload len = (data.drop 12).take len := by
  apply List.ext_getElem
  · simp [Pkt.payload]
    omega
  · intro i left right
    have before : i < len := by simpa [Pkt.payload] using left
    simp only [Pkt.payload,slice,List.getElem_map,List.getElem_range,List.getElem_take,List.getElem_drop,Nat.zero_add]
    rw [holds.tail i (by omega),List.getD_eq_getElem _ _ (by omega)]

theorem netWord_held {p : Pkt} (holds : Holds p data) {off : Nat} (inside : 12 + off + 4 ≤ data.length) :
    ntohl (wordAt p.tail off) = netWord data (12 + off) := by
  have found (i : Nat) (small : i < 4) : byteAt p.tail (off + i) = data.getD (12 + off + i) 0 := by
    rw [holds.tail _ (by omega),Nat.add_assoc]
  rw [wordAt,ntohl,swap32_word32,← Nat.add_zero off,found 0 (by omega),Nat.add_zero,found 1 (by omega),
    found 2 (by omega),found 3 (by omega)]
  rfl

/-- CRC2 behind a payload of the announced length. -/
theorem crc2_held {p q : Pkt} (holds : Holds p data) (tail : q.tail = p.tail)
    (total : data.length = 12 + lengthField data + 4) :
    ntohl (wordAt q.bytes (data.length - 4)) = crc32 (q.payload (lengthField data)) ↔
      netWord data (12 + lengthField data) = crc32 ((data.drop 12).take (lengthField data)) := by
  have payload : q.payload (lengthField data) = p.payload (lengthField data) := by
    rw [Pkt.payload,Pkt.payload,tail]
  rw [total,Nat.add_sub_cancel,wordAt_tail,tail,netWord_held holds (by omega),payload,payload_held holds (by omega)]

theorem pktDecode_accepts (stale : Pkt) (fits : data.length ≤ 528) : (pktDecode crc32 data stale).1 = .pktOk ↔
    Header crc32 data ∧
      ((trField data = 1 ∨ lengthField data = 0) ∧ (data.length = 12 ∨ data.length = 16) ∨
      trField data = 0 ∧ lengthField data ≠ 0 ∧ data.length = 12 + lengthField data + 4 ∧
        netWord data (12 + lengthField data) = crc32 ((data.drop 12).take (lengthField data))) := by
  rw [pktDecode,if_neg (by omega)]
  rcases Nat.lt_or_ge data.length 12 with short | whole
  · have refused : (pktDecodeInline crc32 (stale.overwrite data) data.length).1 = .eNoheader := by
      have below : data.length < pktMinLen := short
      rw [pktDecodeInline,if_pos below]
    rw [refused]
    constructor
    · intro wrong
      contradiction
    · rintro ⟨header,_⟩
      have enough := header.whole
      omega
  have holds := overwrite_holds stale fits whole
  rw [pktDecodeInline_ok_iff _ whole,header_iff holds whole,pktCheckPayload_ok_iff]
  generalize stale.overwrite data = p at holds
  have data_iff := isData_iff holds
  have tr_iff := isTruncated_iff holds
  have none := payloadLen_eq_zero whole fits
  have flag := trField_cases data
  have tail : ({ p with crc1 := ntohl p.crc1 } : Pkt).tail = p.tail := rfl
  simp only [holds.length]
  constructor
  · rintro ⟨type,tr,length,crc1,⟨isData,truncated,empty⟩ | ⟨other,empty,zero⟩ | ⟨isData,clear,same,crc2⟩⟩
    · exact ⟨⟨type,tr,length,crc1,fun other => absurd isData other⟩,
        Or.inl ⟨Or.inl (tr_iff.mp truncated),none.mp empty⟩⟩
    · exact ⟨⟨type,tr,length,crc1,fun _ => zero⟩,Or.inl ⟨Or.inr zero,none.mp empty⟩⟩
    · refine ⟨⟨type,tr,length,crc1,fun other => absurd isData other⟩,?_⟩
      by_cases zero : lengthField data = 0
      · exact Or.inl ⟨Or.inr zero,none.mp (same.symm.trans zero)⟩
      · have bound : lengthField data ≤ 512 := of_decide_eq_true length
        have total := (payloadLen_eq whole fits zero bound).mp same.symm
        have untruncated : trField data = 0 := by
          rcases flag with off | on
          · exact off
          · have set : p.tr = true := tr_iff.mpr on
            exact absurd (set.symm.trans clear) (by decide)
        have checked := crc2 (by omega)
        rw [← same] at checked
        exact Or.inr ⟨untruncated,zero,total,(crc2_held holds tail total).mp checked⟩
  · rintro ⟨⟨type,tr,length,crc1,control⟩,⟨bare,ends⟩ | ⟨clear,present,total,crc2⟩⟩
    · refine ⟨type,tr,length,crc1,?_⟩
      have empty := none.mpr ends
      by_cases isData : p.type = ptypeData
      · by_cases truncated : p.tr = true
        · exact Or.inl ⟨isData,truncated,empty⟩
        · have zero : lengthField data = 0 := by
            rcases bare with set | zero
            · exact absurd (tr_iff.mpr set) truncated
            · exact zero
          exact Or.inr (Or.inr ⟨isData,by simpa using truncated,zero.trans empty.symm,fun some => absurd empty some⟩)
      · exact Or.inr (Or.inl ⟨isData,empty,control isData⟩)
    · refine ⟨type,tr,length,crc1,Or.inr (Or.inr ?_)⟩
      have bound : lengthField data ≤ 512 := of_decide_eq_true length
      have same := (payloadLen_eq whole fits present bound).mpr total
      have isData : p.type = ptypeData := by
        by_contra other
        exact present (control other)
      have untruncated : p.tr = false := by
        by_contra set
        have on := tr_iff.mp (by simpa using set)
        omega
      refine ⟨isData,untruncated,same.symm,fun _ => ?_⟩
      rw [same]
      exact (crc2_held holds tail total).mpr crc2

theorem getD_take (data : List UInt8) {i : Nat} (inside : i < 12) : (data.take 12).getD i 0 = data.getD i 0 := by
  simp only [List.getD_eq_getElem?_getD,List.getElem?_take,if_pos inside]

theorem fields_take (data : List UInt8) : typeField (data.take 12) = typeField data ∧
    trField (data.take 12) = trField data ∧ lengthField (data.take 12) = lengthField data ∧
    netWord (data.take 12) 8 = netWord data 8 ∧ (data.take 12).take 8 = data.take 8 := by
  have found (i : Nat) (inside : i < 12) := getD_take data inside
  refine ⟨?_,?_,?_,?_,?_⟩
  · rw [typeField,typeField,octet,octet,found 0 (by omega)]
  · rw [trField,trField,octet,octet,found 0 (by omega)]
  · simp only [lengthField,octet,found 2 (by omega),found 3 (by omega)]
  · simp only [netWord,found 8 (by omega),found 9 (by omega),found 10 (by omega),found 11 (by omega)]
  · rw [List.take_take]
    rfl

theorem header_take (whole : 12 ≤ data.length) : Header crc32 (data.take 12) ↔ Header crc32 data := by
  obtain ⟨type,tr,length,crc1,first⟩ := fields_take data
  constructor
  · intro header
    have kept := header.crc1
    rw [crc1,first] at kept
    exact ⟨whole,by rw [← type]; exact header.type,by rw [← type,← tr]; exact header.tr,
      by rw [← length]; exact header.bound,
      by rw [← type,← length]; exact header.control,kept⟩
  · intro header
    have kept := header.crc1
    rw [← crc1,← first] at kept
    refine ⟨?_,by rw [type]; exact header.type,by rw [type,tr]; exact header.tr,by rw [length]; exact header.bound,
      by rw [type,length]; exact header.control,kept⟩
    rw [List.length_take,Nat.min_eq_left whole]

/-- The datagrams that the decoder accepts. -/
theorem pktDecode_ok_iff (stale : Pkt) (fits : data.length ≤ 528) :
    (pktDecode crc32 data stale).1 = .pktOk ↔ Wire crc32 data ∨ Padded crc32 data := by
  have flag := trField_cases data
  rw [pktDecode_accepts stale fits]
  constructor
  · rintro ⟨header,⟨bare,ends⟩ | ⟨clear,present,total,crc2⟩⟩
    · rcases ends with short | long
      · exact Or.inl ⟨header,fun _ => short,fun clear present => by omega⟩
      · have size : (data.take 12).length = 12 := by rw [List.length_take,long]; rfl
        obtain ⟨_,tr,length,_,_⟩ := fields_take data
        refine Or.inr ⟨long,(header_take header.whole).mpr header,fun _ => size,fun clear present => ?_⟩
        rw [tr] at clear
        rw [length] at present
        omega
    · exact Or.inl ⟨header,fun bare => by omega,fun _ _ => ⟨total,crc2⟩⟩
  · rintro (wire | ⟨long,wire⟩)
    · refine ⟨wire.toHeader,?_⟩
      by_cases bare : trField data = 1 ∨ lengthField data = 0
      · exact Or.inl ⟨bare,Or.inl (wire.bare bare)⟩
      · have clear : trField data = 0 := by omega
        have present : lengthField data ≠ 0 := by omega
        exact Or.inr ⟨clear,present,wire.payload clear present⟩
    · have size : (data.take 12).length = 12 := by rw [List.length_take,long]; rfl
      obtain ⟨_,tr,length,_,_⟩ := fields_take data
      refine ⟨(header_take (by omega)).mp wire.toHeader,Or.inl ⟨?_,Or.inr long⟩⟩
      by_contra other
      have total := (wire.payload (by rw [tr]; omega) (by rw [length]; omega)).1
      omega

theorem padded_not_wire (padded : Padded crc32 data) : ¬ Wire crc32 data := by
  obtain ⟨long,short⟩ := padded
  obtain ⟨_,tr,length,_,_⟩ := fields_take data
  intro wire
  have flag := trField_cases data
  by_cases bare : trField data = 1 ∨ lengthField data = 0
  · have size := wire.bare bare
    omega
  · have total := (wire.payload (by omega) (by omega)).1
    omega

def written (crc32 : List UInt8 → UInt32) (p : Pkt) : List UInt8 :=
  (wireHeader crc32 p).header ++
    if p.length ≠ 0 ∧ p.tr = false then
      p.payload p.length.toNat ++ bytes32 (htonl (crc32 (p.payload p.length.toNat)))
    else []

structure SamePacket (p q : Pkt) : Prop where
  window : p.window = q.window
  tr : p.tr = q.tr
  type : p.type = q.type
  seq : p.seq = q.seq
  length : p.length = q.length
  ts : p.ts = q.ts
  payload : p.tr = false → p.payload p.length.toNat = q.payload q.length.toNat

theorem written_same {p q : Pkt} (same : SamePacket p q) : written crc32 p = written crc32 q := by
  obtain ⟨window,tr,type,seq,length,ts,payload⟩ := same
  have header : (wireHeader crc32 p).header = (wireHeader crc32 q).header := by
    simp only [Pkt.header,wireHeader,pseudoHeader_eq,Pkt.flags,window,tr,type,seq,length,ts]
  unfold written
  rw [header,← tr,← length]
  rw [← length] at payload
  split
  next present => rw [payload present.2]
  next => rfl

theorem pktCheckPayload_failed {p : Pkt} {rlen plen len : Nat}
    (failed : (pktCheckPayload crc32 p rlen plen len).1 ≠ .pktOk) : (pktCheckPayload crc32 p rlen plen len).2 = p := by
  unfold pktCheckPayload pktCheckCrc2 at failed ⊢
  simp only at failed ⊢
  split_ifs at failed ⊢ <;> first | rfl | exact absurd rfl failed

theorem pktCheckPayload_tail (p : Pkt) (rlen plen len : Nat) : ∃ tail,
    (pktCheckPayload crc32 p rlen plen len).2 = { p with tail := tail } ∧ ∀ n ≤ 512, slice tail 0 n = p.payload n := by
  have filed (x : UInt32) : ∃ tail, p.setCrc2 x = { p with tail := tail } ∧ ∀ n ≤ 512, slice tail 0 n = p.payload n :=
    ⟨_,setCrc2_eq p x,fun n bound => slice_blit_before _ _ _ _ _ (by omega)⟩
  unfold pktCheckPayload pktCheckCrc2
  simp only
  split_ifs <;> first | exact ⟨p.tail,rfl,fun _ _ => rfl⟩ | exact filed _

/-- What an accepted packet becomes: CRC1 and the length are put into host order, and
behind the payload area CRC2 may be filed. -/
theorem pktDecodeInline_result {p q : Pkt} {rlen : Nat} (accepted : pktDecodeInline crc32 p rlen = (.pktOk,q)) :
    ∃ tail, q = { p with length := ntohs p.length, crc1 := ntohl p.crc1, tail := tail } ∧
      ∀ n ≤ 512, slice tail 0 n = p.payload n := by
  rw [pktDecodeInline_eq] at accepted
  split_ifs at accepted
  any_goals simp only [Prod.mk.injEq,reduceCtorEq,false_and] at accepted
  have passed := (finished_ok _ _).mp (congrArg Prod.fst accepted)
  obtain ⟨tail,checked,kept⟩ := @pktCheckPayload_tail crc32 { p with crc1 := ntohl p.crc1 } rlen (ntohs p.length).toNat
    (payloadLen rlen)
  have back : UInt16.ofNat (ntohs p.length).toNat = ntohs p.length := UInt16.ofNat_toNat
  rw [finished,if_pos passed,checked,back] at accepted
  exact ⟨tail,(Prod.mk.inj accepted).2.symm,kept⟩

theorem pktDecodeInline_fields {p q : Pkt} {rlen : Nat} (accepted : pktDecodeInline crc32 p rlen = (.pktOk,q)) :
    q.window = p.window ∧ q.tr = p.tr ∧ q.type = p.type ∧ q.seq = p.seq ∧ q.ts = p.ts ∧ q.length = ntohs p.length ∧
      ∀ len ≤ 512, q.payload len = p.payload len := by
  obtain ⟨tail,rfl,kept⟩ := pktDecodeInline_result accepted
  exact ⟨rfl,rfl,rfl,rfl,rfl,rfl,kept⟩

theorem ofBytes_header (b : Block 528) : (Pkt.ofBytes b).header = slice b 0 12 := by
  have flags := ofBytes_flags b
  simp only [Pkt.header,flags]
  simp only [Pkt.ofBytes,wordAt,bytes16,bytes32,byteOf_word16,byteOf_word32]
  rfl

theorem overwrite_take (stale : Pkt) (fits : data.length ≤ 528) (whole : 12 ≤ data.length) :
    (stale.overwrite data).header = data.take 12 := by
  rw [Pkt.overwrite,ofBytes_header]
  apply List.ext_getElem
  · simp [whole]
  · intro i left right
    have inside : i < 12 := by simpa using left
    simp only [slice,List.getElem_map,List.getElem_range,List.getElem_take,Nat.zero_add]
    rw [byteAt_received stale fits (by omega),List.getD_eq_getElem _ _ (by omega)]

theorem drop_netWord {off : Nat} (ends : data.length = off + 4) :
    data.drop off = bytes32 (htonl (netWord data off)) := by
  rw [netWord,htonl,swap32_word32,bytes32]
  simp only [byteOf_word32]
  apply List.ext_getElem
  · simp [ends]
  · intro i left right
    have inside : i < 4 := by simpa using right
    rw [List.getElem_drop]
    interval_cases i <;> exact (List.getD_eq_getElem _ _ (by omega)).symm

theorem wire_written (wire : Wire crc32 data) (stale : Pkt) (fits : data.length ≤ 528) {q : Pkt}
    (accepted : pktDecode crc32 data stale = (.pktOk,q)) : data = written crc32 q := by
  have whole := wire.whole
  have holds := overwrite_holds stale fits whole
  have header := overwrite_take stale fits whole
  obtain ⟨_,_,_,checked,_⟩ := (header_iff holds whole).mp wire.toHeader
  rw [pktDecode,if_neg (by omega)] at accepted
  obtain ⟨window,tr,type,seq,ts,length,payload⟩ := pktDecodeInline_fields accepted
  generalize stale.overwrite data = p at holds header checked window tr type seq ts length payload
  have swapped : htons q.length = p.length := by rw [length,htons,ntohs,swap16_swap16]
  have pseudo : pseudoHeader { q with length := htons q.length, tr := false } =
      pseudoHeader { p with tr := false } := by
    simp only [pseudoHeader_eq,Pkt.flags,window,type,seq,ts,swapped]
  have crc1 : htonl (crc32 (pseudoHeader { p with tr := false })) = p.crc1 := by
    rw [← checked,htonl,ntohl,swap32_swap32]
  have first : (wireHeader crc32 q).header = data.take 12 := by
    rw [← header,wireHeader,pseudo,crc1]
    simp only [Pkt.header,Pkt.flags,window,tr,type,seq,ts,swapped]
  have size : q.length.toNat = lengthField data := by rw [length,holds.length]
  have present : q.length ≠ 0 ↔ lengthField data ≠ 0 := by
    rw [← size,ne_eq,ne_eq,← UInt16.toNat_inj]
    rfl
  have clear : q.tr = false ↔ trField data = 0 := by
    rw [← holds.tr,tr]
    cases p.tr <;> simp
  rw [written,first]
  split
  next some =>
    obtain ⟨total,crc2⟩ := wire.payload (clear.mp some.2) (present.mp some.1)
    have bound := wire.bound
    have middle : q.payload q.length.toNat = (data.drop 12).take (lengthField data) := by
      rw [size,payload _ bound,payload_held holds (by omega)]
    rw [middle,← crc2,← drop_netWord total,← List.drop_drop,List.take_append_drop,List.take_append_drop]
  next none =>
    have flag := trField_cases data
    have short : data.length = 12 := by
      apply wire.bare
      by_contra other
      exact none ⟨present.mpr (by omega),clear.mpr (by omega)⟩
    rw [List.append_nil,List.take_of_length_le (by omega)]

/-- The decoder accepts exactly the wire format, and two datagrams that it accepts never
become the same packet, if and only if neither is a padded one. -/
theorem pktDecode_iff (crc32 : List UInt8 → UInt32) (a b : List UInt8) (s t : Pkt) (left : a.length ≤ 528)
    (right : b.length ≤ 528) :
    (((pktDecode crc32 a s).1 = .pktOk ↔ Wire crc32 a) ∧ ((pktDecode crc32 b t).1 = .pktOk ↔ Wire crc32 b) ∧
      ∀ p q, pktDecode crc32 a s = (.pktOk,p) → pktDecode crc32 b t = (.pktOk,q) → SamePacket p q → a = b) ↔
    ¬ Padded crc32 a ∧ ¬ Padded crc32 b := by
  have clean {data : List UInt8} {stale : Pkt} (fits : data.length ≤ 528) :
      ((pktDecode crc32 data stale).1 = .pktOk ↔ Wire crc32 data) ↔ ¬ Padded crc32 data := by
    rw [pktDecode_ok_iff stale fits]
    constructor
    · intro only padded
      exact padded_not_wire padded (only.mp (Or.inr padded))
    · intro clean
      exact ⟨fun either => either.resolve_right clean,Or.inl⟩
  constructor
  · rintro ⟨first,second,_⟩
    exact ⟨(clean left).mp first,(clean right).mp second⟩
  · rintro ⟨first,second⟩
    refine ⟨(clean left).mpr first,(clean right).mpr second,?_⟩
    intro p q decoded decoded' same
    have wire := ((clean left).mpr first).mp (congrArg Prod.fst decoded)
    have wire' := ((clean right).mpr second).mp (congrArg Prod.fst decoded')
    rw [wire_written wire s left decoded,wire_written wire' t right decoded',written_same same]

def bareAck : List UInt8 := image Lib.Crc.crc32 { Pkt.zero with type := ptypeAck }

theorem pktDecode_iff_bareAck : (pktDecode Lib.Crc.crc32 bareAck Pkt.zero).1 = .pktOk ↔ Wire Lib.Crc.crc32 bareAck := by
  have clean : ¬ Padded Lib.Crc.crc32 bareAck := by
    rintro ⟨long,_⟩
    exact absurd long (by decide +kernel)
  exact ((pktDecode_iff Lib.Crc.crc32 bareAck bareAck Pkt.zero Pkt.zero (by decide +kernel) (by decide +kernel)).mpr
    ⟨clean,clean⟩).1

/-- Four bytes that no checksum covers behind a complete ACK are accepted. -/
theorem pktDecode_padded : ¬ ∀ (crc32 : List UInt8 → UInt32) (data : List UInt8) (stale : Pkt), data.length ≤ 528 →
    ((pktDecode crc32 data stale).1 = .pktOk ↔ Wire crc32 data) := by
  intro claim
  have long : (bareAck ++ [1,2,3,4]).length = 16 := by decide +kernel
  have accepted : (pktDecode Lib.Crc.crc32 (bareAck ++ [1,2,3,4]) Pkt.zero).1 = .pktOk := by decide +kernel
  have wire := (claim Lib.Crc.crc32 (bareAck ++ [1,2,3,4]) Pkt.zero (by rw [long]; decide)).mp accepted
  have short := wire.bare (Or.inr (by decide +kernel))
  omega

end Trtp.WireFormat
