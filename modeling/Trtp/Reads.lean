import Trtp.Lib.Access
import Trtp.WireFormat

/-! pkt_decode_inline as a program over the bytes of the packet buffer.
Each access of the C code is one access here, so that what the decoder reads can be
compared with what was received. -/
namespace Trtp.Reads
open Lib.Bytes Lib.Access Packet Codec WireFormat

/-- The buffer, byte by byte. -/
def memory (p : Pkt) : Nat → UInt8 := byteAt p.bytes

abbrev Bytes (α : Type) := Code Nat UInt8 α

def getType : Bytes (BitVec 2) := do
  let flags ← get 0
  return BitVec.ofNat 2 (flags.toNat / 64)

def getTr : Bytes Bool := do
  let flags ← get 0
  return flags.toNat / 32 % 2 == 1

/-- A store to a bit-field leaves the other bits of its byte as they are. -/
def putTr (tr : Bool) : Bytes Unit := do
  let flags ← get 0
  put 0 (if tr then flags ||| 0x20 else flags &&& 0xdf)

def getHalf (i : Nat) : Bytes UInt16 := do
  let b0 ← get i
  let b1 ← get (i + 1)
  return word16 b0 b1

def getWord (i : Nat) : Bytes UInt32 := do
  let b0 ← get i
  let b1 ← get (i + 1)
  let b2 ← get (i + 2)
  let b3 ← get (i + 3)
  return word32 b0 b1 b2 b3

def getBytes (i len : Nat) : Bytes (List UInt8) := getAll ((List.range len).map (i + ·))

def putBytes (i : Nat) : List UInt8 → Bytes Unit
  | [] => pure ()
  | b :: rest => do
    put i b
    putBytes (i + 1) rest

section Decode

variable (crc32 : List UInt8 → UInt32)

def checkCrc2 (rlen payloadLen : Nat) : Bytes Status :=
  if payloadLen ≠ 0 then do
    let crc2 ← getWord (rlen - pktFooterLen)
    let payload ← getBytes pktHeaderLen payloadLen
    if ntohl crc2 ≠ crcOf crc32 payload then return .eCrc else
    putBytes (pktHeaderLen + maxPayloadSize) (bytes32 (ntohl crc2))
    return .pktOk
  else return .pktOk

def checkPayload (rlen plen payloadLen : Nat) : Bytes Status := do
  if (← getType) = ptypeData then
    if ← getTr then
      if payloadLen ≠ 0 then return .eUnconsistent else checkCrc2 crc32 rlen payloadLen
    else if plen ≠ payloadLen then return .eUnconsistent
    else checkCrc2 crc32 rlen payloadLen
  else if payloadLen ≠ 0 ∨ plen ≠ 0 then return .eUnconsistent
  else return .pktOk

def decodeInline (rlen : Nat) : Bytes Status := do
  if rlen < pktMinLen then return .eNoheader else
  let plen := (ntohs (← getHalf 2)).toNat
  if !validType (← getType) then return .eType else
  if !validTr (← getType) (← getTr) then return .eTr else
  if !validLength plen then return .eLength else
  let tr ← getTr
  putTr false
  let crc1 ← getWord (pktHeaderLen - 4)
  let header ← getBytes 0 (pktHeaderLen - 4)
  if ntohl crc1 ≠ crcOf crc32 header then return .eCrc else
  putBytes (pktHeaderLen - 4) (bytes32 (ntohl crc1))
  putTr tr
  let payloadCrc2Len := sizeSub rlen pktHeaderLen
  let payloadLen := if payloadCrc2Len ≠ 0 then sizeSub payloadCrc2Len pktFooterLen else 0
  let checked ← checkPayload crc32 rlen plen payloadLen
  if checked ≠ .pktOk then return checked else
  putBytes 2 (bytes16 (UInt16.ofNat plen))
  return .pktOk

end Decode

variable {crc32 : List UInt8 → UInt32} {P : Nat → Prop}

theorem bytes_ofBytes (b : Block 528) : (Pkt.ofBytes b).bytes = b := by
  funext i
  rw [← byteAt_of_lt (Pkt.ofBytes b).bytes i.isLt,← byteAt_of_lt b i.isLt]
  rcases Nat.lt_or_ge i.val 12 with inside | outside
  · rw [Pkt.byteAt_bytes_header _ inside,ofBytes_header,List.getD_eq_getElem?_getD,slice_getElem? _ _ _ _ inside,
      Option.getD_some,Nat.zero_add]
  · obtain ⟨more,past⟩ := Nat.exists_eq_add_of_le outside
    rw [past,Pkt.byteAt_bytes_tail,byteAt_of_lt _ (by omega)]
    rfl

theorem memory_zero (p : Pkt) : memory p 0 = p.flags := p.byteAt_bytes_header (by omega)

theorem getType_within (p : Pkt) (zero : P 0) : Within P getType (memory p) p.type (memory p) := by
  have found : BitVec.ofNat 2 ((memory p 0).toNat / 64) = p.type := congrArg Pkt.type p.ofBytes_bytes
  rw [← found]
  exact (Within.get zero).bind (Within.pure _)

theorem getTr_within (p : Pkt) (zero : P 0) : Within P getTr (memory p) p.tr (memory p) := by
  have found : ((memory p 0).toNat / 32 % 2 == 1) = p.tr := congrArg Pkt.tr p.ofBytes_bytes
  rw [← found]
  exact (Within.get zero).bind (Within.pure _)

theorem memory_tr (p : Pkt) (tr : Bool) : memory { p with tr := tr } =
    Function.update (memory p) 0 (if tr then p.flags ||| 0x20 else p.flags &&& 0xdf) := by
  funext i
  rcases Nat.eq_zero_or_pos i with zero | positive
  · rw [zero,Function.update_self,memory_zero]
    cases tr
    · exact (flags_clearTr p).symm
    · exact (flags_setTr p).symm
  · rw [Function.update_of_ne (by omega)]
    rcases Nat.lt_or_ge i 12 with inside | outside
    · rw [memory,memory,Pkt.byteAt_bytes_header _ inside,Pkt.byteAt_bytes_header _ inside]
      obtain ⟨j,rfl⟩ := Nat.exists_eq_add_of_lt positive
      rw [Nat.zero_add]
      rfl
    · obtain ⟨more,rfl⟩ := Nat.exists_eq_add_of_le outside
      rw [memory,memory,Pkt.byteAt_bytes_tail,Pkt.byteAt_bytes_tail]

theorem putTr_within (p : Pkt) (tr : Bool) (zero : P 0) :
    Within P (putTr tr) (memory p) () (memory { p with tr := tr }) := by
  have stored : Within P (putTr tr) (memory p) () _ := (Within.get zero).bind (Within.put 0 _)
  rw [memory_tr p tr,← memory_zero]
  exact stored

theorem getHalf_within (p : Pkt) (low : P 2) (high : P 3) : Within P (getHalf 2) (memory p) p.length (memory p) := by
  have found : word16 (memory p 2) (memory p 3) = p.length := congrArg Pkt.length p.ofBytes_bytes
  rw [← found]
  exact (Within.get low).bind ((Within.get high).bind (Within.pure _))

theorem getWord_within (p : Pkt) (off : Nat) (allowed : ∀ i < 4, P (off + i)) :
    Within P (getWord off) (memory p) (wordAt p.bytes off) (memory p) :=
  (Within.get (allowed 0 (by omega))).bind ((Within.get (allowed 1 (by omega))).bind
    ((Within.get (allowed 2 (by omega))).bind ((Within.get (allowed 3 (by omega))).bind (Within.pure _))))

theorem getBytes_within (p : Pkt) (off len : Nat) (allowed : ∀ i < len, P (off + i)) :
    Within P (getBytes off len) (memory p) (slice p.bytes off len) (memory p) := by
  have all : ∀ i ∈ (List.range len).map (off + ·), P i := by
    intro i member
    obtain ⟨j,inside,rfl⟩ := List.mem_map.mp member
    exact allowed j (List.mem_range.mp inside)
  have read : Within P (getAll ((List.range len).map (off + ·))) (memory p)
      (((List.range len).map (off + ·)).map (memory p)) (memory p) := Within.getAll all
  rw [List.map_map] at read
  exact read

theorem putBytes_stores (off : Nat) (bytes : List UInt8) (mem : Nat → UInt8) : Within P (putBytes off bytes) mem ()
    (fun i => if i < off then mem i else (bytes[i - off]?).getD (mem i)) := by
  induction bytes generalizing off mem with
  | nil =>
    have same : (fun i => if i < off then mem i else (([] : List UInt8)[i - off]?).getD (mem i)) = mem := by
      funext i
      simp
    rw [same]
    exact Within.pure ()
  | cons b rest ih =>
    have later : (fun i => if i < off then mem i else ((b :: rest)[i - off]?).getD (mem i)) =
        fun i => if i < off + 1 then Function.update mem off b i
          else (rest[i - (off + 1)]?).getD (Function.update mem off b i) := by
      funext i
      rcases Nat.lt_trichotomy i off with before | here | after
      · rw [if_pos before,if_pos (by omega),Function.update_of_ne (by omega)]
      · rw [if_neg (by omega),if_pos (by omega),here,Function.update_self,Nat.sub_self]
        rfl
      · obtain ⟨more,rfl⟩ := Nat.exists_eq_add_of_lt after
        rw [if_neg (by omega),if_neg (by omega),Function.update_of_ne (by omega),
          show off + more + 1 - off = more + 1 by omega,
          show off + more + 1 - (off + 1) = more by omega]
        rfl
    rw [later]
    exact (Within.put off b).bind (ih (off + 1) _)

theorem putBytes_within (p : Pkt) (off : Nat) (bytes : List UInt8) (inside : off + bytes.length ≤ 528) :
    Within P (putBytes off bytes) (memory p) () (memory (.ofBytes (blit p.bytes off bytes))) := by
  convert putBytes_stores off bytes (memory p) using 1
  funext i
  rw [memory,bytes_ofBytes]
  rcases Nat.lt_or_ge i 528 with low | high
  · rw [byteAt_blit _ _ _ low]
    rfl
  · rw [byteAt_blit_after _ _ _ (by omega),if_neg (by omega),List.getElem?_eq_none (by omega)]
    rfl

theorem ofBytes_crc1 (p : Pkt) (x : UInt32) : Pkt.ofBytes (blit p.bytes 8 (bytes32 x)) = { p with crc1 := x } :=
  putWord_crc1 p x

theorem ofBytes_length (p : Pkt) (x : UInt16) : Pkt.ofBytes (blit p.bytes 2 (bytes16 x)) = { p with length := x } := by
  rw [Pkt.ofBytes_header _ { p with length := x }]
  · refine Pkt.ext_fields rfl rfl rfl rfl rfl rfl rfl ?_
    intro i inside
    rw [byteAt_of_lt _ inside]
    change byteAt (blit p.bytes 2 (bytes16 x)) (12 + i) = byteAt p.tail i
    rw [byteAt_blit_after _ _ _ (by simp [bytes16]; omega),p.byteAt_bytes_tail]
  · intro i inside
    have at_header := p.byteAt_bytes_header inside
    rw [byteAt_blit _ _ _ (by omega),at_header]
    interval_cases i <;> rfl

theorem checkCrc2_within (p : Pkt) (rlen len : Nat)
    (allowed : len ≠ 0 → (∀ i < 4, P (rlen - 4 + i)) ∧ ∀ i < len, P (12 + i)) :
    Within P (checkCrc2 crc32 rlen len) (memory p) (pktCheckCrc2 crc32 p rlen len).1
      (memory (pktCheckCrc2 crc32 p rlen len).2) := by
  unfold checkCrc2 pktCheckCrc2
  by_cases empty : len = 0
  · rw [if_neg (fun present => present empty),if_neg (fun present => present empty)]
    exact Within.pure _
  · obtain ⟨word,span⟩ := allowed empty
    rw [if_pos empty,if_pos empty]
    refine (getWord_within p (rlen - pktFooterLen) word).bind ((getBytes_within p pktHeaderLen len span).bind ?_)
    have same : slice p.bytes pktHeaderLen len = p.payload len :=
      slice_congr _ _ _ _ _ (fun i _ => by rw [pktHeaderLen,p.byteAt_bytes_tail,Nat.zero_add])
    rw [same]
    by_cases right : ntohl (wordAt p.bytes (rlen - pktFooterLen)) = crcOf crc32 (p.payload len)
    · rw [if_neg (fun wrong => wrong right),if_neg (fun wrong => wrong right)]
      exact (putBytes_within p 524 _ (by simp [bytes32])).bind (Within.pure _)
    · rw [if_pos right,if_pos right]
      exact Within.pure _

theorem checkPayload_within (p : Pkt) (rlen plen len : Nat) (zero : P 0)
    (allowed : plen = len → len ≠ 0 → (∀ i < 4, P (rlen - 4 + i)) ∧ ∀ i < len, P (12 + i)) :
    Within P (checkPayload crc32 rlen plen len) (memory p) (pktCheckPayload crc32 p rlen plen len).1
      (memory (pktCheckPayload crc32 p rlen plen len).2) := by
  unfold checkPayload pktCheckPayload
  refine (getType_within p zero).bind ?_
  by_cases data : p.type = ptypeData
  · rw [if_pos data,if_pos data]
    refine (getTr_within p zero).bind ?_
    by_cases tr : p.tr = true
    · rw [if_pos tr,if_pos tr]
      by_cases empty : len = 0
      · rw [if_neg (fun present => present empty),if_neg (fun present => present empty)]
        exact checkCrc2_within p rlen len (fun present => absurd empty present)
      · rw [if_pos empty,if_pos empty]
        exact Within.pure _
    · rw [if_neg tr,if_neg tr]
      by_cases same : plen = len
      · rw [if_neg (fun other => other same),if_neg (fun other => other same)]
        exact checkCrc2_within p rlen len (allowed same)
      · rw [if_pos same,if_pos same]
        exact Within.pure _
  · rw [if_neg data,if_neg data]
    split
    next => exact Within.pure _
    next => exact Within.pure _

theorem finish_within (plen : Nat) (checked : Status × Pkt) : Within P
    (if checked.1 ≠ .pktOk then pure checked.1 else do
      putBytes 2 (bytes16 (UInt16.ofNat plen))
      return .pktOk) (memory checked.2) (finished plen checked).1 (memory (finished plen checked).2) := by
  unfold finished
  by_cases passed : checked.1 = .pktOk
  · rw [if_neg (fun failed => failed passed),if_pos passed,← ofBytes_length]
    exact (putBytes_within checked.2 2 _ (by simp [bytes16])).bind (Within.pure _)
  · rw [if_pos passed,if_neg passed]
    exact Within.pure _

theorem decodeInline_within (crc32 : List UInt8 → UInt32) (p : Pkt) (rlen : Nat) (header : 12 ≤ rlen → ∀ i < 12, P i)
    (allowed : 12 ≤ rlen → payloadLen rlen ≤ 512 → payloadLen rlen ≠ 0 →
      (∀ i < 4, P (rlen - 4 + i)) ∧ ∀ i < payloadLen rlen, P (12 + i)) :
    Within P (decodeInline crc32 rlen) (memory p) (pktDecodeInline crc32 p rlen).1
      (memory (pktDecodeInline crc32 p rlen).2) := by
  unfold decodeInline
  rw [pktDecodeInline_eq]
  by_cases short : rlen < pktMinLen
  · rw [if_pos short,if_pos (show rlen < 12 from short)]
    exact Within.pure _
  have whole : 12 ≤ rlen := Nat.not_lt.mp short
  have low := header whole
  have zero := low 0 (by omega)
  rw [if_neg short,if_neg (show ¬ rlen < 12 from short)]
  refine (getHalf_within p (low 2 (by omega)) (low 3 (by omega))).bind ?_
  refine (getType_within p zero).bind ?_
  by_cases type : (!validType p.type) = true
  · rw [if_pos type,if_pos type]
    exact Within.pure _
  rw [if_neg type,if_neg type]
  refine (getType_within p zero).bind ((getTr_within p zero).bind ?_)
  by_cases flag : (!validTr p.type p.tr) = true
  · rw [if_pos flag,if_pos flag]
    exact Within.pure _
  rw [if_neg flag,if_neg flag]
  by_cases length : (!validLength (ntohs p.length).toNat) = true
  · rw [if_pos length,if_pos length]
    exact Within.pure _
  rw [if_neg length,if_neg length]
  refine (getTr_within p zero).bind ((putTr_within p false zero).bind ?_)
  refine (getWord_within { p with tr := false } (pktHeaderLen - 4) (fun i small => low (8 + i) (by omega))).bind ?_
  refine (getBytes_within { p with tr := false } 0 (pktHeaderLen - 4) (fun i small => low (0 + i) (by
    have below : i < 8 := small
    omega))).bind ?_
  have found : wordAt ({ p with tr := false } : Pkt).bytes (pktHeaderLen - 4) = p.crc1 := wordAt_crc1 _
  have computed : crcOf crc32 (slice ({ p with tr := false } : Pkt).bytes 0 (pktHeaderLen - 4)) =
      crc32 (pseudoHeader { p with tr := false }) := rfl
  rw [found,computed]
  by_cases crc1 : ntohl p.crc1 = crc32 (pseudoHeader { p with tr := false })
  · rw [if_neg (fun wrong => wrong crc1),if_neg (fun wrong => wrong crc1)]
    refine (putBytes_within { p with tr := false } (pktHeaderLen - 4) _ (by simp [bytes32,pktHeaderLen])).bind ?_
    have filed : Pkt.ofBytes (blit ({ p with tr := false } : Pkt).bytes (pktHeaderLen - 4) (bytes32 (ntohl p.crc1))) =
        { p with tr := false, crc1 := ntohl p.crc1 } := ofBytes_crc1 _ _
    rw [filed]
    refine (putTr_within { p with tr := false, crc1 := ntohl p.crc1 } p.tr zero).bind ?_
    refine (checkPayload_within { p with crc1 := ntohl p.crc1 } rlen (ntohs p.length).toNat (payloadLen rlen) zero
      ?_).bind ?_
    · intro same present
      refine allowed whole ?_ present
      rw [← same]
      have bound : (ntohs p.length).toNat ≤ maxPayloadSize := by simpa [validLength] using length
      exact bound
    · exact finish_within _ _
  · rw [if_pos crc1,if_pos crc1]
    exact Within.pure _

/-- A byte that was received; past the header only where CRC2 covers a payload. -/
def Received (rlen i : Nat) : Prop :=
  i < rlen ∧ (12 ≤ i → payloadLen rlen = rlen - 16 ∧ 1 ≤ payloadLen rlen ∧ payloadLen rlen ≤ 512)

theorem decodeInline_received (crc32 : List UInt8 → UInt32) (p : Pkt) {rlen : Nat} (fits : rlen ≤ 528) :
    Within (Received rlen) (decodeInline crc32 rlen) (memory p) (pktDecodeInline crc32 p rlen).1
      (memory (pktDecodeInline crc32 p rlen).2) := by
  refine decodeInline_within crc32 p rlen (fun whole i small => ⟨by omega,by omega⟩) ?_
  intro whole bound present
  have total := (payloadLen_eq whole fits present bound).mp rfl
  have span : payloadLen rlen = rlen - 16 ∧ 1 ≤ payloadLen rlen ∧ payloadLen rlen ≤ 512 := by omega
  exact ⟨fun i small => ⟨by omega,fun _ => span⟩,fun i small => ⟨by omega,fun _ => span⟩⟩

/-- Whoever computes CRC2 reads the first byte of the payload. -/
theorem checkCrc2_reads (crc32 : List UInt8 → UInt32) (rlen len : Nat) (mem : Nat → UInt8) (present : len ≠ 0) :
    12 ∈ reads (checkCrc2 crc32 rlen len) mem := by
  have first : 12 ∈ reads (getBytes pktHeaderLen len) (run (getWord (rlen - pktFooterLen)) mem).2 := by
    rw [getBytes,reads_getAll]
    exact List.mem_map.mpr ⟨0,List.mem_range.mpr (Nat.pos_of_ne_zero present),rfl⟩
  rw [checkCrc2,if_pos present,reads_bind,reads_bind]
  exact List.mem_append_right _ (List.mem_append_left _ first)

/-- The header is the first twelve bytes. -/
theorem fields_agree {p q : Pkt} (same : ∀ i < 12, memory q i = memory p i) : q = { p with tail := q.tail } := by
  have read := Pkt.ofBytes_header q.bytes p (fun i inside => by
    rw [← p.byteAt_bytes_header inside]
    exact same i inside)
  rw [q.ofBytes_bytes] at read
  have tail := congrArg Pkt.tail read
  rw [tail]
  exact read

theorem accepted_inside {p r : Pkt} {rlen : Nat} (fits : rlen ≤ 528) (whole : 12 ≤ rlen)
    (accepted : pktDecodeInline crc32 p rlen = (.pktOk,r)) (clear : r.tr = false) {i : Nat}
    (inside : i < r.length.toNat) :
    Received rlen (12 + i) := by
  obtain ⟨_,tr,_,_,_,length,_⟩ := pktDecodeInline_fields accepted
  obtain ⟨_,_,bounded,_,checked⟩ := (pktDecodeInline_ok_iff p whole).mp (congrArg Prod.fst accepted)
  have bound : (ntohs p.length).toNat ≤ 512 := of_decide_eq_true bounded
  rw [length] at inside
  rcases (pktCheckPayload_ok_iff _ _ _ _).mp checked with ⟨_,set,_⟩ | ⟨_,_,zero⟩ | ⟨_,_,same,_⟩
  · exact absurd (set.symm.trans (tr.symm.trans clear)) (by decide)
  · omega
  · have total := (payloadLen_eq whole fits (by omega) bound).mp same.symm
    exact ⟨by omega,fun _ => by omega⟩

theorem accepted_whole {p : Pkt} {rlen : Nat} (accepted : (pktDecodeInline crc32 p rlen).1 = .pktOk) : 12 ≤ rlen := by
  by_contra short
  rw [pktDecodeInline_eq,if_pos (by omega)] at accepted
  exact absurd accepted (by simp)

/-- Two buffers with the same received bytes give the same status and, when it is PKT_OK,
the same packet. -/
theorem decodeInline_agrees {p q : Pkt} {rlen : Nat} (fits : rlen ≤ 528) (same : ∀ i < rlen, memory q i = memory p i) :
    (pktDecodeInline crc32 q rlen).1 = (pktDecodeInline crc32 p rlen).1 ∧
      ((pktDecodeInline crc32 p rlen).1 = .pktOk →
        SamePacket (pktDecodeInline crc32 p rlen).2 (pktDecodeInline crc32 q rlen).2 ∧
        (pktDecodeInline crc32 q rlen).2.crc1 = (pktDecodeInline crc32 p rlen).2.crc1) := by
  obtain ⟨status,after⟩ := (decodeInline_received crc32 p fits).agree (fun i received => same i received.1)
  rw [(decodeInline_received crc32 q fits).run] at status after
  refine ⟨status,fun accepted => ?_⟩
  have whole := accepted_whole accepted
  have inside : ∀ i < (pktDecodeInline crc32 p rlen).2.length.toNat, (pktDecodeInline crc32 p rlen).2.tr = false →
      Received rlen (12 + i) := fun i inside clear =>
    accepted_inside fits whole (Prod.ext accepted rfl) clear inside
  generalize (pktDecodeInline crc32 p rlen).2 = decoded at after inside
  generalize (pktDecodeInline crc32 q rlen).2 = decoded' at after
  have header := fields_agree (p := decoded) (q := decoded') (fun i small => after i ⟨by omega,fun _ => by omega⟩)
  have length : decoded'.length = decoded.length := by rw [header]
  refine ⟨?_,by rw [header]⟩
  refine ⟨by rw [header],by rw [header],by rw [header],by rw [header],length.symm,by rw [header],?_⟩
  intro clear
  rw [length]
  refine slice_congr _ _ _ _ _ (fun i small => ?_)
  rw [Nat.zero_add,← Pkt.byteAt_bytes_tail,← Pkt.byteAt_bytes_tail]
  exact (after (12 + i) (inside i small clear)).symm

/-- The decoder reads received bytes only, behind the header only the payload that CRC2 covers,
and so nothing it reports depends on the rest of the buffer. -/
theorem pktDecodeInline_inside (crc32 : List UInt8 → UInt32) (p : Pkt) (rlen : Nat) (fits : rlen ≤ 528) :
    run (decodeInline crc32 rlen) (memory p) =
        ((pktDecodeInline crc32 p rlen).1,memory (pktDecodeInline crc32 p rlen).2) ∧
      (∀ i ∈ reads (decodeInline crc32 rlen) (memory p), i < rlen) ∧
      (∀ len mem, len ≠ 0 → 12 ∈ reads (checkCrc2 crc32 rlen len) mem) ∧
      ((∃ i ∈ reads (decodeInline crc32 rlen) (memory p), 12 ≤ i) →
        payloadLen rlen = rlen - 16 ∧ 1 ≤ payloadLen rlen ∧ payloadLen rlen ≤ 512) ∧
      ∀ q, (∀ i < rlen, memory q i = memory p i) →
        (pktDecodeInline crc32 q rlen).1 = (pktDecodeInline crc32 p rlen).1 ∧
        ((pktDecodeInline crc32 p rlen).1 = .pktOk →
          SamePacket (pktDecodeInline crc32 p rlen).2 (pktDecodeInline crc32 q rlen).2 ∧
          (pktDecodeInline crc32 q rlen).2.crc1 = (pktDecodeInline crc32 p rlen).2.crc1) := by
  have within := decodeInline_received crc32 p fits
  refine ⟨within.run,fun i member => (within.reads i member).1,checkCrc2_reads crc32 rlen,?_,
    fun q same => decodeInline_agrees fits same⟩
  rintro ⟨i,member,past⟩
  exact (within.reads i member).2 past

/-- A packet with three bytes of payload in a buffer that holds `stale` behind it. -/
def threeBytes (stale : UInt8) : Pkt :=
  { Pkt.zero with tail := fun _ => stale }.overwrite (Codec.image Lib.Crc.crc32
    { Pkt.zero with type := ptypeData, length := 3, tail := fun i => UInt8.ofNat (i + 7) })

theorem pktDecodeInline_inside_stale : (pktDecodeInline Lib.Crc.crc32 (threeBytes 85) 19).1 = .pktOk ∧
    (∀ i ∈ reads (decodeInline Lib.Crc.crc32 19) (memory (threeBytes 85)), i < 19) ∧
    (pktDecodeInline Lib.Crc.crc32 (threeBytes 170) 19).1 = .pktOk ∧
    SamePacket (pktDecodeInline Lib.Crc.crc32 (threeBytes 85) 19).2
      (pktDecodeInline Lib.Crc.crc32 (threeBytes 170) 19).2 := by
  have accepted : (pktDecodeInline Lib.Crc.crc32 (threeBytes 85) 19).1 = .pktOk := by decide +kernel
  have received : ∀ i < 19, memory (threeBytes 170) i = memory (threeBytes 85) i := by decide +kernel
  obtain ⟨_,inside,_,_,others⟩ := pktDecodeInline_inside Lib.Crc.crc32 (threeBytes 85) 19 (by decide)
  obtain ⟨status,packet⟩ := others (threeBytes 170) received
  exact ⟨accepted,inside,status.trans accepted,(packet accepted).1⟩

end Trtp.Reads
