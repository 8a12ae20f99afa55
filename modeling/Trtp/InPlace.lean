import Trtp.WireFormat

/-! What the decoder leaves in the struct when it refuses a packet.
TR is cleared for CRC1 and put back only when that check passes, and CRC1 itself is
put into host order before the payload is looked at. -/
namespace Trtp.InPlace
open Lib.Bytes Packet Codec WireFormat

def received (p : Pkt) (rlen : Nat) : List UInt8 := slice p.bytes 0 rlen

/-- The checks that come before the first write. -/
structure Sane (p : Pkt) (rlen : Nat) : Prop where
  whole : 12 ≤ rlen
  type : validType p.type = true
  tr : validTr p.type p.tr = true
  length : validLength (ntohs p.length).toNat = true

/-- With the right CRC1 either its word reads the same in both byte orders or the datagram
is one that the decoder accepts, and with a wrong CRC1 the TR bit is clear. -/
def Restores (crc32 : List UInt8 → UInt32) (p : Pkt) (rlen : Nat) : Prop :=
  Sane p rlen →
    if ntohl p.crc1 = crc32 (pseudoHeader { p with tr := false }) then
      ntohl p.crc1 = p.crc1 ∨ Wire crc32 (received p rlen) ∨ Padded crc32 (received p rlen)
    else p.tr = false

variable {crc32 : List UInt8 → UInt32} {p : Pkt} {rlen : Nat}

theorem bytes_inj {q : Pkt} : p.bytes = q.bytes ↔ p = q := by
  constructor
  · intro same
    rw [← p.ofBytes_bytes,same,q.ofBytes_bytes]
  · rintro rfl
    rfl

theorem blit_slice {n : Nat} (b : Block n) (len : Nat) : blit b 0 (slice b 0 len) = b := by
  funext i
  unfold blit
  rw [if_neg (by omega),Nat.sub_zero]
  rcases Nat.lt_or_ge i.val len with inside | outside
  · rw [slice_getElem? b 0 len _ inside,Option.getD_some,Nat.zero_add,byteAt_of_lt b i.isLt]
  · rw [List.getElem?_eq_none (by simpa using outside),Option.getD_none]

theorem overwrite_received (p : Pkt) (rlen : Nat) : p.overwrite (received p rlen) = p := by
  rw [Pkt.overwrite,received,blit_slice,p.ofBytes_bytes]

theorem pktDecodeInline_received (p : Pkt) (fits : rlen ≤ 528) :
    pktDecode crc32 (received p rlen) p = pktDecodeInline crc32 p rlen := by
  have size : (received p rlen).length = rlen := slice_length _ _ _
  rw [pktDecode,size,if_neg (by omega),overwrite_received]

theorem accepted_iff (p : Pkt) (fits : rlen ≤ 528) : (pktDecodeInline crc32 p rlen).1 = .pktOk ↔
    Wire crc32 (received p rlen) ∨ Padded crc32 (received p rlen) := by
  rw [← pktDecodeInline_received p fits]
  exact pktDecode_ok_iff p (by rw [received,slice_length]; exact fits)

theorem pktDecodeInline_insane (insane : ¬ Sane p rlen) : (pktDecodeInline crc32 p rlen).2 = p := by
  rw [pktDecodeInline_eq]
  split
  next => rfl
  next whole =>
    split
    next => rfl
    next type =>
      split
      next => rfl
      next tr =>
        split
        next => rfl
        next length =>
          exact absurd ⟨by omega,by simpa using type,by simpa using tr,by simpa using length⟩ insane

theorem pktDecodeInline_sane (sane : Sane p rlen) : pktDecodeInline crc32 p rlen =
    if ntohl p.crc1 ≠ crc32 (pseudoHeader { p with tr := false }) then (.eCrc,{ p with tr := false }) else
    finished (ntohs p.length).toNat
      (pktCheckPayload crc32 { p with crc1 := ntohl p.crc1 } rlen (ntohs p.length).toNat (payloadLen rlen)) := by
  rw [pktDecodeInline_eq,if_neg (Nat.not_lt.mpr sane.whole),sane.type,sane.tr,sane.length]
  simp only [Bool.not_true,Bool.false_eq_true,if_false]

theorem pktDecodeInline_badCrc1 (sane : Sane p rlen)
    (wrong : ntohl p.crc1 ≠ crc32 (pseudoHeader { p with tr := false })) :
    pktDecodeInline crc32 p rlen = (.eCrc,{ p with tr := false }) := by
  rw [pktDecodeInline_sane sane,if_pos wrong]

/-- Behind CRC1 every refusal leaves its word in host order and nothing else changed. -/
theorem pktDecodeInline_goodCrc1 (sane : Sane p rlen)
    (right : ntohl p.crc1 = crc32 (pseudoHeader { p with tr := false }))
    (failed : (pktDecodeInline crc32 p rlen).1 ≠ .pktOk) :
    (pktDecodeInline crc32 p rlen).2 = { p with crc1 := ntohl p.crc1 } := by
  rw [pktDecodeInline_sane sane,if_neg (fun other => other right)] at failed ⊢
  have refused := mt (finished_ok _ _).mpr failed
  rw [finished,if_neg refused]
  exact pktCheckPayload_failed refused

/-- A refused packet is left as it was found exactly under the condition above. -/
theorem pktDecodeInline_restores (crc32 : List UInt8 → UInt32) (p : Pkt) (rlen : Nat) (fits : rlen ≤ 528) :
    ((pktDecodeInline crc32 p rlen).1 ≠ .pktOk → (pktDecodeInline crc32 p rlen).2.bytes = p.bytes) ↔
      Restores crc32 p rlen := by
  rw [bytes_inj]
  by_cases sane : Sane p rlen
  · by_cases right : ntohl p.crc1 = crc32 (pseudoHeader { p with tr := false })
    · rw [Restores,if_pos right,← accepted_iff p fits]
      constructor
      · intro kept _
        by_cases accepted : (pktDecodeInline crc32 p rlen).1 = .pktOk
        · exact Or.inr accepted
        · have same := (pktDecodeInline_goodCrc1 sane right accepted).symm.trans (kept accepted)
          exact Or.inl (congrArg Pkt.crc1 same)
      · intro condition failed
        have palindrome := (condition sane).resolve_right failed
        rw [pktDecodeInline_goodCrc1 sane right failed,palindrome]
    · rw [Restores,if_neg right,pktDecodeInline_badCrc1 sane right]
      constructor
      · intro kept _
        exact (congrArg Pkt.tr (kept (by simp))).symm
      · intro clear _
        have off := clear sane
        exact Pkt.ext_fields rfl off.symm rfl rfl rfl rfl rfl (fun _ _ => rfl)
  · exact iff_of_true (fun _ => pktDecodeInline_insane sane) (fun other => absurd other sane)

def damagedAck : Pkt := { Pkt.zero with type := ptypeAck }

theorem pktDecodeInline_restores_damagedAck :
    (pktDecodeInline Lib.Crc.crc32 damagedAck 12).2.bytes = damagedAck.bytes := by
  refine (pktDecodeInline_restores Lib.Crc.crc32 damagedAck 12 (by decide)).mpr ?_ (by decide +kernel)
  intro _
  rw [if_neg (by decide +kernel)]
  rfl

def damagedTruncated : Pkt := { Pkt.zero with type := ptypeData, tr := true }

/-- A truncated packet with a wrong CRC1 loses its TR bit. -/
theorem pktDecodeInline_clearsTr : ¬ ∀ (crc32 : List UInt8 → UInt32) (p : Pkt) (rlen : Nat), rlen ≤ 528 →
    (pktDecodeInline crc32 p rlen).1 ≠ .pktOk → (pktDecodeInline crc32 p rlen).2.bytes = p.bytes := by
  intro claim
  have same := claim Lib.Crc.crc32 damagedTruncated 12 (by decide) (by decide +kernel)
  have cleared : (pktDecodeInline Lib.Crc.crc32 damagedTruncated 12).2.tr = false := by decide +kernel
  rw [bytes_inj.mp same] at cleared
  exact absurd cleared (by decide)

end Trtp.InPlace
