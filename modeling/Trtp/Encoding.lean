import Trtp.Codec

/-! The two ways to put a packet on the wire: encoded in place and sent from the
struct, or encoded into a buffer of the caller. -/
namespace Trtp.Encoding
open Lib.Bytes Packet Codec

/-- pkt_encode in the memory of the process, with the packet at `src` and the buffer
at `dst`, of which `room` bytes may be used. -/
def pktEncodeAt (crc32 : List UInt8 → UInt32) (mem : Memory) (src dst room : Nat) : Status × Memory × Nat :=
  match pktEncode crc32 (Memory.pkt (fun i => mem (src + i))) (some (fun i => mem (dst + i))) (some room) with
  | (status,some buf,some len) => (status,fun i => if dst ≤ i then buf (i - dst) else mem i,len)
  | (status,_,_) => (status,mem,room)

variable {crc32 : List UInt8 → UInt32}

theorem store_before (mem : Memory) {data : List UInt8} {i : Nat} (past : data.length ≤ i) :
    mem.store data i = mem i := by
  rw [Memory.store,List.getElem?_eq_none past]
  rfl

theorem setPkt_byte (mem : Memory) (p : Pkt) {i : Nat} (inside : i < 528) : mem.setPkt p i = byteAt p.bytes i := by
  rw [Memory.setPkt,Memory.store,slice_getElem? _ _ _ _ inside,Nat.zero_add]
  rfl

theorem pkt_tail (mem : Memory) {j : Nat} (inside : j < 516) : byteAt mem.pkt.tail j = mem (12 + j) := by
  rw [byteAt_of_lt _ inside]
  exact byteAt_of_lt (fun i : Fin 528 => mem i.val) (by omega : 12 + j < 528)

theorem pktEncodeInline_tail (p : Pkt) {j : Nat} (past : pktLen p ≤ 12 + j) :
    byteAt (pktEncodeInline crc32 p).2.tail j = byteAt p.tail j := by
  rw [pktEncodeInline_eq]
  dsimp only
  rw [pktLen] at past
  split
  next present =>
    rw [if_pos present] at past
    simp only [pktHeaderLen,pktFooterLen] at past
    exact byteAt_blit_after _ _ _ (by simp only [bytes32,List.length_cons,List.length_nil]; omega)
  next => rfl

theorem pktEncode_frame (p : Pkt) (mem : Memory) {room : Nat} (bound : p.length.toNat ≤ maxPayloadSize)
    (enough : pktLen p ≤ room) {buf : Memory} {len : Nat} {status : Status}
    (encoded : pktEncode crc32 p (some mem) (some room) = (status,some buf,some len)) {i : Nat} (past : pktLen p ≤ i) :
    buf i = mem i := by
  have agrees := copied_agrees p mem bound
  let copied := mem.store (slice p.bytes 0 (pktLen p - pktFooterLen))
  have same : pktLen copied.pkt = pktLen p := by
    rw [pktLen,pktLen,← agrees.length]
  have kept (i : Nat) (past : pktLen p ≤ i) : copied i = mem i :=
    store_before mem (by rw [slice_length]; omega)
  have header : 12 ≤ pktLen p := by
    rw [pktLen]
    split <;> simp only [pktHeaderLen,pktFooterLen] <;> omega
  have stored : buf = copied.setPkt (pktEncodeInline crc32 copied.pkt).2 := by
    simp only [pktEncode,Nat.not_lt.mpr enough,if_false,Prod.mk.injEq,Option.some.injEq] at encoded
    exact encoded.2.1.symm
  rw [stored]
  rcases Nat.lt_or_ge i 528 with inside | beyond
  · obtain ⟨j,rfl⟩ := Nat.exists_eq_add_of_le (Nat.le_trans header past)
    rw [setPkt_byte _ _ inside,Pkt.byteAt_bytes_tail,pktEncodeInline_tail _ (by rw [same]; exact past),
      pkt_tail _ (by omega),kept _ past]
  · have short : (slice (pktEncodeInline crc32 copied.pkt).2.bytes 0 528).length ≤ i := by
      rw [slice_length]
      exact beyond
    rw [Memory.setPkt,store_before _ short,kept _ past]

/-- Both paths produce the same datagram, of the length that pkt_len and pkt_len_serial
give. pkt_encode writes to the buffer only, no further than that length, and nothing
at all when the buffer is too short. -/
theorem pktEncode_agrees (crc32 : List UInt8 → UInt32) (mem : Memory) (src dst room : Nat) (p : Pkt)
    (held : Memory.pkt (fun i => mem (src + i)) = p) (bound : p.length.toNat ≤ maxPayloadSize) :
    (pktEncodeInline crc32 p).1 = .pktOk ∧ pktLenSerial (pktEncodeInline crc32 p).2 = pktLen p ∧
    (pktLen p ≤ room → ∃ after, pktEncodeAt crc32 mem src dst room = (.pktOk,after,pktLen p) ∧
      (List.range (pktLen p)).map (fun i => after (dst + i)) = (pktEncodeInline crc32 p).2.datagram ∧
      (∀ i, i < dst ∨ dst + pktLen p ≤ i → after i = mem i) ∧
      (src + 528 ≤ dst ∨ dst + pktLen p ≤ src → Memory.pkt (fun i => after (src + i)) = p)) ∧
    (room < pktLen p → ∃ after, pktEncodeAt crc32 mem src dst room = (.eNomem,after,room) ∧ ∀ i, after i = mem i) := by
  have serial : pktLenSerial (pktEncodeInline crc32 p).2 = pktLen p := by
    rw [pktEncodeInline_eq,pktLenSerial_wireHeader]
  refine ⟨by rw [pktEncodeInline_eq],serial,?_,?_⟩
  · intro enough
    obtain ⟨buf,encoded,content⟩ := pktEncode_image crc32 p (fun i => mem (dst + i)) room bound enough
    let after : Memory := fun i => if dst ≤ i then buf (i - dst) else mem i
    have outside (i : Nat) (out : i < dst ∨ dst + pktLen p ≤ i) : after i = mem i := by
      change (if dst ≤ i then buf (i - dst) else mem i) = mem i
      split
      next inside =>
        rw [pktEncode_frame p _ bound enough encoded (by omega : pktLen p ≤ i - dst)]
        congr 1
        omega
      next => rfl
    refine ⟨after,?_,?_,outside,?_⟩
    · rw [pktEncodeAt,held,encoded]
    · rw [datagram_encoded crc32 p bound,← content]
      apply List.map_congr_left
      intro i _
      change (if dst ≤ dst + i then buf (dst + i - dst) else mem (dst + i)) = buf i
      rw [if_pos (by omega),Nat.add_sub_cancel_left]
    · intro apart
      rw [← held]
      have same : (fun i : Fin 528 => after (src + i.val)) = fun i : Fin 528 => mem (src + i.val) := by
        funext i
        have small := i.isLt
        apply outside
        omega
      exact congrArg Pkt.ofBytes same
  · intro short
    refine ⟨fun i => if dst ≤ i then mem (dst + (i - dst)) else mem i,?_,?_⟩
    · rw [pktEncodeAt,held]
      simp only [pktEncode,if_pos short]
    · intro i
      dsimp only
      split
      next inside => rw [Nat.add_sub_cancel' inside]
      next => rfl

theorem pktEncode_agrees_threeBytes : ∃ after,
    pktEncodeAt Lib.Crc.crc32 (Memory.setPkt (fun _ => 7) threeBytes) 0 528 19 = (.pktOk,after,19) ∧
    (List.range 19).map (fun i => after (528 + i)) = (pktEncodeInline Lib.Crc.crc32 threeBytes).2.datagram := by
  have held : Memory.pkt (fun i => Memory.setPkt (fun _ => 7) threeBytes (0 + i)) = threeBytes := by
    refine Eq.trans (congrArg Pkt.ofBytes (funext fun i => ?_)) threeBytes.ofBytes_bytes
    dsimp only
    rw [Nat.zero_add,setPkt_byte _ _ i.isLt,byteAt_of_lt _ i.isLt]
  obtain ⟨_,_,some,_⟩ := pktEncode_agrees Lib.Crc.crc32 (Memory.setPkt (fun _ => 7) threeBytes) 0 528 19 threeBytes held
    (by decide)
  obtain ⟨after,encoded,same,_⟩ := some (by decide)
  exact ⟨after,encoded,same⟩

end Trtp.Encoding
