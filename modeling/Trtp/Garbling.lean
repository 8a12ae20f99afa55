import Trtp.Lib.Burst
import Trtp.Conformance
import Trtp.Transfer
import Trtp.WireFormat

/-! Datagrams in which the network has flipped bits.
CRC1 is computed as if TR were clear, so that a flip of that bit alone is the one
error it does not see; the rest of the decoder sees it in every packet but a DATA
packet without payload. -/
namespace Trtp.Garbling
open Lib.Bytes Lib.Burst Lib.Crc Lib.Run Lib.Serial Packet Codec WireFormat Process Net SendBuffer DataStream
open Network Transfer
open Transmit (Chunk)
open Conformance (image_fields wire_image)

def flipTr : List UInt8 → List UInt8
  | [] => []
  | b :: rest => (b ^^^ 0x20) :: rest

/-- All errors are on one side of bit `n`. -/
def OneSide (n : Nat) (data other : List UInt8) : Prop :=
  (∀ i, bitAt other i ≠ bitAt data i → i < n) ∨ ∀ i, bitAt other i ≠ bitAt data i → n ≤ i

/-- One burst of at most 32 bits that does not hit both a checksum and what that checksum covers. -/
structure Hit (data other : List UInt8) : Prop where
  garbled : Garbled 32 data other
  header : OneSide 64 data other
  payload : OneSide (96 + 8 * lengthField data) data other

variable {data other : List UInt8}

theorem flag_byte (b : UInt8) : (b ^^^ 0x20).toNat / 64 = b.toNat / 64 ∧
    (b ^^^ 0x20).toNat / 32 % 2 = 1 - b.toNat / 32 % 2 ∧ (b ^^^ 0x20) &&& 0xdf = b &&& 0xdf ∧
    (b ||| 0x20) ^^^ 0x20 = b &&& 0xdf ∧ (b.toNat / 32 % 2 = 0 → b &&& 0xdf = b ∧ b ^^^ 0x20 = b ||| 0x20) := by
  have every : ∀ x : Fin 256, let b := UInt8.ofNat x.val
      (b ^^^ 0x20).toNat / 64 = b.toNat / 64 ∧ (b ^^^ 0x20).toNat / 32 % 2 = 1 - b.toNat / 32 % 2 ∧
      (b ^^^ 0x20) &&& 0xdf = b &&& 0xdf ∧ (b ||| 0x20) ^^^ 0x20 = b &&& 0xdf ∧
      (b.toNat / 32 % 2 = 0 → b &&& 0xdf = b ∧ b ^^^ 0x20 = b ||| 0x20) := by decide +kernel
  have found := every ⟨b.toNat,b.toNat_lt⟩
  rwa [UInt8.ofNat_toNat] at found

theorem bitAt_cons_high (b : UInt8) (rest : List UInt8) {i : Nat} (beyond : 8 ≤ i) :
    bitAt (b :: rest) i = bitAt rest (i - 8) := by
  have place : i / 8 = (i - 8) / 8 + 1 ∧ i % 8 = (i - 8) % 8 := by omega
  rw [bitAt,bitAt,place.1,place.2]
  rfl

theorem bitAt_cons_low (b : UInt8) (rest : List UInt8) {i : Nat} (inside : i < 8) :
    bitAt (b :: rest) i = b.toNat.testBit i := by
  rw [bitAt,Nat.div_eq_of_lt inside,Nat.mod_eq_of_lt inside]
  rfl

theorem bitAt_clearTr (data : List UInt8) (i : Nat) :
    bitAt (clearTr data) i = (decide (i ≠ 5) && bitAt data i) := by
  cases data with
  | nil => simp [clearTr,bitAt]
  | cons b rest =>
    rcases Nat.lt_or_ge i 8 with low | high
    · rw [clearTr,bitAt_cons_low _ _ low,bitAt_cons_low _ _ low,UInt8.toNat_and,Nat.testBit_and,Bool.and_comm]
      congr 1
      interval_cases i <;> rfl
    · rw [clearTr,bitAt_cons_high _ _ high,bitAt_cons_high _ _ high,decide_eq_true (by omega : i ≠ 5),Bool.true_and]

theorem bitAt_flipTr (some : data ≠ []) (i : Nat) : bitAt (flipTr data) i = (bitAt data i ^^ decide (i = 5)) := by
  cases data with
  | nil => contradiction
  | cons b rest =>
    rcases Nat.lt_or_ge i 8 with low | high
    · rw [flipTr,bitAt_cons_low _ _ low,bitAt_cons_low _ _ low,UInt8.toNat_xor,Nat.testBit_xor]
      congr 1
      interval_cases i <;> rfl
    · rw [flipTr,bitAt_cons_high _ _ high,bitAt_cons_high _ _ high,decide_eq_false (by omega : i ≠ 5),Bool.xor_false]

theorem clearTr_length (data : List UInt8) : (clearTr data).length = data.length := by
  cases data <;> rfl

theorem flipTr_length (data : List UInt8) : (flipTr data).length = data.length := by
  cases data <;> rfl

theorem flipTr_take (data : List UInt8) {n : Nat} (some : 0 < n) : (flipTr data).take n = flipTr (data.take n) := by
  obtain ⟨n,rfl⟩ := Nat.exists_eq_succ_of_ne_zero (Nat.ne_of_gt some)
  cases data <;> rfl

theorem clearTr_flipTr (data : List UInt8) : clearTr (flipTr data) = clearTr data := by
  cases data with
  | nil => rfl
  | cons b rest => rw [flipTr,clearTr,clearTr,(flag_byte b).2.2.1]

theorem fields_flipTr (some : data ≠ []) : typeField (flipTr data) = typeField data ∧
    trField (flipTr data) = 1 - trField data ∧ lengthField (flipTr data) = lengthField data ∧
    netWord (flipTr data) 8 = netWord data 8 := by
  cases data with
  | nil => contradiction
  | cons b rest => exact ⟨(flag_byte b).1,(flag_byte b).2.1,rfl,rfl⟩

theorem flipTr_setTr (clear : trField data = 0) : flipTr (setTr data) = data ∧ flipTr data = setTr data := by
  cases data with
  | nil => exact ⟨rfl,rfl⟩
  | cons b rest =>
    obtain ⟨_,_,_,set,kept⟩ := flag_byte b
    obtain ⟨same,flipped⟩ := kept clear
    rw [setTr,flipTr,flipTr,set,same,flipped]
    exact ⟨rfl,rfl⟩

theorem netWord_inj {off : Nat} : netWord other off = netWord data off ↔
    ∀ i < 4, other.getD (off + i) 0 = data.getD (off + i) 0 := by
  constructor
  · intro same
    have first := byteOf_word32 (other.getD (off + 3) 0) (other.getD (off + 2) 0) (other.getD (off + 1) 0)
      (other.getD off 0)
    have second := byteOf_word32 (data.getD (off + 3) 0) (data.getD (off + 2) 0) (data.getD (off + 1) 0)
      (data.getD off 0)
    change word32 _ _ _ _ = word32 _ _ _ _ at same
    rw [same] at first
    intro i inside
    interval_cases i
    · exact first.2.2.2.symm.trans second.2.2.2
    · exact first.2.2.1.symm.trans second.2.2.1
    · exact first.2.1.symm.trans second.2.1
    · exact first.1.symm.trans second.1
  · intro same
    rw [netWord,netWord,same 3 (by omega),same 2 (by omega),same 1 (by omega),← Nat.add_zero off,same 0 (by omega)]

theorem netWord_of_bits {off : Nat} (same : ∀ i, 8 * off ≤ i → i < 8 * off + 32 → bitAt other i = bitAt data i) :
    netWord other off = netWord data off := by
  rw [netWord_inj]
  intro i inside
  exact getD_eq_of_bits (fun j low => same _ (by omega) (by omega))

theorem bits_of_netWord {off : Nat} (same : netWord other off = netWord data off) {i : Nat} (least : 8 * off ≤ i)
    (most : i < 8 * off + 32) : bitAt other i = bitAt data i := by
  have byte := netWord_inj.mp same (i / 8 - off) (by omega)
  rw [Nat.add_sub_cancel' (by omega)] at byte
  exact bitAt_congr byte

theorem take_of_bits {n : Nat} (length : other.length = data.length)
    (same : ∀ i < 8 * n, bitAt other i = bitAt data i) : other.take n = data.take n := by
  apply bitAt_ext (by rw [List.length_take,List.length_take,length])
  intro i inside
  rw [List.length_take] at inside
  rw [bitAt_take (by omega),bitAt_take (by omega)]
  exact same i (by omega)

/-- A header whose CRC1 passes after a hit is the one that was sent, up to TR. -/
theorem crc1_garbled (held : netWord data 8 = crc32 (clearTr (data.take 8))) (garbled : Garbled 32 data other)
    (side : OneSide 64 data other) (passed : netWord other 8 = crc32 (clearTr (other.take 8))) :
    other.take 12 = data.take 12 ∨ other = flipTr data := by
  rcases side with before | after
  · have word : netWord other 8 = netWord data 8 := netWord_of_bits (fun i least _ => by
      by_contra changed
      have low := before i changed
      omega)
    have covered : clearTr (other.take 8) = clearTr (data.take 8) := by
      by_contra differ
      have length : (clearTr (other.take 8)).length = (clearTr (data.take 8)).length := by
        rw [clearTr_length,clearTr_length,List.length_take,List.length_take,garbled.length]
      have burst : Garbled 32 (clearTr (data.take 8)) (clearTr (other.take 8)) := by
        refine garbled.part 0 length differ ?_
        intro i changed unchanged
        apply changed
        rw [Nat.zero_add] at unchanged
        rw [bitAt_clearTr,bitAt_clearTr]
        congr 1
        rcases Nat.lt_or_ge i 64 with low | high
        · rw [bitAt_take (by omega),bitAt_take (by omega),unchanged]
        · have absent (l : List UInt8) : (l.take 8).getD (i / 8) 0 = 0 :=
            List.getD_eq_default _ _ (by rw [List.length_take]; omega)
          exact bitAt_congr ((absent other).trans (absent data).symm)
      exact crc32_burst burst (by rw [← passed,← held,word])
    have others (i : Nat) (elsewhere : i ≠ 5) : bitAt other i = bitAt data i := by
      by_contra changed
      have low := before i changed
      have bit := congrArg (bitAt · i) covered
      simp only [bitAt_clearTr,decide_eq_true elsewhere,Bool.true_and,bitAt_take (show i < 8 * 8 by omega)] at bit
      exact changed bit
    have flipped : bitAt other 5 ≠ bitAt data 5 := by
      intro same
      apply garbled.differ
      apply bitAt_ext garbled.length
      intro i _
      by_cases tr : i = 5
      · rw [tr,same]
      · exact others i tr
    have some : data ≠ [] := by
      rintro rfl
      exact garbled.differ (List.length_eq_zero_iff.mp garbled.length)
    refine Or.inr (bitAt_ext (by rw [flipTr_length,garbled.length]) ?_)
    intro i _
    rw [bitAt_flipTr some]
    by_cases tr : i = 5
    · subst tr
      cases left : bitAt other 5 <;> cases right : bitAt data 5 <;> simp_all
    · rw [others i tr,decide_eq_false tr,Bool.xor_false]
  · have start : other.take 8 = data.take 8 := take_of_bits garbled.length (fun i inside => by
      by_contra changed
      have high := after i changed
      omega)
    have word : netWord other 8 = netWord data 8 := by rw [passed,held,start]
    refine Or.inl (take_of_bits garbled.length ?_)
    intro i inside
    rcases Nat.lt_or_ge i 64 with low | high
    · by_contra changed
      have beyond := after i changed
      omega
    · exact bits_of_netWord word (by omega) (by omega)

theorem wire_length (wire : Wire crc32 data) : data.length ≤ 528 ∧ data ≠ [] := by
  have whole := wire.whole
  have bound := wire.bound
  have flag := trField_cases data
  refine ⟨?_,fun empty => by simp [empty] at whole⟩
  by_cases bare : trField data = 1 ∨ lengthField data = 0
  · have short := wire.bare bare
    omega
  · have total := (wire.payload (by omega) (by omega)).1
    omega

theorem bitAt_covered {len i : Nat} (inside : i < 8 * len) :
    bitAt ((data.drop 12).take len) i = bitAt data (96 + i) := by
  rw [bitAt_take inside,bitAt_drop]

/-- CRC2 sees every hit on the payload or on CRC2 itself. -/
theorem payload_garbled {len : Nat} (total : data.length = 12 + len + 4) (garbled : Garbled 32 data other)
    (front : other.take 12 = data.take 12) (side : OneSide (96 + 8 * len) data other)
    (held : netWord data (12 + len) = crc32 ((data.drop 12).take len)) :
    netWord other (12 + len) ≠ crc32 ((other.drop 12).take len) := by
  intro passed
  have length := garbled.length
  have lengths : ((other.drop 12).take len).length = len ∧ ((data.drop 12).take len).length = len := by
    simp only [List.length_take,List.length_drop]
    omega
  have same : netWord other (12 + len) = netWord data (12 + len) ∧
    (other.drop 12).take len = (data.drop 12).take len := by
    rcases side with before | after
    · have word : netWord other (12 + len) = netWord data (12 + len) := netWord_of_bits (fun i least _ => by
        by_contra changed
        have low := before i changed
        omega)
      refine ⟨word,?_⟩
      by_contra differ
      have burst : Garbled 32 ((data.drop 12).take len) ((other.drop 12).take len) := by
        refine garbled.part 96 (lengths.1.trans lengths.2.symm) differ ?_
        intro i changed unchanged
        apply changed
        rcases Nat.lt_or_ge i (8 * len) with inside | beyond
        · rw [bitAt_covered inside,bitAt_covered inside,unchanged]
        · exact bitAt_congr ((List.getD_eq_default _ _ (by omega)).trans (List.getD_eq_default _ _ (by omega)).symm)
      exact crc32_burst burst (by rw [← passed,← held,word])
    · have kept : (other.drop 12).take len = (data.drop 12).take len := by
        apply bitAt_ext (lengths.1.trans lengths.2.symm)
        intro i inside
        rw [lengths.1] at inside
        rw [bitAt_covered inside,bitAt_covered inside]
        by_contra changed
        have high := after (96 + i) changed
        omega
      exact ⟨by rw [passed,held,kept],kept⟩
  apply garbled.differ
  apply bitAt_ext length
  intro i inside
  rcases Nat.lt_or_ge i 96 with low | high
  · have bit := congrArg (bitAt · i) front
    simpa only [bitAt_take (show i < 8 * 12 by omega)] using bit
  · rcases Nat.lt_or_ge i (96 + 8 * len) with covered | beyond
    · have bit := congrArg (bitAt · (i - 96)) same.2
      have place : i - 96 < 8 * len := by omega
      simp only [bitAt_covered place] at bit
      rwa [Nat.add_sub_cancel' high] at bit
    · exact bits_of_netWord same.1 (by omega) (by omega)

/-- Of all the hits on a datagram of the format only a flip of TR can go unseen. -/
theorem accepted_garbled (wire : Wire crc32 data) (hit : Hit data other)
    (accepted : Wire crc32 other ∨ Padded crc32 other) :
    other = flipTr data := by
  have fits : other.length ≤ 528 := by
    rw [hit.garbled.length]
    exact (wire_length wire).1
  obtain ⟨header,shape⟩ := (pktDecode_accepts Pkt.zero fits).mp ((pktDecode_ok_iff Pkt.zero fits).mpr accepted)
  rcases crc1_garbled wire.crc1 hit.garbled hit.header header.crc1 with front | flipped
  · exfalso
    obtain ⟨_,tr,size,_,_⟩ := fields_take data
    obtain ⟨_,tr',size',_,_⟩ := fields_take other
    have flag := trField_cases data
    rw [front,tr] at tr'
    rw [front,size] at size'
    by_cases bare : trField data = 1 ∨ lengthField data = 0
    · have short := wire.bare bare
      have length := hit.garbled.length
      apply hit.garbled.differ
      rwa [List.take_of_length_le (by omega),List.take_of_length_le (by omega)] at front
    · obtain ⟨total,crc2⟩ := wire.payload (by omega) (by omega)
      rcases shape with ⟨either,_⟩ | ⟨_,_,_,passed⟩
      · omega
      · rw [← size'] at passed
        exact payload_garbled total hit.garbled front hit.payload crc2 passed
  · exact flipped

theorem accepted_flipTr (wire : Wire crc32 data) : (Wire crc32 (flipTr data) ∨ Padded crc32 (flipTr data)) ↔
    typeField data = 1 ∧ lengthField data = 0 := by
  obtain ⟨fits,some⟩ := wire_length wire
  obtain ⟨type,tr,size,word⟩ := fields_flipTr some
  have flag := trField_cases data
  rw [← pktDecode_ok_iff Pkt.zero (by rw [flipTr_length]; exact fits),
    pktDecode_accepts Pkt.zero (by rw [flipTr_length]; exact fits),flipTr_length,size,tr]
  constructor
  · rintro ⟨header,shape⟩
    have sent := wire.tr
    have flipped := header.tr
    rw [type,tr] at flipped
    have bare := wire.bare
    have whole := wire.payload
    refine ⟨by omega,?_⟩
    by_contra present
    rcases flag with clear | set
    · have total := (whole clear present).1
      omega
    · have short := bare (Or.inl set)
      omega
  · rintro ⟨isData,empty⟩
    refine ⟨⟨by rw [flipTr_length]; exact wire.whole,by rw [type]; exact wire.type,fun _ => type.trans isData,
      by rw [size]; exact wire.bound,fun other => absurd (type.trans isData) other,?_⟩,
      Or.inl ⟨Or.inr empty,Or.inl (wire.bare (Or.inr empty))⟩⟩
    rw [word,flipTr_take data (by omega),clearTr_flipTr]
    exact wire.crc1

theorem rejected_iff {h : Host} (checksum : h.crc32 = crc32) (fits : other.length ≤ 528) :
    Rejected h (.datagram other) ↔ ¬ (Wire crc32 other ∨ Padded crc32 other) := by
  have passes (stale : Pkt) :
      (netRecvfrom h stale (.datagram other)).1 = .netOk ↔ Wire crc32 other ∨ Padded crc32 other := by
    rw [← pktDecode_ok_iff stale fits,netRecvfrom_decode fits,checksum]
    generalize pktDecode crc32 other stale = decoded
    obtain ⟨status,pkt⟩ := decoded
    cases status <;> simp
  constructor
  · intro rejected accepted
    exact rejected Pkt.zero ((passes Pkt.zero).mpr accepted)
  · intro refused stale received
    exact refused ((passes stale).mp received)

/-- The socket rejects what the network has hit, except a flip of TR in a DATA packet
without payload, which is the packet that a truncating router would have made of it. -/
theorem rejected_iff_not_flipTr (h : Host) (checksum : h.crc32 = crc32) (data other : List UInt8)
    (wire : Wire crc32 data) (hit : Hit data other) :
    Rejected h (.datagram other) ↔ ¬ (other = flipTr data ∧ typeField data = 1 ∧ lengthField data = 0) := by
  have fits : other.length ≤ 528 := by
    rw [hit.garbled.length]
    exact (wire_length wire).1
  rw [rejected_iff checksum fits,not_iff_not]
  constructor
  · intro accepted
    have flipped := accepted_garbled wire hit accepted
    rw [flipped] at accepted
    exact ⟨flipped,(accepted_flipTr wire).mp accepted⟩
  · rintro ⟨rfl,bare⟩
    exact (accepted_flipTr wire).mpr bare

def xorByte (off : Nat) (mask : UInt8) (data : List UInt8) : List UInt8 := data.modify off (· ^^^ mask)

theorem bitAt_xorByte {off i : Nat} (mask : UInt8) (elsewhere : i / 8 ≠ off) :
    bitAt (xorByte off mask data) i = bitAt data i := by
  rw [bitAt,bitAt,xorByte,List.getD_eq_getElem?_getD,List.getD_eq_getElem?_getD,
    List.getElem?_modify_ne _ data (Ne.symm elsewhere)]

theorem hit_xorByte {off : Nat} {mask : UInt8} (inside : off < data.length) (some : mask ≠ 0) :
    Hit data (xorByte off mask data) := by
  have place (i : Nat) (changed : bitAt (xorByte off mask data) i ≠ bitAt data i) : i / 8 = off := by
    by_contra elsewhere
    exact changed (bitAt_xorByte mask elsewhere)
  have side (n : Nat) : OneSide (8 * n) data (xorByte off mask data) := by
    rcases Nat.lt_or_ge off n with before | behind
    · exact Or.inl fun i changed => by have own := place i changed; omega
    · exact Or.inr fun i changed => by have own := place i changed; omega
  refine ⟨⟨List.length_modify ..,?_,8 * off,?_⟩,side 8,?_⟩
  · intro same
    have byte := congrArg (fun bytes => bytes[off]?) same
    simp only [xorByte,List.getElem?_modify_eq,List.getElem?_eq_getElem inside] at byte
    have kept : data[off] ^^^ mask = data[off] := Option.some.inj byte
    exact some ((UInt8.xor_right_inj data[off]).mp (kept.trans UInt8.xor_zero.symm))
  · intro i changed
    have own := place i changed
    omega
  · have bytes : 96 + 8 * lengthField data = 8 * (12 + lengthField data) := by omega
    rw [bytes]
    exact side _

theorem hit_flipTr (some : data ≠ []) : Hit data (flipTr data) := by
  obtain ⟨b,rest,rfl⟩ := List.exists_cons_of_ne_nil some
  have first : 0 < (b :: rest).length := Nat.zero_lt_succ rest.length
  have changed : (0x20 : UInt8) ≠ 0 := by decide
  exact hit_xorByte first changed

/-- TR flipped in a bare ACK, and in a DATA packet without payload. -/
theorem rejected_iff_not_flipTr_bare : Rejected steadyHost (.datagram (flipTr bareAck)) ∧
    ¬ Rejected steadyHost (.datagram (flipTr (image crc32 (chunkPkt 7 endOfFile)))) := by
  have isAck : Wire crc32 bareAck := by
    exact (pktDecode_ok_iff Pkt.zero (by decide +kernel)).mp (by decide +kernel) |>.resolve_right
      (fun padded => absurd padded.1 (by decide +kernel))
  have isData : Wire crc32 (image crc32 (chunkPkt 7 endOfFile)) := by
    exact (pktDecode_ok_iff Pkt.zero (by decide +kernel)).mp (by decide +kernel) |>.resolve_right
      (fun padded => absurd padded.1 (by decide +kernel))
  constructor
  · refine (rejected_iff_not_flipTr steadyHost rfl bareAck (flipTr bareAck) isAck
      (hit_flipTr (by decide +kernel))).mpr ?_
    rintro ⟨_,type,_⟩
    exact absurd type (by decide +kernel)
  · intro rejected
    exact (rejected_iff_not_flipTr steadyHost rfl _ _ isData (hit_flipTr (by decide +kernel))).mp rejected
      ⟨rfl,by decide +kernel,by decide +kernel⟩

section Image

variable {h : Host} {p : Pkt} {input : Recv}

/-- What the network may do to a datagram: cut it, hit it, or both. -/
def Blurred (datagram : List UInt8) (input : Recv) : Prop :=
  Unaltered datagram input ∨ ∃ whole other, Unaltered datagram (.datagram whole) ∧ Hit whole other ∧
    input = .datagram other

theorem truncate_flip (clear : p.tr = false) : truncate (image crc32 p) = flipTr ((image crc32 p).take 12) ∧
    flipTr (truncate (image crc32 p)) = (image crc32 p).take 12 := by
  have tr := (fields_take (image crc32 p)).2.1
  rw [(image_fields crc32 p).2.1,clear] at tr
  have flipped := flipTr_setTr tr
  exact ⟨flipped.2.symm,flipped.1⟩

/-- A hit datagram that passes the checks is one the network could have left unharmed. -/
theorem blurred_cases (checksum : h.crc32 = crc32) (valid : Encodable p) (clear : p.tr = false)
    (blurred : Blurred (image crc32 p) input) : Rejected h input ∨ Unaltered (image crc32 p) input := by
  have wire : Wire crc32 (image crc32 p) := wire_image valid
  obtain ⟨fits,_⟩ := wire_length wire
  obtain ⟨type,tr,size⟩ := image_fields crc32 p
  have whole := wire.whole
  rw [clear] at tr
  rcases blurred with unaltered | ⟨sent,other,unaltered,hit,rfl⟩
  · exact Or.inr unaltered
  · have length := hit.garbled.length
    by_cases accepted : Wire crc32 other ∨ Padded crc32 other
    · refine Or.inr ?_
      rcases unaltered with same | same
      · obtain rfl := Recv.datagram.inj same
        have flipped := accepted_garbled wire hit accepted
        rw [flipped] at accepted
        have short := wire.bare (Or.inr ((accepted_flipTr wire).mp accepted).2)
        have cut := (truncate_flip clear).1
        rw [List.take_of_length_le (by omega)] at cut
        rw [flipped,← cut]
        exact Or.inr rfl
      · obtain rfl := Recv.datagram.inj same
        have total : (truncate (image crc32 p)).length = 12 := by
          rw [truncate_image]
          rfl
        obtain ⟨header,shape⟩ := (pktDecode_accepts Pkt.zero (by omega)).mp
          ((pktDecode_ok_iff Pkt.zero (by omega)).mpr accepted)
        have held : netWord (truncate (image crc32 p)) 8 = crc32 (clearTr ((truncate (image crc32 p)).take 8)) := by
          have some : (image crc32 p).take 12 ≠ [] := by
            intro empty
            have long := congrArg List.length empty
            rw [List.length_take,List.length_nil] at long
            omega
          have kept := (header_take wire.whole).mpr wire.toHeader
          rw [(truncate_flip clear).1,(fields_flipTr some).2.2.2,flipTr_take _ (by omega),clearTr_flipTr]
          exact kept.crc1
        rcases crc1_garbled held hit.garbled hit.header header.crc1 with front | flipped
        · rw [List.take_of_length_le (by omega),List.take_of_length_le (by omega)] at front
          exact absurd front hit.garbled.differ
        · rw [flipped,(truncate_flip clear).2] at shape
          rw [(truncate_flip clear).2] at flipped
          obtain ⟨_,tr',size',_,_⟩ := fields_take (image crc32 p)
          rw [List.length_take,tr',size',tr,size] at shape
          have empty : p.length.toNat = 0 := by
            rcases shape with ⟨set | empty,_⟩ | ⟨_,_,ends,_⟩
            · contradiction
            · exact empty
            · omega
          have short := wire.bare (Or.inr (size.trans empty))
          rw [List.take_of_length_le (by omega)] at flipped
          rw [flipped]
          exact Or.inl rfl
    · exact Or.inl ((rejected_iff checksum (by
        rcases unaltered with same | same
        · obtain rfl := Recv.datagram.inj same
          omega
        · obtain rfl := Recv.datagram.inj same
          rw [truncate_image,Pkt.header_length] at length
          omega)).mpr accepted)

end Image

section Transfer

variable {hs hr : Host} {chunks : List Chunk} {p : System}

def NoisyForward (hs hr : Host) (p : System) (input : Recv) : Prop :=
  Rejected hr input ∨ ∃ e ∈ p.sender.state.wire, ∃ n bytes, e.number = some n ∧
    p.sender.state.input[n]? = some bytes ∧ e.datagram = chunkDatagram hs.crc32 n bytes ∧
    Near n p.receiver.state.expected ∧ Blurred e.datagram input

def NoisyBackward (hs : Host) (p : System) (input : Recv) : Prop :=
  Rejected hs input ∨
    ∃ r ∈ p.receiver.state.replies, Near r.number p.sender.state.acked ∧ Blurred r.datagram input

/-- What is admitted when the network may also hit what it brings. -/
def Noisy (hs hr : Host) (chunks : List Chunk) (p : System) : Action → Prop
  | .send (.ready _ socket file) =>
    (∀ input, socket = some input → NoisyBackward hs p input) ∧
      ∀ bytes, file = some (.data bytes) → (feed chunks)[p.sender.state.input.length]? = some bytes
  | .send _ => True
  | .receive event => ∀ input, ReceiverRuns.socket event = some input → NoisyForward hs hr p input

theorem NoisyForward.forward (left : hs.crc32 = crc32) (right : hr.crc32 = crc32) {input : Recv}
    (noisy : NoisyForward hs hr p input) : Forward hs hr p input := by
  rcases noisy with rejected | ⟨e,member,n,bytes,number,known,datagram,near,blurred⟩
  · exact Or.inl rejected
  · rw [datagram,left,chunkDatagram] at blurred
    rcases blurred_cases right (chunkPkt_encodable n bytes) rfl blurred with rejected | unaltered
    · exact Or.inl rejected
    · refine Or.inr ⟨e,member,n,bytes,number,known,datagram,near,?_⟩
      rw [datagram,left]
      exact unaltered

theorem NoisyBackward.backward (left : hs.crc32 = crc32) (right : hr.crc32 = crc32) {input : Recv}
    (genuine : ∀ r ∈ p.receiver.state.replies, Genuine hr r) (noisy : NoisyBackward hs p input) :
    Backward hs p input := by
  rcases noisy with rejected | ⟨r,member,near,blurred⟩
  · exact Or.inl rejected
  · obtain ⟨type,ts,window,datagram⟩ := genuine r member
    have valid : validType r.type = true := by
      rcases type with ack | nack
      · rw [ack]
        rfl
      · rw [nack]
        rfl
    let reply : Pkt := { Pkt.zero with type := r.type, seq := serial r.number, ts := ts, window := window }
    have encodable : Encodable reply :=
      ⟨valid,Nat.zero_le _,fun present => absurd rfl present,fun truncated => nomatch truncated⟩
    rw [datagram,right] at blurred
    rcases blurred_cases left encodable rfl blurred with rejected | unaltered
    · exact Or.inl rejected
    · refine Or.inr ⟨r,member,near,?_⟩
      rw [datagram,right]
      exact unaltered

theorem Noisy.admitted (left : hs.crc32 = crc32) (right : hr.crc32 = crc32)
    (genuine : ∀ r ∈ p.receiver.state.replies, Genuine hr r) {action : Action} (noisy : Noisy hs hr chunks p action) :
    Admitted hs hr chunks p action := by
  cases action with
  | send event =>
    cases event with
    | ready stale socket file =>
      exact ⟨fun input found => (noisy.1 input found).backward left right genuine,noisy.2⟩
    | _ => trivial
  | receive event => exact fun input found => (noisy input found).forward left right

theorem reach_of_noisy (left : hs.crc32 = crc32) (right : hr.crc32 = crc32) (complete : ∀ n, hr.write n = .complete)
    {capacity maxWindow : UInt32} (small : capacity.toNat ≤ 128) (least : 1 ≤ maxWindow.toNat)
    (most : maxWindow.toNat ≤ maxWindowSize)
    (reached : Reach (Start hr capacity maxWindow) (Step hs hr) (Noisy hs hr chunks) p) :
    Reach (Start hr capacity maxWindow) (Step hs hr) (Admitted hs hr chunks) p := by
  induction reached with
  | start p first => exact .start p first
  | step p action q _ noisy taken ih =>
    have joint := reachable_joint (right.trans left.symm) complete small least most ih
    exact .step p action q ih (noisy.admitted left right joint.genuine) taken

/-- End-to-end safety over a network that also flips bits. -/
theorem noisy_transfer (hs hr : Host) (left : hs.crc32 = crc32) (right : hr.crc32 = crc32)
    (complete : ∀ n, hr.write n = .complete) (capacity maxWindow : UInt32) (small : capacity.toNat ≤ 128)
    (least : 1 ≤ maxWindow.toNat) (most : maxWindow.toNat ≤ maxWindowSize) (chunks : List Chunk)
    (nonempty : ∀ bytes ∈ chunks, bytes.val ≠ []) (p : System)
    (reached : Reach (Start hr capacity maxWindow) (Step hs hr) (Noisy hs hr chunks) p) :
    (∃ k, p.receiver.state.output = (chunks.take k).flatMap Subtype.val) ∧
    ∀ s, p.sender = .returned 0 s → p.receiver.state.output = chunks.flatMap Subtype.val := by
  have joint := reachable_joint (right.trans left.symm) complete small least most
    (reach_of_noisy left right complete small least most reached)
  have written := joint.carrying.written.trans (written_take _)
  refine ⟨⟨_,written⟩,?_⟩
  intro s returned
  rw [written,List.take_of_length_le (Nat.le_of_lt (joint.finished nonempty returned))]

theorem noisy_of_admitted {action : Action} (admitted : Admitted hs hr chunks p action) :
    Noisy hs hr chunks p action := by
  cases action with
  | send event =>
    cases event with
    | ready stale socket file =>
      refine ⟨fun input found => ?_,admitted.2⟩
      rcases admitted.1 input found with rejected | ⟨r,member,near,unaltered⟩
      · exact Or.inl rejected
      · exact Or.inr ⟨r,member,near,Or.inl unaltered⟩
    | _ => trivial
  | receive event =>
    intro input found
    rcases admitted input found with rejected | ⟨e,member,n,bytes,number,known,datagram,near,unaltered⟩
    · exact Or.inl rejected
    · exact Or.inr ⟨e,member,n,bytes,number,known,datagram,near,Or.inl unaltered⟩

/-- One datagram arrives with some bits of a byte flipped, or what `obey` does. -/
inductive Trouble where
  | calm (command : Command)
  | forward (i off : Nat) (mask : UInt8)
  | backward (i off : Nat) (mask : UInt8)

def suffer (hs hr : Host) (chunks : List Chunk) (p : System) : Trouble → Option System
  | .calm command => obey hs hr chunks p command
  | .forward i off mask => do
    let e ← p.sender.state.wire[i]?
    let n ← e.number
    let bytes ← p.sender.state.input[n]?
    if e.datagram = chunkDatagram hs.crc32 n bytes ∧ Near n p.receiver.state.expected ∧ off < e.datagram.length ∧
    mask ≠ 0 then
      let d ← Receive.next hr p.receiver
        (occasion p.receiver.state.phase (some (.datagram (xorByte off mask e.datagram))))
      return { p with receiver := d }
    else none
  | .backward i off mask => do
    let r ← p.receiver.state.replies[i]?
    if Near r.number p.sender.state.acked ∧ off < r.datagram.length ∧ mask ≠ 0 then
      let c ← Transmit.next hs 0 p.sender (.ready Pkt.zero (some (.datagram (xorByte off mask r.datagram))) none)
      return { p with sender := c }
    else none

theorem suffer_noisy {trouble : Trouble} {q : System} (suffered : suffer hs hr chunks p trouble = some q) :
    ∃ action, Noisy hs hr chunks p action ∧ Step hs hr p action q := by
  cases trouble with
  | calm command =>
    obtain ⟨action,admitted,taken⟩ := obey_admitted suffered
    exact ⟨action,noisy_of_admitted admitted,taken⟩
  | forward i off mask =>
    obtain ⟨e,found,rest⟩ := Option.bind_eq_some_iff.mp suffered
    obtain ⟨n,number,rest⟩ := Option.bind_eq_some_iff.mp rest
    obtain ⟨bytes,known,rest⟩ := Option.bind_eq_some_iff.mp rest
    split at rest
    next holds =>
      obtain ⟨datagram,near,inside,flips⟩ := holds
      obtain ⟨d,taken,made⟩ := Option.bind_eq_some_iff.mp rest
      obtain rfl := Option.some.inj made
      refine ⟨_,?_,.receive _ d taken⟩
      intro input brought
      rw [socket_occasion] at brought
      obtain rfl := Option.some.inj brought
      exact Or.inr ⟨e,List.mem_of_getElem? found,n,bytes,number,known,datagram,near,
        Or.inr ⟨_,_,Or.inl rfl,hit_xorByte inside flips,rfl⟩⟩
    next => contradiction
  | backward i off mask =>
    obtain ⟨r,found,rest⟩ := Option.bind_eq_some_iff.mp suffered
    split at rest
    next holds =>
      obtain ⟨near,inside,flips⟩ := holds
      obtain ⟨c,taken,made⟩ := Option.bind_eq_some_iff.mp rest
      obtain rfl := Option.some.inj made
      refine ⟨.send (.ready Pkt.zero (some (.datagram (xorByte off mask r.datagram))) none),⟨?_,?_⟩,
        .send _ c (Transmit.next_step hs 0 _ _ _ taken)⟩
      · intro input brought
        obtain rfl := Option.some.inj brought
        exact Or.inr ⟨r,List.mem_of_getElem? found,near,Or.inr ⟨_,_,Or.inl rfl,hit_xorByte inside flips,rfl⟩⟩
      · intro bytes none
        contradiction
    next => contradiction

/-- The payload of chunk 0, the number of its ACK and the header of the last packet are hit. -/
def troubles : List Trouble :=
  [.calm .read,.forward 0 12 0xff,.calm (.forward 0),.calm .write,.backward 0 1 0x18,.calm (.forward 0),
    .calm (.backward 1),.calm .read,.forward 1 0 0x60,.calm (.forward 1),.calm (.backward 3)]

theorem noisy_transfer_oneByte : ∃ p,
    troubles.foldlM (suffer steadyHost steadyHost [⟨[97],by decide⟩]) firstPair = some p ∧
    (∃ s, p.sender = .returned 0 s) ∧ p.receiver.state.output = [97] := by
  let chunks : List Chunk := [⟨[97],by decide⟩]
  have passed : returnedZero (troubles.foldlM
    (suffer steadyHost steadyHost chunks) firstPair) = true := by decide +kernel
  obtain ⟨p,played,s,ended⟩ := exists_of_returnedZero passed
  have reached : Reach (Start steadyHost 4 31) (Step steadyHost steadyHost) (Noisy steadyHost steadyHost chunks) p :=
    Reach.play (fun _ _ _ suffered => suffer_noisy suffered) (.start _ (firstPair_start steadyHost)) _ played
  exact ⟨p,played,⟨s,ended⟩,(noisy_transfer steadyHost steadyHost rfl rfl (fun _ => rfl) 4 31 (by decide) (by decide)
    (by decide) chunks (by simp [chunks]) p reached).2 s ended⟩

end Transfer

end Trtp.Garbling
