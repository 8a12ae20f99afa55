import Trtp.WireFormat

/-! The dissector of dissector-LINGI1341.lua, a second reader of the wire format.
Wireshark calls it on the bytes of one datagram. What Wireshark offers it is a
parameter: ranges of bytes, the numbers in them, and a tree to which items are added. -/
namespace Trtp.Dissector
open Lib.Bytes Packet Codec WireFormat

/-- What the dissector calls: `buffer(offset, length)`, which may fail, `buffer()`, `range:uint()`,
`range:bitfield(position, length)`, and `item:add` with a protocol and without. -/
structure Wireshark (Range Item Tree : Type) where
  range : List UInt8 → Nat → Nat → Option Range
  whole : List UInt8 → Option Range
  uint : Range → Nat
  bitfield : Range → Nat → Nat → Nat
  addProto : Item → Range → String → Tree → Item × Tree
  add : Item → Range → String → Tree → Item × Tree

def bigEndian (bytes : List UInt8) : Nat := bytes.foldl (fun n b => 256 * n + b.toNat) 0

/-- What Wireshark promises: a range lies inside the buffer and holds its bytes, `uint` reads up to
four of them in network order, and `bitfield` counts from the highest bit of a byte. -/
structure Documented {Range Item Tree : Type} (w : Wireshark Range Item Tree)
    (content : Range → List UInt8) : Prop where
  inside : ∀ buffer offset length, (w.range buffer offset length).isSome ↔ offset + length ≤ buffer.length
  held : ∀ buffer offset length r, w.range buffer offset length = some r → content r = (buffer.drop offset).take length
  whole : ∀ buffer, (w.whole buffer).isSome
  uint : ∀ r, 1 ≤ (content r).length → (content r).length ≤ 4 → w.uint r = bigEndian (content r)
  bitfield : ∀ r b position length, content r = [b] → position + length ≤ 8 →
    w.bitfield r position length = b.toNat / 2 ^ (8 - position - length) % 2 ^ length

def ptypeText (ptype : Nat) : String :=
  if ptype = 1 then "PTYPE_DATA"
  else if ptype = 2 then "PTYPE_ACK"
  else if ptype = 3 then "PTYPE_NACK"
  else "UNKNOWN"

section Program

variable {Range Item Tree : Type} (w : Wireshark Range Item Tree) (buffer : List UInt8)

def range (offset length : Nat) : StateT Tree Option Range := StateT.lift (w.range buffer offset length)

def add (item : Item) (r : Range) (text : String) : StateT Tree Option Item := fun tree => some (w.add item r text tree)

def dissectHeader (subtree : Item) : StateT Tree Option Nat := do
  let header ← add w subtree (← range w buffer 0 4) "Header"
  let ptype := w.bitfield (← range w buffer 0 1) 0 2
  let _ ← add w header (← range w buffer 0 1) ("PTYPE: " ++ ptypeText ptype)
  let tr := w.bitfield (← range w buffer 0 1) 2 1
  let _ ← add w header (← range w buffer 0 1) ("TR: " ++ toString tr)
  let window := w.bitfield (← range w buffer 0 1) 3 5
  let _ ← add w header (← range w buffer 0 1) ("Window: " ++ toString window)
  let len := w.uint (← range w buffer 2 2)
  let seqnum := w.uint (← range w buffer 1 1)
  let _ ← add w header (← range w buffer 1 1) ("Sequence number: " ++ toString seqnum)
  let _ ← add w header (← range w buffer 2 2) ("Payload Length: " ++ toString len)
  let timestamp := w.uint (← range w buffer 4 4)
  let _ ← add w header (← range w buffer 4 4) ("Timestamp: " ++ toString timestamp)
  let crc1 := w.uint (← range w buffer 8 4)
  let _ ← add w header (← range w buffer 8 4) ("CRC1: " ++ toString crc1)
  return len

/-- What follows the header; `len` is the length it announces. -/
def dissectPayload (subtree : Item) (len : Nat) : StateT Tree Option Unit := do
  if buffer.length > 12 ∧ buffer.length ≠ 16 + len then
    let _ ← add w subtree (← range w buffer 0 buffer.length) "Packet is inconsistent!"
  else if buffer.length > 528 then
    let _ ← add w subtree (← range w buffer 0 buffer.length) "Packet is too long!"
  else if buffer.length > 12 then
    let _ ← add w subtree (← range w buffer 12 len) ("Payload [" ++ toString len ++ " bytes]")
    let crc2 := w.uint (← range w buffer (buffer.length - 4) 4)
    let _ ← add w subtree (← range w buffer (buffer.length - 4) 4) ("CRC2: " ++ toString crc2)

def openSubtree (root : Item) : StateT Tree Option Item := fun tree =>
  (w.whole buffer).map fun r => w.addProto root r "LINGI1341 Transmission Protocol Data" tree

def dissector (root : Item) : StateT Tree Option Unit := do
  let subtree ← openSubtree w buffer root
  if buffer.length < 12 then
    let _ ← add w subtree (← range w buffer 0 buffer.length) "Packet is too short (no header)!"
  else
    let len ← dissectHeader w buffer subtree
    dissectPayload w buffer subtree len

structure Line where
  offset : Nat
  length : Nat
  text : String

def draw (item : Item) : List Line → StateT Tree Option Unit
  | [] => pure ()
  | line :: lines => do
    let _ ← add w item (← range w buffer line.offset line.length) line.text
    draw item lines

/-- The lines of the header under an item of their own, the others beside it. -/
def display (root : Item) (header payload : List Line) : StateT Tree Option Unit := do
  let subtree ← openSubtree w buffer root
  let item ← add w subtree (← range w buffer 0 4) "Header"
  draw w buffer item header
  draw w buffer subtree payload

end Program

def shownHeader (p : Pkt) : List Line :=
  [⟨0,1,"PTYPE: " ++ ptypeText p.type.toNat⟩,
   ⟨0,1,"TR: " ++ toString p.tr.toNat⟩,
   ⟨0,1,"Window: " ++ toString p.window.toNat⟩,
   ⟨1,1,"Sequence number: " ++ toString p.seq.toNat⟩,
   ⟨2,2,"Payload Length: " ++ toString p.length.toNat⟩,
   ⟨4,4,"Timestamp: " ++ toString (ntohl p.ts).toNat⟩,
   ⟨8,4,"CRC1: " ++ toString p.crc1.toNat⟩]

/-- Where no payload was checked, the last four bytes are still those behind the header. -/
def shownCrc2 (p : Pkt) : UInt32 := if p.length ≠ 0 then crc2Field p else ntohl (wordAt p.tail 0)

/-- `size` is the number of bytes received. -/
def shownPayload (p : Pkt) (size : Nat) : List Line :=
  if size = 12 then []
  else if p.tr = true ∧ p.length ≠ 0 then [⟨0,size,"Packet is inconsistent!"⟩]
  else [⟨12,p.length.toNat,"Payload [" ++ toString p.length.toNat ++ " bytes]"⟩,
    ⟨size - 4,4,"CRC2: " ++ toString (shownCrc2 p).toNat⟩]

theorem bigEndian_bytes16 (x : UInt16) : bigEndian (bytes16 x) = (ntohs x).toNat := by
  rw [ntohs,swap16,word16_toNat]
  simp only [bigEndian,bytes16,List.foldl_cons,List.foldl_nil]
  omega

theorem bigEndian_bytes32 (x : UInt32) : bigEndian (bytes32 x) = (ntohl x).toNat := by
  rw [ntohl,swap32,word32_toNat]
  simp only [bigEndian,bytes32,List.foldl_cons,List.foldl_nil]
  omega

section Lawful

variable {Range Item Tree : Type} {w : Wireshark Range Item Tree} {content : Range → List UInt8} {buffer : List UInt8}

theorem Documented.ask (documented : Documented w content) (buffer : List UInt8) (offset length : Nat)
    (inside : offset + length ≤ buffer.length) :
    ∃ r, content r = (buffer.drop offset).take length ∧
      ∀ {β : Type} (next : Range → StateT Tree Option β), (range w buffer offset length >>= next) = next r := by
  obtain ⟨r,found⟩ := Option.isSome_iff_exists.mp ((documented.inside buffer offset length).mpr inside)
  refine ⟨r,documented.held _ _ _ _ found,fun next => ?_⟩
  funext tree
  change (StateT.lift (w.range buffer offset length) >>= next) tree = _
  rw [found]
  rfl

theorem Documented.flags (documented : Documented w content) {r : Range} (q : Pkt) (held : content r = [q.flags]) :
    w.bitfield r 0 2 = q.type.toNat ∧ w.bitfield r 2 1 = q.tr.toNat ∧ w.bitfield r 3 5 = q.window.toNat := by
  have flags := q.flags_toNat
  have type := q.type.isLt
  have window := q.window.isLt
  have tr := q.tr.toNat_le
  rw [documented.bitfield r _ 0 2 held (by decide),documented.bitfield r _ 2 1 held (by decide),
    documented.bitfield r _ 3 5 held (by decide),flags]
  refine ⟨?_,?_,?_⟩ <;> omega

theorem Documented.uint8 (documented : Documented w content) {r : Range} {x : UInt8} (held : content r = [x]) :
    w.uint r = x.toNat := by
  have size : (content r).length = 1 := by rw [held]; rfl
  rw [documented.uint r (by omega) (by omega),held]
  exact Nat.zero_add _

theorem Documented.uint16 (documented : Documented w content) {r : Range} {x : UInt16} (held : content r = bytes16 x) :
    w.uint r = (ntohs x).toNat := by
  have size : (content r).length = 2 := by rw [held]; rfl
  rw [documented.uint r (by omega) (by omega),held,bigEndian_bytes16]

theorem Documented.uint32 (documented : Documented w content) {r : Range} {x : UInt32} (held : content r = bytes32 x) :
    w.uint r = (ntohl x).toNat := by
  have size : (content r).length = 4 := by rw [held]; rfl
  rw [documented.uint r (by omega) (by omega),held,bigEndian_bytes32]

/-- The struct once the two words that are checked have been put into host order. -/
def hosted (q : Pkt) : Pkt := { q with length := ntohs q.length, crc1 := ntohl q.crc1 }

theorem dissectHeader_eq (documented : Documented w content) (q : Pkt) (rest : List UInt8) (subtree : Item) :
    dissectHeader w (q.header ++ rest) subtree = do
      let header ← add w subtree (← range w (q.header ++ rest) 0 4) "Header"
      draw w (q.header ++ rest) header (shownHeader (hosted q))
      return (ntohs q.length).toNat := by
  have size : (q.header ++ rest).length = 12 + rest.length := by
    rw [List.length_append,q.header_length]
  obtain ⟨front,_,four⟩ := documented.ask (q.header ++ rest) 0 4 (by omega)
  obtain ⟨flags,flagByte,first⟩ := documented.ask (q.header ++ rest) 0 1 (by omega)
  obtain ⟨number,numberByte,second⟩ := documented.ask (q.header ++ rest) 1 1 (by omega)
  obtain ⟨len,lenBytes,third⟩ := documented.ask (q.header ++ rest) 2 2 (by omega)
  obtain ⟨ts,tsBytes,fourth⟩ := documented.ask (q.header ++ rest) 4 4 (by omega)
  obtain ⟨crc,crcBytes,fifth⟩ := documented.ask (q.header ++ rest) 8 4 (by omega)
  obtain ⟨type,tr,window⟩ := documented.flags q flagByte
  have seqnum : w.uint number = q.seq.toNat := documented.uint8 numberByte
  have length : w.uint len = (ntohs q.length).toNat := documented.uint16 lenBytes
  have stamp : w.uint ts = (ntohl q.ts).toNat := documented.uint32 tsBytes
  have crc1 : w.uint crc = (ntohl q.crc1).toNat := documented.uint32 crcBytes
  simp only [dissectHeader,shownHeader,hosted,draw,four,first,second,third,fourth,fifth,type,tr,window,
    seqnum,length,stamp,
    crc1,bind_assoc,pure_bind]

def payloadLines (buffer : List UInt8) (len : Nat) : List Line :=
  if buffer.length > 12 ∧ buffer.length ≠ 16 + len then [⟨0,buffer.length,"Packet is inconsistent!"⟩]
  else if buffer.length > 528 then [⟨0,buffer.length,"Packet is too long!"⟩]
  else if buffer.length > 12 then
    [⟨12,len,"Payload [" ++ toString len ++ " bytes]"⟩,
     ⟨buffer.length - 4,4,"CRC2: " ++ toString (bigEndian ((buffer.drop (buffer.length - 4)).take 4))⟩]
  else []

theorem dissectPayload_eq (documented : Documented w content) (buffer : List UInt8) (len : Nat) (subtree : Item) :
    dissectPayload w buffer subtree len = draw w buffer subtree (payloadLines buffer len) := by
  rw [dissectPayload,payloadLines]
  split
  next => simp only [draw]
  next same =>
    split
    next => simp only [draw]
    next =>
      split
      next more =>
        obtain ⟨crc,held,last⟩ := documented.ask buffer (buffer.length - 4) 4 (by omega)
        have size : (content crc).length = 4 := by
          rw [held,List.length_take,List.length_drop]
          omega
        have number : w.uint crc = bigEndian ((buffer.drop (buffer.length - 4)).take 4) := by
          rw [documented.uint crc (by omega) (by omega),held]
        simp only [draw,last,number]
      next => rfl

theorem dissector_eq (documented : Documented w content) (q : Pkt) (rest : List UInt8) (root : Item) :
    dissector w (q.header ++ rest) root = display w (q.header ++ rest) root (shownHeader (hosted q))
      (payloadLines (q.header ++ rest) (ntohs q.length).toNat) := by
  have size : (q.header ++ rest).length = 12 + rest.length := by
    rw [List.length_append,q.header_length]
  rw [dissector,display]
  refine congrArg _ (funext fun subtree => ?_)
  rw [if_neg (by omega),dissectHeader_eq documented]
  simp only [bind_assoc,pure_bind,dissectPayload_eq documented]

def Total (run : StateT Tree Option Unit) : Prop := ∀ tree, ∃ after, run tree = some ((),after)

theorem Total.andThen {first next : StateT Tree Option Unit} (before : Total first) (after : Total next) :
    Total (first >>= fun _ => next) := by
  intro tree
  obtain ⟨middle,begun⟩ := before tree
  obtain ⟨last,ended⟩ := after middle
  refine ⟨last,?_⟩
  change (first tree).bind (fun opened => next opened.2) = _
  rw [begun]
  exact ended

theorem Documented.total_draw (documented : Documented w content) (item : Item) (lines : List Line)
    (inside : ∀ line ∈ lines, line.offset + line.length ≤ buffer.length) : Total (draw w buffer item lines) := by
  induction lines with
  | nil => exact fun tree => ⟨tree,rfl⟩
  | cons line lines ih =>
    obtain ⟨r,_,found⟩ := documented.ask buffer line.offset line.length (inside line List.mem_cons_self)
    intro tree
    obtain ⟨after,drawn⟩ := ih (fun other member => inside other (List.mem_cons_of_mem line member))
      (w.add item r line.text tree).2
    refine ⟨after,?_⟩
    rw [draw,found]
    exact drawn

theorem Documented.total_open (documented : Documented w content) (root : Item) {next : Item → StateT Tree Option Unit}
    (total : ∀ subtree, Total (next subtree)) : Total (openSubtree w buffer root >>= next) := by
  intro tree
  obtain ⟨r,found⟩ := Option.isSome_iff_exists.mp (documented.whole buffer)
  let opened := w.addProto root r "LINGI1341 Transmission Protocol Data" tree
  obtain ⟨after,ended⟩ := total opened.1 opened.2
  refine ⟨after,?_⟩
  have first : openSubtree w buffer root tree = some opened := by
    rw [openSubtree,found]
    rfl
  change (openSubtree w buffer root tree).bind (fun opened => next opened.1 opened.2) = _
  rw [first]
  exact ended

theorem payloadLines_inside (buffer : List UInt8) (len : Nat) :
    ∀ line ∈ payloadLines buffer len, line.offset + line.length ≤ buffer.length := by
  have entire (text : String) (line : Line) (only : line ∈ [(⟨0,buffer.length,text⟩ : Line)]) :
      line.offset + line.length ≤ buffer.length := by
    obtain rfl := List.mem_singleton.mp only
    exact Nat.le_of_eq (Nat.zero_add _)
  intro line member
  unfold payloadLines at member
  split at member
  next => exact entire _ line member
  next same =>
    split at member
    next => exact entire _ line member
    next =>
      split at member
      next more =>
        rcases List.mem_cons.mp member with rfl | last
        · change 12 + len ≤ buffer.length
          omega
        · obtain rfl := List.mem_singleton.mp last
          change buffer.length - 4 + 4 ≤ buffer.length
          omega
      next => contradiction

theorem shownHeader_inside (p : Pkt) (whole : 12 ≤ buffer.length) :
    ∀ line ∈ shownHeader p, line.offset + line.length ≤ buffer.length := by
  intro line member
  simp only [shownHeader,List.mem_cons,List.not_mem_nil,or_false] at member
  rcases member with rfl | rfl | rfl | rfl | rfl | rfl | rfl
  all_goals
    dsimp only
    omega

theorem Documented.total_display (documented : Documented w content) (root : Item) (whole : 12 ≤ buffer.length)
    {header payload : List Line} (front : ∀ line ∈ header, line.offset + line.length ≤ buffer.length)
    (behind : ∀ line ∈ payload, line.offset + line.length ≤ buffer.length) :
    Total (display w buffer root header payload) := by
  obtain ⟨r,_,found⟩ := documented.ask buffer 0 4 (by omega)
  refine documented.total_open root (fun subtree => ?_)
  rw [found]
  intro tree
  exact Total.andThen (documented.total_draw _ header front) (documented.total_draw subtree payload behind)
    (w.add subtree r "Header" tree).2

end Lawful

theorem header_rest {data : List UInt8} (whole : 12 ≤ data.length) :
    (Pkt.zero.overwrite (data.take 12)).header ++ data.drop 12 = data := by
  have size : (data.take 12).length = 12 := List.length_take_of_le whole
  rw [overwrite_take Pkt.zero (by omega) (by omega),List.take_take,Nat.min_self,List.take_append_drop]

/-- The dissector never reaches beyond the end of a datagram. -/
theorem dissector_total {Range Item Tree : Type} {w : Wireshark Range Item Tree} {content : Range → List UInt8}
    (documented : Documented w content) (data : List UInt8) (root : Item) : Total (dissector w data root) := by
  rcases Nat.lt_or_ge data.length 12 with short | whole
  · have total (subtree : Item) := documented.total_draw subtree [⟨0,data.length,"Packet is too short (no header)!"⟩]
      (fun line only => by obtain rfl := List.mem_singleton.mp only; exact Nat.le_of_eq (Nat.zero_add _))
    simp only [draw] at total
    refine documented.total_open root (fun subtree => ?_)
    rw [if_pos short]
    exact total subtree
  · have found := dissector_eq documented (Pkt.zero.overwrite (data.take 12)) (data.drop 12) root
    rw [header_rest whole] at found
    rw [found]
    exact documented.total_display root whole (shownHeader_inside _ whole) (payloadLines_inside data _)

theorem bigEndian_netWord {data : List UInt8} {off : Nat} (inside : off + 4 ≤ data.length) :
    bigEndian ((data.drop off).take 4) = (netWord data off).toNat := by
  have bytes : (data.drop off).take 4 = [data.getD off 0,data.getD (off + 1) 0,data.getD (off + 2) 0,
    data.getD (off + 3) 0] := by
    apply List.ext_getElem
    · simp
      omega
    · intro i left right
      have small : i < 4 := by simpa using right
      rw [List.getElem_take,List.getElem_drop]
      interval_cases i <;> exact (List.getD_eq_getElem _ _ (by omega)).symm
  rw [bytes,netWord,word32_toNat]
  simp only [bigEndian,List.foldl_cons,List.foldl_nil]
  omega

variable {crc32 : List UInt8 → UInt32}

theorem pktCheckPayload_crc2 {p : Pkt} {rlen plen len : Nat} (present : len ≠ 0)
    (passed : (pktCheckPayload crc32 p rlen plen len).1 = .pktOk) :
    crc2Field (pktCheckPayload crc32 p rlen plen len).2 = ntohl (wordAt p.bytes (rlen - 4)) := by
  rcases (pktCheckPayload_ok_iff p rlen plen len).mp passed with ⟨_,_,none⟩ | ⟨_,none,_⟩ | ⟨data,clear,same,right⟩
  · exact absurd none present
  · exact absurd none present
  · have crc2 := right present
    have checked : pktCheckPayload crc32 p rlen plen len = (.pktOk,p.setCrc2 (ntohl (wordAt p.bytes (rlen - 4)))) := by
      rw [pktCheckPayload,if_pos data,clear,if_neg Bool.false_ne_true,if_neg (not_not.mpr same),pktCheckCrc2,
        if_pos present]
      exact if_neg (not_not.mpr crc2)
    rw [checked,crc2Field,setCrc2_eq]
    exact wordAt_blit _ _ _ (by omega)

/-- The last four bytes of a datagram that was accepted, as the decoder leaves them. -/
theorem shownCrc2_eq {q p : Pkt} {data : List UInt8} (holds : Holds q data) (fits : data.length ≤ 528)
    (decoded : pktDecodeInline crc32 q data.length = (.pktOk,p)) (total : data.length = 16 + p.length.toNat) :
    (shownCrc2 p).toNat = bigEndian ((data.drop (data.length - 4)).take 4) := by
  obtain ⟨tail,rfl,kept⟩ := pktDecodeInline_result decoded
  have len : (ntohs q.length).toNat = lengthField data := holds.length
  change data.length = 16 + (ntohs q.length).toNat at total
  have last : ntohl (wordAt q.tail (lengthField data)) = netWord data (12 + lengthField data) :=
    netWord_held holds (by omega)
  have place : data.length - 4 = 12 + lengthField data := by omega
  rw [place,bigEndian_netWord (by omega),← last,shownCrc2]
  refine congrArg UInt32.toNat ?_
  change (if ntohs q.length ≠ 0 then wordAt tail 512 else ntohl (wordAt tail 0)) = _
  split
  next present =>
    have positive : payloadLen data.length = lengthField data := by
      refine (payloadLen_eq (by omega) fits ?_ (by omega)).mpr (by omega)
      rw [← len]
      intro zero
      exact present (UInt16.toNat_inj.mp zero)
    have nonzero : payloadLen data.length ≠ 0 := by
      rw [positive,← len]
      intro zero
      exact present (UInt16.toNat_inj.mp zero)
    rw [pktDecodeInline_eq] at decoded
    split_ifs at decoded
    any_goals simp only [Prod.mk.injEq,reduceCtorEq,false_and] at decoded
    have passed := (finished_ok _ _).mp (congrArg Prod.fst decoded)
    have crc2 := pktCheckPayload_crc2 nonzero passed
    rw [finished,if_pos passed] at decoded
    have same := congrArg (fun answer : Status × Pkt => crc2Field answer.2) decoded
    change crc2Field (pktCheckPayload crc32 _ _ _ _).2 = wordAt tail 512 at same
    rw [← same,crc2,place,wordAt_tail]
  next zero =>
    have none : lengthField data = 0 := by
      rw [← len]
      exact congrArg UInt16.toNat (not_not.mp zero)
    rw [none]
    refine congrArg ntohl (wordAt_congr _ _ 0 0 ?_)
    intro i small
    have byte := congrArg (fun bytes => bytes[i]?) (kept 4 (by omega))
    rw [Pkt.payload,slice_getElem? _ _ _ _ small,slice_getElem? _ _ _ _ small] at byte
    exact Option.some.inj byte

/-- The dissector finds its way through every datagram. Of one that the decoder accepts
it shows the packet that the decoder returns, field by field; it calls such a datagram
inconsistent only if it is truncated and sixteen bytes long. -/
theorem dissector_agrees {Range Item Tree : Type} (w : Wireshark Range Item Tree) (content : Range → List UInt8)
    (documented : Documented w content) (crc32 : List UInt8 → UInt32) (data : List UInt8) (stale : Pkt) (root : Item) :
    Total (dissector w data root) ∧ ∀ p, pktDecode crc32 data stale = (.pktOk,p) →
      dissector w data root = display w data root (shownHeader p) (shownPayload p data.length) := by
  refine ⟨dissector_total documented data root,?_⟩
  intro p decoded
  have fits : data.length ≤ 528 := by
    by_contra long
    rw [pktDecode,if_pos (Nat.lt_of_not_le long)] at decoded
    have refused : Status.eUnconsistent = .pktOk := congrArg Prod.fst decoded
    contradiction
  obtain ⟨header,shape⟩ := (pktDecode_accepts stale fits).mp (congrArg Prod.fst decoded)
  have whole := header.whole
  have holds := overwrite_holds stale fits whole
  have first := overwrite_take stale fits whole
  rw [pktDecode,if_neg (Nat.not_lt_of_le fits)] at decoded
  generalize stale.overwrite data = q at holds first decoded
  have lines := dissector_eq documented q (data.drop 12) root
  rw [first,List.take_append_drop] at lines
  have crc2 := fun total => shownCrc2_eq holds fits decoded total
  obtain ⟨tail,result,_⟩ := pktDecodeInline_result decoded
  have length : p.length = ntohs q.length := congrArg Pkt.length result
  have tr : p.tr = q.tr := by rw [result]
  have seen : shownHeader p = shownHeader (hosted q) := by
    rw [result]
    rfl
  have len : p.length.toNat = lengthField data := by
    rw [length]
    exact holds.length
  have zero : p.length = 0 ↔ lengthField data = 0 := by
    rw [← len,← UInt16.toNat_inj]
    rfl
  have flag : p.tr = true ↔ trField data = 1 := by
    rw [tr]
    exact isTruncated_iff holds
  have payload : payloadLines data p.length.toNat = shownPayload p data.length := by
    rw [payloadLines,shownPayload]
    by_cases bare : data.length = 12
    · rw [if_pos bare,if_neg (by omega),if_neg (by omega),if_neg (by omega)]
    · rw [if_neg bare]
      by_cases cut : p.tr = true ∧ p.length ≠ 0
      · obtain ⟨set,present⟩ := cut
        have truncated := flag.mp set
        have some : lengthField data ≠ 0 := fun none => present (zero.mpr none)
        rw [if_pos (by omega : data.length > 12 ∧ data.length ≠ 16 + p.length.toNat),if_pos ⟨set,present⟩]
      · rw [if_neg cut]
        have total : data.length = 16 + p.length.toNat := by
          rcases shape with ⟨truncated | none,ends⟩ | ⟨_,_,total,_⟩
          · have none : p.length = 0 := by
              by_contra present
              exact cut ⟨flag.mpr truncated,present⟩
            rw [none]
            exact ends.resolve_left bare
          · rw [len,none]
            exact ends.resolve_left bare
          · omega
        rw [if_neg (by omega),if_neg (by omega),if_pos (by omega),crc2 total]
  rw [lines,← length,payload,← seen]

/-- Ranges are their bytes, items their depth, and the tree is what was added, line by line. -/
def plain : Wireshark (List UInt8) Nat (List (Nat × List UInt8 × String)) where
  range buffer offset length :=
    if offset + length ≤ buffer.length then some ((buffer.drop offset).take length) else none
  whole buffer := some buffer
  uint := bigEndian
  bitfield r position length := bigEndian r / 2 ^ (8 * r.length - position - length) % 2 ^ length
  addProto depth r text tree := (depth + 1,tree ++ [(depth,r,text)])
  add depth r text tree := (depth + 1,tree ++ [(depth,r,text)])

theorem plain_documented : Documented plain id where
  inside buffer offset length := by
    change (if offset + length ≤ buffer.length then _ else none).isSome = true ↔ _
    split <;> simp_all
  held buffer offset length r found := by
    change (if offset + length ≤ buffer.length then _ else none) = some r at found
    split at found
    next => exact (Option.some.inj found).symm
    next => contradiction
  whole _ := rfl
  uint _ _ _ := rfl
  bitfield r b position length held _ := by
    obtain rfl : r = [b] := held
    change (256 * 0 + b.toNat) / _ % _ = _
    rw [Nat.mul_zero,Nat.zero_add]
    rfl

theorem threeBytes_encodable : Encodable threeBytes :=
  ⟨rfl,by change 3 ≤ 512; decide,fun _ => ⟨rfl,rfl⟩,fun _ => rfl⟩

theorem dissector_agrees_threeBytes : ∃ p : Pkt, p.type = ptypeData ∧ p.length = 3 ∧
    dissector plain (image Lib.Crc.crc32 threeBytes) 0 = display plain (image Lib.Crc.crc32 threeBytes) 0
      (shownHeader p) (shownPayload p 19) ∧
    ∃ tree, dissector plain (image Lib.Crc.crc32 threeBytes) 0 [] = some ((),tree) := by
  obtain ⟨p,decoded,agrees,_⟩ := pktDecode_image Lib.Crc.crc32 threeBytes Pkt.zero threeBytes_encodable
  obtain ⟨total,shown⟩ := dissector_agrees plain id plain_documented Lib.Crc.crc32
    (image Lib.Crc.crc32 threeBytes) Pkt.zero 0
  have size : (image Lib.Crc.crc32 threeBytes).length = 19 := by decide +kernel
  rw [size] at shown
  exact ⟨p,agrees.type.symm,agrees.length.symm,shown p decoded,total []⟩

end Trtp.Dissector
