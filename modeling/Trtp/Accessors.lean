import Trtp.Codec
import Trtp.Process
import Trtp.Lib.Run

/-! The accessors of packet_implem.c.
A setter checks the value it is given and nothing else: which packets can be built
with them, and which of these survive an encoding, are two different questions. -/
namespace Trtp.Accessors
open Lib.Bytes Lib.Run Packet Codec Process

abbrev Pointer := Option Pkt

abbrev Answer := Status × Pointer

/-- `memory` tells whether calloc finds some. -/
def pktNew (memory : Bool) : Pointer := if memory then some Pkt.zero else none

def validTypeOf (t : Nat) : Bool := t == ptypeData.toNat || t == ptypeAck.toNat || t == ptypeNack.toNat

def validTrOf (t : Nat) (tr : UInt8) : Bool := tr == 0 || t == ptypeData.toNat

/-- ACCESSOR: a field of the packet, zero where there is none. -/
def accessor {α : Type} (zero : α) (field : Pkt → α) (pkt : Pointer) : α := (pkt.map field).getD zero

def pktGetType : Pointer → BitVec 2 := accessor 0 Pkt.type
def pktGetTr : Pointer → UInt8 := accessor 0 (fun p => UInt8.ofNat p.tr.toNat)
def pktGetWindow : Pointer → UInt8 := accessor 0 (fun p => UInt8.ofNat p.window.toNat)
def pktGetSeqnum : Pointer → UInt8 := accessor 0 Pkt.seq
def pktGetLength : Pointer → UInt16 := accessor 0 Pkt.length
def pktGetTimestamp : Pointer → UInt32 := accessor 0 Pkt.ts
def pktGetCrc1 : Pointer → UInt32 := accessor 0 Pkt.crc1
def pktGetCrc2 : Pointer → UInt32 := accessor 0 crc2Field

/-- The address of an array is never NULL, whatever the length says. -/
def pktGetPayload : Pointer → Option (List UInt8) := accessor none (fun p => some (p.payload maxPayloadSize))

/-- SETTER, once the value has passed. -/
def setter (x : Pointer) (set : Pkt → Pkt) : Answer :=
  match x with
  | none => (.eNomem,none)
  | some p => (.pktOk,some (set p))

def pktSetType (pkt : Pointer) (type : UInt32) : Answer :=
  if !validTypeOf type.toNat then (.eType,pkt)
  else setter pkt (fun p => { p with type := BitVec.ofNat 2 type.toNat })

/-- The type of the packet is read before the pointer is compared with NULL, and the
field keeps the lowest bit of the value. -/
def pktSetTr (pkt : Pointer) (tr : UInt8) : Except Halt Answer :=
  match pkt with
  | none => .error .segv
  | some p =>
    .ok (if !validTrOf p.type.toNat tr then (.eTr,pkt) else setter pkt (fun p => { p with tr := tr.toNat % 2 == 1 }))

def pktSetWindow (pkt : Pointer) (window : UInt8) : Answer :=
  if !validWindow window.toNat then (.eWindow,pkt)
  else setter pkt (fun p => { p with window := BitVec.ofNat 5 window.toNat })

def pktSetSeqnum (pkt : Pointer) (seqnum : UInt8) : Answer := setter pkt (fun p => { p with seq := seqnum })

def pktSetLength (pkt : Pointer) (length : UInt16) : Answer :=
  if !validLength length.toNat then (.eLength,pkt) else setter pkt (fun p => { p with length := length })

def pktSetTimestamp (pkt : Pointer) (ts : UInt32) : Answer := setter pkt (fun p => { p with ts := ts })

def pktSetCrc1 (pkt : Pointer) (crc1 : UInt32) : Answer := setter pkt (fun p => { p with crc1 := crc1 })

def pktSetCrc2 (pkt : Pointer) (crc2 : UInt32) : Answer := setter pkt (fun p => p.setCrc2 crc2)

/-- `data` is what can be read from the address that was given. -/
def pktSetPayload (pkt : Pointer) (data : List UInt8) (length : UInt16) : Except Halt Answer :=
  match pktSetLength pkt length with
  | (.pktOk,some p) =>
    if data.length < length.toNat then .error .undefined
    else .ok (.pktOk,some { p with tail := blit p.tail 0 (data.take length.toNat) })
  | answer => .ok answer

inductive Call where
  | type (type : UInt32)
  | tr (tr : UInt8)
  | window (window : UInt8)
  | seqnum (seqnum : UInt8)
  | length (length : UInt16)
  | timestamp (ts : UInt32)
  | crc1 (crc1 : UInt32)
  | crc2 (crc2 : UInt32)
  | payload (data : List UInt8) (length : UInt16)

def call (pkt : Pointer) : Call → Except Halt Answer
  | .type type => .ok (pktSetType pkt type)
  | .tr tr => pktSetTr pkt tr
  | .window window => .ok (pktSetWindow pkt window)
  | .seqnum seqnum => .ok (pktSetSeqnum pkt seqnum)
  | .length length => .ok (pktSetLength pkt length)
  | .timestamp ts => .ok (pktSetTimestamp pkt ts)
  | .crc1 crc1 => .ok (pktSetCrc1 pkt crc1)
  | .crc2 crc2 => .ok (pktSetCrc2 pkt crc2)
  | .payload data length => pktSetPayload pkt data length

def Calls (x : Pointer) (c : Call) (y : Pointer) : Prop := ∃ status, call x c = .ok (status,y)

/-- The packets that pkt_new and the setters can make. -/
def Built (p : Pkt) : Prop := Reach (fun x => x = pktNew true) Calls (fun _ _ => True) (some p)

/-- What the setters do see to. -/
structure Checked (p : Pkt) : Prop where
  length : p.length.toNat ≤ maxPayloadSize
  typed : p.type = 0 → p.tr = false

variable {x y : Pointer} {p : Pkt} {status : Status}

theorem setter_cases {set : Pkt → Pkt} (answered : setter x set = (status,y)) :
    x = none ∧ status = .eNomem ∧ y = none ∨ ∃ p, x = some p ∧ status = .pktOk ∧ y = some (set p) := by
  cases x with
  | none =>
    obtain ⟨rfl,rfl⟩ := Prod.mk.inj answered
    exact Or.inl ⟨rfl,rfl,rfl⟩
  | some p =>
    obtain ⟨rfl,rfl⟩ := Prod.mk.inj answered
    exact Or.inr ⟨p,rfl,rfl,rfl⟩

/-- Inversion of a call: it is refused and changes nothing, or it sets one field of a packet. -/
inductive Answered (x : Pointer) : Call → Status → Pointer → Prop
  | refused (c : Call) (status : Status) (failed : status ≠ .pktOk) : Answered x c status x
  | type (p : Pkt) (present : x = some p) (type : UInt32) (valid : validTypeOf type.toNat = true) :
      Answered x (.type type) .pktOk (some { p with type := BitVec.ofNat 2 type.toNat })
  | tr (p : Pkt) (present : x = some p) (tr : UInt8) (valid : validTrOf p.type.toNat tr = true) :
      Answered x (.tr tr) .pktOk (some { p with tr := tr.toNat % 2 == 1 })
  | window (p : Pkt) (present : x = some p) (window : UInt8) (valid : validWindow window.toNat = true) :
      Answered x (.window window) .pktOk (some { p with window := BitVec.ofNat 5 window.toNat })
  | seqnum (p : Pkt) (present : x = some p) (seqnum : UInt8) :
      Answered x (.seqnum seqnum) .pktOk (some { p with seq := seqnum })
  | length (p : Pkt) (present : x = some p) (length : UInt16) (valid : validLength length.toNat = true) :
      Answered x (.length length) .pktOk (some { p with length := length })
  | timestamp (p : Pkt) (present : x = some p) (ts : UInt32) :
      Answered x (.timestamp ts) .pktOk (some { p with ts := ts })
  | crc1 (p : Pkt) (present : x = some p) (crc1 : UInt32) :
      Answered x (.crc1 crc1) .pktOk (some { p with crc1 := crc1 })
  | crc2 (p : Pkt) (present : x = some p) (crc2 : UInt32) : Answered x (.crc2 crc2) .pktOk (some (p.setCrc2 crc2))
  | payload (p : Pkt) (present : x = some p) (data : List UInt8) (length : UInt16)
      (valid : validLength length.toNat = true) (readable : length.toNat ≤ data.length) :
      Answered x (.payload data length) .pktOk
        (some { p with length := length, tail := blit p.tail 0 (data.take length.toNat) })

theorem setter_answered {set : Pkt → Pkt} {c : Call} (answered : setter x set = (status,y))
    (taken : ∀ p, x = some p → Answered x c .pktOk (some (set p))) : Answered x c status y := by
  rcases setter_cases answered with ⟨rfl,rfl,rfl⟩ | ⟨p,present,rfl,rfl⟩
  · exact .refused c _ (by decide)
  · exact taken p present

theorem call_answered {c : Call} (called : call x c = .ok (status,y)) : Answered x c status y := by
  cases c with
  | type type =>
    have answer := Except.ok.inj called
    rw [pktSetType] at answer
    split at answer
    next =>
      obtain ⟨rfl,rfl⟩ := Prod.mk.inj answer
      exact .refused _ _ (by decide)
    next valid => exact setter_answered answer (fun p present => .type p present type (by simpa using valid))
  | tr tr =>
    cases present : x with
    | none =>
      rw [present] at called
      contradiction
    | some p =>
      rw [present] at called
      have answer := Except.ok.inj called
      split at answer
      next =>
        obtain ⟨rfl,rfl⟩ := Prod.mk.inj answer
        exact .refused _ _ (by decide)
      next valid =>
        refine setter_answered answer (fun q same => ?_)
        obtain rfl := Option.some.inj same
        exact .tr p rfl tr (by simpa using valid)
  | window window =>
    have answer := Except.ok.inj called
    rw [pktSetWindow] at answer
    split at answer
    next =>
      obtain ⟨rfl,rfl⟩ := Prod.mk.inj answer
      exact .refused _ _ (by decide)
    next valid => exact setter_answered answer (fun p present => .window p present window (by simpa using valid))
  | seqnum seqnum => exact setter_answered (Except.ok.inj called) (fun p present => .seqnum p present seqnum)
  | length length =>
    have answer := Except.ok.inj called
    rw [pktSetLength] at answer
    split at answer
    next =>
      obtain ⟨rfl,rfl⟩ := Prod.mk.inj answer
      exact .refused _ _ (by decide)
    next valid => exact setter_answered answer (fun p present => .length p present length (by simpa using valid))
  | timestamp ts => exact setter_answered (Except.ok.inj called) (fun p present => .timestamp p present ts)
  | crc1 crc1 => exact setter_answered (Except.ok.inj called) (fun p present => .crc1 p present crc1)
  | crc2 crc2 => exact setter_answered (Except.ok.inj called) (fun p present => .crc2 p present crc2)
  | payload data length =>
    rw [call,pktSetPayload,pktSetLength] at called
    split at called
    next p set =>
      split at set
      next =>
        have failed : Status.eLength = .pktOk := congrArg Prod.fst set
        contradiction
      next valid =>
        rcases setter_cases set with ⟨_,failed,_⟩ | ⟨q,rfl,_,same⟩
        · contradiction
        · split at called
          next => contradiction
          next readable =>
            obtain ⟨rfl,rfl⟩ := Prod.mk.inj (Except.ok.inj called)
            obtain rfl := Option.some.inj same
            exact .payload q rfl data length (by simpa using valid) (Nat.le_of_not_lt readable)
    next other =>
      have answer := Except.ok.inj called
      split at answer
      next =>
        obtain ⟨rfl,rfl⟩ := Prod.mk.inj answer
        exact .refused _ _ (by decide)
      next valid =>
        rcases setter_cases answer with ⟨rfl,rfl,rfl⟩ | ⟨q,rfl,rfl,rfl⟩
        · exact .refused _ _ (by decide)
        · exact (other _ (if_neg valid)).elim

structure Readings where
  type : BitVec 2
  tr : UInt8
  window : UInt8
  seqnum : UInt8
  length : UInt16
  timestamp : UInt32
  crc1 : UInt32
  crc2 : UInt32
  payload : Option (List UInt8)

def readings (pkt : Pointer) : Readings where
  type := pktGetType pkt
  tr := pktGetTr pkt
  window := pktGetWindow pkt
  seqnum := pktGetSeqnum pkt
  length := pktGetLength pkt
  timestamp := pktGetTimestamp pkt
  crc1 := pktGetCrc1 pkt
  crc2 := pktGetCrc2 pkt
  payload := pktGetPayload pkt

/-- What the getters answer after a call that was taken. -/
def told (r : Readings) : Call → Readings
  | .type type => { r with type := BitVec.ofNat 2 type.toNat }
  | .tr tr => { r with tr := tr % 2 }
  | .window window => { r with window := window }
  | .seqnum seqnum => { r with seqnum := seqnum }
  | .length length => { r with length := length }
  | .timestamp ts => { r with timestamp := ts }
  | .crc1 crc1 => { r with crc1 := crc1 }
  | .crc2 crc2 => { r with crc2 := crc2 }
  | .payload data length =>
    { r with length := length, payload := r.payload.map (fun old => data.take length.toNat ++ old.drop length.toNat) }

theorem payload_blit (tail : Block 516) (bytes : List UInt8) (short : bytes.length ≤ 512) :
    slice (blit tail 0 bytes) 0 512 = bytes ++ (slice tail 0 512).drop bytes.length ∧
    wordAt (blit tail 0 bytes) 512 = wordAt tail 512 := by
  constructor
  · have parts := slice_append (blit tail 0 bytes) 0 bytes.length (512 - bytes.length)
    have before := slice_append tail 0 bytes.length (512 - bytes.length)
    rw [Nat.add_sub_cancel' short] at parts before
    rw [parts,before,slice_blit _ _ _ (by omega),List.drop_left' (slice_length ..)]
    refine congrArg (bytes ++ ·) (slice_congr _ _ _ _ _ (fun i small => ?_))
    exact byteAt_blit_after _ _ _ (by omega)
  · exact wordAt_congr _ _ _ _ (fun i small => byteAt_blit_after _ _ _ (by omega))

/-- The getters read back what the setters set, and nothing else has changed. -/
theorem Answered.reads {c : Call} (answered : Answered x c status y) (taken : status = .pktOk) :
    readings y = told (readings x) c := by
  cases answered with
  | refused _ _ failed => exact absurd taken failed
  | type p present type valid =>
    subst present
    rfl
  | tr p present tr valid =>
    subst present
    have bit : UInt8.ofNat (tr.toNat % 2 == 1).toNat = tr % 2 := by
      rcases Nat.mod_two_eq_zero_or_one tr.toNat with even | odd
      · rw [even]
        exact UInt8.toNat_inj.mp (by rw [UInt8.toNat_mod]; exact even.symm)
      · rw [odd]
        exact UInt8.toNat_inj.mp (by rw [UInt8.toNat_mod]; exact odd.symm)
    exact congrArg (fun value => { readings (some p) with tr := value }) bit
  | window p present window valid =>
    subst present
    have small : window.toNat ≤ 31 := of_decide_eq_true valid
    have kept : UInt8.ofNat (BitVec.ofNat 5 window.toNat).toNat = window := by
      rw [BitVec.toNat_ofNat,Nat.mod_eq_of_lt (by omega),UInt8.ofNat_toNat]
    exact congrArg (fun value => { readings (some p) with window := value }) kept
  | seqnum p present seqnum =>
    subst present
    rfl
  | length p present length valid =>
    subst present
    rfl
  | timestamp p present ts =>
    subst present
    rfl
  | crc1 p present crc1 =>
    subst present
    rfl
  | crc2 p present crc2 =>
    subst present
    have word : wordAt (blit p.tail 512 (bytes32 crc2)) 512 = crc2 := wordAt_blit _ _ _ (by decide)
    have front : slice (blit p.tail 512 (bytes32 crc2)) 0 512 = slice p.tail 0 512 :=
      slice_blit_before _ _ _ _ _ (by decide)
    rw [setCrc2_eq]
    exact congrArg₂ (fun value payload => { readings (some p) with crc2 := value, payload := some payload }) word front
  | payload p present data length valid readable =>
    subst present
    have short : length.toNat ≤ 512 := of_decide_eq_true valid
    have size : (data.take length.toNat).length = length.toNat := List.length_take_of_le readable
    obtain ⟨front,word⟩ := payload_blit p.tail (data.take length.toNat) (by omega)
    rw [size] at front
    exact congrArg₂ (fun value payload =>
      { readings (some p) with length := length, crc2 := value, payload := some payload }) word front

theorem Checked.reads {p q : Pkt} (checked : Checked p) (type : pktGetType (some q) = pktGetType (some p))
    (tr : pktGetTr (some q) = pktGetTr (some p)) (length : pktGetLength (some q) = pktGetLength (some p)) :
    Checked q := by
  have flag : q.tr = p.tr := by
    have same : UInt8.ofNat q.tr.toNat = UInt8.ofNat p.tr.toNat := tr
    revert same
    cases p.tr <;> cases q.tr <;> decide
  refine ⟨?_,fun untyped => ?_⟩
  · have same : q.length = p.length := length
    rw [same]
    exact checked.length
  · have same : q.type = p.type := type
    rw [flag]
    exact checked.typed (same.symm.trans untyped)

theorem Answered.checked {c : Call} (answered : Answered x c status y) (before : ∀ p, x = some p → Checked p) :
    ∀ p, y = some p → Checked p := by
  intro q same
  have reads := answered.reads
  -- The setters of the other six fields.
  have kept {p : Pkt} (present : x = some p) (taken : status = .pktOk) (elsewhere : ∀ r : Readings,
      (told r c).type = r.type ∧ (told r c).tr = r.tr ∧ (told r c).length = r.length) : Checked q := by
    obtain ⟨type,tr,length⟩ := elsewhere (readings x)
    rw [← reads taken,same,present] at type tr length
    exact (before p present).reads type tr length
  cases answered with
  | refused _ _ failed => exact before q same
  | type p present type valid =>
    obtain rfl := Option.some.inj same
    refine ⟨(before p present).length,?_⟩
    intro untyped
    have zero : type.toNat % 4 = 0 := by
      have number := congrArg BitVec.toNat untyped
      change (BitVec.ofNat 2 type.toNat).toNat = 0 at number
      rwa [BitVec.toNat_ofNat] at number
    simp only [validTypeOf,Bool.or_eq_true,beq_iff_eq] at valid
    have one : ptypeData.toNat = 1 ∧ ptypeAck.toNat = 2 ∧ ptypeNack.toNat = 3 := by decide
    omega
  | tr p present tr valid =>
    obtain rfl := Option.some.inj same
    refine ⟨(before p present).length,?_⟩
    intro untyped
    change p.type = 0 at untyped
    rw [untyped,validTrOf,Bool.or_eq_true,beq_iff_eq] at valid
    rcases valid with zero | data
    · change (tr.toNat % 2 == 1) = false
      rw [zero]
      rfl
    · exact absurd data (by decide)
  | window p present window valid => exact kept present rfl (fun _ => ⟨rfl,rfl,rfl⟩)
  | seqnum p present seqnum => exact kept present rfl (fun _ => ⟨rfl,rfl,rfl⟩)
  | length p present length valid =>
    obtain rfl := Option.some.inj same
    exact ⟨of_decide_eq_true valid,(before p present).typed⟩
  | timestamp p present ts => exact kept present rfl (fun _ => ⟨rfl,rfl,rfl⟩)
  | crc1 p present crc1 => exact kept present rfl (fun _ => ⟨rfl,rfl,rfl⟩)
  | crc2 p present crc2 => exact kept present rfl (fun _ => ⟨rfl,rfl,rfl⟩)
  | payload p present data length valid readable =>
    obtain rfl := Option.some.inj same
    exact ⟨of_decide_eq_true valid,(before p present).typed⟩

theorem Built.checked (built : Built p) : Checked p := by
  have all : ∀ q, some p = some q → Checked q := by
    refine @Reach.invariant _ _ _ _ _ (fun x => ∀ q, x = some q → Checked q) ?_ ?_ _ built
    · rintro x rfl q same
      obtain rfl := Option.some.inj same
      exact ⟨Nat.zero_le _,fun _ => rfl⟩
    · rintro x c y before _ ⟨status,called⟩
      exact (call_answered called).checked before
  exact all p rfl

theorem Built.then {q : Pkt} (built : Built p) (c : Call) (called : call (some p) c = .ok (.pktOk,some q)) : Built q :=
  .step _ c _ built trivial ⟨.pktOk,called⟩

theorem tail_eq (stale tail : Block 516) :
    blit (blit stale 0 (slice tail 0 512)) 512 (bytes32 (wordAt tail 512)) = tail := by
  funext i
  have inside := i.isLt
  suffices same : byteAt (blit (blit stale 0 (slice tail 0 512)) 512 (bytes32 (wordAt tail 512))) i.val =
      byteAt tail i.val by
    rwa [byteAt_of_lt _ inside,byteAt_of_lt _ inside] at same
  rw [byteAt_blit _ _ _ inside]
  split
  next payload =>
    rw [byteAt_blit _ _ _ inside,if_neg (Nat.not_lt_zero _),Nat.sub_zero,slice_getElem? _ _ _ _ payload,Nat.zero_add]
    rfl
  next crc =>
    obtain ⟨k,small,shift⟩ : ∃ k < 4, i.val = 512 + k := ⟨i.val - 512,by omega,by omega⟩
    rw [shift,Nat.add_sub_cancel_left,wordAt]
    interval_cases k <;> simp [bytes32]

theorem Built.restored {stale tail : Block 516} (built : Built { p with tail := blit stale 0 (slice tail 0 512) }) :
    Built { p with tail := tail } := by
  have set : Built (({ p with tail := blit stale 0 (slice tail 0 512) } : Pkt).setCrc2 (wordAt tail 512)) :=
    built.then (.crc2 (wordAt tail 512)) rfl
  have whole := tail_eq stale tail
  generalize slice tail 0 512 = payload at set whole
  rw [setCrc2_eq] at set
  change Built { p with tail := blit (blit stale 0 payload) 512 (bytes32 (wordAt tail 512)) } at set
  rwa [whole] at set

theorem Built.typed (built : Built p) (type : BitVec 2) (valid : validType type = true) :
    Built { p with type := type } := by
  refine built.then (.type (UInt32.ofNat type.toNat)) ?_
  have small := type.isLt
  have number : (UInt32.ofNat type.toNat).toNat = type.toNat := by
    rw [UInt32.toNat_ofNat']
    omega
  have listed : validTypeOf type.toNat = true := by
    simpa only [validType,validTypeOf,Bool.or_eq_true,beq_iff_eq,← BitVec.toNat_inj] using valid
  rw [call,pktSetType,number,listed,BitVec.ofNat_toNat,BitVec.setWidth_eq]
  rfl

theorem Built.flagged (built : Built p) (clear : p.tr = false) (type : BitVec 2) (tr : Bool)
    (valid : validType type = true) :
    Built { p with type := type, tr := tr } := by
  cases tr with
  | false =>
    have typed := built.typed type valid
    rw [← clear]
    exact typed
  | true =>
    have set : Built { p with type := ptypeData, tr := true } := (built.typed ptypeData rfl).then (.tr 1) rfl
    exact set.typed type valid

theorem pktSetPayload_eq (p : Pkt) {data : List UInt8} {length : UInt16} (short : length.toNat ≤ maxPayloadSize)
    (readable : length.toNat ≤ data.length) : pktSetPayload (some p) data length =
      .ok (.pktOk,some { p with length := length, tail := blit p.tail 0 (data.take length.toNat) }) := by
  have valid : validLength length.toNat = true := decide_eq_true short
  have set : pktSetLength (some p) length = (.pktOk,some { p with length := length }) := by
    rw [pktSetLength,valid]
    rfl
  rw [pktSetPayload,set]
  exact if_neg (Nat.not_lt_of_le readable)

theorem validType_of_ne : ∀ type : BitVec 2, type ≠ 0 → validType type = true := by decide

theorem Checked.built (checked : Checked p) : Built p := by
  obtain ⟨window,tr,type,seq,length,ts,crc1,tail⟩ := p
  obtain ⟨short,typed⟩ := checked
  have start : Built Pkt.zero := .start _ rfl
  have payload : Built { Pkt.zero with length := 512, tail := blit Pkt.zero.tail 0 (slice tail 0 512) } := by
    have whole : (slice tail 0 512).take (512 : UInt16).toNat = slice tail 0 512 :=
      List.take_of_length_le (Nat.le_of_eq (slice_length _ _ _))
    have called := pktSetPayload_eq Pkt.zero (Nat.le_refl (512 : UInt16).toNat)
      (Nat.le_of_eq (slice_length tail 0 512).symm)
    rw [whole] at called
    exact start.then (.payload (slice tail 0 512) 512) called
  have filled : Built { Pkt.zero with length := 512, tail := tail } :=
    @Built.restored { Pkt.zero with length := 512 } Pkt.zero.tail tail payload
  have numbered : Built { Pkt.zero with length := length, tail := tail } := by
    refine filled.then (.length length) ?_
    have valid : validLength length.toNat = true := decide_eq_true short
    rw [call,pktSetLength,valid]
    rfl
  have rest : Built { Pkt.zero with length := length, tail := tail, seq := seq, ts := ts, crc1 := crc1 } :=
    ((numbered.then (.seqnum seq) rfl).then (.timestamp ts) rfl).then (.crc1 crc1) rfl
  have open' : Built ⟨window,false,0,seq,length,ts,crc1,tail⟩ := by
    refine rest.then (.window (UInt8.ofNat window.toNat)) ?_
    have small := window.isLt
    have number : (UInt8.ofNat window.toNat).toNat = window.toNat := by
      rw [UInt8.toNat_ofNat']
      omega
    have valid : validWindow window.toNat = true := decide_eq_true (by unfold maxWindowSize; omega)
    rw [call,pktSetWindow,number,valid,BitVec.ofNat_toNat,BitVec.setWidth_eq]
    rfl
  by_cases untyped : type = 0
  · subst untyped
    obtain rfl : tr = false := typed rfl
    exact open'
  · exact open'.flagged rfl type tr (validType_of_ne type untyped)

/-- The packets that can be built with pkt_new and the setters are those with a
length of at most 512 in which TR is only set under some type. -/
theorem built_iff (p : Pkt) : Built p ↔ p.length.toNat ≤ maxPayloadSize ∧ (p.type = 0 → p.tr = false) :=
  ⟨fun built => ⟨built.checked.length,built.checked.typed⟩,fun both => Checked.built ⟨both.1,both.2⟩⟩

/-- What pkt_decode answers to the encoding of a packet that was built. -/
def verdict (p : Pkt) : Status :=
  if !validType p.type then .eType
  else if !validTr p.type p.tr then .eTr
  else if p.length ≠ 0 ∧ (p.tr = true ∨ p.type ≠ ptypeData) then .eUnconsistent
  else .pktOk

section RoundTrip

variable (crc32 : List UInt8 → UInt32)

theorem toNat_ne_zero {n : UInt16} (present : n ≠ 0) : n.toNat ≠ 0 := by
  rw [ne_eq,← UInt16.toNat_zero,UInt16.toNat_inj]
  exact present

theorem pktDecode_image_eq (p stale : Pkt) (short : p.length.toNat ≤ maxPayloadSize) :
    ∃ tail, pktDecode crc32 (image crc32 p) stale =
      pktDecodeInline crc32 { wireHeader crc32 p with tail := tail } (pktLen p) := by
  have size := image_length crc32 p
  have fits : ¬ (image crc32 p).length > 528 := by
    unfold maxPayloadSize at short
    rw [size,pktLen]
    split <;> simp only [pktHeaderLen,pktFooterLen] <;> omega
  rw [pktDecode,if_neg fits,size]
  unfold image
  rw [overwrite_header]
  exact ⟨_,rfl⟩

theorem twelve_le_pktLen (p : Pkt) : 12 ≤ pktLen p := by
  rw [pktLen]
  split <;> simp only [pktHeaderLen,pktFooterLen] <;> omega

theorem pktDecode_untyped (p stale : Pkt) (short : p.length.toNat ≤ maxPayloadSize)
    (untyped : validType p.type = false) :
    (pktDecode crc32 (image crc32 p) stale).1 = .eType := by
  obtain ⟨tail,decoded⟩ := pktDecode_image_eq crc32 p stale short
  have whole : ¬ pktLen p < pktMinLen := Nat.not_lt_of_le (twelve_le_pktLen p)
  rw [decoded,pktDecodeInline,if_neg whole]
  simp only [wireHeader,untyped,Bool.not_false,if_true]

theorem pktDecode_mistaken (p stale : Pkt) (short : p.length.toNat ≤ maxPayloadSize) (typed : validType p.type = true)
    (mistaken : validTr p.type p.tr = false) : (pktDecode crc32 (image crc32 p) stale).1 = .eTr := by
  obtain ⟨tail,decoded⟩ := pktDecode_image_eq crc32 p stale short
  have whole : ¬ pktLen p < pktMinLen := Nat.not_lt_of_le (twelve_le_pktLen p)
  rw [decoded,pktDecodeInline,if_neg whole]
  simp only [wireHeader,typed,mistaken,Bool.not_true,Bool.not_false,Bool.false_eq_true,if_false,if_true]

theorem pktDecode_laden (p stale : Pkt) (short : p.length.toNat ≤ maxPayloadSize) (typed : validType p.type = true)
    (flagged : p.tr = true → p.type = ptypeData) (present : p.length ≠ 0)
    (bare : p.tr = true ∨ p.type ≠ ptypeData) : (pktDecode crc32 (image crc32 p) stale).1 = .eUnconsistent := by
  obtain ⟨tail,decoded⟩ := pktDecode_image_eq crc32 p stale short
  have positive := toNat_ne_zero present
  have size : pktLen p = 16 + p.length.toNat := by
    rw [pktLen,if_pos present]
    rfl
  have more : sizeSub (16 + p.length.toNat) 12 = p.length.toNat + 4 := by
    unfold maxPayloadSize at short
    rw [sizeSub_of_le (by omega) (by omega)]
    omega
  have payload : sizeSub (p.length.toNat + 4) 4 = p.length.toNat := by
    unfold maxPayloadSize at short
    rw [sizeSub_of_le (by omega) (by omega)]
    omega
  have some : p.length.toNat + 4 ≠ 0 := by omega
  rw [decoded,pktDecodeInline_header crc32 p tail _ (twelve_le_pktLen p) typed flagged short,size,more,
    if_pos some,payload,
    pktCheckPayload]
  by_cases data : p.type = ptypeData
  · have set : p.tr = true := bare.resolve_right (fun other => other data)
    simp only [data,set,if_true,positive,ne_eq,not_false_eq_true]
  · simp only [data,if_false,positive,ne_eq,not_false_eq_true,true_or,if_true]

/-- Every packet that can be built is encoded, and what the decoder answers to it
follows from its type, TR and length; where it answers PKT_OK it returns the packet. -/
theorem built_roundTrip (p stale : Pkt) (built : Built p) (mem : Memory) (room : Nat) (enough : pktLen p ≤ room) :
    ∃ written, pktEncode crc32 p (some mem) (some room) = (.pktOk,some written,some (pktLen p)) ∧
      (pktDecode crc32 ((List.range (pktLen p)).map written) stale).1 = verdict p ∧
      (verdict p = .pktOk → Agrees p (pktDecode crc32 ((List.range (pktLen p)).map written) stale).2) := by
  have short := built.checked.length
  obtain ⟨written,encoded,datagram⟩ := pktEncode_image crc32 p mem room short enough
  refine ⟨written,encoded,?_⟩
  rw [datagram,verdict]
  cases typed : validType p.type with
  | false =>
    refine ⟨pktDecode_untyped crc32 p stale short typed,?_⟩
    intro impossible
    contradiction
  | true =>
    cases allowed : validTr p.type p.tr with
    | false =>
      refine ⟨pktDecode_mistaken crc32 p stale short typed allowed,?_⟩
      intro impossible
      contradiction
    | true =>
      have flagged : p.tr = true → p.type = ptypeData := by
        intro set
        simpa [validTr,set] using allowed
      by_cases laden : p.length ≠ 0 ∧ (p.tr = true ∨ p.type ≠ ptypeData)
      · rw [if_pos laden]
        refine ⟨pktDecode_laden crc32 p stale short typed flagged laden.1 laden.2,?_⟩
        intro impossible
        contradiction
      · have valid : Encodable p := by
          refine ⟨typed,short,?_,flagged⟩
          intro present
          by_cases data : p.type = ptypeData
          · refine ⟨data,?_⟩
            by_contra set
            exact laden ⟨present,Or.inl (by simpa using set)⟩
          · exact absurd ⟨present,Or.inr data⟩ laden
        obtain ⟨q,decoded,agrees,_⟩ := pktDecode_image crc32 p stale valid
        rw [if_neg laden,decoded]
        exact ⟨rfl,fun _ => agrees⟩

end RoundTrip

theorem built_roundTrip_flaggedAck : ∃ written : Memory,
    (pktDecode Lib.Crc.crc32 ((List.range 12).map written) Pkt.zero).1 = .eTr := by
  have built : Built { Pkt.zero with type := ptypeAck, tr := true } :=
    Checked.built ⟨Nat.zero_le _,fun untyped => absurd untyped (by decide)⟩
  obtain ⟨written,_,answer,_⟩ := built_roundTrip Lib.Crc.crc32 _ Pkt.zero built (fun _ => 0) 12 (Nat.le_refl 12)
  exact ⟨written,answer⟩

end Trtp.Accessors
