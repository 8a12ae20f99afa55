import Trtp.Acknowledgement

/-! Selective repeat: packets inside the window are put in order, whatever the order
in which they come and however often. -/
namespace Trtp.AnyOrder
open Lib.Circular Lib.Mask Lib.Reorder Lib.Run Lib.Serial Packet Codec Process Buffer Net Receive ReceiveBuffer
open ReceiverRuns DataStream InOrder Acknowledgement

/-- The receiver without the counts of what it has done, which it never consults. -/
def Receiver.uncounted (s : Receiver) : Receiver :=
    { s with expected := 0, drained := 0, accepted := [], replies := [] }

variable {h : Host} {s t : Receiver}

theorem acceptPkt_blind (h : Host) (place : UInt32) (distance gap : UInt8) :
    Outcome.Blind Receiver.uncounted (acceptPkt h place distance gap) := by
  intro s
  unfold acceptPkt
  by_cases long : distance.toNat + gap.toNat ≥ 32
  · simp only [if_pos long]
    rfl
  · simp only [if_neg long]
    by_cases ahead : gap > 0
    · simp only [if_pos ahead,Receiver.uncounted]
      cases pktbufSlotforSeq h (setSeq s.recvBuf place s.expectedSeq) (s.recvBuf.head place).seq <;> rfl
    · simp only [if_neg ahead]
      rfl

theorem processIncomingPkt_blind (h : Host) (place : UInt32) :
    Outcome.Blind Receiver.uncounted (processIncomingPkt h place) := by
  intro s
  have same : distance (Receiver.uncounted s) = distance s := rfl
  cases found : distance s with
  | none =>
    rw [processIncomingPkt_lost place found,processIncomingPkt_lost place (same.trans found)]
    rfl
  | some d =>
    cases cut : (s.recvBuf.head place).tr with
    | true =>
      rw [processIncomingPkt_cut place found cut,processIncomingPkt_cut place (same.trans found) cut]
      rfl
    | false =>
      rw [processIncomingPkt_whole place found cut,processIncomingPkt_whole place (same.trans found) cut]
      exact acceptPkt_blind h place d _ (Receiver.timed place s)

theorem doReceiveData_blind (h : Host) (input : Recv) :
    Outcome.Blind Receiver.uncounted (doReceiveData h input) := by
  intro s
  have found : pktbufSlotforSeq h (Receiver.uncounted s).recvBuf (Receiver.uncounted s).expectedSeq =
    pktbufSlotforSeq h s.recvBuf s.expectedSeq := rfl
  unfold doReceiveData
  simp only [found]
  cases pktbufSlotforSeq h s.recvBuf s.expectedSeq with
  | error reason => rfl
  | ok result =>
    obtain ⟨place,buf⟩ := result
    simp only [Outcome.call_ok]
    have received : netRecvPkt h (buf.head place) (Receiver.uncounted s).expectedSeq
        (windowSize (Receiver.uncounted s)).toUInt8 input =
      netRecvPkt h (buf.head place) s.expectedSeq (windowSize s).toUInt8 input := rfl
    simp only [received]
    cases netRecvPkt h (buf.head place) s.expectedSeq (windowSize s).toUInt8 input with
    | mk status pkt =>
      cases status with
      | netError => rfl
      | netDrop => rfl
      | netOk =>
        by_cases other : pkt.type ≠ ptypeData
        · simp only [if_pos other]
          rfl
        · simp only [if_neg other]
          exact processIncomingPkt_blind h place (Receiver.holding s (buf.put place pkt))

theorem dequeueFirst_blind (h : Host) (payload : List UInt8) {next : Receiver → Outcome Halt Receiver}
    (later : Outcome.Blind Receiver.uncounted next) :
    Outcome.Blind Receiver.uncounted (fun s => dequeueFirst h payload s next) := by
  intro s
  have buffer : (Receiver.uncounted s).recvBuf = s.recvBuf := rfl
  simp only [dequeueFirst,buffer]
  cases pktbufDequeue h s.recvBuf with
  | error reason => rfl
  | ok result =>
    simp only [Outcome.call_ok]
    exact later.alike rfl

/-- What do_empty_rbuf does with the packet at the front. -/
def writeFront (h : Host) (front : UInt32) (next : Receiver → Outcome Halt Receiver) (s : Receiver) :
    Outcome Halt Receiver :=
  let pkt := s.recvBuf.head front
  let payload := pkt.payload pkt.length.toNat
  let s := { s with lastWrittenLen := pkt.length.toNat }
  if pkt.length ≠ 0 then
    let tried := { s with fileWrites := s.fileWrites + 1 }
    match h.write s.fileWrites with
    | .again => .ret tried
    | .error => .err tried
    | .short count => .err { tried with output := s.output ++ payload.take count }
    | .complete => dequeueFirst h payload tried next
  else dequeueFirst h [] s next

theorem writeFront_blind (h : Host) (front : UInt32) {next : Receiver → Outcome Halt Receiver}
    (later : Outcome.Blind Receiver.uncounted next) : Outcome.Blind Receiver.uncounted (writeFront h front next) := by
  intro s
  have buffer : (Receiver.uncounted s).recvBuf = s.recvBuf := rfl
  have writes : (Receiver.uncounted s).fileWrites = s.fileWrites := rfl
  simp only [writeFront,buffer,writes]
  by_cases last : (s.recvBuf.head front).length ≠ 0
  · simp only [if_pos last]
    cases h.write s.fileWrites with
    | again => rfl
    | error => rfl
    | short count => rfl
    | complete => exact (dequeueFirst_blind h _ later).alike rfl
  · simp only [if_neg last]
    exact (dequeueFirst_blind h _ later).alike rfl

theorem emptyLoop_blind (h : Host) (fuel : Nat) : Outcome.Blind Receiver.uncounted (emptyLoop h fuel) := by
  induction fuel with
  | zero => exact fun s => rfl
  | succ fuel ih =>
    intro s
    have mask : (Receiver.uncounted s).oosMask = s.oosMask := rfl
    have buffer : (Receiver.uncounted s).recvBuf = s.recvBuf := rfl
    unfold emptyLoop
    rw [mask,buffer]
    by_cases set : s.oosMask &&& 1 = 1
    · simp only [if_pos set]
      cases assert h (!pktbufEmpty s.recvBuf) with
      | error reason => rfl
      | ok _ =>
        simp only [Outcome.call_ok]
        cases pktbufFirst s.recvBuf with
        | none => rfl
        | some front => exact writeFront_blind h front ih s
    · simp only [if_neg set]
      rfl

theorem doReadSock_blind (h : Host) (input : Recv) : Outcome.Blind Receiver.uncounted (doReadSock h input) := by
  intro s
  have full : rbufFull (Receiver.uncounted s) = rbufFull s := rfl
  unfold doReadSock
  rw [full]
  cases rbufFull s with
  | true => cases input <;> rfl
  | false => exact doReceiveData_blind h input s

def deliver (h : Host) (p : Pkt) (s : Receiver) : Outcome Halt Receiver :=
  (doReadSock h (.datagram (image h.crc32 p)) s).andThen (doEmptyRbuf h)

def deliverAll (h : Host) : List Pkt → Receiver → Outcome Halt Receiver
  | [], s => .ret s
  | p :: rest, s => (deliver h p s).andThen (deliverAll h rest)

theorem deliver_blind (h : Host) (p : Pkt) : Outcome.Blind Receiver.uncounted (deliver h p) :=
  (doReadSock_blind h _).andThen (emptyLoop_blind h 32)

theorem deliverAll_blind (h : Host) (order : List Pkt) : Outcome.Blind Receiver.uncounted (deliverAll h order) := by
  induction order with
  | nil => exact fun s => rfl
  | cons p rest ih => exact (deliver_blind h p).andThen ih

theorem doReceiveData_takes (sound : Sound s) (clear : bit s.oosMask 0 = false)
    (room : popcount s.oosMask < s.maxWindow.toNat) {p : Pkt} (valid : Encodable p) (data : p.type = ptypeData)
    (whole : p.tr = false) :
    ∃ t, doReceiveData h (.datagram (image h.crc32 p)) s = .ret t ∧ t.accepted =
      if (p.seq - s.expectedSeq).toNat ≤ s.maxWindow.toNat
        then s.accepted ++ [s.expected + (p.seq - s.expectedSeq).toNat] else s.accepted := by
  have most := sound.most
  have ones := trailingOnes_eq_zero clear
  unfold maxWindowSize at most
  obtain ⟨more,found,extended,kept,grown⟩ := sound.reserve (h := h) (k := 0) (by omega) (fun _ => rfl)
  have inside : 0 < more.size := by omega
  have front := sound.expected_eq_drained clear
  rw [Nat.add_zero,← front,← sound.expectedSeq] at found
  obtain ⟨q,received,agrees⟩ := @netRecvfrom_image h p valid (more.head (s.recvBuf.slot 0))
  have size := sound.window8
  rw [ones,Nat.sub_zero] at size
  rw [agrees.seq]
  by_cases near : (q.seq - s.expectedSeq).toNat ≤ s.maxWindow.toNat
  · have through : netRecvPkt h (more.head (s.recvBuf.slot 0)) s.expectedSeq (windowSize s).toUInt8
        (.datagram (image h.crc32 p)) = (.netOk,q) := by
      rw [netRecvPkt,received]
      exact if_neg (UInt8.not_lt.mpr (UInt8.le_iff_toNat_le.mpr (by omega)))
    have type : q.type = ptypeData := agrees.type.symm.trans data
    let base := Receiver.holding { s with lastTs := q.ts } more
    have ready : Sound base := (sound.reserved kept).frame rfl
    have number : q.seq = serial (s.expected + (q.seq - s.expectedSeq).toNat) := by
      rw [sound.expectedSeq,serial_offset]
    obtain ⟨last,_,_,ended⟩ := @acceptPkt_stores h base ready clear inside room q (q.seq - s.expectedSeq)
      (by omega) number
    have own : (Receiver.holding s (more.put (s.recvBuf.slot 0) q)).recvBuf.head (s.recvBuf.slot 0) = q :=
      more.put_head_self _ q
    have none : distance (Receiver.holding s (more.put (s.recvBuf.slot 0) q)) = some 0 := by
      apply if_neg
      intro one
      have waiting : bit s.oosMask 0 = true := (and_one_iff _).mp one
      rw [clear] at waiting
      contradiction
    have processed := @processIncomingPkt_whole h _ (s.recvBuf.slot 0) 0 none
      (by rw [own]; exact agrees.tr.symm.trans whole)
    have timed : Receiver.timed (s.recvBuf.slot 0) (Receiver.holding s (more.put (s.recvBuf.slot 0) q)) =
        Receiver.holding base (more.put (s.recvBuf.slot 0) q) := by
      simp only [Receiver.timed,own]
      rfl
    have place : base.recvBuf.slot 0 = s.recvBuf.slot 0 := extended.slot 0
    rw [place] at ended
    rw [own,timed] at processed
    have taken := processed.trans ended
    simp only [doReceiveData,found,Outcome.call_ok,through,type,ne_eq,not_true,if_false,if_pos near]
    exact ⟨_,taken,rfl⟩
  · have dropped : netRecvPkt h (more.head (s.recvBuf.slot 0)) s.expectedSeq (windowSize s).toUInt8
        (.datagram (image h.crc32 p)) = (.netDrop,q) := by
      rw [netRecvPkt,received]
      exact if_pos (UInt8.lt_iff_toNat_lt.mpr (by omega))
    simp only [doReceiveData,found,Outcome.call_ok,dropped,if_neg near]
    exact ⟨_,rfl,rfl⟩

/-- The packets `got`, counted from `base`, have been delivered: they are accepted,
and what is in sequence is written. -/
structure Gathered (base window : Nat) (payload : Nat → List UInt8) (got : Finset Nat) (s : Receiver) : Prop where
  sound : Sound s
  clear : bit s.oosMask 0 = false
  window : s.maxWindow.toNat = window
  accepted : ∀ n, n ∈ s.accepted ↔ n < base ∨ ∃ k ∈ got, n = base + k
  carrying : Carrying payload s

namespace Gathered

variable {base window : Nat} {payload : Nat → List UInt8} {got : Finset Nat}

theorem base_le (gathered : Gathered base window payload got s) : base ≤ s.expected := by
  by_contra before
  exact gathered.sound.isLeast.1 ((gathered.accepted _).mpr (Or.inl (by omega)))

theorem expected_le (gathered : Gathered base window payload got s) (inside : ∀ k ∈ got, k < window) :
    s.expected ≤ base + window := by
  apply gathered.sound.isLeast.2
  intro held
  rcases (gathered.accepted _).mp held with before | ⟨k,member,same⟩
  · omega
  · have bound := inside k member
    omega

theorem marked (gathered : Gathered base window payload got s) (i : Nat) :
    bit s.oosMask i = true ↔ ∃ k ∈ got, s.expected + i = base + k := by
  have front := gathered.sound.expected_eq_drained gathered.clear
  have after := gathered.base_le
  have stored : s.expected + i ∈ s.accepted ↔ bit s.oosMask i = true := by
    rw [gathered.sound.accepted,front]
    exact Reassembly.mem_masked_add
  rw [← stored,gathered.accepted]
  exact or_iff_right (by omega)

theorem room (gathered : Gathered base window payload got s) (inside : ∀ k ∈ got, k < window) :
    popcount s.oosMask < s.maxWindow.toNat := by
  have after := gathered.base_le
  have within (i : Nat) (set : bit s.oosMask i = true) : i < window := by
    obtain ⟨k,member,same⟩ := (gathered.marked i).mp set
    have bound := inside k member
    omega
  have ones := trailingOnes_eq_zero gathered.clear
  have least := gathered.sound.least
  have full := full_iff within
  rw [gathered.window] at least ⊢
  by_contra many
  have run := full.mp (by omega)
  omega

theorem deliver (gathered : Gathered base window payload got s) (inside : ∀ k ∈ got, k < window)
    (complete : ∀ n, h.write n = .complete) {k : Nat} (near : k < window) {p : Pkt} (valid : Encodable p)
    (data : p.type = ptypeData) (whole : p.tr = false) (number : p.seq = serial (base + k))
    (carried : content p = payload (base + k)) :
    ∃ t, AnyOrder.deliver h p s = .ret t ∧ Gathered base window payload (insert k got) t := by
  have sound := gathered.sound
  have after := gathered.base_le
  have bound := gathered.expected_le inside
  have room := gathered.room inside
  have most := sound.most
  have least := sound.least
  have limit := gathered.window
  unfold maxWindowSize at most
  have obliging : Obliging h := fun n => Or.inl (complete n)
  have notFull := (rbufFull_iff sound).mpr room
  have timely : ¬ Early h s (.datagram (image h.crc32 p)) := by
    rintro ⟨set,_⟩
    rw [gathered.clear] at set
    contradiction
  obtain ⟨t,read,accepted⟩ := doReceiveData_takes (h := h) sound gathered.clear room valid data whole
  have moves := (doReceiveData_moves sound notFull timely).of_ret read
  have faithful (n : Nat) (q : Pkt) (arrived : Arrived h (some (.datagram (image h.crc32 p))) s n q)
      (_ : q.tr = false) : content q = payload n := by
    obtain ⟨⟨input,stale,brought,got⟩,seq,low,high⟩ := arrived
    obtain rfl := Option.some.inj brought
    obtain ⟨q',received,agrees⟩ := netRecvfrom_image (h := h) valid stale
    rw [received] at got
    obtain rfl : q' = q := (Prod.mk.inj got).2
    have same : serial (base + k) = serial n := by rw [← number,agrees.seq,seq]
    have residues := serial_eq_iff.mp same
    obtain rfl : base + k = n := by omega
    rw [content_agrees agrees,carried]
  have soundRead : Sound t := Moves.sound moves sound
  obtain ⟨u,emptied,writes,clear⟩ := @emptyLoop_moves h (fun _ _ => False) obliging 32 t soundRead
  have same : u.accepted = t.accepted := by
    obtain ⟨more,appended,none⟩ := moves_accepted writes
    cases more with
    | nil => rw [appended,List.append_nil]
    | cons n rest => exact absurd (none n List.mem_cons_self).choose_spec.1 id
  refine ⟨u,?_,Moves.sound writes soundRead,clear complete (trailingOnes_le t.oosMask),?_,?_,?_⟩
  · have socket : doReadSock h (.datagram (image h.crc32 p)) s = .ret t := by
      rw [doReadSock,notFull]
      exact read
    rw [AnyOrder.deliver,socket,Outcome.ret_andThen]
    exact emptied
  · rw [Moves.maxWindow writes,Moves.maxWindow moves]
    exact limit
  · intro n
    have either : n ∈ u.accepted ↔ n ∈ s.accepted ∨ n = base + k := by
      rw [same,accepted,number,sound.expectedSeq]
      rcases Nat.lt_or_ge (base + k) s.expected with passed | ahead
      · have far : ¬ (serial (base + k) - serial s.expected).toNat ≤ s.maxWindow.toNat := by
          rw [UInt8.toNat_sub,serial_toNat,serial_toNat]
          omega
        have held : base + k ∈ s.accepted := by
          by_contra missing
          have least := sound.isLeast.2 missing
          omega
        rw [if_neg far]
        exact (or_iff_left_of_imp (fun equal => equal ▸ held)).symm
      · have gap : (serial (base + k) - serial s.expected).toNat = base + k - s.expected := serial_sub ahead (by omega)
        rw [gap,if_pos (by omega),Nat.add_sub_cancel' ahead,List.mem_append,List.mem_singleton]
    rw [either,gathered.accepted]
    constructor
    · rintro ((before | ⟨j,member,equal⟩) | equal)
      · exact Or.inl before
      · exact Or.inr ⟨j,Finset.mem_insert_of_mem member,equal⟩
      · exact Or.inr ⟨k,Finset.mem_insert_self k got,equal⟩
    · rintro (before | ⟨j,member,equal⟩)
      · exact Or.inl (Or.inl before)
      · rcases Finset.mem_insert.mp member with rfl | old
        · exact Or.inr equal
        · exact Or.inl (Or.inr ⟨j,old,equal⟩)
  · exact (gathered.carrying.moves sound faithful moves).moves soundRead (fun _ _ never => never.elim) writes

theorem deliverAll (gathered : Gathered base window payload got s) (inside : ∀ k ∈ got, k < window)
    (complete : ∀ n, h.write n = .complete) {packet : Nat → Pkt} (order : List Nat) (near : ∀ k ∈ order, k < window)
    (valid : ∀ k ∈ order, Encodable (packet k) ∧ (packet k).type = ptypeData ∧ (packet k).tr = false ∧
      (packet k).seq = serial (base + k) ∧ content (packet k) = payload (base + k)) :
    ∃ t, AnyOrder.deliverAll h (order.map packet) s = .ret t ∧
      Gathered base window payload (got ∪ order.toFinset) t := by
  induction order generalizing s got with
  | nil => exact ⟨s,rfl,by simpa using gathered⟩
  | cons k rest ih =>
    obtain ⟨encodable,data,whole,number,carried⟩ := valid k List.mem_cons_self
    have close := near k List.mem_cons_self
    obtain ⟨m,first,middle⟩ := gathered.deliver inside complete close encodable data whole number carried
    have inside' : ∀ j ∈ insert k got, j < window := by
      intro j member
      rcases Finset.mem_insert.mp member with rfl | old
      · exact close
      · exact inside j old
    obtain ⟨t,later,all⟩ := ih middle inside' (fun j member => near j (List.mem_cons_of_mem k member))
      (fun j member => valid j (List.mem_cons_of_mem k member))
    refine ⟨t,?_,?_⟩
    · rw [List.map_cons,AnyOrder.deliverAll,first,Outcome.ret_andThen]
      exact later
    · have same : got ∪ (k :: rest).toFinset = insert k got ∪ rest.toFinset := by
        rw [List.toFinset_cons,Finset.union_insert,Finset.insert_union]
      rw [same]
      exact all

end Gathered

structure Idle (s : Receiver) : Prop where
  least : 1 ≤ s.maxWindow.toNat
  most : s.maxWindow.toNat ≤ maxWindowSize
  oosMask : s.oosMask = 0
  capacity : s.recvBuf.capacity = recvCapacity
  fits : s.recvBuf.size ≤ recvCapacity.toNat
  consecutive : ∀ i < s.recvBuf.size, (s.recvBuf.get i).seq = s.expectedSeq + UInt8.ofNat i

/-- Distinct DATA packets of the window: `packet k` is `k` numbers behind the expected one. -/
def Batch (set : Finset Nat) (packet : Nat → Pkt) (s : Receiver) : Prop :=
  ∀ k ∈ set, k < s.maxWindow.toNat ∧ Encodable (packet k) ∧ (packet k).type = ptypeData ∧ (packet k).tr = false ∧
    (packet k).seq = s.expectedSeq + UInt8.ofNat k

def recounted (s : Receiver) : Receiver :=
  let base := s.expectedSeq.toNat + 256
  { s with expected := base, drained := base, accepted := List.range base }

def continued (s : Receiver) (packet : Nat → Pkt) (n : Nat) : List UInt8 :=
  let base := s.expectedSeq.toNat + 256
  if n = 0 then s.output else if n < base then [] else content (packet (n - base))

theorem serial_base (x : UInt8) (k : Nat) : serial (x.toNat + 256 + k) = x + UInt8.ofNat k := by
  simp [serial,UInt8.ofNat_add]

theorem continued_range (s : Receiver) (packet : Nat → Pkt) (run : Nat) :
    (List.range (s.expectedSeq.toNat + 256 + run)).flatMap (continued s packet) =
      s.output ++ (List.range run).flatMap (fun k => content (packet k)) := by
  let base := s.expectedSeq.toNat + 256
  have old : (List.range base).flatMap (continued s packet) = s.output := by
    have silent : ((List.range (base - 1)).map Nat.succ).flatMap (continued s packet) = [] := by
      rw [List.flatMap_eq_nil_iff]
      intro n member
      obtain ⟨i,before,rfl⟩ := List.mem_map.mp member
      have bound := List.mem_range.mp before
      rw [continued,if_neg (Nat.succ_ne_zero i),if_pos (by change i + 1 < base; omega)]
    have first : continued s packet 0 = s.output := by simp [continued]
    have shape : List.range base = 0 :: (List.range (base - 1)).map Nat.succ := by
      rw [← List.range_succ_eq_map]
      congr 1
    rw [shape,List.flatMap_cons,silent,first,List.append_nil]
  have new : ((List.range run).map (base + ·)).flatMap (continued s packet) =
      (List.range run).flatMap (fun k => content (packet k)) := by
    rw [List.flatMap_map]
    congr 1
    funext k
    have later : ¬ base + k < s.expectedSeq.toNat + 256 := by omega
    rw [continued,if_neg (by omega),if_neg later]
    change content (packet (base + k - base)) = _
    rw [Nat.add_sub_cancel_left]
  rw [List.range_add,List.flatMap_append,old,new]

theorem Idle.gathered (idle : Idle s) (packet : Nat → Pkt) :
    Gathered (s.expectedSeq.toNat + 256) s.maxWindow.toNat (continued s packet) ∅ (recounted s) := by
  have mask : (recounted s).oosMask = 0 := idle.oosMask
  have clear : bit (recounted s).oosMask 0 = false := by rw [mask,bit_zero]
  have seq := serial_base s.expectedSeq
  have numbers (n : Nat) : n ∈ (recounted s).accepted ↔ n < s.expectedSeq.toNat + 256 := by
    simp only [recounted,List.mem_range]
  refine ⟨⟨idle.least,idle.most,idle.capacity,⟨?_,?_⟩,?_,?_,?_,?_,?_⟩,clear,rfl,?_,?_,?_⟩
  · change s.recvBuf.size ≤ s.recvBuf.capacity.toNat
    rw [idle.capacity]
    exact idle.fits
  · intro i inside
    exact (idle.consecutive i inside).trans (seq i).symm
  · intro i set
    rw [mask,bit_zero] at set
    contradiction
  · rw [mask]
    exact Nat.le_trans (Nat.le_of_eq (by decide)) (Nat.zero_le _)
  · rw [trailingOnes_eq_zero clear]
    rfl
  · change s.expectedSeq = serial (s.expectedSeq.toNat + 256)
    simpa using (seq 0).symm
  · intro n
    rw [numbers,view,mask]
    change n < s.expectedSeq.toNat + 256 ↔ n < s.expectedSeq.toNat + 256 ∨ bit 0 _ = true
    simp
  · intro n
    rw [numbers]
    simp
  · intro i set
    rw [mask,bit_zero] at set
    contradiction
  · have none := continued_range s packet 0
    rw [Nat.add_zero,List.range_zero,List.flatMap_nil,List.append_nil] at none
    exact none.symm

/-- The outcome of one order of delivery. -/
theorem deliverAll_batch (complete : ∀ n, h.write n = .complete) (idle : Idle s) {set : Finset Nat} {packet : Nat → Pkt}
    (batch : Batch set packet s) {order : List Nat} (all : ∀ k, k ∈ order ↔ k ∈ set) {run : Nat}
    (least : IsLeast {k | k ∉ set} run) :
    ∃ t, deliverAll h (order.map packet) s = .ret t ∧
      t.output = s.output ++ (List.range run).flatMap (fun k => content (packet k)) ∧
      t.expectedSeq = s.expectedSeq + UInt8.ofNat run ∧ ∀ i, bit t.oosMask i = true ↔ run + i ∈ set := by
  have valid : ∀ k ∈ order, Encodable (packet k) ∧ (packet k).type = ptypeData ∧ (packet k).tr = false ∧
      (packet k).seq = serial (s.expectedSeq.toNat + 256 + k) ∧
      content (packet k) = continued s packet (s.expectedSeq.toNat + 256 + k) := by
    intro k member
    obtain ⟨_,encodable,data,whole,number⟩ := batch k ((all k).mp member)
    refine ⟨encodable,data,whole,by rw [serial_base,number],?_⟩
    rw [continued,if_neg (by omega),if_neg (by omega),Nat.add_sub_cancel_left]
  obtain ⟨u,ended,gathered⟩ := (idle.gathered packet).deliverAll (by simp) complete order
    (fun k member => (batch k ((all k).mp member)).1) valid
  have delivered : ∅ ∪ order.toFinset = set := by
    ext k
    simp [all]
  rw [delivered] at gathered
  have same : u.expected = s.expectedSeq.toNat + 256 + run := by
    refine gathered.sound.isLeast.unique ⟨?_,?_⟩
    · intro held
      rcases (gathered.accepted _).mp held with before | ⟨k,member,equal⟩
      · omega
      · obtain rfl : run = k := by omega
        exact least.1 member
    · intro n missing
      by_contra early
      apply missing
      rcases Nat.lt_or_ge n (s.expectedSeq.toNat + 256) with before | after
      · exact (gathered.accepted n).mpr (Or.inl before)
      · obtain ⟨k,rfl⟩ := Nat.exists_eq_add_of_le after
        have member : k ∈ set := by
          by_contra absent
          have bound := least.2 absent
          omega
        exact (gathered.accepted _).mpr (Or.inr ⟨k,member,rfl⟩)
  have recount : Receiver.uncounted (recounted s) = Receiver.uncounted s := rfl
  obtain ⟨t,ended',alike⟩ := (deliverAll_blind h (order.map packet)).ret_of_alike recount ended
  have output := congrArg Receiver.output alike
  have expectedSeq := congrArg Receiver.expectedSeq alike
  have mask := congrArg Receiver.oosMask alike
  change t.output = u.output at output
  change t.expectedSeq = u.expectedSeq at expectedSeq
  change t.oosMask = u.oosMask at mask
  refine ⟨t,ended',?_,?_,?_⟩
  · rw [output,gathered.carrying.written,← gathered.sound.expected_eq_drained gathered.clear,same]
    exact continued_range s packet run
  · rw [expectedSeq,gathered.sound.expectedSeq,same]
    exact serial_base s.expectedSeq run
  · intro i
    rw [mask,gathered.marked,same]
    constructor
    · rintro ⟨k,member,equal⟩
      obtain rfl : run + i = k := by omega
      exact member
    · exact fun member => ⟨_,member,by omega⟩

/-- Whatever the order of delivery and the repetitions, the packets that follow the
expected number without a gap are written, and the mask holds the others. -/
theorem deliverAll_anyOrder (h : Host) (complete : ∀ n, h.write n = .complete) (s : Receiver) (idle : Idle s)
    (set : Finset Nat) (packet : Nat → Pkt) (batch : Batch set packet s) :
    ∃ run mask, IsLeast {k | k ∉ set} run ∧ (∀ i, bit mask i = true ↔ run + i ∈ set) ∧
      ∀ order : List Nat, (∀ k, k ∈ order ↔ k ∈ set) → ∃ t, deliverAll h (order.map packet) s = .ret t ∧
        t.output = s.output ++ (List.range run).flatMap (fun k => content (packet k)) ∧
        t.expectedSeq = s.expectedSeq + UInt8.ofNat run ∧ t.oosMask = mask := by
  have some : ∃ k, k ∉ set := ⟨s.maxWindow.toNat,fun member => Nat.lt_irrefl _ (batch _ member).1⟩
  have least : IsLeast {k | k ∉ set} (Nat.find some) := ⟨Nat.find_spec some,fun n missing => Nat.find_min' some missing⟩
  obtain ⟨t,_,_,_,marks⟩ := deliverAll_batch complete idle batch (fun k => Finset.mem_toList (s := set)) least
  refine ⟨Nat.find some,t.oosMask,least,marks,?_⟩
  intro order all
  obtain ⟨u,ended,output,expectedSeq,others⟩ := deliverAll_batch complete idle batch all least
  refine ⟨u,ended,output,expectedSeq,bit_ext fun i _ => ?_⟩
  rw [Bool.eq_iff_iff,others,marks]

theorem newPlaces_idle : Idle (start 31 newPlaces 0) where
  least := by decide
  most := by decide
  oosMask := rfl
  capacity := rfl
  fits := by decide
  consecutive i inside := by
    have empty : newPlaces.size = 0 := by decide
    change i < newPlaces.size at inside
    omega

/-- Chunks 0, 1 and 3 of a stream. -/
theorem deliverAll_anyOrder_gap : ∃ run mask, IsLeast {k | k ∉ ({0,1,3} : Finset Nat)} run ∧
    (∀ i, bit mask i = true ↔ run + i ∈ ({0,1,3} : Finset Nat)) ∧
    ∀ order : List Nat, (∀ k, k ∈ order ↔ k ∈ ({0,1,3} : Finset Nat)) →
      ∃ t, deliverAll steadyHost (order.map countingStream) (start 31 newPlaces 0) = .ret t ∧
        t.output = (start 31 newPlaces 0).output ++ (List.range run).flatMap (fun k => content (countingStream k)) ∧
        t.expectedSeq = (start 31 newPlaces 0).expectedSeq + UInt8.ofNat run ∧ t.oosMask = mask := by
  refine deliverAll_anyOrder steadyHost (fun _ => rfl) (start 31 newPlaces 0) newPlaces_idle {0,1,3} countingStream ?_
  intro k member
  have small : k < 31 := by
    simp only [Finset.mem_insert,Finset.mem_singleton] at member
    omega
  refine ⟨small,countingStream_isStream.valid k,rfl,rfl,?_⟩
  change serial k = 0 + UInt8.ofNat k
  simp [serial]

end Trtp.AnyOrder
