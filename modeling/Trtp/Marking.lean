import Trtp.ReceiveBuffer

/-! What the receiver marks and writes, whatever it reads and however it ends.
The mask, the expected number and the counts are a ledger of their own: in one step
at most one packet is entered, and then chunks are written from the front. -/
namespace Trtp.Marking
open Lib.Circular Lib.Mask Lib.Run Packet Process Buffer Net Receive ReceiveBuffer

structure Ledger where
  maxWindow : UInt32
  mask : UInt32
  expectedSeq : UInt8
  expected : Nat
  drained : Nat
  accepted : List Nat
  output : List UInt8
  lastWrittenLen : Int
  replies : List Reply

def ledger (s : Receiver) : Ledger :=
  ⟨s.maxWindow,s.oosMask,s.expectedSeq,s.expected,s.drained,s.accepted,s.output,s.lastWrittenLen,s.replies⟩

namespace Ledger

/-- The amount added to the expected number: max_window - window_size(). -/
def advance (l : Ledger) : UInt8 := (l.maxWindow - (l.maxWindow - UInt32.ofNat (trailingOnes l.mask))).toUInt8

def marked (l : Ledger) (k gap : Nat) : Ledger :=
  { l with mask := setBit l.mask k, accepted := l.accepted ++ [l.expected + gap] }

/-- An untruncated packet `gap` numbers behind the expected one is marked at `k`. -/
def enter (l : Ledger) (k : Nat) (gap : UInt8) : Ledger :=
  let m := l.marked k gap.toNat
  if gap > 0 then m else
    { m with expectedSeq := m.expectedSeq + m.advance, expected := m.expected + m.advance.toNat }

def replied (l : Ledger) (replies : List Reply) : Ledger := { l with replies := replies }

def tried (l : Ledger) (len : Int) (bytes : List UInt8) : Ledger :=
  { l with lastWrittenLen := len, output := l.output ++ bytes }

def passed (l : Ledger) : Ledger := { l with mask := l.mask >>> 1, drained := l.drained + 1 }

/-- What do_empty_rbuf does in one turn; its mask has a packet at the front. -/
inductive Write (l : Ledger) : Ledger → Prop
  | tried (set : bit l.mask 0 = true) (len : Int) (bytes : List UInt8) : Write l (l.tried len bytes)
  | passed (set : bit l.mask 0 = true) (len : Int) (bytes : List UInt8) : Write l (l.tried len bytes).passed

abbrev Writes : Ledger → Ledger → Prop := Relation.ReflTransGen Write

section Fields

variable (l : Ledger) (k : Nat) (gap : UInt8)

@[simp] theorem enter_maxWindow : (l.enter k gap).maxWindow = l.maxWindow := by
  unfold enter
  dsimp only
  split <;> rfl

@[simp] theorem enter_mask : (l.enter k gap).mask = setBit l.mask k := by
  unfold enter
  dsimp only
  split <;> rfl

@[simp] theorem enter_drained : (l.enter k gap).drained = l.drained := by
  unfold enter
  dsimp only
  split <;> rfl

@[simp] theorem enter_accepted : (l.enter k gap).accepted = l.accepted ++ [l.expected + gap.toNat] := by
  unfold enter
  dsimp only
  split <;> rfl

@[simp] theorem enter_replies : (l.enter k gap).replies = l.replies := by
  unfold enter
  dsimp only
  split <;> rfl

end Fields

variable {l m : Ledger}

structure Shifted (l m : Ledger) : Prop where
  maxWindow : m.maxWindow = l.maxWindow
  expectedSeq : m.expectedSeq = l.expectedSeq
  expected : m.expected = l.expected
  accepted : m.accepted = l.accepted
  replies : m.replies = l.replies
  drained : l.drained ≤ m.drained
  mask : ∀ i, bit m.mask i = bit l.mask (i + (m.drained - l.drained))
  passed : ∀ i < m.drained - l.drained, bit l.mask i = true

theorem Write.shifted (written : Write l m) : Shifted l m := by
  cases written with
  | tried set len bytes =>
    exact ⟨rfl,rfl,rfl,rfl,rfl,Nat.le_refl _,fun i => by simp [Ledger.tried],fun i => by simp [Ledger.tried]⟩
  | passed set len bytes =>
    refine ⟨rfl,rfl,rfl,rfl,rfl,Nat.le_succ _,?_,?_⟩
    · intro i
      change bit (l.mask >>> 1) i = bit l.mask (i + (l.drained + 1 - l.drained))
      rw [bit_shift,Nat.add_sub_cancel_left]
    · intro i before
      change i < l.drained + 1 - l.drained at before
      obtain rfl : i = 0 := by omega
      exact set

theorem Shifted.refl (l : Ledger) : Shifted l l :=
  ⟨rfl,rfl,rfl,rfl,rfl,Nat.le_refl _,fun i => by simp,fun i => by simp⟩

theorem Shifted.trans {n : Ledger} (left : Shifted l m) (right : Shifted m n) : Shifted l n := by
  have first := left.drained
  have second := right.drained
  refine ⟨right.maxWindow.trans left.maxWindow,right.expectedSeq.trans left.expectedSeq,
    right.expected.trans left.expected,right.accepted.trans left.accepted,right.replies.trans left.replies,
    Nat.le_trans first second,?_,?_⟩
  · intro i
    rw [right.mask,left.mask]
    congr 1
    omega
  · intro i before
    rcases Nat.lt_or_ge i (m.drained - l.drained) with early | late
    · exact left.passed i early
    · have set := right.passed (i - (m.drained - l.drained)) (by omega)
      rwa [left.mask,Nat.sub_add_cancel late] at set

theorem Writes.shifted (written : Writes l m) : Shifted l m := by
  induction written with
  | refl => exact .refl l
  | tail _ write ih => exact ih.trans write.shifted

theorem Writes.keeps {good : Ledger → Prop} (writes : Writes l m) (kept : ∀ l m, good l → Write l m → good m)
    (before : good l) : good m := by
  induction writes with
  | refl => exact before
  | tail _ write ih => exact kept _ _ ih write

theorem Writes.idle (written : Writes l m) (clear : bit l.mask 0 = false) : m = l := by
  induction written with
  | refl => rfl
  | tail _ write ih =>
    subst ih
    cases write with
    | tried set len bytes => simp [clear] at set
    | passed set len bytes => simp [clear] at set

theorem Write.balance (written : Write l m) : m.drained + popcount m.mask ≤ l.drained + popcount l.mask := by
  cases written with
  | tried set len bytes => exact Nat.le_refl _
  | passed set len bytes =>
    have fewer := popcount_shift_lt set
    change l.drained + 1 + popcount (l.mask >>> 1) ≤ _
    omega

end Ledger

variable {h : Host} {s t : Receiver}

theorem windowSize_eq (s : Receiver) :
    windowSize s = (ledger s).maxWindow - UInt32.ofNat (trailingOnes (ledger s).mask) := rfl

theorem acceptPkt_ledger (h : Host) (place : UInt32) (distance gap : UInt8) (s : Receiver) :
    ledger (acceptPkt h place distance gap s).state = ledger s ∨ distance.toNat + gap.toNat < 32 ∧
      ledger (acceptPkt h place distance gap s).state = (ledger s).enter (distance.toNat + gap.toNat) gap := by
  unfold acceptPkt
  by_cases long : distance.toNat + gap.toNat ≥ 32
  · rw [if_pos long]
    exact Or.inl rfl
  · refine Or.inr ⟨by omega,?_⟩
    rw [if_neg long]
    by_cases ahead : gap > 0
    · simp only [if_pos ahead,Ledger.enter]
      cases pktbufSlotforSeq h (setSeq s.recvBuf place s.expectedSeq) (s.recvBuf.head place).seq <;> rfl
    · simp only [if_neg ahead,Ledger.enter]
      rfl

/-- The packet at `place` is taken in by process_incoming_pkt in the state `s`. -/
structure Taken (s : Receiver) (place : UInt32) (l : Ledger) : Prop where
  whole : (s.recvBuf.head place).tr = false
  entered : ∃ d, distance s = some d ∧ d.toNat + ((s.recvBuf.head place).seq - s.expectedSeq).toNat < 32 ∧
    l = (ledger s).enter (d.toNat + ((s.recvBuf.head place).seq - s.expectedSeq).toNat)
      ((s.recvBuf.head place).seq - s.expectedSeq)

theorem processIncomingPkt_ledger (h : Host) (place : UInt32) (s : Receiver) :
    ledger (processIncomingPkt h place s).state = ledger s ∨
      Taken s place (ledger (processIncomingPkt h place s).state) := by
  cases found : distance s with
  | none =>
    rw [processIncomingPkt_lost place found]
    exact Or.inl rfl
  | some d =>
    cases cut : (s.recvBuf.head place).tr with
    | true =>
      rw [processIncomingPkt_cut place found cut]
      exact Or.inl rfl
    | false =>
      rw [processIncomingPkt_whole place found cut]
      rcases acceptPkt_ledger h place d ((s.recvBuf.head place).seq - s.expectedSeq) (Receiver.timed place s) with
        same | ⟨short,entered⟩
      · exact Or.inl same
      · exact Or.inr ⟨cut,d,found,short,entered⟩

structure LetThrough (h : Host) (input : Recv) (s : Receiver) (place : UInt32) (buf : Pktbuf) (pkt : Pkt) : Prop where
  found : pktbufSlotforSeq h s.recvBuf s.expectedSeq = .ok (place,buf)
  read : netRecvPkt h (buf.head place) s.expectedSeq (windowSize s).toUInt8 input = (.netOk,pkt)
  data : pkt.type = ptypeData

theorem doReceiveData_ledger (h : Host) (input : Recv) (s : Receiver) :
    ledger (doReceiveData h input s).state = ledger s ∨ ∃ place buf pkt, LetThrough h input s place buf pkt ∧
      Taken (Receiver.holding s (buf.put place pkt)) place (ledger (doReceiveData h input s).state) := by
  have reading := doReceiveData_cases h input s
  generalize doReceiveData h input s = outcome at reading ⊢
  cases reading with
  | stuck reason lost => exact Or.inl rfl
  | failed place buf pkt found => exact Or.inl rfl
  | dropped place buf pkt found refused => exact Or.inl rfl
  | processed place buf pkt found read data =>
    rcases processIncomingPkt_ledger h place (Receiver.holding s (buf.put place pkt)) with same | taken
    · exact Or.inl same
    · exact Or.inr ⟨place,buf,pkt,⟨found,read,data⟩,taken⟩

theorem emptyLoop_ledger (h : Host) (fuel : Nat) (s : Receiver) :
    Ledger.Writes (ledger s) (ledger (emptyLoop h fuel s).state) :=
  @emptyLoop_rule (fun s t => Ledger.Writes (ledger s) (ledger t)) (fun _ => .refl)
    (fun _ len _ bytes set => .single (.tried set len bytes))
    (fun _ _ len _ bytes _ set rest => .head (.passed set len bytes) rest) h fuel s

theorem writeFile_ledger (h : Host) (file : Bool) (s : Receiver) :
    Ledger.Writes (ledger s) (ledger (writeFile h file s).state) := by
  unfold writeFile
  split
  next => exact emptyLoop_ledger h 32 s
  next => exact .refl

structure Read (h : Host) (input : Recv) (s : Receiver) (l : Ledger) : Prop where
  room : rbufFull s = false
  taken : ∃ place buf pkt, LetThrough h input s place buf pkt ∧
    Taken (Receiver.holding s (buf.put place pkt)) place l

theorem readSocket_ledger (h : Host) (socket : Option Recv) (s : Receiver) :
    ledger (readSocket h socket s).state = ledger s ∨
      ∃ input, socket = some input ∧ Read h input s (ledger (readSocket h socket s).state) := by
  cases socket with
  | none => exact Or.inl rfl
  | some input =>
    have scheduled (o : Outcome Halt Receiver) : ledger (o.andThen fun s =>
        .ret (if !s.needNack then { s with needAck := true } else s)).state = ledger o.state := by
      cases o with
      | ret t =>
        simp only [Outcome.ret_andThen,Outcome.state_ret]
        split <;> rfl
      | err t => rfl
      | halt reason t => rfl
    rw [readSocket,scheduled,doReadSock]
    cases full : rbufFull s with
    | true => cases input <;> exact Or.inl rfl
    | false =>
      rcases doReceiveData_ledger h input s with same | entered
      · exact Or.inl same
      · exact Or.inr ⟨input,rfl,full,entered⟩

structure Told (h : Host) (s t : Receiver) : Prop where
  ledger : ledger t = (ledger s).replied t.replies
  answered : Answered h s t

theorem Told.silent (core : Receiver.core t = Receiver.core s) (same : Marking.ledger t = Marking.ledger s) :
    Told h s t :=
  ⟨same.trans (congrArg (Marking.ledger s).replied (congrArg Ledger.replies same).symm),.silent core⟩

theorem Told.restored (told : Told h s t) : (Marking.ledger t).replied s.replies = Marking.ledger s := by
  rw [told.ledger]
  rfl

theorem sendAck_ledger (h : Host) (s : Receiver) :
    ledger (sendAck h s).state = (ledger s).replied (sendAck h s).state.replies := by
  unfold sendAck
  rcases sendReply_cases h ptypeAck s.expectedSeq s.expected s with sent | failed
  · rw [sent]
    rfl
  · rw [failed]
    rfl

theorem sendNack_ledger (h : Host) (seq : UInt8) (s : Receiver) :
    ledger (sendNack h seq s).state = (ledger s).replied (sendNack h seq s).state.replies := by
  unfold sendNack
  rcases sendReply_cases h ptypeNack seq (Lib.Serial.nearest s.expected seq) s with sent | failed
  · rw [sent]
    rfl
  · rw [failed]
    rfl

theorem answer_ledger (h : Host) (s : Receiver) :
    ledger (answer h s).state = (ledger s).replied (answer h s).state.replies := by
  have nacked (t : Receiver) (same : ledger t = (ledger s).replied t.replies) :
      let o := if t.needNack then sendNack h t.nackSeq t else .ret t
      ledger o.state = (ledger s).replied o.state.replies := by
    dsimp only
    split
    next =>
      rw [sendNack_ledger h t.nackSeq t,same]
      rfl
    next => exact same
  unfold answer
  split
  next =>
    have acked := sendAck_ledger h s
    cases sent : sendAck h s with
    | ret t =>
      rw [sent] at acked
      exact nacked t acked
    | err t =>
      rw [sent] at acked
      exact acked
    | halt reason t =>
      rw [sent] at acked
      exact acked
  next => exact nacked s rfl

theorem turn_ledger (h : Host) (socket : Option Recv) (file : Bool) (s : Receiver) :
    ∃ (l : Ledger) (m : Receiver), (l = ledger s ∨ ∃ input, socket = some input ∧ Read h input s l) ∧
      Ledger.Writes l (ledger m) ∧ Told h m (turn h socket file s).state := by
  have read := readSocket_ledger h socket s
  unfold turn
  cases first : readSocket h socket s with
  | err t =>
    rw [first] at read
    exact ⟨ledger t,t,read,.refl,.silent rfl rfl⟩
  | halt reason t =>
    rw [first] at read
    exact ⟨ledger t,t,read,.refl,.silent rfl rfl⟩
  | ret t =>
    rw [first] at read
    have written := writeFile_ledger h file t
    rw [Outcome.ret_andThen]
    cases second : writeFile h file t with
    | err m =>
      rw [second] at written
      exact ⟨ledger t,m,read,written,.silent rfl rfl⟩
    | halt reason m =>
      rw [second] at written
      exact ⟨ledger t,m,read,written,.silent rfl rfl⟩
    | ret m =>
      rw [second] at written
      have replied := answer_answered h m
      have same := answer_ledger h m
      rw [Outcome.ret_andThen]
      refine ⟨ledger t,m,read,written,?_⟩
      cases third : answer h m with
      | ret u =>
        rw [third] at replied same
        exact ⟨same,replied.same,replied.news⟩
      | err u =>
        rw [third] at replied same
        exact ⟨same,replied⟩
      | halt reason u =>
        rw [third] at replied
        exact replied.elim

structure Connected (h : Host) (slot : UInt32) (input : Recv) (s : Receiver) (l : Ledger) : Prop where
  read : ∃ pkt, netRecvfrom h (s.recvBuf.head slot) input = (.netOk,pkt) ∧ pkt.seq = initialSeqnum ∧
    Taken (Receiver.holding s (s.recvBuf.put slot pkt)) slot l

/-- What an event enters: nothing, a packet read in the main loop or the first packet. -/
inductive Entered (h : Host) (event : Event) (s : Receiver) : Ledger → Prop
  | kept : Entered h event s (ledger s)
  | read (input : Recv) (file : Bool) (l : Ledger) (ready : event = .ready (some input) file)
      (phase : s.phase = .receiving) (taken : Read h input s l) : Entered h event s l
  | first (retry : Nat) (slot : UInt32) (input : Recv) (l : Ledger) (arrived : event = .datagram input true)
      (phase : s.phase = .connecting retry slot) (taken : Connected h slot input s l) : Entered h event s l

theorem Entered.cases {event : Event} {l : Ledger} (entered : Entered h event s l) :
    l = ledger s ∨ ∃ buf place, Taken (Receiver.holding s buf) place l := by
  cases entered with
  | kept => exact Or.inl rfl
  | read input file _ ready phase entry =>
    obtain ⟨_,place,buf,pkt,_,taken⟩ := entry
    exact Or.inr ⟨_,_,taken⟩
  | first retry slot input _ arrived phase entry =>
    obtain ⟨pkt,_,_,taken⟩ := entry
    exact Or.inr ⟨_,_,taken⟩

theorem Taken.enters {place : UInt32} {l : Ledger} (taken : Taken s place l) :
    ∃ k gap, k < 32 ∧ l = (ledger s).enter k gap := by
  obtain ⟨_,d,_,small,rfl⟩ := taken
  exact ⟨_,_,small,rfl⟩

structure Recorded (h : Host) (event : Event) (s : Receiver) (d : Config Halt Receiver) : Prop where
  entered : ∃ (l : Ledger) (m : Receiver), Entered h event s l ∧ Ledger.Writes l (ledger m) ∧ Told h m d.state
  waits : ∀ t retry slot, d = .running t → t.phase = .connecting retry slot →
    ledger t = ledger s ∧ ∃ before, s.phase = .connecting before slot

theorem waitAndConnect_ledger {retry : Nat} {slot : UInt32} (phase : s.phase = .connecting retry slot)
    (input : Recv) (linked : Bool) :
    Recorded h (.datagram input linked) s (waitAndConnect h retry slot input linked s) := by
  have awaited := waitAndConnect_cases h retry slot input linked s
  generalize waitAndConnect h retry slot input linked s = c at awaited ⊢
  cases awaited with
  | aborted pkt =>
    refine ⟨⟨ledger s,Receiver.holding s (s.recvBuf.put slot pkt),.kept,.refl,.silent rfl rfl⟩,?_⟩
    simp
  | again pkt =>
    refine ⟨⟨ledger s,Receiver.holding s (s.recvBuf.put slot pkt),.kept,.refl,.silent rfl rfl⟩,?_⟩
    rintro u again place same connecting
    obtain rfl := Config.running.inj same
    obtain ⟨_,rfl⟩ := Phase.connecting.inj connecting
    exact ⟨rfl,retry,phase⟩
  | first pkt read number accepted =>
    subst accepted
    have processed := processIncomingPkt_ledger h slot (Receiver.holding s (s.recvBuf.put slot pkt))
    have enters (l : Ledger) (either : l = ledger s ∨
        Taken (Receiver.holding s (s.recvBuf.put slot pkt)) slot l) : Entered h (.datagram input true) s l := by
      rcases either with rfl | taken
      · exact .kept
      · exact .first retry slot input l rfl phase ⟨pkt,read,number,taken⟩
    unfold connected
    cases ended : processIncomingPkt h slot (Receiver.holding s (s.recvBuf.put slot pkt)) with
    | ret t =>
      rw [ended] at processed
      refine ⟨⟨ledger t,t,enters _ processed,.refl,.silent rfl rfl⟩,?_⟩
      rintro u again place same connecting
      obtain rfl := Config.running.inj same
      contradiction
    | err t =>
      rw [ended] at processed
      exact ⟨⟨ledger t,t,enters _ processed,.refl,.silent rfl rfl⟩,by simp⟩
    | halt reason t =>
      rw [ended] at processed
      exact ⟨⟨ledger t,t,enters _ processed,.refl,.silent rfl rfl⟩,by simp⟩

def Receiver.phased (phase : Phase) (s : Receiver) : Receiver := { s with phase := phase }

theorem afterTurn_state (o : Outcome Halt Receiver) : ∃ phase, (afterTurn o).state = Receiver.phased phase o.state := by
  cases o with
  | ret t => exact ⟨_,rfl⟩
  | err t => exact ⟨t.phase,rfl⟩
  | halt reason t => exact ⟨t.phase,rfl⟩

theorem turned_ledger (phase : s.phase = .receiving) (socket : Option Recv) (file : Bool) :
    Recorded h (.ready socket file) s (afterTurn (turn h socket file s)) := by
  obtain ⟨l,m,entered,written,answered⟩ := turn_ledger h socket file s
  obtain ⟨later,state⟩ := afterTurn_state (turn h socket file s)
  refine ⟨⟨l,m,?_,written,?_⟩,?_⟩
  · rcases entered with rfl | ⟨input,rfl,taken⟩
    · exact .kept
    · exact .read input file l rfl phase taken
  · rw [state]
    exact ⟨answered.ledger,answered.answered.same,answered.answered.news⟩
  · intro t retry slot running connecting
    cases ended : turn h socket file s with
    | ret u =>
      rw [ended] at running
      obtain rfl := Config.running.inj running
      have never : (if u.lastWrittenLen ≠ 0 ∨ !pktbufEmpty u.recvBuf then Phase.receiving else .lingering 0) =
        .connecting retry slot := connecting
      split at never <;> contradiction
    | err u =>
      rw [ended] at running
      contradiction
    | halt reason u =>
      rw [ended] at running
      contradiction

theorem linger_ledger (retry : Nat) (event : Event) (s : Receiver) : Recorded h event s (linger h retry event s) := by
  have replied (d : Config Halt Receiver) (answered : Told h s d.state)
      (moved : ∀ t, d = .running t → ∃ again, t.phase = .lingering again) : Recorded h event s d := by
    refine ⟨⟨ledger s,s,.kept,.refl,answered⟩,?_⟩
    intro t before slot running connecting
    obtain ⟨again,phase⟩ := moved t running
    rw [phase] at connecting
    contradiction
  have met := sendAck_answered h s
  have same := sendAck_ledger h s
  have last := linger_cases h retry event s
  generalize linger h retry event s = c at last ⊢
  cases last with
  | done code => exact replied _ (.silent rfl rfl) (by simp)
  | replied t sent =>
    rw [sent] at met same
    refine replied _ ⟨same,met.same,met.news⟩ ?_
    rintro u running
    obtain rfl := Config.running.inj running
    exact ⟨_,rfl⟩
  | failed t sent =>
    rw [sent] at met same
    exact replied _ ⟨same,met⟩ (by simp)

/-- Step lemma: whatever is read and however the step ends, at most one packet is
entered, chunks are written from the front, and the replies follow. -/
theorem next_ledger {d : Config Halt Receiver} {event : Event} (taken : Step h (.running s) event d) :
    Recorded h event s d := by
  obtain ⟨_,same,stepped⟩ := step_cases taken
  obtain rfl := Config.running.inj same
  cases stepped with
  | awaited retry slot input linked phase => exact waitAndConnect_ledger phase input linked
  | aborted event phase => exact ⟨⟨ledger s,s,.kept,.refl,.silent rfl rfl⟩,by simp⟩
  | turned input file phase => exact turned_ledger phase input file
  | lingered retry event phase => exact linger_ledger retry event s

def Ledger.blank (maxWindow : UInt32) : Ledger := ⟨maxWindow,0,0,0,0,[],[],-1,[]⟩

section Runs

variable {maxWindow : UInt32} {allowed : Config Halt Receiver → Event → Prop} {c : Config Halt Receiver}

theorem reachable_blank (reached : Reach (Start h maxWindow) (Step h) allowed c) {retry : Nat} {slot : UInt32}
    (running : c = .running s) (phase : s.phase = .connecting retry slot) : ledger s = .blank maxWindow := by
  induction reached generalizing s retry with
  | start c first =>
    obtain ⟨new,place,buf,made,allocated,rfl⟩ := first
    obtain rfl := Config.running.inj running
    rfl
  | step c event d before admitted taken ih =>
    obtain ⟨t,rfl,_⟩ := step_cases taken
    obtain ⟨same,earlier,connecting⟩ := (next_ledger taken).waits s retry slot running phase
    rw [same]
    exact ih rfl connecting

/-- Rule for runs: what holds of a blank ledger and is kept by entering, writing and replying. -/
theorem reachable_ledger {good : Ledger → Prop} (base : good (.blank maxWindow))
    (read : ∀ s input file l, allowed (.running s) (.ready (some input) file) → s.phase = .receiving →
      good (ledger s) → Read h input s l → good l)
    (first : ∀ s retry slot input l, allowed (.running s) (.datagram input true) → s.phase = .connecting retry slot →
      ledger s = .blank maxWindow → Connected h slot input s l → good l)
    (written : ∀ l m, good l → Ledger.Write l m → good m)
    (replied : ∀ l replies, good l → good (l.replied replies))
    (reached : Reach (Start h maxWindow) (Step h) allowed c) : good (ledger c.state) := by
  induction reached with
  | start c first =>
    obtain ⟨new,place,buf,made,allocated,rfl⟩ := first
    exact base
  | step c event d before admitted taken ih =>
    obtain ⟨s,rfl,_⟩ := step_cases taken
    obtain ⟨l,m,entered,writes,told⟩ := (next_ledger taken).entered
    have began : good l := by
      cases entered with
      | kept => exact ih
      | read input file _ ready phase entry =>
        subst ready
        exact read s input file l admitted phase ih entry
      | first retry slot input _ arrived phase entry =>
        subst arrived
        exact first s retry slot input l admitted phase (reachable_blank before rfl phase) entry
    rw [told.ledger]
    exact replied _ _ (writes.keeps written began)

end Runs

end Trtp.Marking
