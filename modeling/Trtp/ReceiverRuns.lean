import Trtp.ReceiveBuffer

/-! Runs of the receiver: what it does between two system calls that wait, and
what therefore holds whenever it waits, before the connection, in its main loop
and in its last loop. -/
namespace Trtp.ReceiverRuns
open Lib.Circular Lib.Mask Lib.Reorder Lib.Run Lib.Serial Packet Process Buffer Net Receive ReceiveBuffer

variable {h : Host} {s t : Receiver}

theorem readSocket_moves (sound : Sound s) (socket : Option Recv)
    (timely : ∀ input, socket = some input → ¬ Early h s input) :
    (readSocket h socket s).Meets (Moves (Arrived h socket s) s) (Moves (Arrived h socket s) s)
      (fun _ _ => False) := by
  cases socket with
  | none => exact .refl
  | some input =>
    let source := Arrived h (some input) s
    have acknowledged (t : Receiver) (moves : Moves source s t) :
        Moves source s (if !t.needNack then { t with needAck := true } else t) := by
      split
      next => exact moves.tail (.idle _ rfl)
      next => exact moves
    have read : (doReadSock h input s).Meets (Moves source s) (Moves source s) (fun _ _ => False) := by
      unfold doReadSock
      by_cases full : rbufFull s = true
      · rw [full]
        cases input <;> exact .refl
      · have room : rbufFull s = false := by simpa using full
        rw [room]
        exact doReceiveData_moves sound room (timely input rfl)
    exact read.andThen acknowledged

theorem writeFile_moves {source : Nat → Pkt → Prop} (sound : Sound s) (obliging : Obliging h) (file : Bool) :
    ∃ t, writeFile h file s = .ret t ∧ Moves source s t ∧
      ((∀ n, h.write n = .complete) → bit t.oosMask 0 = false) := by
  unfold writeFile
  split
  next =>
    obtain ⟨t,ended,moves,empty⟩ := @emptyLoop_moves h source obliging 32 s sound
    exact ⟨t,ended,moves,fun complete => empty complete (trailingOnes_le s.oosMask)⟩
  next idle =>
    refine ⟨s,rfl,.refl,fun _ => ?_⟩
    by_contra set
    have waiting : bit s.oosMask 0 = true := by simpa using set
    have live := sound.filled 0 waiting
    apply idle
    rw [canEmptyRbuf,pktbufEmpty_false live,(and_one_iff _).mpr waiting]
    simp

/-- Inversion of a turn of the main loop: reading fails, or what is read and written
is followed by the replies. -/
theorem turn_cases (sound : Sound s) (obliging : Obliging h) (socket : Option Recv)
    (timely : ∀ input, socket = some input → ¬ Early h s input) (file : Bool) :
    (∃ t, turn h socket file s = .err t ∧ Moves (Arrived h socket s) s t) ∨
    ∃ m, Moves (Arrived h socket s) s m ∧ ((∀ n, h.write n = .complete) → bit m.oosMask 0 = false) ∧
      turn h socket file s = (answer h m).andThen (fun s => .ret (choosePolled s)) := by
  have met := readSocket_moves sound socket timely
  unfold turn
  cases read : readSocket h socket s with
  | halt reason t =>
    rw [read] at met
    exact met.elim
  | err t =>
    rw [read] at met
    exact Or.inl ⟨t,rfl,met⟩
  | ret t =>
    rw [read] at met
    obtain ⟨m,written,moves,empty⟩ := @writeFile_moves h t (Arrived h socket s) (Moves.sound met sound) obliging file
    refine Or.inr ⟨m,Relation.ReflTransGen.trans met moves,empty,?_⟩
    rw [Outcome.ret_andThen,written,Outcome.ret_andThen]

/-- Before the connection the receiver waits for the packet that fills the first
place of its empty buffer. -/
structure Fresh (s : Receiver) : Prop where
  oosMask : s.oosMask = 0
  expected : s.expected = 0
  drained : s.drained = 0
  accepted : s.accepted = []
  replies : s.replies = []
  output : s.output = []

structure Waiting (s : Receiver) (slot : UInt32) : Prop where
  place : slot = s.recvBuf.slot 0
  live : 0 < s.recvBuf.size
  fresh : Fresh s
  filled : ∀ pkt, pkt.seq = initialSeqnum → Sound (Receiver.holding s (s.recvBuf.put slot pkt))

theorem start_waiting {maxWindow : UInt32} (least : 1 ≤ maxWindow.toNat) (most : maxWindow.toNat ≤ maxWindowSize)
    {new buf : Pktbuf} {slot : UInt32} (made : pktbufNew recvCapacity true = .ok (some new))
    (allocated : pktbufEnqueue h new = .ok (slot,buf)) : Waiting (start maxWindow buf slot) slot := by
  obtain ⟨first,last,capacity,_⟩ := pktbufNew_fields made
  have empty : new.size = 0 := new.size_eq_zero.mpr (first.trans last.symm)
  have positive := new.capacity_pos
  have room : new.size < new.capacity.toNat := by omega
  rw [pktbufEnqueue_room h room] at allocated
  obtain ⟨rfl,rfl⟩ := Prod.mk.inj (Except.ok.inj allocated)
  have size := new.size_push (by omega)
  refine ⟨by rw [empty]; rfl,?_,⟨rfl,rfl,rfl,rfl,rfl,rfl⟩,?_⟩
  · change 0 < new.push.size
    omega
  · intro pkt seq
    have none : Aligned new 0 := ⟨by omega,by omega⟩
    have number : pkt.seq = serial (0 + new.size) := by
      rw [seq,empty]
      rfl
    refine ⟨least,most,capacity,none.push room number,?_,?_,?_,rfl,?_⟩
    · intro i set
      change bit 0 i = true at set
      rw [bit_zero] at set
      contradiction
    · change popcount 0 ≤ maxWindow.toNat
      exact Nat.le_trans (Nat.le_of_eq (by decide)) (Nat.zero_le _)
    · change 0 = 0 + trailingOnes 0
      rw [trailingOnes_eq_zero (bit_zero 0)]
    · intro n
      change n ∈ [] ↔ n ∈ (Reassembly.masked 0 0).accepted
      rw [Reassembly.masked_zero]
      simp [Reassembly.empty]

theorem Waiting.dropped {slot : UInt32} (waiting : Waiting s slot) (pkt : Pkt) (phase : Phase) :
    Waiting { s with recvBuf := s.recvBuf.put slot pkt, phase := phase } slot where
  place := waiting.place
  live := waiting.live
  fresh := ⟨waiting.fresh.1,waiting.fresh.2,waiting.fresh.3,waiting.fresh.4,waiting.fresh.5,waiting.fresh.6⟩
  filled other seq := by
    have sound := waiting.filled other seq
    change Sound { s with recvBuf := (s.recvBuf.put slot pkt).put slot other, phase := phase }
    rw [CircularArray.put_put]
    exact sound.frame rfl

/-- What the receiver keeps between two system calls that wait; it never halts. -/
def Consistent : Config Halt Receiver → Prop
  | .running s =>
    match s.phase with
    | .connecting _ slot => Waiting s slot
    | _ => Sound s
  | .returned _ s => Sound s ∨ ∃ slot, Waiting s slot
  | .halted _ _ => False

theorem consistent_running (sound : Sound s) (linked : ∀ retry slot, s.phase ≠ .connecting retry slot) :
    Consistent (.running s) := by
  cases phase : s.phase with
  | connecting retry slot => exact absurd phase (linked retry slot)
  | receiving => simpa only [Consistent,phase] using sound
  | lingering retry => simpa only [Consistent,phase] using sound

theorem Consistent.state {c : Config Halt Receiver} (consistent : Consistent c) : Sound c.state ∨ Fresh c.state := by
  cases c with
  | halted reason s => exact consistent.elim
  | returned code s => exact consistent.imp_right fun ⟨_,waiting⟩ => waiting.fresh
  | running s =>
    cases phase : s.phase with
    | connecting retry slot =>
      have waiting : Waiting s slot := by simpa only [Consistent,phase] using consistent
      exact Or.inr waiting.fresh
    | receiving =>
      have sound : Sound s := by simpa only [Consistent,phase] using consistent
      exact Or.inl sound
    | lingering retry =>
      have sound : Sound s := by simpa only [Consistent,phase] using consistent
      exact Or.inl sound

/-- No untruncated DATA packet is let through while in-sequence data waits. -/
def Timely (h : Host) : Config Halt Receiver → Event → Prop
  | .running s, .ready (some input) _ => s.phase = .receiving → ¬ Early h s input
  | _, _ => True

def socket : Event → Option Recv
  | .ready socket _ => socket
  | .datagram input _ => some input
  | _ => none

/-- What happens to the receiver from one waiting call to the next: it goes on
waiting for its first packet or gives up; it is linked; reading fails; it reads,
writes and replies; it replies in its last loop. -/
inductive Evolved (h : Host) (event : Event) (s : Receiver) : Config Halt Receiver → Prop
  | waited (d : Config Halt Receiver) (before : Fresh s) (after : Fresh d.state) : Evolved h event s d
  | linked (base t : Receiver) (before : Fresh s) (after : Fresh base) (sound : Sound base)
      (moves : Moves (Arrived h (socket event) base) base t) (phase : t.phase = .receiving) :
      Evolved h event s (.running t)
  | broken (code : Int) (t : Receiver) (sound : Sound s) (moves : Moves (Arrived h (socket event) s) s t) :
      Evolved h event s (.returned code t)
  | turned (m : Receiver) (d : Config Halt Receiver) (sound : Sound s) (moves : Moves (Arrived h (socket event) s) s m)
      (emptied : (∀ n, h.write n = .complete) → bit m.oosMask 0 = false) (answered : Answered h m d.state) :
      Evolved h event s d
  | lingered (retry : Nat) (d : Config Halt Receiver) (sound : Sound s) (phase : s.phase = .lingering retry)
      (answered : Answered h s d.state) : Evolved h event s d

/-- In short: from the same beginning, some moves and then some replies. -/
theorem Evolved.summary {event : Event} {d : Config Halt Receiver} (evolved : Evolved h event s d) :
    Fresh s ∧ Fresh d.state ∨ ∃ base m, (base = s ∨ Fresh s ∧ Fresh base) ∧ Sound base ∧
      Moves (Arrived h (socket event) base) base m ∧ Answered h m d.state := by
  cases evolved with
  | waited _ before after => exact Or.inl ⟨before,after⟩
  | linked base t before after sound moves phase => exact Or.inr ⟨base,t,Or.inr ⟨before,after⟩,sound,moves,.silent rfl⟩
  | broken code t sound moves => exact Or.inr ⟨s,t,Or.inl rfl,sound,moves,.silent rfl⟩
  | turned m _ sound moves emptied answered => exact Or.inr ⟨s,m,Or.inl rfl,sound,moves,answered⟩
  | lingered retry _ sound phase answered => exact Or.inr ⟨s,s,Or.inl rfl,sound,.refl,answered⟩

theorem Fresh.agree {base : Receiver} (began : base = s ∨ Fresh s ∧ Fresh base) :
    base.expected = s.expected ∧ base.accepted = s.accepted ∧ base.replies = s.replies := by
  rcases began with rfl | ⟨before,after⟩
  · exact ⟨rfl,rfl,rfl⟩
  · exact ⟨after.expected.trans before.expected.symm,after.accepted.trans before.accepted.symm,
      after.replies.trans before.replies.symm⟩

theorem Waiting.linked {slot : UInt32} (waiting : Waiting s slot) {input : Recv} {stale pkt : Pkt}
    (read : netRecvfrom h stale input = (.netOk,pkt)) (first : pkt.seq = initialSeqnum) :
    let base := Receiver.holding s (s.recvBuf.put slot pkt)
    Fresh base ∧ Sound base ∧ popcount base.oosMask < base.maxWindow.toNat ∧
      ∃ t, processIncomingPkt h slot base = .ret t ∧ Received h input base t ∧
        t.lastWrittenLen = s.lastWrittenLen := by
  intro base
  have sound : Sound base := waiting.filled pkt first
  have fresh : Fresh base := ⟨waiting.fresh.1,waiting.fresh.2,waiting.fresh.3,waiting.fresh.4,waiting.fresh.5,
    waiting.fresh.6⟩
  have mask : base.oosMask = 0 := fresh.oosMask
  have clear : bit base.oosMask 0 = false := by rw [mask,bit_zero]
  have ones : trailingOnes base.oosMask = 0 := trailingOnes_eq_zero clear
  have count : popcount base.oosMask = 0 := by
    rw [mask]
    decide
  have least := sound.least
  have room : popcount base.oosMask < base.maxWindow.toNat := by omega
  have seq : base.expectedSeq = 0 := by rw [sound.expectedSeq,fresh.expected]; rfl
  have none : (pkt.seq - base.expectedSeq).toNat = 0 := by
    rw [seq,first]
    rfl
  obtain ⟨t,ended,received,length⟩ := processIncomingPkt_received sound (by rw [ones]; exact waiting.live) room
    (sound.arrived read (by omega)) (fun set => by rw [clear] at set; contradiction)
  refine ⟨fresh,sound,room,t,?_,received,length⟩
  have place : base.recvBuf.slot (trailingOnes base.oosMask) = slot := by
    rw [ones]
    exact waiting.place.symm
  have again : Receiver.holding base (base.recvBuf.put slot pkt) = base := by
    simp only [base,Receiver.holding,CircularArray.put_put]
  rw [place,again] at ended
  exact ended

theorem waitAndConnect_evolved {retryCount : Nat} {slot : UInt32} (waiting : Waiting s slot) (input : Recv)
    (linked : Bool) : Consistent (waitAndConnect h retryCount slot input linked s) ∧
      Evolved h (.datagram input linked) s (waitAndConnect h retryCount slot input linked s) := by
  have awaited := waitAndConnect_cases h retryCount slot input linked s
  generalize waitAndConnect h retryCount slot input linked s = c at awaited ⊢
  cases awaited with
  | aborted pkt =>
    have dropped := waiting.dropped pkt s.phase
    exact ⟨Or.inr ⟨slot,dropped⟩,.waited _ waiting.fresh dropped.fresh⟩
  | again pkt =>
    have dropped := waiting.dropped pkt (.connecting (retryCount + 1) slot)
    exact ⟨dropped,.waited _ waiting.fresh dropped.fresh⟩
  | first pkt read number accepted =>
    obtain ⟨fresh,sound,room,t,ended,taken,_⟩ := waiting.linked read number
    let base := Receiver.holding s (s.recvBuf.put slot pkt)
    have moves : Moves (Arrived h (some input) base) base t := taken.moves room
    have idle : Move (Arrived h (some input) base) t { t with phase := .receiving, needAck := true } := .idle _ rfl
    have opened : connected h slot base = .running { t with phase := .receiving, needAck := true } := by
      rw [connected,ended]
    rw [opened]
    exact ⟨idle.sound (Moves.sound moves sound),.linked base _ waiting.fresh fresh sound (moves.tail idle) rfl⟩

theorem linger_evolved (sound : Sound s) {retry : Nat} (phase : s.phase = .lingering retry) (event : Event) :
    Consistent (linger h retry event s) ∧ Evolved h event s (linger h retry event s) := by
  have met := sendAck_answered h s
  have last := linger_cases h retry event s
  generalize linger h retry event s = c at last ⊢
  cases last with
  | done code => exact ⟨Or.inl sound,.lingered retry _ sound phase (.silent rfl)⟩
  | replied t sent =>
    rw [sent] at met
    have answered : Answered h s { t with phase := .lingering (retry + 1) } := ⟨met.same,met.news⟩
    exact ⟨answered.sound sound,.lingered retry _ sound phase answered⟩
  | failed t sent =>
    rw [sent] at met
    exact ⟨Or.inl (met.sound sound),.lingered retry _ sound phase met⟩

theorem turn_evolved (sound : Sound s) (obliging : Obliging h) {input : Option Recv}
    (timely : ∀ data, input = some data → ¬ Early h s data) (file : Bool) :
    Consistent (afterTurn (turn h input file s)) ∧
      Evolved h (.ready input file) s (afterTurn (turn h input file s)) := by
  rcases turn_cases sound obliging input timely file with ⟨t,failed,moves⟩ | ⟨m,moves,emptied,rest⟩
  · rw [failed]
    exact ⟨Or.inl (Moves.sound moves sound),.broken econnaborted t sound moves⟩
  · have before := Moves.sound moves sound
    have met := answer_answered h m
    rw [rest]
    cases answered : answer h m with
    | ret t =>
      rw [answered] at met
      let last := choosePolled t
      let phase := if last.lastWrittenLen ≠ 0 ∨ !pktbufEmpty last.recvBuf then Phase.receiving else .lingering 0
      have after : Answered h m { last with phase := phase } := ⟨met.same,met.news⟩
      refine ⟨consistent_running (after.sound before) ?_,.turned m _ sound moves emptied after⟩
      intro retry slot
      change phase ≠ .connecting retry slot
      unfold phase
      split <;> simp
    | err t =>
      rw [answered] at met
      exact ⟨Or.inl (met.sound before),.turned m _ sound moves emptied met⟩
    | halt reason t =>
      rw [answered] at met
      exact met.elim

/-- Step lemma: in a timely step the receiver does not halt and evolves by moves and replies. -/
theorem next_evolved (obliging : Obliging h) {c d : Config Halt Receiver} {event : Event} (inv : Consistent c)
    (timely : Timely h c event) (taken : Step h c event d) : Consistent d ∧ Evolved h event c.state d := by
  obtain ⟨s,rfl,stepped⟩ := step_cases taken
  cases stepped with
  | awaited retry slot input linked phase =>
    have waiting : Waiting s slot := by simpa only [Consistent,phase] using inv
    exact waitAndConnect_evolved waiting input linked
  | aborted event phase =>
    have sound : Sound s := by simpa only [Consistent,phase] using inv
    exact ⟨Or.inl sound,.broken econnaborted s sound .refl⟩
  | turned input file phase =>
    have sound : Sound s := by simpa only [Consistent,phase] using inv
    refine turn_evolved sound obliging ?_ file
    rintro data rfl
    exact timely phase
  | lingered retry event phase =>
    have sound : Sound s := by simpa only [Consistent,phase] using inv
    exact linger_evolved sound phase event

theorem start_consistent {maxWindow : UInt32} (least : 1 ≤ maxWindow.toNat) (most : maxWindow.toNat ≤ maxWindowSize)
    {c : Config Halt Receiver} (first : Start h maxWindow c) : Consistent c := by
  obtain ⟨new,slot,buf,made,allocated,rfl⟩ := first
  exact start_waiting least most made allocated

section Runs

variable {maxWindow : UInt32} {allowed : Config Halt Receiver → Event → Prop} {c : Config Halt Receiver}

theorem reachable_consistent (obliging : Obliging h) (least : 1 ≤ maxWindow.toNat)
    (most : maxWindow.toNat ≤ maxWindowSize) (timely : ∀ c event, allowed c event → Timely h c event)
    (reached : Reach (Start h maxWindow) (Step h) allowed c) : Consistent c := by
  have base : ∀ c, Start h maxWindow c → Consistent c := fun c first => start_consistent least most first
  have kept : ∀ c event d, Consistent c → allowed c event → Step h c event d → Consistent d :=
    fun c event d inv admitted taken => (next_evolved obliging inv (timely c event admitted) taken).1
  exact reached.invariant base kept

/-- Rule for timely runs: what holds of an empty receiver and is kept by moves and by replies. -/
theorem reachable_rule (obliging : Obliging h) (least : 1 ≤ maxWindow.toNat) (most : maxWindow.toNat ≤ maxWindowSize)
    (timely : ∀ c event, allowed c event → Timely h c event) {good : Receiver → Prop}
    (fresh : ∀ s, Fresh s → good s)
    (moved : ∀ c event, allowed c event → ∀ base, Sound base → base.expected = c.state.expected →
      ∀ s t, Sound s → good s → Move (Arrived h (socket event) base) s t → good t)
    (answered : ∀ s t, good s → Answered h s t → good t)
    (reached : Reach (Start h maxWindow) (Step h) allowed c) : good c.state := by
  have base : ∀ c, Start h maxWindow c → Consistent c ∧ good c.state := by
    rintro c ⟨new,slot,buf,made,allocated,rfl⟩
    have waiting := start_waiting least most made allocated
    exact ⟨waiting,fresh _ waiting.fresh⟩
  have kept : ∀ c event d, Consistent c ∧ good c.state → allowed c event → Step h c event d → Consistent d ∧
    good d.state := by
    rintro c event d ⟨inv,before⟩ admitted taken
    obtain ⟨after,evolved⟩ := next_evolved obliging inv (timely c event admitted) taken
    have moves (base t : Receiver) (sound : Sound base) (same : base.expected = c.state.expected)
        (before : good base) (moves : Moves (Arrived h (socket event) base) base t) : good t := by
      have both : Sound t ∧ good t := by
        induction moves with
        | refl => exact ⟨sound,before⟩
        | tail _ move ih => exact ⟨move.sound ih.1,moved c event admitted base sound same _ _ ih.1 ih.2 move⟩
      exact both.2
    refine ⟨after,?_⟩
    rcases evolved.summary with ⟨_,empty⟩ | ⟨base,m,began,sound,run,replies⟩
    · exact fresh _ empty
    · have start : good base := by
        rcases began with rfl | ⟨_,empty⟩
        · exact before
        · exact fresh _ empty
      exact answered m _ (moves base m sound (Fresh.agree began).1 start run) replies
  exact (reached.invariant base kept).2

end Runs

end Trtp.ReceiverRuns
