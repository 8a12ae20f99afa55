import Trtp.DataStream
import Trtp.Marking

/-! The end of the transfer. Reading any datagram takes a place for the expected
packet; behind the empty chunk that ends the transfer this place is never emptied. -/
namespace Trtp.EndOfTransfer
open Lib.Circular Lib.Mask Lib.Run Lib.Serial Packet Codec Process Buffer Net Receive ReceiveBuffer ReceiverRuns
open Marking DataStream

/-- The length of the last packet in sequence, which waits at the front or was written last. -/
def lastLength (s : Receiver) : Int :=
  if trailingOnes s.oosMask = 0 then s.lastWrittenLen
  else (s.recvBuf.get (trailingOnes s.oosMask - 1)).length.toNat

/-- The last place is that of a marked packet or of the expected one, and the latter
only if the packets in sequence do not end the transfer. -/
structure Tailed (s : Receiver) : Prop where
  last : ∀ k, s.recvBuf.size = k + 1 → bit s.oosMask k = true ∨ k = trailingOnes s.oosMask
  more : s.recvBuf.size = trailingOnes s.oosMask + 1 → lastLength s ≠ 0

variable {h : Host} {s t : Receiver}

theorem Tailed.frame (tailed : Tailed s) (buffer : t.recvBuf = s.recvBuf) (mask : t.oosMask = s.oosMask)
    (length : t.lastWrittenLen = s.lastWrittenLen) : Tailed t := by
  have same : lastLength t = lastLength s := by rw [lastLength,lastLength,buffer,mask,length]
  refine ⟨?_,?_⟩
  · rw [buffer,mask]
    exact tailed.last
  · rw [buffer,mask,same]
    exact tailed.more

theorem lastLength_holding {buf : Pktbuf} (kept : Retained s.oosMask s.drained s.recvBuf buf) :
    lastLength (Receiver.holding s buf) = lastLength s := by
  unfold lastLength
  change (if trailingOnes s.oosMask = 0 then s.lastWrittenLen
    else ((buf.get (trailingOnes s.oosMask - 1)).length.toNat : Int)) = _
  split
  next => rfl
  next some =>
    have set : bit s.oosMask (trailingOnes s.oosMask - 1) = true := bit_of_lt_trailingOnes (by omega)
    rw [kept.kept _ set]

theorem Tailed.reserved (tailed : Tailed s) (goes : s.recvBuf.size ≤ trailingOnes s.oosMask → lastLength s ≠ 0)
    {buf : Pktbuf} (kept : Retained s.oosMask s.drained s.recvBuf buf)
    (size : buf.size = max s.recvBuf.size (trailingOnes s.oosMask + 1)) : Tailed (Receiver.holding s buf) where
  last k exact := by
    change buf.size = k + 1 at exact
    change bit s.oosMask k = true ∨ k = trailingOnes s.oosMask
    rcases Nat.lt_or_ge (trailingOnes s.oosMask) s.recvBuf.size with inside | beyond
    · exact tailed.last k (by omega)
    · exact Or.inr (by omega)
  more exact := by
    change buf.size = trailingOnes s.oosMask + 1 at exact
    rw [lastLength_holding kept]
    rcases Nat.lt_or_ge (trailingOnes s.oosMask) s.recvBuf.size with inside | beyond
    · exact tailed.more (by omega)
    · exact goes beyond

theorem Tailed.stored (tailed : Tailed s) (clear : bit s.oosMask 0 = false) {buf : Pktbuf} {gap : Nat}
    (small : gap < 32) (size : buf.size = max s.recvBuf.size (gap + 1)) (pkt : Pkt) :
    Tailed (Receiver.storing (Receiver.holding s buf) pkt gap) := by
  have marked (k : Nat) (exact : buf.size = k + 1) : bit (setBit s.oosMask gap) k = true := by
    rw [bit_setBit s.oosMask small,Bool.or_eq_true,decide_eq_true_eq]
    rcases Nat.lt_or_ge gap s.recvBuf.size with inside | beyond
    · rcases tailed.last k (by omega) with set | front
      · exact Or.inl set
      · rw [trailingOnes_eq_zero clear] at front
        exact Or.inr (by omega)
    · exact Or.inr (by omega)
  refine ⟨fun k exact => Or.inl (marked k exact),?_⟩
  intro exact
  have set := marked _ exact
  change bit (setBit s.oosMask gap) (trailingOnes (setBit s.oosMask gap)) = true at set
  rw [bit_trailingOnes] at set
  contradiction

theorem Tailed.drained (tailed : Tailed s) (live : 0 < s.recvBuf.size) (set : bit s.oosMask 0 = true)
    {m : Receiver} (buffer : m.recvBuf = s.recvBuf) (mask : m.oosMask = s.oosMask)
    (length : m.lastWrittenLen = (s.recvBuf.get 0).length.toNat) : Tailed (Receiver.draining m) := by
  have size := s.recvBuf.size_pop live
  have ones := trailingOnes_shift set
  constructor
  · intro k exact
    change m.recvBuf.pop.size = k + 1 at exact
    change bit (m.oosMask >>> 1) k = true ∨ k = trailingOnes (m.oosMask >>> 1)
    rw [buffer] at exact
    rw [mask,bit_shift]
    rcases tailed.last (k + 1) (by omega) with later | front
    · exact Or.inl later
    · exact Or.inr (by omega)
  · intro exact
    change m.recvBuf.pop.size = trailingOnes (m.oosMask >>> 1) + 1 at exact
    rw [buffer,mask] at exact
    have before := tailed.more (by omega)
    unfold lastLength at before ⊢
    rw [if_neg (by omega)] at before
    change (if trailingOnes (m.oosMask >>> 1) = 0 then m.lastWrittenLen
      else ((m.recvBuf.pop.get (trailingOnes (m.oosMask >>> 1) - 1)).length.toNat : Int)) ≠ 0
    rw [mask,buffer]
    split
    next none =>
      have single : trailingOnes s.oosMask - 1 = 0 := by omega
      rw [single] at before
      rw [length]
      exact before
    next some =>
      have position : trailingOnes (s.oosMask >>> 1) - 1 + 1 = trailingOnes s.oosMask - 1 := by omega
      rw [s.recvBuf.get_pop,position]
      exact before

theorem Tailed.received {input : Recv} (tailed : Tailed s) (sound : Sound s)
    (goes : s.recvBuf.size ≤ trailingOnes s.oosMask → lastLength s ≠ 0) (received : Received h input s t)
    (length : t.lastWrittenLen = s.lastWrittenLen) : Tailed t := by
  cases received with
  | reserved buf kept size same =>
    obtain ⟨buffer,mask⟩ := core_fields same
    exact (tailed.reserved goes kept size).frame buffer mask length
  | stored buf pkt gap kept size clear arrived whole same =>
    obtain ⟨buffer,mask⟩ := core_fields same
    have most := sound.most
    have near := arrived.near
    unfold maxWindowSize at most
    exact (tailed.stored clear (by omega) size pkt).frame buffer mask length

theorem emptyLoop_tailed (obliging : Obliging h) (fuel : Nat) (s : Receiver) (sound : Sound s) (tailed : Tailed s) :
    (emptyLoop h fuel s).Meets Tailed (fun _ => True) (fun _ _ => True) := by
  induction fuel generalizing s with
  | zero => exact tailed
  | succ fuel ih =>
    by_cases set : bit s.oosMask 0 = true
    · let m := Receiver.writing s
      have live := sound.filled 0 set
      rw [emptyLoop_turn live obliging set]
      split
      next =>
        have same : lastLength m = lastLength s := by
          have some := trailingOnes_pos set
          change (if trailingOnes s.oosMask = 0 then _ else _) = _
          rw [lastLength,if_neg (by omega),if_neg (by omega)]
          rfl
        refine ⟨tailed.last,?_⟩
        intro exact
        change lastLength m ≠ 0
        rw [same]
        exact tailed.more exact
      next =>
        have idle : Move (fun _ _ => False) s m := .idle m rfl
        have drained : Move (fun _ _ => False) m (Receiver.draining m) := .drained set
        exact ih _ (drained.sound (idle.sound sound)) (tailed.drained live set rfl rfl rfl)
    · rw [emptyLoop_done (by simpa using set)]
      exact tailed

structure Going (s : Receiver) : Prop where
  tailed : Tailed s
  more : s.recvBuf.size = 0 → s.lastWrittenLen ≠ 0

theorem readSocket_tailed (sound : Sound s) (going : Going s)
    {socket : Option Recv} (timely : ∀ input, socket = some input → ¬ Early h s input)
    (unended : socket.isSome → bit s.oosMask 0 = true → rbufFull s = false → lastLength s ≠ 0) :
    (readSocket h socket s).Meets Tailed (fun _ => True) (fun _ _ => True) := by
  cases socket with
  | none => exact going.tailed
  | some input =>
    have acknowledged (t : Receiver) (tailed : Tailed t) :
        Tailed (if !t.needNack then { t with needAck := true } else t) := by
      split
      next => exact tailed.frame rfl rfl rfl
      next => exact tailed
    have read : (doReadSock h input s).Meets Tailed (fun _ => True) (fun _ _ => True) := by
      unfold doReadSock
      cases full : rbufFull s with
      | true => cases input <;> first | exact going.tailed | trivial
      | false =>
        have goes : s.recvBuf.size ≤ trailingOnes s.oosMask → lastLength s ≠ 0 := by
          intro short
          by_cases set : bit s.oosMask 0 = true
          · exact unended rfl set full
          · have none : trailingOnes s.oosMask = 0 := trailingOnes_eq_zero (by simpa using set)
            rw [lastLength,if_pos none]
            exact going.more (by omega)
        exact (doReceiveData_received sound full (timely input rfl)).mono
          (fun _ met => going.tailed.received sound goes met.1 met.2) (fun _ _ => trivial) (fun _ _ _ => trivial)
    exact read.andThen acknowledged

theorem writeFile_tailed (obliging : Obliging h) (file : Bool) (sound : Sound s) (tailed : Tailed s) :
    (writeFile h file s).Meets Tailed (fun _ => True) (fun _ _ => True) := by
  unfold writeFile
  split
  next => exact emptyLoop_tailed obliging 32 s sound tailed
  next => exact tailed

theorem answer_tailed (tailed : Tailed s) : (answer h s).Meets Tailed (fun _ => True) (fun _ _ => True) := by
  have met := answer_answered h s
  have same := answer_ledger h s
  cases answered : answer h s with
  | ret t =>
    rw [answered] at met same
    obtain ⟨buffer,mask⟩ := core_fields met.same
    exact tailed.frame buffer mask (congrArg Ledger.lastWrittenLen same)
  | err t => trivial
  | halt reason t => trivial

theorem turn_tailed (obliging : Obliging h) (file : Bool) (sound : Sound s) (going : Going s)
    {socket : Option Recv} (timely : ∀ input, socket = some input → ¬ Early h s input)
    (unended : socket.isSome → bit s.oosMask 0 = true → rbufFull s = false → lastLength s ≠ 0) :
    (turn h socket file s).Meets Tailed (fun _ => True) (fun _ _ => True) := by
  have moved := readSocket_moves sound socket timely
  have read := readSocket_tailed sound going timely unended
  have both : (readSocket h socket s).Meets (fun t => Sound t ∧ Tailed t) (fun _ => True) (fun _ _ => True) :=
    (moved.and read).mono (fun _ met => ⟨Moves.sound met.1 sound,met.2⟩) (fun _ _ => trivial) (fun _ _ _ => trivial)
  have written := both.andThen (fun t met => writeFile_tailed obliging file met.1 met.2)
  have answered := written.andThen (fun t tailed => answer_tailed (h := h) tailed)
  exact answered.andThen (fun t tailed => tailed.frame rfl rfl rfl)

/-- Nothing is read while the last packet in sequence, not yet written, is the empty one. -/
def Unended : Config Halt Receiver → Event → Prop
  | .running s, .ready (some _) _ => s.phase = .receiving → bit s.oosMask 0 = true → rbufFull s = false →
      lastLength s ≠ 0
  | _, _ => True

def Poised : Config Halt Receiver → Prop
  | .running s =>
    match s.phase with
    | .connecting _ _ => s.recvBuf.size = 1 ∧ s.lastWrittenLen ≠ 0
    | .receiving => Going s
    | .lingering _ => True
  | _ => True

theorem afterTurn_poised {o : Outcome Halt Receiver} (met : o.Meets Tailed (fun _ => True) (fun _ _ => True)) :
    Poised (afterTurn o) := by
  cases o with
  | ret t =>
    by_cases more : t.lastWrittenLen ≠ 0 ∨ (!pktbufEmpty t.recvBuf) = true
    · have phase : afterTurn (.ret t) = .running { t with phase := .receiving } := by
        simp only [afterTurn,if_pos more]
      rw [phase]
      refine ⟨Tailed.frame met rfl rfl rfl,?_⟩
      intro none
      change t.recvBuf.size = 0 at none
      rcases more with length | live
      · exact length
      · rw [(pktbufEmpty_iff _).mpr none] at live
        contradiction
    · have phase : afterTurn (.ret t) = .running { t with phase := .lingering 0 } := by
        simp only [afterTurn,if_neg more]
      rw [phase]
      trivial
  | err t => trivial
  | halt reason t => trivial

theorem linger_poised (retry : Nat) (event : Event) (s : Receiver) : Poised (linger h retry event s) := by
  have last := linger_cases h retry event s
  generalize linger h retry event s = c at last ⊢
  cases last <;> trivial

theorem waitAndConnect_poised {retry : Nat} {slot : UInt32} (waiting : Waiting s slot) (single : s.recvBuf.size = 1)
    (length : s.lastWrittenLen ≠ 0) (input : Recv) (linked : Bool) :
    Poised (waitAndConnect h retry slot input linked s) := by
  have awaited := waitAndConnect_cases h retry slot input linked s
  generalize waitAndConnect h retry slot input linked s = c at awaited ⊢
  cases awaited with
  | aborted pkt => trivial
  | again pkt => exact ⟨single,length⟩
  | first pkt read number accepted =>
    obtain ⟨fresh,sound,room,t,ended,taken,same⟩ := waiting.linked read number
    let base := Receiver.holding s (s.recvBuf.put slot pkt)
    have none : trailingOnes base.oosMask = 0 := by
      rw [fresh.oosMask]
      exact trailingOnes_eq_zero (bit_zero 0)
    have size : base.recvBuf.size = 1 := single
    have first : lastLength base = s.lastWrittenLen := if_pos none
    have tailed : Tailed base := ⟨fun k exact => Or.inr (by omega),fun _ => by rw [first]; exact length⟩
    have after := tailed.received sound (fun _ => by rw [first]; exact length) taken same
    have opened : connected h slot base = .running { t with phase := .receiving, needAck := true } := by
      rw [connected,ended]
    rw [opened]
    refine ⟨after.frame rfl rfl rfl,fun _ => ?_⟩
    change t.lastWrittenLen ≠ 0
    rw [same]
    exact length

theorem next_poised (obliging : Obliging h) {c d : Config Halt Receiver} {event : Event} (inv : Consistent c)
    (poised : Poised c) (timely : Timely h c event) (unended : Unended c event) (taken : Step h c event d) :
    Poised d := by
  obtain ⟨s,rfl,stepped⟩ := step_cases taken
  cases stepped with
  | awaited retry slot input linked phase =>
    have waiting : Waiting s slot := by simpa only [Consistent,phase] using inv
    obtain ⟨single,length⟩ : s.recvBuf.size = 1 ∧ s.lastWrittenLen ≠ 0 := by simpa only [Poised,phase] using poised
    exact waitAndConnect_poised waiting single length input linked
  | aborted event phase => trivial
  | turned input file phase =>
    have sound : Sound s := by simpa only [Consistent,phase] using inv
    have going : Going s := by simpa only [Poised,phase] using poised
    refine afterTurn_poised (turn_tailed obliging file sound going ?_ ?_)
    · rintro data rfl
      exact timely phase
    · intro arrived
      obtain ⟨data,rfl⟩ := Option.isSome_iff_exists.mp arrived
      exact unended phase
  | lingered retry event phase => exact linger_poised retry event s

theorem start_poised {maxWindow : UInt32} {c : Config Halt Receiver} (first : Start h maxWindow c) : Poised c := by
  obtain ⟨new,slot,buf,made,allocated,rfl⟩ := first
  obtain ⟨front,back,_⟩ := pktbufNew_fields made
  have empty : new.size = 0 := new.size_eq_zero.mpr (front.trans back.symm)
  have positive := new.capacity_pos
  rw [pktbufEnqueue_room h (by omega)] at allocated
  obtain ⟨_,rfl⟩ := Prod.mk.inj (Except.ok.inj allocated)
  have size := new.size_push (by omega)
  refine ⟨?_,by change (-1 : Int) ≠ 0; decide⟩
  change new.push.size = 1
  omega

theorem reachable_poised (obliging : Obliging h) {maxWindow : UInt32} (least : 1 ≤ maxWindow.toNat)
    (most : maxWindow.toNat ≤ maxWindowSize) {c : Config Halt Receiver}
    (reached : Reach (Start h maxWindow) (Step h) (fun c event => Timely h c event ∧ Unended c event) c) :
    Consistent c ∧ Poised c := by
  have base : ∀ c, Start h maxWindow c → Consistent c ∧ Poised c :=
    fun c first => ⟨start_consistent least most first,start_poised first⟩
  have kept : ∀ c event d, Consistent c ∧ Poised c → Timely h c event ∧ Unended c event → Step h c event d →
      Consistent d ∧ Poised d := by
    rintro c event d ⟨inv,poised⟩ ⟨timely,unended⟩ taken
    exact ⟨(next_evolved obliging inv timely taken).1,next_poised obliging inv poised timely unended taken⟩
  exact reached.invariant base kept

/-- In a run in which nothing is read behind the end of the transfer, the buffer is
empty when the empty chunk is written and nothing is marked, and the main loop is left. -/
theorem receive_endOfTransfer (h : Host) (obliging : Obliging h) (maxWindow : UInt32) (least : 1 ≤ maxWindow.toNat)
    (most : maxWindow.toNat ≤ maxWindowSize) (s t : Receiver) (socket : Option Recv) (file : Bool)
    (reached : Reach (Start h maxWindow) (Step h) (fun c event => Timely h c event ∧ Unended c event) (.running s))
    (phase : s.phase = .receiving) (admitted : Timely h (.running s) (.ready socket file) ∧
      Unended (.running s) (.ready socket file))
    (taken : Step h (.running s) (.ready socket file) (.running t)) (written : t.lastWrittenLen = 0)
    (drained : t.oosMask = 0) : pktbufEmpty t.recvBuf = true ∧ t.phase = .lingering 0 := by
  obtain ⟨inv,poised⟩ := reachable_poised obliging least most reached
  have sound : Sound s := by simpa only [Consistent,phase] using inv
  have going : Going s := by simpa only [Poised,phase] using poised
  have ended : afterTurn (turn h socket file s) = .running t := by simpa [Step,next,phase] using taken
  have met : (turn h socket file s).Meets Tailed (fun _ => True) (fun _ _ => True) := by
    refine turn_tailed obliging file sound going ?_ ?_
    · rintro data rfl
      exact admitted.1 phase
    · intro arrived
      obtain ⟨data,rfl⟩ := Option.isSome_iff_exists.mp arrived
      exact admitted.2 phase
  cases outcome : turn h socket file s with
  | err u =>
    rw [outcome] at ended
    contradiction
  | halt reason u =>
    rw [outcome] at ended
    contradiction
  | ret u =>
    rw [outcome] at ended met
    obtain rfl := Config.running.inj ended
    have tailed : Tailed u := met
    have length : u.lastWrittenLen = 0 := written
    have ones : trailingOnes u.oosMask = 0 := by
      rw [show u.oosMask = 0 from drained]
      exact trailingOnes_eq_zero (bit_zero 0)
    have size : u.recvBuf.size = 0 := by
      by_contra some
      obtain ⟨k,exact⟩ := Nat.exists_eq_succ_of_ne_zero some
      rcases tailed.last k exact with set | front
      · rw [show u.oosMask = 0 from drained,bit_zero] at set
        contradiction
      · have last := tailed.more (by omega)
        rw [lastLength,if_pos ones] at last
        exact last length
    have empty : pktbufEmpty u.recvBuf = true := (pktbufEmpty_iff _).mpr size
    refine ⟨empty,?_⟩
    have finished : ¬ (u.lastWrittenLen ≠ 0 ∨ (!pktbufEmpty u.recvBuf) = true) := by
      rw [length,empty]
      simp
    exact if_neg finished

def emptyFile (i : Nat) : Pkt := { Pkt.zero with type := ptypeData, seq := serial i }

theorem emptyFile_isStream : IsStream emptyFile where
  valid _ := ⟨rfl,Nat.zero_le _,fun _ => ⟨rfl,rfl⟩,fun _ => rfl⟩
  data _ := rfl
  whole _ := rfl
  number _ := rfl

def emptyChunk : Recv := .datagram (image steadyHost.crc32 (emptyFile 0))

/-- The empty chunk opens the connection and is written before anything else is read. -/
theorem receive_endOfTransfer_emptyFile : ∃ s t, Step steadyHost (firstWait 31) (.datagram emptyChunk true)
    (.running s) ∧
    Step steadyHost (.running s) (.ready none true) (.running t) ∧
    pktbufEmpty t.recvBuf = true ∧ t.phase = .lingering 0 := by
  have runs : runningWith (fun s => decide (s.phase = .receiving) &&
      runningWith (fun t => t.lastWrittenLen == 0 && t.oosMask == 0) (next steadyHost (.running s) (.ready none true)))
      (next steadyHost (firstWait 31) (.datagram emptyChunk true)) = true := by decide +kernel
  obtain ⟨s,opened,passed⟩ := exists_of_runningWith runs
  obtain ⟨phase,rest⟩ := (Bool.and_eq_true _ _).mp passed
  obtain ⟨t,taken,passed⟩ := exists_of_runningWith rest
  obtain ⟨written,drained⟩ := (Bool.and_eq_true _ _).mp passed
  refine ⟨s,t,opened,taken,?_⟩
  have admitted : Timely steadyHost (firstWait 31) (.datagram emptyChunk true) ∧
      Unended (firstWait 31) (.datagram emptyChunk true) := ⟨trivial,trivial⟩
  have reached : Reach (Start steadyHost 31) (Step steadyHost)
    (fun c event => Timely steadyHost c event ∧ Unended c event)
      (.running s) := .step _ _ _ (.start _ (firstWait_start steadyHost 31)) admitted opened
  exact receive_endOfTransfer steadyHost (fun _ => Or.inl rfl) 31 (by decide) (by decide) s t none true
    reached (of_decide_eq_true phase)
    ⟨trivial,trivial⟩ taken (eq_of_beq written) (eq_of_beq drained)

/-- Datagrams of the first chunks of a stream, up to the last one. -/
def Supplied (h : Host) (stream : Nat → Pkt) (last : Nat) (c : Config Halt Receiver) (event : Event) : Prop :=
  ∀ input, socket event = some input → (∃ i, i ≤ last ∧ Near i c.state.expected ∧
    (input = .datagram (image h.crc32 (stream i)) ∨ input = .datagram (truncate (image h.crc32 (stream i))))) ∨
    ∀ stale, (netRecvfrom h stale input).1 ≠ .netOk

/-- The empty chunk arrives a second time before it is written: a place is taken for
a packet behind it, and the receiver goes on waiting. -/
theorem receive_endMissed : ¬ ∀ (h : Host) (maxWindow : UInt32) (stream : Nat → Pkt) (last : Nat), Obliging h →
    1 ≤ maxWindow.toNat → maxWindow.toNat ≤ maxWindowSize → IsStream stream →
    (∀ i, i ≤ last → ((stream i).length = 0 ↔ i = last)) → ∀ (s t : Receiver) (socket : Option Recv) (file : Bool),
    Reach (Start h maxWindow) (Step h) (Supplied h stream last) (.running s) →
    Supplied h stream last (.running s) (.ready socket file) → s.phase = .receiving →
    Step h (.running s) (.ready socket file) (.running t) → t.lastWrittenLen = 0 → t.oosMask = 0 →
    pktbufEmpty t.recvBuf = true := by
  intro claim
  have runs : runningWith (fun s => (decide (s.phase = .receiving) && s.expected == 1) &&
      runningWith (fun t => (t.lastWrittenLen == 0 && t.oosMask == 0) && !pktbufEmpty t.recvBuf)
        (next steadyHost (.running s) (.ready (some emptyChunk) true)))
      (next steadyHost (firstWait 31) (.datagram emptyChunk true)) = true := by decide +kernel
  obtain ⟨s,opened,passed⟩ := exists_of_runningWith runs
  obtain ⟨before,rest⟩ := (Bool.and_eq_true _ _).mp passed
  obtain ⟨phase,expected⟩ := (Bool.and_eq_true _ _).mp before
  obtain ⟨t,taken,passed⟩ := exists_of_runningWith rest
  obtain ⟨ended,live⟩ := (Bool.and_eq_true _ _).mp passed
  obtain ⟨written,drained⟩ := (Bool.and_eq_true _ _).mp ended
  have supplied (c : Config Halt Receiver) (event : Event) (near : c.state.expected ≤ 1)
      (brought : socket event = some emptyChunk) : Supplied steadyHost emptyFile 0 c event := by
    intro input found
    obtain rfl := Option.some.inj (brought.symm.trans found)
    exact Or.inl ⟨0,Nat.le_refl 0,⟨by omega,by omega⟩,Or.inl rfl⟩
  have one : s.expected = 1 := eq_of_beq expected
  have reached : Reach (Start steadyHost 31) (Step steadyHost) (Supplied steadyHost emptyFile 0) (.running s) :=
    .step _ _ _ (.start _ (firstWait_start steadyHost 31)) (supplied _ _ (Nat.zero_le 1) rfl) opened
  have again : Supplied steadyHost emptyFile 0 (.running s) (.ready (some emptyChunk) true) :=
    supplied _ _ (Nat.le_of_eq one) rfl
  have empty : pktbufEmpty t.recvBuf = true := claim steadyHost 31 emptyFile 0 (fun _ => Or.inl rfl) (by decide)
    (by decide) emptyFile_isStream (fun i first => ⟨fun _ => Nat.le_zero.mp first,fun _ => rfl⟩) s t (some emptyChunk)
    true reached again (of_decide_eq_true phase) taken (eq_of_beq written) (eq_of_beq drained)
  simp [empty] at live

end Trtp.EndOfTransfer
