import Trtp.Marking
import Trtp.PairFlow

/-! The two ends of a transfer whose output is never blocked.
The receiver then announces its whole window in every reply and acknowledges all that
it has written, and everything it accepts is what the sender has sent by its own count. -/
namespace Trtp.Accord
open Lib.Circular Lib.Mask Lib.Run Lib.Serial Packet Codec Process Buffer Net SendBuffer SenderRuns Progress
open ReceiveBuffer ReceiverRuns DataStream InOrder Acknowledgement Network Transfer PairFlow
open Transmit (Sender Sending Chunk)
open Receive

/-- Whoever owes a NACK, or holds data that was not yet written, owes an ACK. -/
structure Willing (s : Receiver) : Prop where
  nack : s.needNack = true → s.needAck = true
  waiting : bit s.oosMask 0 = true → s.needAck = true

def Acknowledged (s : Receiver) : Prop := s.drained = 0 ∨ ∃ r ∈ s.replies, r.type = ptypeAck ∧ r.number = s.drained

/-- The length of the last of the first `n` chunks of the transfer. -/
def writtenLength (chunks : List Chunk) : Nat → Int
  | 0 => -1
  | n + 1 => (chunks[n]?.getD endOfFile).val.length

def Measured (chunks : List Chunk) (s : Receiver) : Prop := s.lastWrittenLen = writtenLength chunks s.drained

/-- What reading notes down, where a packet that was truncated has a number in `cut`. -/
structure Noted (cut : UInt8 → Prop) (s t : Receiver) : Prop where
  needAck : t.needAck = s.needAck
  nack : t.needNack = s.needNack ∧ t.nackSeq = s.nackSeq ∨ t.accepted = s.accepted ∧ cut t.nackSeq
  length : t.lastWrittenLen = s.lastWrittenLen
  drained : t.drained = s.drained

/-- The number of a packet that has just arrived. -/
def Cut (h : Host) (input : Option Recv) (s : Receiver) (seq : UInt8) : Prop :=
  ∃ n pkt, Arrived h input s n pkt ∧ seq = serial n

variable {h : Host} {s t : Receiver} {chunks : List Chunk}

theorem Noted.measured {cut : UInt8 → Prop} (noted : Noted cut s t) (measured : Measured chunks s) :
    Measured chunks t := by
  rw [Measured,noted.length,noted.drained]
  exact measured

theorem Measured.ended (nonempty : ∀ bytes ∈ chunks, bytes.val ≠ []) (measured : Measured chunks s)
    (none : s.lastWrittenLen = 0) : chunks.length < s.drained := by
  rw [Measured,none] at measured
  generalize s.drained = n at measured ⊢
  cases n with
  | zero =>
    change (0 : Int) = -1 at measured
    omega
  | succ n =>
    by_contra inside
    have before : n < chunks.length := by omega
    rw [writtenLength,List.getElem?_eq_getElem before,Option.getD_some] at measured
    exact nonempty _ (List.getElem_mem before) (List.length_eq_zero_iff.mp (Int.ofNat_eq_zero.mp measured.symm))

theorem acceptPkt_noted (h : Host) (cut : UInt8 → Prop) (place : UInt32) (distance gap : UInt8) (s : Receiver) :
    Noted cut s (acceptPkt h place distance gap s).state := by
  unfold acceptPkt
  by_cases long : distance.toNat + gap.toNat ≥ 32
  · rw [if_pos long]
    exact ⟨rfl,Or.inl ⟨rfl,rfl⟩,rfl,rfl⟩
  · rw [if_neg long]
    by_cases ahead : gap > 0
    · simp only [if_pos ahead]
      cases pktbufSlotforSeq h (setSeq s.recvBuf place s.expectedSeq) (s.recvBuf.head place).seq <;>
        exact ⟨rfl,Or.inl ⟨rfl,rfl⟩,rfl,rfl⟩
    · simp only [if_neg ahead]
      exact ⟨rfl,Or.inl ⟨rfl,rfl⟩,rfl,rfl⟩

theorem processIncomingPkt_noted (h : Host) (place : UInt32) (s : Receiver) :
    Noted (· = (s.recvBuf.head place).seq) s (processIncomingPkt h place s).state := by
  cases found : distance s with
  | none =>
    rw [processIncomingPkt_lost place found]
    exact ⟨rfl,Or.inl ⟨rfl,rfl⟩,rfl,rfl⟩
  | some d =>
    cases cut : (s.recvBuf.head place).tr with
    | true =>
      rw [processIncomingPkt_cut place found cut]
      exact ⟨rfl,Or.inr ⟨rfl,rfl⟩,rfl,rfl⟩
    | false =>
      rw [processIncomingPkt_whole place found cut]
      obtain ⟨ack,nack,length,drained⟩ := acceptPkt_noted h (· = (s.recvBuf.head place).seq) place d
        ((s.recvBuf.head place).seq - s.expectedSeq) (Receiver.timed place s)
      exact ⟨ack,nack,length,drained⟩

theorem doReadSock_noted (sound : Sound s) (input : Recv) :
    Noted (Cut h (some input) s) s (doReadSock h input s).state := by
  unfold doReadSock
  split
  next =>
    have reading := doReceiveData_cases h input s
    generalize doReceiveData h input s = outcome at reading ⊢
    cases reading with
    | stuck reason lost => exact ⟨rfl,Or.inl ⟨rfl,rfl⟩,rfl,rfl⟩
    | failed place buf pkt found => exact ⟨rfl,Or.inl ⟨rfl,rfl⟩,rfl,rfl⟩
    | dropped place buf pkt found refused => exact ⟨rfl,Or.inl ⟨rfl,rfl⟩,rfl,rfl⟩
    | processed place buf pkt found read data =>
      obtain ⟨ack,nack,length,drained⟩ := processIncomingPkt_noted h place (Receiver.holding s (buf.put place pkt))
      refine ⟨ack,nack.imp_right (fun cut => ⟨cut.1,?_⟩),length,drained⟩
      obtain ⟨received,inside⟩ := netRecvPkt_ok read
      have near : (pkt.seq - s.expectedSeq).toNat ≤ s.maxWindow.toNat := by
        rw [sound.window8] at inside
        omega
      have arrived := sound.arrived received near
      have own : (buf.put place pkt).head place = pkt := buf.put_head_self place pkt
      exact ⟨_,pkt,arrived,cut.2.trans ((congrArg Pkt.seq own).trans arrived.number)⟩
  next => cases input <;> exact ⟨rfl,Or.inl ⟨rfl,rfl⟩,rfl,rfl⟩

/-- What is accepted in a turn is acknowledged in it. -/
theorem readSocket_noted (sound : Sound s) (willing : s.needNack = true → s.needAck = true) (socket : Option Recv)
    (ended : readSocket h socket s = .ret t) : (s.needAck = true → t.needAck = true) ∧
      (t.accepted = s.accepted ∨ t.needAck = true) ∧ (Measured chunks s → Measured chunks t) ∧
      (t.needNack = s.needNack ∧ t.nackSeq = s.nackSeq ∨ Cut h socket s t.nackSeq) := by
  cases socket with
  | none =>
    obtain rfl := Outcome.ret.inj ended
    exact ⟨id,Or.inl rfl,id,Or.inl ⟨rfl,rfl⟩⟩
  | some input =>
    obtain ⟨u,read,rest⟩ := Outcome.andThen_ret ended
    have noted := @doReadSock_noted h s sound input
    rw [read] at noted
    have measured : Measured chunks s → Measured chunks u := noted.measured
    obtain ⟨ack,nack,_,_⟩ := noted
    change u.needAck = s.needAck at ack
    change u.needNack = s.needNack ∧ u.nackSeq = s.nackSeq ∨ u.accepted = s.accepted ∧ _ at nack
    have cut := nack.imp_right And.right
    obtain rfl := Outcome.ret.inj rest
    cases owed : u.needNack with
    | false =>
      rw [owed] at cut
      exact ⟨fun _ => rfl,Or.inr rfl,measured,cut⟩
    | true =>
      refine ⟨fun due => ack.trans due,?_,measured,cut⟩
      rcases nack with same | same
      · exact Or.inr (ack.trans (willing (same.1.symm.trans owed)))
      · exact Or.inl same.1

theorem emptyLoop_flags (h : Host) (fuel : Nat) (s : Receiver) : (emptyLoop h fuel s).state.needAck = s.needAck ∧
    (emptyLoop h fuel s).state.needNack = s.needNack ∧ (emptyLoop h fuel s).state.nackSeq = s.nackSeq := by
  refine @emptyLoop_rule (fun s t => t.needAck = s.needAck ∧ t.needNack = s.needNack ∧ t.nackSeq = s.nackSeq)
    (fun _ => ⟨rfl,rfl,rfl⟩) (fun _ _ _ _ _ => ⟨rfl,rfl,rfl⟩) ?_ h fuel s
  intro s t len writes bytes buf set later
  exact later

theorem emptyLoop_measured (complete : ∀ n, h.write n = .complete) (fuel : Nat) (s : Receiver) (sound : Sound s)
    (carrying : Carrying (fun i => content (streamOf chunks i)) s) (measured : Measured chunks s) :
    Measured chunks (emptyLoop h fuel s).state := by
  induction fuel generalizing s with
  | zero => exact measured
  | succ fuel ih =>
    by_cases set : bit s.oosMask 0 = true
    · have live := sound.filled 0 set
      have idle : Move (fun _ _ => False) s (Receiver.writing s) := .idle _ rfl
      have drained : Move (fun _ _ => False) (Receiver.writing s) (Receiver.draining (Receiver.writing s)) :=
        .drained set
      have still : Carrying (fun i => content (streamOf chunks i)) (Receiver.writing s) := carrying.frame rfl
      have blocked : ¬ Blocks h s := by
        rintro ⟨_,again⟩
        rw [complete] at again
        contradiction
      rw [emptyLoop_turn live (fun n => Or.inl (complete n)) set,if_neg blocked]
      refine ih _ (drained.sound (idle.sound sound))
        (still.move (idle.sound sound) (fun _ _ never => never.elim) drained) ?_
      have length : (content (s.recvBuf.get 0)).length = (s.recvBuf.get 0).length.toNat := Lib.Bytes.slice_length _ _ _
      have held := carrying.held 0 set
      rw [content_streamOf,Nat.add_zero] at held
      change ((s.recvBuf.get 0).length.toNat : Int) = (chunks[s.drained]?.getD endOfFile).val.length
      rw [← length,held]
    · rw [emptyLoop_done (by simpa using set)]
      exact measured

theorem answer_acks (ended : answer h s = .ret t) (owed : s.needAck = true) : ackReply h s ∈ t.replies := by
  obtain ⟨u,acked,rest⟩ := Outcome.andThen_ret ended
  rw [if_pos owed] at acked
  have first : ackReply h s ∈ u.replies := by
    rcases sendReply_cases h ptypeAck s.expectedSeq s.expected s with sent | failed
    · obtain rfl := Outcome.ret.inj (acked.symm.trans sent)
      exact List.mem_append_right _ (List.mem_singleton.mpr rfl)
    · have impossible := acked.symm.trans failed
      contradiction
  split at rest
  next owes =>
    have met := sendNack_answered h owes
    rw [rest] at met
    obtain ⟨news,appended,_⟩ := met.news
    rw [appended]
    exact List.mem_append_left _ first
  next =>
    obtain rfl := Outcome.ret.inj rest
    exact first

theorem writeFile_measured (complete : ∀ n, h.write n = .complete) (file : Bool) (sound : Sound s)
    (carrying : Carrying (fun i => content (streamOf chunks i)) s) (measured : Measured chunks s) :
    Measured chunks (writeFile h file s).state := by
  unfold writeFile
  split
  next => exact emptyLoop_measured complete 32 s sound carrying measured
  next => exact measured

theorem writeFile_flags (h : Host) (file : Bool) (s : Receiver) : (writeFile h file s).state.needAck = s.needAck ∧
    (writeFile h file s).state.needNack = s.needNack ∧ (writeFile h file s).state.nackSeq = s.nackSeq := by
  unfold writeFile
  split
  next => exact emptyLoop_flags h 32 s
  next => exact ⟨rfl,rfl,rfl⟩

def Announced (h : Host) (maxWindow : UInt32) (r : Reply) : Prop :=
  ∃ ts, r.datagram = image h.crc32 { Pkt.zero with
    type := r.type, seq := serial r.number, ts := ts, window := BitVec.ofNat 5 maxWindow.toNat }

structure Prepared (h : Host) (maxWindow : UInt32) (chunks : List Chunk) (c : Config Halt Receiver) : Prop where
  window : c.state.maxWindow = maxWindow
  announced : ∀ r ∈ c.state.replies, Announced h maxWindow r
  willing : ∀ s, c = .running s → s.phase = .receiving → Willing s
  acknowledged : ∀ s, c.Unfailed s → bit s.oosMask 0 = false → Acknowledged s
  measured : ∀ s, c = .running s → Measured chunks s
  finished : ∀ s, (c = .running s ∧ ∃ retry, s.phase = .lingering retry) ∨ c = .returned 0 s → chunks.length < s.drained

variable {maxWindow : UInt32}

theorem answered_announced (sound : Sound s) (clear : bit s.oosMask 0 = false) (window : s.maxWindow = maxWindow)
    (before : ∀ r ∈ s.replies, Announced h maxWindow r) (answered : Answered h s t) :
    ∀ r ∈ t.replies, Announced h maxWindow r := by
  obtain ⟨news,appended,all⟩ := answered.news
  have free : (windowSize s).toNat = maxWindow.toNat := by
    rw [sound.windowSize,trailingOnes_eq_zero clear,window]
    rfl
  intro r member
  rw [appended] at member
  rcases List.mem_append.mp member with old | new
  · exact before r old
  · refine ⟨s.lastTs,?_⟩
    rcases all r new with rfl | ⟨_,rfl⟩
    · change (replyPkt h ptypeAck s.expectedSeq s).datagram = _
      rw [replyPkt_datagram,free,sound.expectedSeq]
      rfl
    · change (replyPkt h ptypeNack s.nackSeq s).datagram = image h.crc32 { Pkt.zero with
        type := ptypeNack, seq := serial (nearest s.expected s.nackSeq), ts := _, window := _ }
      rw [replyPkt_datagram,free,serial_nearest]

theorem answered_kept (answered : Answered h s t) : t.drained = s.drained ∧ t.oosMask = s.oosMask ∧
    t.maxWindow = s.maxWindow ∧ ∀ r ∈ s.replies, r ∈ t.replies := by
  obtain ⟨news,appended,_⟩ := answered.news
  have drained := congrArg Receiver.drained answered.same
  have mask := congrArg Receiver.oosMask answered.same
  have window := congrArg Receiver.maxWindow answered.same
  refine ⟨drained,mask,window,fun r member => ?_⟩
  rw [appended]
  exact List.mem_append_left _ member

theorem Acknowledged.answered (acknowledged : Acknowledged s) (answered : Answered h s t) : Acknowledged t := by
  obtain ⟨drained,_,_,kept⟩ := answered_kept answered
  rcases acknowledged with none | ⟨r,member,type,number⟩
  · exact Or.inl (drained.trans none)
  · exact Or.inr ⟨r,kept r member,type,number.trans drained.symm⟩

theorem Prepared.aborted (window : s.maxWindow = maxWindow) (announced : ∀ r ∈ s.replies, Announced h maxWindow r) :
    Prepared h maxWindow chunks (.returned econnaborted s) where
  window := window
  announced := announced
  willing t running := by contradiction
  acknowledged t ended := by
    rcases ended with running | returned
    · contradiction
    · exact absurd (Config.returned.inj returned).1 (by decide)
  measured t running := by contradiction
  finished t ended := by
    rcases ended with ⟨running,_⟩ | returned
    · contradiction
    · exact absurd (Config.returned.inj returned).1 (by decide)

theorem Prepared.going (window : s.maxWindow = maxWindow) (announced : ∀ r ∈ s.replies, Announced h maxWindow r)
    (willing : s.phase = .receiving → Willing s) (acknowledged : bit s.oosMask 0 = false → Acknowledged s)
    (measured : Measured chunks s) (finished : ∀ retry, s.phase = .lingering retry → chunks.length < s.drained) :
    Prepared h maxWindow chunks (.running s) where
  window := window
  announced := announced
  willing t running receiving := by
    obtain rfl := Config.running.inj running
    exact willing receiving
  acknowledged t ended clear := by
    rcases ended with running | returned
    · obtain rfl := Config.running.inj running
      exact acknowledged clear
    · contradiction
  measured t running := by
    obtain rfl := Config.running.inj running
    exact measured
  finished t ended := by
    rcases ended with ⟨running,retry,lingers⟩ | returned
    · obtain rfl := Config.running.inj running
      exact finished retry lingers
    · contradiction

theorem Prepared.done (prepared : Prepared h maxWindow chunks (.running s)) (finished : chunks.length < s.drained)
    (code : Int) : Prepared h maxWindow chunks (.returned code s) where
  window := prepared.window
  announced := prepared.announced
  willing t running := by contradiction
  acknowledged t ended clear := by
    rcases ended with running | returned
    · contradiction
    · obtain rfl := (Config.returned.inj returned).2
      exact prepared.acknowledged s (Or.inl rfl) clear
  measured t running := by contradiction
  finished t ended := by
    rcases ended with ⟨running,_⟩ | returned
    · contradiction
    · obtain rfl := (Config.returned.inj returned).2
      exact finished

theorem drained_same (sound : Sound s) (clear : bit s.oosMask 0 = false) (after : Sound t)
    (clear' : bit t.oosMask 0 = false) (same : t.accepted = s.accepted) : t.drained = s.drained := by
  have least := sound.isLeast
  have least' := after.isLeast
  rw [same] at least'
  have number := least'.unique least
  rw [after.expected_eq_drained clear',sound.expected_eq_drained clear] at number
  exact number

/-- All is written that can be written, and the replies are due. -/
structure Settled (h : Host) (maxWindow : UInt32) (chunks : List Chunk) (s : Receiver) : Prop where
  sound : Sound s
  clear : bit s.oosMask 0 = false
  window : s.maxWindow = maxWindow
  announced : ∀ r ∈ s.replies, Announced h maxWindow r
  measured : Measured chunks s
  owed : s.needAck = true ∨ Acknowledged s

theorem Settled.replied (settled : Settled h maxWindow chunks s) (answered : Answered h s t) : t.maxWindow = maxWindow ∧
    ∀ r ∈ t.replies, Announced h maxWindow r :=
  ⟨(answered_kept answered).2.2.1.trans settled.window,
    answered_announced settled.sound settled.clear settled.window settled.announced answered⟩

theorem Settled.acknowledged (settled : Settled h maxWindow chunks s) (ended : answer h s = .ret t) :
    Acknowledged t := by
  have answered := answer_answered h s
  rw [ended] at answered
  have drained := (answered_kept (answered : Answered h s t)).1
  rcases settled.owed with due | already
  · refine Or.inr ⟨ackReply h s,answer_acks ended due,rfl,?_⟩
    rw [drained]
    exact settled.sound.expected_eq_drained settled.clear
  · exact already.answered answered

theorem Settled.prepared (settled : Settled h maxWindow chunks s) (nonempty : ∀ bytes ∈ chunks, bytes.val ≠ [])
    (ended : answer h s = .ret t) : Prepared h maxWindow chunks (afterTurn (.ret (choosePolled t))) := by
  have answered := answer_answered h s
  rw [ended] at answered
  obtain ⟨drained,mask,_⟩ := answered_kept (answered : Answered h s t)
  obtain ⟨window,announced⟩ := settled.replied answered
  have length := congrArg Marking.Ledger.lastWrittenLen (Marking.answer_ledger h s)
  rw [ended] at length
  change t.lastWrittenLen = s.lastWrittenLen at length
  have measured : Measured chunks t := by
    rw [Measured,drained,length]
    exact settled.measured
  have acknowledged : Acknowledged t := settled.acknowledged ended
  refine .going window announced ?_ (fun _ => acknowledged) measured ?_
  · intro _
    refine ⟨fun owed => absurd owed (by simp [choosePolled]),fun set => ?_⟩
    change bit t.oosMask 0 = true at set
    rw [mask,settled.clear] at set
    contradiction
  · intro retry lingers
    have none : t.lastWrittenLen = 0 := by
      by_contra more
      have stays : (choosePolled t).lastWrittenLen ≠ 0 ∨ (!pktbufEmpty (choosePolled t).recvBuf) = true := Or.inl more
      change (if (choosePolled t).lastWrittenLen ≠ 0 ∨ (!pktbufEmpty (choosePolled t).recvBuf) = true then
        Phase.receiving else .lingering 0) = .lingering retry at lingers
      rw [if_pos stays] at lingers
      contradiction
    exact measured.ended nonempty none

/-- Reading and then writing settle a receiver that was prepared. -/
theorem Prepared.settles (prepared : Prepared h maxWindow chunks (.running s)) (sound : Sound s)
    (complete : ∀ n, h.write n = .complete) {socket : Option Recv}
    (timely : ∀ input, socket = some input → ¬ Early h s input) {file : Bool}
    (carrying : Carrying (fun i => content (streamOf chunks i)) s)
    (faithful : ∀ n pkt, Arrived h socket s n pkt → pkt.tr = false → content pkt = content (streamOf chunks n))
    (phase : s.phase = .receiving) {a m : Receiver} (read : readSocket h socket s = .ret a)
    (written : writeFile h file a = .ret m) : Settled h maxWindow chunks m := by
  have met := readSocket_moves sound socket timely
  rw [read] at met
  have willing := prepared.willing s rfl phase
  obtain ⟨kept,accepted,length,_⟩ := @readSocket_noted h s a chunks sound willing.nack socket read
  have soundA := Moves.sound met sound
  have measured := writeFile_measured complete file soundA (carrying.moves sound faithful met)
    (length (prepared.measured s rfl))
  obtain ⟨m',written',moves,empty⟩ := @writeFile_moves h a (fun _ _ => False) soundA (fun n => Or.inl (complete n)) file
  obtain rfl : m = m' := Outcome.ret.inj (written.symm.trans written')
  obtain ⟨owed,_⟩ := writeFile_flags h file a
  rw [written] at owed measured
  change m.needAck = a.needAck at owed
  have clear := empty complete
  have soundM := Moves.sound moves soundA
  have replies : m.replies = s.replies := (moves_replies moves).trans (moves_replies met)
  refine ⟨soundM,clear,?_,?_,measured,?_⟩
  · exact (Moves.maxWindow moves).trans ((Moves.maxWindow met).trans prepared.window)
  · rw [replies]
    exact prepared.announced
  by_cases due : m.needAck = true
  · exact Or.inl due
  · -- Nothing was read or written in this turn.
    have none : bit s.oosMask 0 = false := by
      by_contra set
      exact due (owed.trans (kept (willing.waiting (by simpa using set))))
    have same : m.accepted = s.accepted := by
      obtain ⟨later,appended,sources⟩ := moves_accepted moves
      have nothing : later = [] := by
        by_contra some
        obtain ⟨n,member⟩ := List.exists_mem_of_ne_nil later some
        obtain ⟨_,never,_⟩ := sources n member
        exact never.elim
      rw [nothing,List.append_nil] at appended
      exact appended.trans (accepted.resolve_right (fun now => due (owed.trans now)))
    right
    rw [Acknowledged,drained_same sound none soundM clear same,replies]
    exact prepared.acknowledged s (Or.inl rfl) none

theorem Prepared.turned (prepared : Prepared h maxWindow chunks (.running s)) (sound : Sound s)
    (complete : ∀ n, h.write n = .complete) (nonempty : ∀ bytes ∈ chunks, bytes.val ≠ []) (socket : Option Recv)
    (timely : ∀ input, socket = some input → ¬ Early h s input) (file : Bool)
    (carrying : Carrying (fun i => content (streamOf chunks i)) s)
    (faithful : ∀ n pkt, Arrived h socket s n pkt → pkt.tr = false → content pkt = content (streamOf chunks n))
    (phase : s.phase = .receiving) : Prepared h maxWindow chunks (afterTurn (turn h socket file s)) := by
  have met := readSocket_moves sound socket timely
  unfold turn
  cases read : readSocket h socket s with
  | halt reason t =>
    rw [read] at met
    exact met.elim
  | err t =>
    rw [read] at met
    exact .aborted ((Moves.maxWindow met).trans prepared.window) (by rw [moves_replies met]; exact prepared.announced)
  | ret a =>
    rw [read] at met
    obtain ⟨m,written,_⟩ := @writeFile_moves h a (fun _ _ => False) (Moves.sound met sound)
      (fun n => Or.inl (complete n)) file
    have settled := prepared.settles sound complete timely carrying faithful phase read written
    have answered := answer_answered h m
    rw [Outcome.ret_andThen,written,Outcome.ret_andThen]
    cases replied : answer h m with
    | halt reason u =>
      rw [replied] at answered
      exact answered.elim
    | err u =>
      rw [replied] at answered
      obtain ⟨window,announced⟩ := settled.replied answered
      exact .aborted window announced
    | ret u => exact settled.prepared nonempty replied

theorem Prepared.awaited (prepared : Prepared h maxWindow chunks (.running s)) {slot : UInt32} (blank : Waiting s slot)
    (retry : Nat) (input : Recv) (linked : Bool) :
    Prepared h maxWindow chunks (waitAndConnect h retry slot input linked s) := by
  have measured := prepared.measured s rfl
  have awaited := waitAndConnect_cases h retry slot input linked s
  generalize waitAndConnect h retry slot input linked s = d at awaited ⊢
  cases awaited with
  | aborted pkt => exact .aborted prepared.window prepared.announced
  | again pkt =>
    exact .going prepared.window prepared.announced (fun receiving => by contradiction)
      (fun _ => Or.inl blank.fresh.drained) measured (fun _ lingers => by contradiction)
  | first pkt read number accepted =>
    obtain ⟨fresh,sound,room,t,ended,received,length⟩ := blank.linked read number
    let base := Receiver.holding s (s.recvBuf.put slot pkt)
    have moves : Moves (Arrived h (some input) base) base t := received.moves room
    have replies : t.replies = [] := (moves_replies moves).trans fresh.replies
    have untouched : t.drained = 0 := by
      cases received with
      | reserved buf kept size same => exact (congrArg Receiver.drained same).trans fresh.drained
      | stored buf pkt gap kept size clear arrived whole same =>
        exact (congrArg Receiver.drained same).trans fresh.drained
    rw [Measured,blank.fresh.drained,← untouched] at measured
    rw [connected,ended]
    refine .going ((Moves.maxWindow moves).trans prepared.window) ?_ (fun _ => ⟨fun _ => rfl,fun _ => rfl⟩)
      (fun _ => Or.inl untouched) (length.trans measured) (fun _ lingers => by contradiction)
    intro r member
    change r ∈ t.replies at member
    rw [replies] at member
    contradiction

theorem Prepared.lingered (prepared : Prepared h maxWindow chunks (.running s)) (sound : Sound s)
    (clear : bit s.oosMask 0 = false) {retry : Nat} (phase : s.phase = .lingering retry) (event : Event) :
    Prepared h maxWindow chunks (linger h retry event s) := by
  have finished := prepared.finished s (Or.inl ⟨rfl,retry,phase⟩)
  have acknowledged := prepared.acknowledged s (Or.inl rfl) clear
  have measured := prepared.measured s rfl
  have settled : Settled h maxWindow chunks s :=
    ⟨sound,clear,prepared.window,prepared.announced,measured,Or.inr acknowledged⟩
  have met := sendAck_answered h s
  have last := linger_cases h retry event s
  generalize linger h retry event s = d at last ⊢
  cases last with
  | done code => exact prepared.done finished code
  | replied t sent =>
    rw [sent] at met
    have drained := (answered_kept (met : Answered h s t)).1
    obtain ⟨window,announced⟩ := settled.replied met
    have length : t.lastWrittenLen = s.lastWrittenLen := by
      have same := congrArg Marking.Ledger.lastWrittenLen (Marking.sendAck_ledger h s)
      rw [sent] at same
      exact same
    have still : Measured chunks t := by
      rw [Measured,drained,length]
      exact measured
    have kept : Acknowledged t := acknowledged.answered met
    exact .going window announced (fun receiving => by contradiction) (fun _ => kept) still
      (fun _ _ => by change chunks.length < t.drained; rw [drained]; exact finished)
  | failed t sent =>
    rw [sent] at met
    obtain ⟨window,announced⟩ := settled.replied met
    exact .aborted window announced

/-- Step lemma for the receiver. -/
theorem next_prepared {c d : Config Halt Receiver} {event : Event} (inv : Consistent c)
    (complete : ∀ n, h.write n = .complete) (nonempty : ∀ bytes ∈ chunks, bytes.val ≠ []) (timely : Timely h c event)
    (waiting : ∀ s, c = .running s → bit s.oosMask 0 = true → s.phase = .receiving ∧ s.replies = [])
    (carrying : Carrying (fun i => content (streamOf chunks i)) c.state)
    (faithful : ∀ n pkt, Arrived h (socket event) c.state n pkt → pkt.tr = false →
      content pkt = content (streamOf chunks n))
    (prepared : Prepared h maxWindow chunks c) (taken : Receive.Step h c event d) : Prepared h maxWindow chunks d := by
  obtain ⟨s,rfl,stepped⟩ := step_cases taken
  cases stepped with
  | awaited retry slot input linked phase =>
    have blank : Waiting s slot := by simpa only [Consistent,phase] using inv
    exact prepared.awaited blank retry input linked
  | aborted event phase => exact .aborted prepared.window prepared.announced
  | turned input file phase =>
    have sound : Sound s := by simpa only [Consistent,phase] using inv
    have prompt (data : Recv) (found : input = some data) : ¬ Early h s data := by
      subst found
      exact timely phase
    exact prepared.turned sound complete nonempty input prompt file carrying faithful phase
  | lingered retry event phase =>
    have sound : Sound s := by simpa only [Consistent,phase] using inv
    have clear : bit s.oosMask 0 = false := by
      by_contra other
      have receiving := (waiting s rfl (by simpa using other)).1
      rw [phase] at receiving
      contradiction
    exact prepared.lingered sound clear phase event

theorem start_prepared {c : Config Halt Receiver} (first : Receive.Start h maxWindow c) :
    Prepared h maxWindow chunks c := by
  obtain ⟨new,slot,buf,_,_,rfl⟩ := first
  exact .going rfl (fun r member => by contradiction) (fun receiving => by contradiction) (fun _ => Or.inl rfl) rfl
    (fun retry lingers => by contradiction)

theorem expected_le_of (sound : Sound s) {k : Nat} (accepted : ∀ n ∈ s.accepted, n < k) : s.expected ≤ k :=
  sound.isLeast.2 (fun member => Nat.lt_irrefl k (accepted _ member))

theorem expected_le {c : Config Halt Receiver} (consistent : Consistent c) {k : Nat}
    (accepted : ∀ n ∈ c.state.accepted, n < k) : c.state.expected ≤ k := by
  rcases consistent.state with sound | fresh
  · exact expected_le_of sound accepted
  · rw [fresh.expected]
    exact Nat.zero_le k

theorem room_of_sent (sound : Sound s) (clear : bit s.oosMask 0 = false) (window : s.maxWindow = maxWindow) {sent : Nat}
    (accepted : ∀ n ∈ s.accepted, n < sent) (near : sent ≤ s.drained + maxWindow.toNat) :
    popcount s.oosMask < s.maxWindow.toNat := by
  have within (i : Nat) (set : bit s.oosMask i = true) : i < maxWindow.toNat := by
    have stored : s.drained + i ∈ s.accepted := by
      rw [sound.accepted]
      exact Lib.Reorder.Reassembly.mem_masked_add.mpr set
    have bound := accepted _ stored
    omega
  have full := full_iff within
  have ones := trailingOnes_eq_zero clear
  have least := sound.least
  rw [window] at least ⊢
  omega

/-- Every NACK that was sent or is due names a chunk below `sent`. -/
structure Nacking (sent : Nat) (c : Config Halt Receiver) : Prop where
  owed : ∀ s, c = .running s → s.needNack = true →
    s.phase = .receiving ∧ ∃ n < sent, s.expected ≤ n ∧ s.nackSeq = serial n
  nacked : ∀ r ∈ c.state.replies, r.type = ptypeNack → r.number < sent

theorem Nacking.mono {c : Config Halt Receiver} {k m : Nat} (nacking : Nacking k c) (more : k ≤ m) : Nacking m c where
  owed s running due := by
    obtain ⟨receiving,n,before,rest⟩ := nacking.owed s running due
    exact ⟨receiving,n,Nat.lt_of_lt_of_le before more,rest⟩
  nacked r member nack := Nat.lt_of_lt_of_le (nacking.nacked r member nack) more

/-- A NACK that is due is sent under the number of the packet that was truncated: it was at
or behind the expected one when it was read, and the expected one has not gone far since. -/
theorem nacked_answered {k : Nat} {m : Receiver} (forward : s.expected ≤ m.expected) (most : m.expected ≤ k)
    (close : k ≤ s.expected + 127) (due : m.needNack = true → ∃ n < k, s.expected ≤ n ∧ m.nackSeq = serial n)
    (before : ∀ r ∈ m.replies, r.type = ptypeNack → r.number < k) (answered : Answered h m t) :
    ∀ r ∈ t.replies, r.type = ptypeNack → r.number < k := by
  obtain ⟨news,appended,all⟩ := answered.news
  intro r member nack
  rw [appended] at member
  rcases List.mem_append.mp member with old | new
  · exact before r old nack
  · rcases all r new with rfl | ⟨owed,rfl⟩
    · have impossible : ptypeAck = ptypeNack := nack
      contradiction
    · obtain ⟨n,sent,after,seq⟩ := due owed
      change nearest m.expected m.nackSeq < k
      rw [seq,nearest_serial (by omega) (by omega)]
      exact sent

theorem Nacking.returned {k : Nat} {code : Int} (nacked : ∀ r ∈ s.replies, r.type = ptypeNack → r.number < k) :
    Nacking k (.returned code s) := ⟨fun _ running => by contradiction,nacked⟩

theorem Nacking.turned {k : Nat} (nacking : Nacking k (.running s)) (sound : Sound s)
    (willing : s.needNack = true → s.needAck = true) (complete : ∀ n, h.write n = .complete) (socket : Option Recv)
    (timely : ∀ input, socket = some input → ¬ Early h s input) (file : Bool) (close : k ≤ s.expected + 127)
    (accepted : ∀ n ∈ s.accepted, n < k) (arrived : ∀ n pkt, Arrived h socket s n pkt → n < k) :
    Nacking k (afterTurn (turn h socket file s)) := by
  have met := readSocket_moves sound socket timely
  unfold turn
  cases read : readSocket h socket s with
  | halt reason t =>
    rw [read] at met
    exact met.elim
  | err t =>
    rw [read] at met
    refine .returned ?_
    rw [moves_replies met]
    exact nacking.nacked
  | ret a =>
    rw [read] at met
    obtain ⟨_,_,_,cut⟩ := @readSocket_noted h s a [] sound willing socket read
    have soundA := Moves.sound met sound
    obtain ⟨m,written,moves,_⟩ := @writeFile_moves h a (Arrived h socket s) soundA (fun n => Or.inl (complete n)) file
    have flags := writeFile_flags h file a
    rw [written] at flags
    obtain ⟨_,needNack,nackSeq⟩ := flags
    change m.needNack = a.needNack at needNack
    change m.nackSeq = a.nackSeq at nackSeq
    have path : Moves (Arrived h socket s) s m := Relation.ReflTransGen.trans met moves
    have known : ∀ n ∈ m.accepted, n < k := by
      obtain ⟨later,appended,sources⟩ := moves_accepted path
      rw [appended]
      intro n member
      rcases List.mem_append.mp member with old | new
      · exact accepted n old
      · obtain ⟨pkt,source,_⟩ := sources n new
        exact arrived n pkt source
    have due (owed : m.needNack = true) : ∃ n < k, s.expected ≤ n ∧ m.nackSeq = serial n := by
      rw [nackSeq]
      rcases cut with ⟨same,seq⟩ | ⟨n,pkt,source,seq⟩
      · rw [seq]
        exact (nacking.owed s rfl (same.symm.trans (needNack.symm.trans owed))).2
      · exact ⟨n,arrived n pkt source,source.after,seq⟩
    have before : ∀ r ∈ m.replies, r.type = ptypeNack → r.number < k := by
      rw [moves_replies path]
      exact nacking.nacked
    have forward := moves_expected sound path
    have most := expected_le_of (Moves.sound path sound) known
    have answered := answer_answered h m
    rw [Outcome.ret_andThen,written,Outcome.ret_andThen]
    cases replied : answer h m with
    | halt reason u =>
      rw [replied] at answered
      exact answered.elim
    | err u =>
      rw [replied] at answered
      exact .returned (nacked_answered forward most close due before (answered : Answered h m u))
    | ret u =>
      rw [replied] at answered
      have nacked := nacked_answered forward most close due before (answered : Answered h m u)
      refine ⟨fun w running owed => ?_,nacked⟩
      obtain rfl := Config.running.inj running
      exact absurd owed Bool.false_ne_true

theorem Nacking.opened {k retry : Nat} {slot : UInt32} (nacking : Nacking k (.running s)) (blank : Waiting s slot)
    (phase : s.phase = .connecting retry slot) {input : Recv} {pkt : Pkt}
    (read : netRecvfrom h (s.recvBuf.head slot) input = (.netOk,pkt)) (number : pkt.seq = initialSeqnum)
    (arrived : ∀ n, Arrived h (some input) (Receiver.holding s (s.recvBuf.put slot pkt)) n pkt → n < k) :
    Nacking k (connected h slot (Receiver.holding s (s.recvBuf.put slot pkt))) := by
  obtain ⟨fresh,sound,room,t,ended,received,_⟩ := blank.linked read number
  have noted := processIncomingPkt_noted h slot (Receiver.holding s (s.recvBuf.put slot pkt))
  have own : (s.recvBuf.put slot pkt).head slot = pkt := s.recvBuf.put_head_self slot pkt
  have seq : pkt.seq = (Receiver.holding s (s.recvBuf.put slot pkt)).expectedSeq := by
    rw [sound.expectedSeq,fresh.expected,number]
    rfl
  have first := sound.arrived read (by rw [seq,UInt8.sub_self]; exact Nat.zero_le _)
  have after := Moves.sound (received.moves room) sound
  rw [ended] at noted
  rw [connected,ended]
  refine ⟨fun w running owed => ?_,?_⟩
  · obtain rfl := Config.running.inj running
    rcases noted.nack with ⟨same,_⟩ | ⟨none,cut⟩
    · have receiving := (nacking.owed s rfl (Eq.trans (Eq.symm same) owed)).1
      rw [phase] at receiving
      contradiction
    · have nothing : t.accepted = [] := none.trans fresh.accepted
      have front : t.expected ≤ 0 := expected_le_of after (by rw [nothing]; simp)
      exact ⟨rfl,_,arrived _ first,Nat.le_trans front (Nat.zero_le _),
        (cut.trans (congrArg Pkt.seq own)).trans first.number⟩
  · change ∀ r ∈ t.replies, _
    rw [moves_replies (received.moves room)]
    exact nacking.nacked

theorem Nacking.lingered {k retry : Nat} (nacking : Nacking k (.running s)) (phase : s.phase = .lingering retry)
    (event : Event) : Nacking k (linger h retry event s) := by
  have same : (sendAck h s).state.needNack = s.needNack ∧
      ∀ r ∈ (sendAck h s).state.replies, r.type = ptypeNack → r.number < k := by
    unfold sendAck
    rcases sendReply_cases h ptypeAck s.expectedSeq s.expected s with sent | failed
    · rw [sent]
      refine ⟨rfl,fun r member nack => ?_⟩
      rcases List.mem_append.mp member with old | new
      · exact nacking.nacked r old nack
      · rw [List.mem_singleton.mp new] at nack
        have impossible : ptypeAck = ptypeNack := nack
        contradiction
    · rw [failed]
      exact ⟨rfl,nacking.nacked⟩
  have last := linger_cases h retry event s
  generalize linger h retry event s = d at last ⊢
  cases last with
  | done code => exact .returned nacking.nacked
  | failed t sent =>
    rw [sent] at same
    exact .returned same.2
  | replied t sent =>
    rw [sent] at same
    refine ⟨fun w running owed => ?_,same.2⟩
    obtain rfl := Config.running.inj running
    have receiving := (nacking.owed s rfl (same.1.symm.trans owed)).1
    rw [phase] at receiving
    contradiction

/-- Step lemma for the NACKs of the receiver. -/
theorem next_nacking {c d : Config Halt Receiver} {event : Event} {k : Nat} (inv : Consistent c)
    (complete : ∀ n, h.write n = .complete) (timely : Timely h c event) (prepared : Prepared h maxWindow chunks c)
    (close : k ≤ c.state.expected + 127) (accepted : ∀ n ∈ c.state.accepted, n < k)
    (arrived : ∀ base n pkt, base.maxWindow = c.state.maxWindow → base.expected = c.state.expected →
      Arrived h (socket event) base n pkt → n < k)
    (nacking : Nacking k c) (taken : Receive.Step h c event d) : Nacking k d := by
  obtain ⟨s,rfl,stepped⟩ := step_cases taken
  cases stepped with
  | awaited retry slot input linked phase =>
    have blank : Waiting s slot := by simpa only [Consistent,phase] using inv
    have awaited := waitAndConnect_cases h retry slot input linked s
    generalize waitAndConnect h retry slot input linked s = d at awaited ⊢
    cases awaited with
    | aborted pkt => exact .returned nacking.nacked
    | again pkt =>
      refine ⟨fun w running owed => ?_,nacking.nacked⟩
      obtain rfl := Config.running.inj running
      have receiving := (nacking.owed s rfl owed).1
      rw [phase] at receiving
      contradiction
    | first pkt read number _ =>
      exact nacking.opened blank phase read number
        (fun n => arrived (Receiver.holding s (s.recvBuf.put slot pkt)) n pkt rfl rfl)
  | aborted event phase => exact .returned nacking.nacked
  | turned input file phase =>
    have sound : Sound s := by simpa only [Consistent,phase] using inv
    have prompt (data : Recv) (found : input = some data) : ¬ Early h s data := by
      subst found
      exact timely phase
    exact nacking.turned sound (prepared.willing s rfl phase).nack complete input prompt file close accepted
      (fun n pkt source => arrived s n pkt rfl rfl source)
  | lingered retry event phase =>
    exact nacking.lingered phase event

theorem unfailed_before {hs hr : Host} {p q : System} {action : Action}
    (taken : Network.Step hs hr p action q) {s : Sender} (unfailed : q.sender.Unfailed s) :
    ∃ s, p.sender.Unfailed s := by
  cases taken with
  | send event c turned =>
    obtain ⟨sender,receiver⟩ := p
    obtain ⟨fuel,s,event,outcome,ended⟩ := turned
    exact ⟨s,Or.inl rfl⟩
  | receive event d turned => exact ⟨s,unfailed⟩

structure Agreed (hs hr : Host) (maxWindow : UInt32) (chunks : List Chunk) (p : System) : Prop where
  prepared : Prepared hr maxWindow chunks p.receiver
  regular : ∀ s, p.sender.Unfailed s → Regular hs.crc32 maxWindow.toNat s
  accepted : ∀ s, p.sender.Unfailed s → ∀ n ∈ p.receiver.state.accepted, n < s.sent
  nacking : ∀ s, p.sender.Unfailed s → Nacking s.sent p.receiver

section Pair

variable {hs hr : Host} {capacity : UInt32} {p : System}

theorem valid_of_unfailed (joint : Joint hs hr capacity chunks p) {s : Sender} (unfailed : p.sender.Unfailed s) :
    Valid hs.crc32 s := by
  have steady := joint.steady
  rcases unfailed with running | returned
  · rw [running] at steady
    exact steady.1
  · rw [returned] at steady
    exact (steady rfl).1

theorem Agreed.announced (agreed : Agreed hs hr maxWindow chunks p) (joint : Joint hs hr capacity chunks p)
    (same : hr.crc32 = hs.crc32) (most : maxWindow.toNat ≤ maxWindowSize) {r : Reply}
    (member : r ∈ p.receiver.state.replies) {input : Recv} (unaltered : Unaltered r.datagram input) {stale pkt : Pkt}
    (read : netRecvfrom hs stale input = (.netOk,pkt)) : pkt.window.toNat = maxWindow.toNat := by
  have type := (joint.genuine r member).type
  obtain ⟨ts,datagram⟩ := agreed.prepared.announced r member
  let reply : Pkt := { Pkt.zero with
    type := r.type, seq := serial r.number, ts := ts, window := BitVec.ofNat 5 maxWindow.toNat }
  have valid : validType r.type = true := by
    rcases type with ack | nack
    · rw [ack]
      rfl
    · rw [nack]
      rfl
  have encodable : Encodable reply :=
    ⟨valid,Nat.zero_le _,fun present => absurd rfl present,fun truncated => nomatch truncated⟩
  rw [Unaltered,datagram,same] at unaltered
  rcases unaltered with rfl | rfl
  · obtain ⟨q,decoded,agrees⟩ := @netRecvfrom_image hs reply encodable stale
    rw [decoded] at read
    obtain rfl := (Prod.mk.inj read).2
    have window : q.window = BitVec.ofNat 5 maxWindow.toNat := agrees.window.symm
    unfold maxWindowSize at most
    rw [window,BitVec.toNat_ofNat,Nat.mod_eq_of_lt (by omega)]
  · have other : r.type ≠ ptypeData := by
      rcases type with ack | nack
      · rw [ack]
        decide
      · rw [nack]
        decide
    have refused := netRecvfrom_truncate_other (h := hs) (p := reply) valid other stale
    rw [read] at refused
    contradiction

theorem Agreed.polite (agreed : Agreed hs hr maxWindow chunks p) (joint : Joint hs hr capacity chunks p)
    (same : hr.crc32 = hs.crc32) (most : maxWindow.toNat ≤ maxWindowSize) {s : Sender} (running : p.sender = .running s)
    {event : Transmit.Event} (admitted : Admitted hs hr chunks p (.send event)) :
    Polite hs maxWindow.toNat s event := by
  rintro stale input file pkt rfl received
  have valid := valid_of_unfailed joint (Or.inl running)
  have state : p.sender.state = s := congrArg Config.state running
  obtain ⟨read,inside⟩ := netRecvPkt_ok received
  constructor
  · rcases admitted.1 input rfl with rejected | ⟨r,member,_,unaltered⟩
    · have status := rejected stale
      rw [read] at status
      contradiction
    · exact agreed.announced joint same most member unaltered read
  · intro nack
    obtain ⟨r,member,near,type,seq⟩ := (admitted.1 input rfl).heard same joint.genuine read
    have sent := (agreed.nacking s (Or.inl running)).nacked r member (type.symm.trans nack)
    have inflight := valid.inflight
    unfold maxWindowSize at inflight
    rw [state] at near
    rw [valid.win,seq,valid.lastAck,Sender.outstanding] at inside
    exact ⟨r.number,seq,(near_window near inside (by omega)).1,sent⟩

theorem Agreed.send (agreed : Agreed hs hr maxWindow chunks p) (joint : Joint hs hr capacity chunks p)
    (same : hr.crc32 = hs.crc32) (small : capacity.toNat ≤ 128) (least : 1 ≤ maxWindow.toNat)
    (most : maxWindow.toNat ≤ maxWindowSize) {event : Transmit.Event} (admitted : Admitted hs hr chunks p (.send event))
    {c : Config Halt Sender} (taken : Transmit.Step hs p.sender event c) :
    Agreed hs hr maxWindow chunks { p with sender := c } := by
  have turned (t : Sender) (unfailed : c.Unfailed t) : Regular hs.crc32 maxWindow.toNat t ∧
      (∀ n ∈ p.receiver.state.accepted, n < t.sent) ∧ Nacking t.sent p.receiver := by
    have polite (s : Sender) (running : p.sender = .running s) := agreed.polite joint same most running admitted
    obtain ⟨sender,receiver⟩ := p
    obtain ⟨fuel,s,event,outcome,ended⟩ := taken
    obtain ⟨valid,polls,size⟩ := joint.steady
    obtain rfl := afterTurn_unfailed unfailed
    have going : Config.Unfailed (.running s : Config Halt Sender) s := Or.inl rfl
    have after := turn_regular (agreed.regular s going) valid polls (by rw [size]; exact small) least
      (polite s rfl) fuel ended
    refine ⟨after.1,fun n member => ?_,(agreed.nacking s going).mono after.2⟩
    exact Nat.lt_of_lt_of_le (agreed.accepted s going n member) after.2
  exact ⟨agreed.prepared,fun t unfailed => (turned t unfailed).1,fun t unfailed => (turned t unfailed).2.1,
    fun t unfailed => (turned t unfailed).2.2⟩

/-- A chunk that arrives, whole or truncated, was sent by the sender's own count. -/
theorem Agreed.arrived_sent (agreed : Agreed hs hr maxWindow chunks p) (same : hr.crc32 = hs.crc32)
    (most : maxWindow.toNat ≤ maxWindowSize) {s : Sender} (unfailed : p.sender.Unfailed s) {event : Event}
    (admitted : Admitted hs hr chunks p (.receive event)) {base : Receiver} (window : base.maxWindow = maxWindow)
    (expected : base.expected = p.receiver.state.expected) {n : Nat} {pkt : Pkt}
    (arrived : Arrived hr (socket event) base n pkt) : n < s.sent := by
  obtain ⟨input,stale,found,read⟩ := arrived.read
  have state : p.sender.state = s := unfailed.state
  rcases admitted input found with rejected | ⟨e,member,k,bytes,number,_,datagram,near,unaltered⟩
  · have status := rejected stale
    rw [read] at status
    contradiction
  · rw [state] at member
    obtain ⟨k',_,number',sent,_⟩ := (agreed.regular s unfailed).wire e member
    obtain rfl : k = k' := Option.some.inj (number.symm.trans number')
    have seq : serial k = serial n := by
      rw [Unaltered,datagram,chunkDatagram,← same] at unaltered
      rcases unaltered with rfl | rfl
      · obtain ⟨q,decoded,agrees⟩ := netRecvfrom_image (h := hr) (chunkPkt_encodable k bytes) stale
        rw [decoded] at read
        obtain rfl := (Prod.mk.inj read).2
        exact agrees.seq.trans arrived.number
      · obtain ⟨q,decoded,_,kept⟩ := netRecvfrom_truncate (h := hr) (chunkPkt_encodable k bytes) rfl stale
        rw [decoded] at read
        obtain rfl := (Prod.mk.inj read).2
        exact kept.symm.trans arrived.number
    have residues := serial_eq_iff.mp seq
    have after := arrived.after
    have close := arrived.near
    obtain ⟨above,below⟩ := near
    rw [window,expected] at close
    rw [expected] at after
    unfold maxWindowSize at most
    have same : n = k := by omega
    rw [same]
    exact sent

theorem Agreed.receive (agreed : Agreed hs hr maxWindow chunks p) (joint : Joint hs hr capacity chunks p)
    (same : hr.crc32 = hs.crc32) (complete : ∀ n, hr.write n = .complete) (nonempty : ∀ bytes ∈ chunks, bytes.val ≠ [])
    (most : maxWindow.toNat ≤ maxWindowSize) {event : Event} (admitted : Admitted hs hr chunks p (.receive event))
    {d : Config Halt Receiver} (taken : Receive.Step hr p.receiver event d) :
    Agreed hs hr maxWindow chunks { p with receiver := d } := by
  have timely := joint.timely same admitted
  have delivered := admitted.delivered same joint.read
  have window := agreed.prepared.window
  have faithful (n : Nat) (pkt : Pkt) (arrived : Arrived hr (socket event) p.receiver.state n pkt)
    (whole : pkt.tr = false) :
      content pkt = content (streamOf chunks n) := by
    have bound : p.receiver.state.maxWindow.toNat ≤ maxWindowSize := by
      rw [window]
      exact most
    exact content_agrees (arrived_stream (streamOf_isStream chunks) bound delivered arrived whole).1
  have prepared := next_prepared joint.consistent complete nonempty timely joint.waiting joint.carrying faithful
    agreed.prepared taken
  have arrives (s : Sender) (unfailed : p.sender.Unfailed s) (base : Receiver) (n : Nat) (pkt : Pkt)
      (fixed : base.maxWindow = p.receiver.state.maxWindow) (expected : base.expected = p.receiver.state.expected)
      (arrived : Arrived hr (socket event) base n pkt) : n < s.sent :=
    agreed.arrived_sent same most unfailed admitted (fixed.trans window) expected arrived
  refine ⟨prepared,agreed.regular,?_,?_⟩
  · intro s unfailed n member
    have before := agreed.accepted s unfailed
    obtain ⟨_,evolved⟩ := next_evolved (fun n => Or.inl (complete n)) joint.consistent timely taken
    rcases evolved.summary with ⟨_,fresh⟩ | ⟨base,m,began,sound,moves,answered⟩
    · change n ∈ d.state.accepted at member
      rw [fresh.accepted] at member
      contradiction
    · obtain ⟨expected,accepted,_⟩ := Fresh.agree began
      obtain ⟨more,appended,sources⟩ := moves_accepted moves
      have kept := congrArg Receiver.accepted answered.same
      have later := congrArg Receiver.maxWindow answered.same
      change d.state.accepted = m.accepted at kept
      change d.state.maxWindow = m.maxWindow at later
      change n ∈ d.state.accepted at member
      rw [kept,appended,accepted] at member
      rcases List.mem_append.mp member with old | new
      · exact before n old
      · obtain ⟨pkt,arrived,_⟩ := sources n new
        have fixed := (Moves.maxWindow moves).symm.trans (later.symm.trans (prepared.window.trans window.symm))
        exact arrives s unfailed base n pkt fixed expected arrived
  · intro s unfailed
    have inflight := (valid_of_unfailed joint unfailed).inflight
    have acked := joint.acked
    have front := drained_le joint.consistent
    rw [unfailed.state] at acked
    unfold maxWindowSize at inflight
    exact next_nacking joint.consistent complete timely agreed.prepared (by omega) (agreed.accepted s unfailed)
      (arrives s unfailed) (agreed.nacking s unfailed) taken

theorem start_agreed (least : 1 ≤ maxWindow.toNat) (first : Network.Start hr capacity maxWindow p) :
    Agreed hs hr maxWindow chunks p := by
  obtain ⟨sender,receiver⟩ := p
  obtain ⟨⟨buf,_,rfl⟩,begun⟩ := first
  refine ⟨start_prepared begun,?_,?_,?_⟩
  · rintro s (running | returned)
    · obtain rfl := Config.running.inj running
      exact start_regular least buf
    · contradiction
  · rintro s running n member
    obtain ⟨new,slot,buf',_,_,rfl⟩ := begun
    contradiction
  · rintro s running
    obtain ⟨new,slot,buf',_,_,rfl⟩ := begun
    refine ⟨fun w same owed => ?_,fun r member => by contradiction⟩
    obtain rfl := Config.running.inj same
    contradiction

theorem reachable_agreed (same : hr.crc32 = hs.crc32) (complete : ∀ n, hr.write n = .complete)
    (small : capacity.toNat ≤ 128) (least : 1 ≤ maxWindow.toNat) (most : maxWindow.toNat ≤ maxWindowSize)
    (nonempty : ∀ bytes ∈ chunks, bytes.val ≠ [])
    (reached : Reach (Network.Start hr capacity maxWindow) (Network.Step hs hr) (Admitted hs hr chunks) p) :
    Joint hs hr capacity chunks p ∧ Agreed hs hr maxWindow chunks p := by
  refine @Reach.invariant _ _ _ _ _ (fun p => Joint hs hr capacity chunks p ∧ Agreed hs hr maxWindow chunks p)
    (fun _ first => ⟨start_joint least most first,start_agreed least first⟩) ?_ _ reached
  rintro p action q ⟨joint,agreed⟩ admitted taken
  cases taken with
  | send event c turned =>
    exact ⟨joint.send same small admitted turned,agreed.send joint same small least most admitted turned⟩
  | receive event d turned =>
    exact ⟨joint.receive same complete admitted turned,agreed.receive joint same complete nonempty most admitted turned⟩

end Pair

end Trtp.Accord
