import Trtp.SenderRuns
import Trtp.DataStream

/-! Zero windows. The receiver announces its window only when it answers a datagram,
and the sender sends nothing of its own accord while nothing is outstanding and the
window is closed: a packet that closes it then leaves the transfer to chance. -/
namespace Trtp.ZeroWindow
open Lib.Circular Lib.Mask Lib.Run Lib.Serial Packet Process Buffer Net SendBuffer SenderRuns
open ReceiveBuffer ReceiverRuns DataStream
open Transmit (Sender Sending ReadResult sendPlace readSocket readFile sendLoop doSendSbuf choosePolled turn afterTurn)
open Transmit (handleRetransmission resend maxRetransmission)
open Receive (Receiver Reply)

/-- The two processes and the datagrams that are on their way or wait in a socket. -/
structure Exchange where
  sender : Config Halt Sender
  receiver : Config Halt Receiver
  forward : List (List UInt8)
  backward : List (List UInt8)

inductive Action where
  | send (event : Transmit.Event)
  | receive (event : Receive.Event)
  | lost

/-- A read takes any one of the datagrams that are on their way. -/
inductive Taken : Option Recv → List (List UInt8) → List (List UInt8) → Prop
  | nothing (flight : List (List UInt8)) : Taken none flight flight
  | failed (flight : List (List UInt8)) : Taken (some .error) flight flight
  | datagram (before after : List (List UInt8)) (data : List UInt8) :
      Taken (some (.datagram data)) (before ++ data :: after) (before ++ after)

def heard : Transmit.Event → Option Recv
  | .ready _ socket _ => socket
  | _ => none

/-- What the receiver reads; in its last loop it reads nothing. -/
def readBy : Config Halt Receiver → Receive.Event → Option Recv
  | .running s, event =>
    match s.phase with
    | .lingering _ => none
    | _ => socket event
  | _, _ => none

def sentNext (s t : Sender) : List (List UInt8) := (t.wire.drop s.wire.length).map Sending.datagram
def repliedNext (s t : Receiver) : List (List UInt8) := (t.replies.drop s.replies.length).map Reply.datagram

/-- The two processes take turns in any order, and datagrams get lost. -/
inductive Step (hs hr : Host) (p : Exchange) : Action → Exchange → Prop
  | send (event : Transmit.Event) (c : Config Halt Sender) (rest : List (List UInt8))
      (step : Transmit.Step hs p.sender event c) (read : Taken (heard event) p.backward rest) :
      Step hs hr p (.send event)
        { p with sender := c, forward := p.forward ++ sentNext p.sender.state c.state, backward := rest }
  | receive (event : Receive.Event) (c : Config Halt Receiver) (rest : List (List UInt8))
      (step : Receive.Step hr p.receiver event c) (read : Taken (readBy p.receiver event) p.forward rest) :
      Step hs hr p (.receive event)
        { p with receiver := c, forward := rest, backward := p.backward ++ repliedNext p.receiver.state c.state }
  | lostForward (before after : List (List UInt8)) (data : List UInt8) (parts : p.forward = before ++ data :: after) :
      Step hs hr p .lost { p with forward := before ++ after }
  | lostBackward (before after : List (List UInt8)) (data : List UInt8) (parts : p.backward = before ++ data :: after) :
      Step hs hr p .lost { p with backward := before ++ after }

def Start (hr : Host) (capacity maxWindow : UInt32) (p : Exchange) : Prop :=
  Transmit.Start capacity p.sender ∧ Receive.Start hr maxWindow p.receiver ∧ p.forward = [] ∧ p.backward = []

/-- A packet that closes the window while nothing stays outstanding and more is to be sent. -/
def Shuts (s : Sender) (pkt : Pkt) : Prop :=
  pkt.window = 0 ∧ (pkt.type = ptypeAck ∧ pkt.seq = s.lastSent + 1 ∨ pkt.type = ptypeNack ∧ s.outstanding = 0) ∧
    (s.lastInRead ≠ 0 ∨ s.outstanding < s.sendBuf.size)

/-- The sender lets no such packet through. -/
def KeptOpen (h : Host) (p : Exchange) : Action → Prop
  | .send (.ready stale socket _) => ∀ s input pkt, p.sender = .running s → socket = some input →
      netRecvPkt h stale s.lastAck (s.lastSent - s.lastAck + 1) input = (.netOk,pkt) → ¬ Shuts s pkt
  | _ => True

def Open (s : Sender) : Prop :=
  1 ≤ s.outstanding ∨ 0 < s.lastWin.toNat ∨ s.lastInRead = 0 ∧ s.acked = s.input.length

variable {h : Host} {crc32 : List UInt8 → UInt32} {s t : Sender}

theorem Open.frame (opened : Open s) (core : Sender.core t = Sender.core s) : Open t := by
  have same : Open (Sender.core t) = Open (Sender.core s) := congrArg Open core
  exact same.mpr opened

theorem answered_open (valid : Valid crc32 s) {pkt : Pkt} (kept : ¬ Shuts s pkt) {k : Nat} (inside : k ≤ s.outstanding)
    (last : k = s.outstanding → pkt.type = ptypeAck ∧ pkt.seq = s.lastSent + 1 ∨
      pkt.type = ptypeNack ∧ s.outstanding = 0) : Open (Sender.advanced (Sender.heard s pkt) k) := by
  have ordered := valid.ackedSent
  have read := valid.sentRead
  have size := valid.size
  unfold Sender.outstanding at inside last
  rcases Nat.lt_or_ge k (s.sent - s.acked) with some | all
  · left
    change 1 ≤ s.sent - (s.acked + k)
    omega
  · right
    have none : k = s.sent - s.acked := Nat.le_antisymm inside all
    by_cases window : pkt.window = 0
    · right
      have finished : ¬ (s.lastInRead ≠ 0 ∨ s.outstanding < s.sendBuf.size) := fun more => kept ⟨window,last none,more⟩
      rw [not_or,not_not,Sender.outstanding,size] at finished
      refine ⟨finished.1,?_⟩
      change s.acked + k = s.input.length
      omega
    · left
      have small := pkt.window.isLt
      have positive : 0 < pkt.window.toNat := by
        rw [Nat.pos_iff_ne_zero]
        exact fun zero => window (BitVec.eq_of_toNat_eq zero)
      change 0 < (UInt8.ofNat pkt.window.toNat).toNat
      rw [UInt8.toNat_ofNat']
      omega

theorem heard_open (valid : Valid crc32 s) {pkt : Pkt} (kept : ¬ Shuts s pkt)
    (last : s.outstanding = 0 → pkt.type = ptypeAck ∧ pkt.seq = s.lastSent + 1 ∨ pkt.type = ptypeNack) :
    Open (Sender.heard s pkt) := by
  have advanced : Open (Sender.advanced (Sender.heard s pkt) 0) := by
    refine answered_open valid kept (Nat.zero_le _) ?_
    intro zero
    exact (last zero.symm).imp_right (fun nack => ⟨nack,zero.symm⟩)
  exact advanced

theorem response_open (valid : Valid crc32 s) (opened : Open s) {pkt : Pkt}
    (inside : (pkt.seq - s.lastAck).toNat ≤ s.outstanding) (kept : ¬ Shuts s pkt)
    {outcome : Outcome Halt Sender} (response : Response h s pkt outcome) :
    outcome.Meets Open (fun _ => True) (fun _ _ => True) := by
  have next : s.lastSent + 1 = s.lastAck + UInt8.ofNat s.outstanding := by
    rw [← valid.pending,UInt8.ofNat_toNat]
    grind
  have sending (t : Sender) (place : UInt32) (opened : Open t) :
      (sendPlace h t place s.outstanding).Meets Open (fun _ => True) (fun _ _ => True) := by
    rw [sendPlace_eq]
    split
    next => exact opened.frame rfl
    next => trivial
  have same (equal : pkt.seq = s.lastAck) (zero : s.outstanding = 0) : pkt.seq = s.lastSent + 1 := by
    rw [next,zero,equal]
    grind
  cases response with
  | ignored other => exact opened
  | notFound nack absent => exact heard_open valid kept (fun _ => Or.inr nack)
  | resent nack place found => exact sending _ place (heard_open valid kept (fun _ => Or.inr nack))
  | repeated ack equal few =>
    have after := heard_open valid kept (fun zero => Or.inl ⟨ack,same equal zero⟩)
    exact after.frame rfl
  | nothing ack equal third empty => trivial
  | fast ack equal third live =>
    have after := heard_open valid kept (fun zero => Or.inl ⟨ack,same equal zero⟩)
    exact sending _ _ (after.frame rfl)
  | acked ack moved =>
    have after : Open (Sender.advanced (Sender.heard s pkt) (pkt.seq - s.lastAck).toNat) := by
      refine answered_open valid kept inside ?_
      intro all
      left
      refine ⟨ack,?_⟩
      rw [next,← all,UInt8.ofNat_toNat]
      grind
    exact after.frame rfl

theorem readSocket_open (valid : Valid h.crc32 s) (opened : Open s) (stale : Pkt) (socket : Option Recv)
    (kept : ∀ input pkt, socket = some input →
      netRecvPkt h stale s.lastAck (s.lastSent - s.lastAck + 1) input = (.netOk,pkt) → ¬ Shuts s pkt) :
    (readSocket h stale socket s).Meets Open (fun _ => True) (fun _ _ => True) := by
  cases socket with
  | none => exact opened
  | some input =>
    have idle : Valid h.crc32 { s with retryCount := 0 } := valid.frame rfl
    have idleOpen : Open { s with retryCount := 0 } := opened.frame rfl
    rw [readSocket]
    rcases handleSocketRead_cases valid stale input with failed | ⟨_,dropped⟩ | ⟨pkt,received,inside,response⟩
    · rw [failed]
      trivial
    · rw [dropped]
      exact idleOpen
    · have harmless : ¬ Shuts { s with retryCount := 0 } pkt := kept input pkt rfl received
      exact response_open idle idleOpen inside harmless response

/-- When the transfer is finished the file is not polled, and nothing is read from it. -/
theorem readFile_open (valid : Valid h.crc32 s) (polls : Polls s) (opened : Open s) (file : Option ReadResult) :
    (readFile h file s).Meets (fun t => Valid h.crc32 t ∧ Open t) (fun _ => True) (fun _ _ => True) := by
  rcases opened with outstanding | window | finished
  · have read := @readFile_meets h s (fun t => 1 ≤ t.outstanding) (fun _ => True) (fun _ _ => True) valid polls file
      outstanding (fun _ _ => outstanding) (fun _ => trivial)
    exact read.mono (fun _ met => ⟨met.1,Or.inl met.2⟩) (fun _ _ => trivial) (fun _ _ _ => trivial)
  · have read := @readFile_meets h s (fun t => 0 < t.lastWin.toNat) (fun _ => True) (fun _ _ => True) valid polls file
      window (fun _ _ => window) (fun _ => trivial)
    exact read.mono (fun _ met => ⟨met.1,Or.inr (Or.inl met.2)⟩) (fun _ _ => trivial) (fun _ _ _ => trivial)
  · have unpolled : ¬ s.pfdsCount = 2 := fun two => (polls two).1 finished.1
    rw [readFile,if_neg unpolled]
    exact ⟨valid,Or.inr (Or.inr finished)⟩

theorem doSendSbuf_open (valid : Valid h.crc32 s) (opened : Open s) :
    (doSendSbuf h s).Meets Open (fun _ => True) (fun _ _ => True) := by
  have first (s : Sender) (bytes : Transmit.Chunk) (valid : Valid h.crc32 s) (_ : Open s)
      (_ : s.input[s.sent]? = some bytes) (_ : s.outstanding < s.lastWin.toNat) :
      Open ((Sender.released s).recorded (Sender.firstSending h.crc32 s bytes)) := by
    have ordered := valid.ackedSent
    left
    change 1 ≤ s.sent + 1 - s.acked
    omega
  have loop := @sendLoop_meets h s Open (fun _ => True) first (fun _ _ _ _ => trivial) 256 valid opened
  exact loop.mono (fun _ met => met.2) (fun _ _ => trivial) (fun _ _ _ => trivial)

theorem turn_open (valid : Valid h.crc32 s) (polls : Polls s) (opened : Open s) (fuel : Nat) (event : Transmit.Event)
    (kept : ∀ stale socket file input pkt, event = .ready stale socket file → socket = some input →
      netRecvPkt h stale s.lastAck (s.lastSent - s.lastAck + 1) input = (.netOk,pkt) → ¬ Shuts s pkt)
    {outcome : Outcome Halt Sender} (ended : turn h fuel s event = some outcome) :
    outcome.Meets Open (fun _ => True) (fun _ _ => True) := by
  cases event with
  | failed =>
    obtain rfl := Option.some.inj ended
    trivial
  | timeout =>
    have expiry := turn_expiry valid ended
    cases outcome with
    | ret t => exact opened.frame (expiry.core valid).1
    | err t => trivial
    | halt reason t => trivial
  | ready stale socket file =>
    obtain rfl := Option.some.inj ended
    have valids := readSocket_meets valid polls stale socket
    have opens := readSocket_open valid opened stale socket (fun input pkt => kept stale socket file input pkt rfl)
    have both := (valids.and opens).mono (fun _ met => met) (fun _ _ => trivial) (fun _ _ _ => trivial)
    have read : ((readSocket h stale socket s).andThen (readFile h file)).Meets
        (fun t => Valid h.crc32 t ∧ Open t) (fun _ => True) (fun _ _ => True) :=
      both.andThen (fun t met => readFile_open met.1.1 met.1.2.1 met.2 file)
    have written : (((readSocket h stale socket s).andThen (readFile h file)).andThen (doSendSbuf h)).Meets Open
        (fun _ => True) (fun _ _ => True) := read.andThen (fun t met => doSendSbuf_open met.1 met.2)
    exact written.andThen (fun t opened => opened.frame rfl)

variable {hs hr : Host} {capacity maxWindow : UInt32} {p q : Exchange}

theorem reachable_open (reached : Reach (Start hr capacity maxWindow) (Step hs hr) (KeptOpen hs) p) :
    Steady hs.crc32 capacity p.sender ∧ ∀ s, p.sender = .running s → Open s := by
  have base : ∀ p, Start hr capacity maxWindow p →
      Steady hs.crc32 capacity p.sender ∧ ∀ s, p.sender = .running s → Open s := by
    rintro p ⟨first,_⟩
    refine ⟨start_steady first,?_⟩
    obtain ⟨buf,_,same⟩ := first
    intro s running
    obtain rfl := Config.running.inj (same.symm.trans running)
    exact Or.inr (Or.inl (by change 0 < (1 : UInt8).toNat; decide))
  have kept : ∀ p action q, (Steady hs.crc32 capacity p.sender ∧ ∀ s, p.sender = .running s → Open s) →
      KeptOpen hs p action → Step hs hr p action q →
      Steady hs.crc32 capacity q.sender ∧ ∀ s, q.sender = .running s → Open s := by
    rintro p action q ⟨steady,opened⟩ kept step
    cases step with
    | receive event c rest step read => exact ⟨steady,opened⟩
    | lostForward before after data parts => exact ⟨steady,opened⟩
    | lostBackward before after data parts => exact ⟨steady,opened⟩
    | send event c rest step read =>
      refine ⟨step_steady steady step,?_⟩
      intro t running
      generalize sender : p.sender = before at step
      obtain ⟨fuel,s,event,outcome,ended⟩ := step
      rw [sender] at steady
      obtain ⟨valid,polls,_⟩ := steady
      have met := turn_open valid polls (opened s sender) fuel event ?_ ended
      · exact met.of_ret (afterTurn_running running)
      · rintro stale socket file input pkt rfl arrived received
        exact kept s input pkt sender arrived received
  exact reached.invariant base kept

theorem sendLoop_wire (valid : Valid h.crc32 s) (fuel : Nat) :
    ∃ news, (sendLoop h fuel s).state.wire = s.wire ++ news := by
  have more (u : Sender) (bytes : Transmit.Chunk) (_ : Valid h.crc32 u) (before : ∃ news, u.wire = s.wire ++ news)
      (_ : u.input[u.sent]? = some bytes) (_ : u.outstanding < u.lastWin.toNat) :
      ∃ news, ((Sender.released u).recorded (Sender.firstSending h.crc32 u bytes)).wire = s.wire ++ news := by
    obtain ⟨news,parts⟩ := before
    refine ⟨news ++ [Sender.firstSending h.crc32 u bytes],?_⟩
    change u.wire ++ [_] = _
    rw [parts,List.append_assoc]
  have loop := @sendLoop_meets h s (fun t => ∃ news, t.wire = s.wire ++ news) (fun t => ∃ news, t.wire = s.wire ++ news)
    more (fun _ _ same _ => same) fuel valid ⟨[],(List.append_nil _).symm⟩
  cases ended : sendLoop h fuel s with
  | ret t =>
    rw [ended] at loop
    exact loop.2
  | err t =>
    rw [ended] at loop
    exact loop
  | halt reason t =>
    rw [ended] at loop
    exact loop.elim

/-- Where the sender goes on by itself: do_send_sbuf or else the expiry of the timer
puts a datagram on the wire. -/
structure Proceeds (h : Host) (s : Sender) : Prop where
  room : s.outstanding < s.lastWin.toNat ∨ 1 ≤ s.outstanding
  sends : s.outstanding = 0 → s.lastSent ≠ s.lastChunkRead → h.sendOk s.writes = true →
    ∃ sending news, (doSendSbuf h s).state.wire = s.wire ++ sending :: news
  resends : 1 ≤ s.outstanding → s.retryCount < maxRetransmission → h.sendOk s.writes = true →
    ∀ fuel, ∃ sending, turn h (fuel + 1) s .timeout =
      resend h fuel (s.lastAck + 1) ((Sender.expired s).recorded sending)

theorem Open.proceeds (opened : Open s) (valid : Valid h.crc32 s) (unsent : pktbufEmpty s.sendBuf = false) :
    Proceeds h s := by
  have some : s.acked ≠ s.input.length := by
    intro all
    rw [valid.empty_iff.mpr all] at unsent
    contradiction
  have ordered := valid.ackedSent
  have read := valid.sentRead
  have room : s.outstanding < s.lastWin.toNat ∨ 1 ≤ s.outstanding := by
    rcases opened with outstanding | window | finished
    · exact Or.inr outstanding
    · rcases Nat.eq_zero_or_pos s.outstanding with none | outstanding
      · exact Or.inl (by omega)
      · exact Or.inr outstanding
    · exact absurd finished.2 some
  refine ⟨room,?_,?_⟩
  · intro none unread accepted
    have allowed : s.outstanding < s.lastWin.toNat := by omega
    have going := (canSend_iff valid).mpr ⟨by omega,allowed⟩
    obtain ⟨bytes,known,_,turn⟩ := sendLoop_turn (h := h) valid 255 ⟨unread,going⟩
    rw [if_pos accepted] at turn
    have left := (List.getElem?_eq_some_iff.mp known).1
    have next : Valid h.crc32 ((Sender.released s).recorded (Sender.firstSending h.crc32 s bytes)) :=
      (valid.released left allowed).frame rfl
    obtain ⟨news,later⟩ := sendLoop_wire next 255
    refine ⟨Sender.firstSending h.crc32 s bytes,news,?_⟩
    rw [doSendSbuf,turn,later]
    change (s.wire ++ [_]) ++ news = _
    rw [List.append_assoc]
    rfl
  · intro outstanding few accepted fuel
    have left : s.acked < s.sent := by
      unfold Sender.outstanding at outstanding
      omega
    obtain ⟨bytes,_,again⟩ := resend_turn (h := h) valid.expired (Nat.le_refl s.acked) left fuel
    have live : (!pktbufEmpty s.sendBuf) = true := by rw [unsent]; rfl
    have sendOk : h.sendOk (Sender.expired s).writes = true := accepted
    rw [if_pos sendOk] at again
    refine ⟨Sender.resending h.crc32 (Sender.expired s) s.acked bytes,?_⟩
    rw [turn,if_pos live,handleRetransmission_eq valid,if_pos few,again,valid.lastAck,serial_succ]

/-- As long as no packet closes the window while nothing stays outstanding and more is to
be sent, the sender never depends on the receiver to go on. -/
theorem exchange_proceeds (hs hr : Host) (capacity maxWindow : UInt32) (p : Exchange)
    (reached : Reach (Start hr capacity maxWindow) (Step hs hr) (KeptOpen hs) p) (s : Sender)
    (running : p.sender = .running s) (unsent : pktbufEmpty s.sendBuf = false) : Proceeds hs s := by
  obtain ⟨steady,opened⟩ := reachable_open reached
  rw [running] at steady
  exact (opened s running).proceeds steady.1 unsent

theorem reach_silence {start : Exchange → Prop} (reached : Reach start (Step hs hr) (fun _ _ => True) p) :
    Reach start (Step hs hr) (fun _ _ => True) { p with forward := [], backward := [] } := by
  have forward (flight : List (List UInt8)) :
      Reach start (Step hs hr) (fun _ _ => True) { p with forward := flight } →
      Reach start (Step hs hr) (fun _ _ => True) { p with forward := [] } := by
    induction flight with
    | nil => exact id
    | cons data rest ih =>
      intro before
      exact ih (.step _ .lost _ before trivial (.lostForward [] rest data rfl))
  have backward (flight : List (List UInt8)) :
      Reach start (Step hs hr) (fun _ _ => True) { p with forward := [], backward := flight } →
      Reach start (Step hs hr) (fun _ _ => True) { p with forward := [], backward := [] } := by
    induction flight with
    | nil => exact id
    | cons data rest ih =>
      intro before
      exact ih (.step _ .lost _ before trivial (.lostBackward [] rest data rfl))
  exact backward p.backward (forward p.forward reached)

theorem turn_writes {r : Receiver} (sound : Sound r) (complete : ∀ n, hr.write n = .complete) :
    bit (Receive.afterTurn (Receive.turn hr none true r)).state.oosMask 0 = false := by
  have obliging : Obliging hr := fun n => Or.inl (complete n)
  obtain ⟨m,written,_,emptied⟩ := @writeFile_moves hr r (fun _ _ => False) sound obliging true
  have clear := emptied complete
  have met := answer_answered hr m
  have turned : Receive.turn hr none true r =
      (Receive.answer hr m).andThen (fun s => .ret (Receive.choosePolled s)) := by
    rw [Receive.turn,Receive.readSocket,Outcome.ret_andThen,written,Outcome.ret_andThen]
  rw [turned]
  cases answered : Receive.answer hr m with
  | ret t =>
    rw [answered] at met
    rw [← (core_fields met.same).2] at clear
    exact clear
  | err t =>
    rw [answered] at met
    rw [← (core_fields met.same).2] at clear
    exact clear
  | halt reason t =>
    rw [answered] at met
    exact met.elim

/-- Conversely, once the window is closed and nothing is outstanding, losses and the writing
of what waits lead to a silent network, and the sender has nothing to send. -/
theorem shut_starves {r : Receiver} (sender : p.sender = .running s) (shut : s.lastWin = 0) (idle : s.outstanding = 0)
    (receiver : p.receiver = .running r) (phase : r.phase = .receiving) (sound : Sound r)
    (complete : ∀ n, hr.write n = .complete) :
    ∃ q, Reach (· = p) (Step hs hr) (fun _ _ => True) q ∧ q.sender = .running s ∧ q.forward = [] ∧ q.backward = [] ∧
      bit q.receiver.state.oosMask 0 = false ∧ ¬ Proceeds hs s := by
  let d := Receive.afterTurn (Receive.turn hr none true r)
  have silent : Reach (· = p) (Step hs hr) (fun _ _ => True) { p with forward := [], backward := [] } :=
    reach_silence (.start p rfl)
  have taken : Receive.Step hr p.receiver (.ready none true) d := by
    rw [receiver]
    simp only [Receive.Step,Receive.next,phase]
    rfl
  have nothing : readBy p.receiver (.ready none true) = none := by
    rw [receiver]
    simp only [readBy,phase]
    rfl
  have read : Taken (readBy p.receiver (.ready none true)) [] [] := by
    rw [nothing]
    exact .nothing []
  have written := Reach.step _ _ _ silent trivial (.receive (.ready none true) d [] taken read)
  refine ⟨_,reach_silence written,sender,rfl,rfl,turn_writes sound complete,?_⟩
  intro proceeds
  have room := proceeds.room
  rw [shut,idle] at room
  exact absurd room (by decide)

def take : Option Recv → List (List UInt8) → Option (List (List UInt8))
  | none, flight => some flight
  | some (.datagram data), first :: rest => if first = data then some rest else none
  | _, _ => none

def follow (hs hr : Host) (p : Exchange) : Action → Option Exchange
  | .send event => do
    let rest ← take (heard event) p.backward
    let c ← Transmit.next hs 0 p.sender event
    return { p with sender := c, forward := p.forward ++ sentNext p.sender.state c.state, backward := rest }
  | .receive event => do
    let rest ← take (readBy p.receiver event) p.forward
    let c ← Receive.next hr p.receiver event
    return { p with receiver := c, forward := rest, backward := p.backward ++ repliedNext p.receiver.state c.state }
  | .lost => none

theorem take_taken {socket : Option Recv} {flight rest : List (List UInt8)} (took : take socket flight = some rest) :
    Taken socket flight rest := by
  unfold take at took
  split at took
  next =>
    obtain rfl := Option.some.inj took
    exact .nothing flight
  next data first later =>
    split at took
    next same =>
      obtain rfl := Option.some.inj took
      subst same
      exact .datagram [] later first
    next => contradiction
  next => contradiction

theorem follow_step {action : Action} (followed : follow hs hr p action = some q) : Step hs hr p action q := by
  cases action with
  | send event =>
    obtain ⟨rest,took,followed⟩ := Option.bind_eq_some_iff.mp followed
    obtain ⟨c,taken,made⟩ := Option.bind_eq_some_iff.mp followed
    obtain rfl := Option.some.inj made
    exact .send event c rest (Transmit.next_step hs 0 _ _ _ taken) (take_taken took)
  | receive event =>
    obtain ⟨rest,took,followed⟩ := Option.bind_eq_some_iff.mp followed
    obtain ⟨c,taken,made⟩ := Option.bind_eq_some_iff.mp followed
    obtain rfl := Option.some.inj made
    exact .receive event c rest taken (take_taken took)
  | lost => contradiction

def opening : Exchange := ⟨.running (Transmit.start fourPlaces),firstWait 1,[],[]⟩

theorem opening_start (hr : Host) : Start hr 4 1 opening := ⟨fourPlaces_start,firstWait_start hr 1,rfl,rfl⟩

def runningSender (test : Exchange → Sender → Bool) : Option Exchange → Bool
  | some ⟨.running s,c,forward,backward⟩ => test ⟨.running s,c,forward,backward⟩ s
  | _ => false

theorem exists_of_runningSender {test : Exchange → Sender → Bool} {found : Option Exchange}
    (passed : runningSender test found = true) :
    ∃ p s, found = some p ∧ p.sender = .running s ∧ test p s = true := by
  unfold runningSender at passed
  split at passed
  next s c forward backward => exact ⟨_,s,rfl,rfl,passed⟩
  next => contradiction

/-- What the sender lets through announces a window. -/
def announcing (h : Host) (p : Exchange) : Action → Bool
  | .send (.ready stale (some input) _) =>
    let s := p.sender.state
    match netRecvPkt h stale s.lastAck (s.lastSent - s.lastAck + 1) input with
    | (.netOk,pkt) => pkt.window != 0
    | _ => true
  | _ => true

def followOpen (hs hr : Host) (p : Exchange) (action : Action) : Option Exchange :=
  if announcing hs p action then follow hs hr p action else none

theorem followOpen_keptOpen {action : Action} (followed : followOpen hs hr p action = some q) :
    KeptOpen hs p action ∧ Step hs hr p action q := by
  unfold followOpen at followed
  split at followed
  next announced =>
    refine ⟨?_,follow_step followed⟩
    cases action with
    | lost => trivial
    | receive event => trivial
    | send event =>
      cases event with
      | failed => trivial
      | timeout => trivial
      | ready stale socket file =>
        rintro s input pkt sender rfl received ⟨shut,_⟩
        simp only [announcing,sender,Config.state_running,received,bne_iff_ne] at announced
        exact announced shut
  next => contradiction

/-- Chunk 0 is written and acknowledged, and chunk 1 is lost: all is silent, and the timer goes on. -/
theorem exchange_proceeds_lost : ∃ (p : Exchange) (s : Sender), p.sender = .running s ∧ p.forward = [] ∧
    p.backward = [] ∧
    bit p.receiver.state.oosMask 0 = false ∧ s.acked = 1 ∧ s.outstanding = 1 ∧ Proceeds steadyHost s := by
  have passed : runningSender (fun p s => p.forward.length == 1 && (p.backward.isEmpty &&
        (!bit p.receiver.state.oosMask 0 && (s.acked == 1 && (s.outstanding == 1 && !pktbufEmpty s.sendBuf)))))
      ([.send byteEvent,
        .receive (.datagram (.datagram (chunkDatagram steadyHost.crc32 0 oneByte)) true),
        .receive (.ready none true),
        .send (.ready Pkt.zero (some (.datagram (Codec.image steadyHost.crc32
          { Pkt.zero with type := ptypeAck, seq := 1, ts := pktTimestamp, window := 1 })))
          (some (.data oneByte)))].foldlM
        (followOpen steadyHost steadyHost) opening) = true := by decide +kernel
  obtain ⟨p,s,played,sender,test⟩ := exists_of_runningSender passed
  simp only [Bool.and_eq_true,Bool.not_eq_true',List.isEmpty_iff,beq_iff_eq] at test
  obtain ⟨forward,backward,written,acked,outstanding,live⟩ := test
  obtain ⟨data,alone⟩ := List.length_eq_one_iff.mp forward
  have reached : Reach (Start steadyHost 4 1) (Step steadyHost steadyHost) (KeptOpen steadyHost) p :=
    Reach.play (fun _ action _ followed => ⟨action,followOpen_keptOpen followed⟩)
      (.start opening (opening_start steadyHost)) _ played
  have lost : KeptOpen steadyHost p .lost := trivial
  have silent : Reach (Start steadyHost 4 1) (Step steadyHost steadyHost) (KeptOpen steadyHost)
    { p with forward := [] } :=
    .step p .lost { p with forward := [] } reached lost (.lostForward [] [] data alone)
  exact ⟨{ p with forward := [] },s,sender,rfl,backward,written,acked,outstanding,
    exchange_proceeds steadyHost steadyHost 4 1 _ silent s sender live⟩

/-- Writes complete after a while. -/
def Patient (h : Host) : Prop := Obliging h ∧ ∀ n, ∃ m, n ≤ m ∧ h.write m = .complete

def stallingHost : Host := { steadyHost with write := fun n => if n = 0 then .again else .complete }

theorem stallingHost_patient : Patient stallingHost := by
  refine ⟨?_,fun n => ⟨n + 1,Nat.le_succ n,rfl⟩⟩
  intro n
  change (if n = 0 then Process.WriteResult.again else .complete) = _ ∨ (if n = 0 then _ else _) = _
  split
  next => exact Or.inr rfl
  next => exact Or.inl rfl

/-- With a window of one, chunk 0 opens the connection and cannot be written at once; it is
acknowledged with a window of zero, and written after that without a word to the sender. -/
def stall : List Action :=
  [.send byteEvent,
    .receive (.datagram (.datagram (chunkDatagram steadyHost.crc32 0 oneByte)) true),
    .receive (.ready none true),
    .send (.ready Pkt.zero (some (.datagram (Codec.image steadyHost.crc32
      { Pkt.zero with type := ptypeAck, seq := 1, ts := pktTimestamp, window := 0 })))
      (some (.data oneByte))),
    .receive (.ready none true)]

theorem exchange_deadlock : ¬ ∀ (hs hr : Host) (capacity maxWindow : UInt32) (p : Exchange) (s : Sender),
    hs.crc32 = hr.crc32 → Patient hr → 1 ≤ maxWindow.toNat → maxWindow.toNat ≤ maxWindowSize →
    Reach (Start hr capacity maxWindow) (Step hs hr) (fun _ _ => True) p → p.forward = [] → p.backward = [] →
    bit p.receiver.state.oosMask 0 = false → p.sender = .running s → pktbufEmpty s.sendBuf = false →
    s.outstanding < s.lastWin.toNat ∨ 1 ≤ s.outstanding := by
  intro claim
  have passed : runningSender (fun p s =>
      (p.forward.isEmpty && p.backward.isEmpty && !bit p.receiver.state.oosMask 0) &&
        (!pktbufEmpty s.sendBuf && s.outstanding == 0 && s.lastWin == 0))
      (stall.foldlM (follow steadyHost stallingHost) opening) = true := by decide +kernel
  obtain ⟨p,s,played,sender,test⟩ := exists_of_runningSender passed
  simp only [Bool.and_eq_true,Bool.not_eq_true',List.isEmpty_iff,beq_iff_eq] at test
  obtain ⟨⟨⟨forward,backward⟩,written⟩,⟨live,none⟩,shut⟩ := test
  have sound : ∀ p action q, follow steadyHost stallingHost p action = some q →
      ∃ event, True ∧ Step steadyHost stallingHost p event q :=
    fun p action q followed => ⟨action,trivial,follow_step followed⟩
  have first : Reach (Start stallingHost 4 1) (Step steadyHost stallingHost) (fun _ _ => True) opening :=
    .start opening (opening_start stallingHost)
  have reached := Reach.play sound first stall played
  have same : steadyHost.crc32 = stallingHost.crc32 := rfl
  have goes : s.outstanding < s.lastWin.toNat ∨ 1 ≤ s.outstanding := claim steadyHost stallingHost 4 1
    p s same stallingHost_patient (by decide) (by decide) reached forward backward written sender live
  rw [none,shut] at goes
  exact absurd goes (by decide)

end Trtp.ZeroWindow
