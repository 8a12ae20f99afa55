import Trtp.Completion
import Trtp.Silence

/-! A transfer on a line that keeps everything in order.
What one end writes to its socket the other end reads in the same order, once and
unaltered, and poll waits long enough for it. -/
namespace Trtp.Faultless
open Lib.Circular Lib.Mask Lib.Run Lib.Serial Packet Codec Process Buffer Net SendBuffer SenderRuns Progress
open ReceiveBuffer ReceiverRuns DataStream Acknowledgement Network Transfer PairFlow Accord Completion
open Transmit (Sender Sending Chunk)
open Receive

section Receiver

variable {h : Host} {s t : Receiver} {k : Nat}

/-- The number expected at first and those of the replies. -/
def numbers (replies : List Reply) : List Nat := 0 :: replies.map Reply.number

/-- Only ACKs, each of which goes further than the one before. -/
structure Advancing (k : Nat) (replies : List Reply) : Prop where
  acks : ∀ r ∈ replies, r.type = ptypeAck
  ordered : (numbers replies).Pairwise (· < ·)
  most : ∀ n ∈ numbers replies, n ≤ k

theorem numbers_append (replies : List Reply) (r : Reply) :
    numbers (replies ++ [r]) = numbers replies ++ [r.number] := by
  rw [numbers,List.map_append]
  rfl

theorem Advancing.next {replies : List Reply} (advancing : Advancing k replies) (due : ∀ n ∈ numbers replies, n < k)
    {r : Reply} (ack : r.type = ptypeAck) (number : r.number = k) : Advancing k (replies ++ [r]) := by
  refine ⟨?_,?_,?_⟩
  · intro e member
    rcases List.mem_append.mp member with old | new
    · exact advancing.acks e old
    · rw [List.mem_singleton.mp new]
      exact ack
  · rw [numbers_append,List.pairwise_append]
    refine ⟨advancing.ordered,List.pairwise_singleton _ _,?_⟩
    intro n member m last
    rw [List.mem_singleton.mp last,number]
    exact due n member
  · rw [numbers_append]
    intro n member
    rcases List.mem_append.mp member with old | new
    · exact advancing.most n old
    · exact Nat.le_of_eq ((List.mem_singleton.mp new).trans number)

/-- The first `k` chunks were accepted in order; an ACK that is due goes further than those sent. -/
structure Told (k : Nat) (s : Receiver) : Prop where
  accepted : s.accepted = List.range k
  replies : Advancing k s.replies
  needNack : s.needNack = false
  needAck : s.needAck = true → ∀ n ∈ numbers s.replies, n < k

theorem Told.expected (told : Told k s) (sound : Sound s) : s.expected = k := by
  have least := sound.isLeast
  rw [told.accepted] at least
  refine least.unique ⟨?_,?_⟩
  · exact fun member => Nat.lt_irrefl k (List.mem_range.mp member)
  · intro n absent
    by_contra before
    exact absent (List.mem_range.mpr (Nat.lt_of_not_le before))

theorem Told.took (told : Told k s) (number : s.expected = k) (took : Took s t) : Told (k + 1) t := by
  obtain ⟨accepted,⟨acks,ordered,most⟩,needNack,_⟩ := told
  refine ⟨?_,?_,took.needNack.trans needNack,?_⟩
  · rw [took.accepted,accepted,number,List.range_succ]
  · rw [took.replies]
    exact ⟨acks,ordered,fun n member => Nat.le_succ_of_le (most n member)⟩
  · rw [took.replies]
    exact fun _ n member => Nat.lt_succ_of_le (most n member)

theorem writeFile_told (file : Bool) (told : Told k s) : Told k (writeFile h file s).state := by
  have kept := @emptyLoop_rule (fun s t => Told k s → Told k t) (fun _ => id)
    (fun _ _ _ _ _ told => ⟨told.accepted,told.replies,told.needNack,told.needAck⟩)
    (fun _ _ _ _ _ _ _ later told => later ⟨told.accepted,told.replies,told.needNack,told.needAck⟩) h 32 s
  unfold writeFile
  split
  next => exact kept told
  next => exact told

theorem answer_told (sends : ∀ n, h.sendOk n = true) (sound : Sound s) (told : Told k s) :
    ∃ t, answer h s = .ret t ∧ Told k (choosePolled t) := by
  cases owed : s.needAck with
  | false =>
    refine ⟨s,?_,told.accepted,told.replies,rfl,fun impossible => absurd impossible Bool.false_ne_true⟩
    simp [answer,owed,told.needNack,Outcome.andThen]
  | true =>
    have sent : sendAck h s = .ret { s with writes := s.writes + 1, replies := s.replies ++ [ackReply h s] } := by
      rw [sendAck,sendReply,netSend,sends]
      rfl
    have replies : Advancing k (s.replies ++ [ackReply h s]) :=
      told.replies.next (told.needAck owed) rfl (told.expected sound)
    refine ⟨{ s with writes := s.writes + 1, replies := s.replies ++ [ackReply h s] },?_,
      told.accepted,replies,rfl,fun impossible => absurd impossible Bool.false_ne_true⟩
    simp [answer,owed,told.needNack,sent,Outcome.andThen]

theorem turn_told (sends : ∀ n, h.sendOk n = true) (complete : ∀ n, h.write n = .complete) {socket : Option Recv}
    (sound : Sound t) (read : readSocket h socket s = .ret t) (told : Told k t) (file : Bool) :
    ∃ u, afterTurn (turn h socket file s) = .running u ∧ Told k u ∧ k ≤ u.drained := by
  obtain ⟨m,written,moves,_⟩ := @writeFile_moves h t (fun _ _ => False) sound (fun n => Or.inl (complete n)) file
  have kept := @writeFile_told h t k file told
  rw [written] at kept
  obtain ⟨u,replied,after⟩ := answer_told sends (Moves.sound moves sound) (kept : Told k m)
  obtain ⟨v,ended,drained,_⟩ := turn_drains sends complete sound read file
  have turned : turn h socket file s = .ret (choosePolled u) := by
    rw [turn,read,Outcome.ret_andThen,written,Outcome.ret_andThen,replied]
    rfl
  rw [turned] at ended ⊢
  rw [told.expected sound] at drained
  obtain rfl := Config.running.inj ended
  exact ⟨_,rfl,⟨after.accepted,after.replies,after.needNack,after.needAck⟩,drained⟩

/-- The receiver goes on or is done, with the first `k` chunks and no others. -/
def Follows (k : Nat) (s : Receiver) (d : Config Halt Receiver) : Prop :=
  ∃ t, d.Unfailed t ∧ Told k t ∧ s.drained ≤ t.drained ∧ (s.phase = .receiving → k ≤ t.drained)

theorem Told.linked (told : Told k s) (number : s.expected = k) {retry : Nat} {slot : UInt32} (blank : Waiting s slot)
    (phase : s.phase = .connecting retry slot) (bytes : Chunk) :
    Follows (k + 1) s (waitAndConnect h retry slot (.datagram (image h.crc32 (chunkPkt k bytes))) true s) := by
  have first : k = 0 := number.symm.trans blank.fresh.expected
  obtain ⟨u,connected,_,drained,took⟩ := @waitAndConnect_links h s slot blank retry _ (chunkPkt_encodable k bytes) rfl
    (by rw [first]; rfl)
  refine ⟨u,Or.inl connected,told.took number took,drained,fun receiving => ?_⟩
  rw [phase] at receiving
  contradiction

theorem Told.idle (told : Told k s) (sends : ∀ n, h.sendOk n = true) (complete : ∀ n, h.write n = .complete)
    (sound : Sound s) (file : Bool) : Follows k s (afterTurn (turn h none file s)) := by
  obtain ⟨u,turned,after,drained⟩ := @turn_told h s s k sends complete none sound rfl told file
  have front := sound.expected
  have number := told.expected sound
  exact ⟨u,Or.inl turned,after,by omega,fun _ => drained⟩

theorem Told.brought (told : Told k s) (sends : ∀ n, h.sendOk n = true) (complete : ∀ n, h.write n = .complete)
    (sound : Sound s) (clear : bit s.oosMask 0 = false) (room : popcount s.oosMask < s.maxWindow.toNat) (bytes : Chunk)
    (file : Bool) : Follows (k + 1) s
    (afterTurn (turn h (some (.datagram (image h.crc32 (chunkPkt k bytes)))) file s)) := by
  have number := told.expected sound
  have front := sound.expected
  obtain ⟨t,got,kept,_,took⟩ := @readSocket_takes h s sound clear room _ (chunkPkt_encodable k bytes) rfl rfl
    (by rw [sound.expectedSeq,number]; rfl)
  obtain ⟨u,turned,after,drained⟩ := turn_told sends complete kept got (told.took number took) file
  exact ⟨u,Or.inl turned,after,by omega,fun _ => drained⟩

end Receiver

section Sender

variable {h : Host} {s : Sender}

/-- Each chunk was sent once, in order, and nothing is counted that leads to another sending. -/
structure Once (s : Sender) : Prop where
  wire : s.wire.map Sending.number = (List.range s.sent).map some
  dupAck : s.dupAck = 0
  retryCount : s.retryCount = 0

theorem Once.first (once : Once s) (crc32 : List UInt8 → UInt32) (bytes : Chunk) :
    Once ((Sender.released s).recorded (Sender.firstSending crc32 s bytes)) := by
  refine ⟨?_,once.dupAck,once.retryCount⟩
  change (s.wire ++ [Sender.firstSending crc32 s bytes]).map Sending.number = (List.range (s.sent + 1)).map some
  rw [List.map_append,once.wire,List.range_succ,List.map_append]
  rfl

theorem rest_once (sends : ∀ n, h.sendOk n = true) (valid : Valid h.crc32 s) (polls : Polls s) (once : Once s)
    (file : Option Transmit.ReadResult) (sane : ∀ result, file = some result → ∃ bytes, result = .data bytes) :
    ∃ t, Silence.rest h file s = .ret t ∧ Once t ∧ t.acked = s.acked ∧ s.sent ≤ t.sent := by
  have read : ∃ u, Transmit.readFile h file s = .ret u ∧ Valid h.crc32 u ∧ Once u ∧ u.acked = s.acked ∧
    u.sent = s.sent := by
    unfold Transmit.readFile
    split
    next result polled =>
      split at polled
      next two =>
        obtain ⟨more,room⟩ := polls two
        obtain ⟨bytes,rfl⟩ := sane result polled
        exact ⟨_,handleInputRead_data bytes room,valid.queued bytes more room,⟨once.wire,once.dupAck,once.retryCount⟩,
          rfl,rfl⟩
      next => contradiction
    next => exact ⟨s,rfl,valid,once,rfl,rfl⟩
  obtain ⟨u,queued,after,fresh,acked,same⟩ := read
  have window := u.lastWin.toNat_lt
  obtain ⟨t,ended,_,more,kept,_⟩ := Aliasing.sendLoop_sends sends 256 after (by omega)
  have sent : (Transmit.sendLoop h 256 u).Meets (fun t => Valid h.crc32 t ∧ Once t) (fun _ => True)
    (fun _ _ => False) :=
    sendLoop_meets (fun s bytes _ once _ _ => once.first h.crc32 bytes) (fun _ _ _ _ => trivial) 256 after fresh
  rw [ended] at sent
  have output : Transmit.doSendSbuf h u = .ret t := ended
  refine ⟨Transmit.choosePolled t,?_,⟨sent.2.wire,sent.2.dupAck,sent.2.retryCount⟩,kept.trans acked,?_⟩
  · rw [Silence.rest,queued,Outcome.ret_andThen,output,Outcome.ret_andThen]
  · change s.sent ≤ t.sent
    omega

end Sender

/-- The pair, and how many datagrams have arrived at the receiver and at the sender. -/
structure Line where
  system : System
  carried : Nat
  heard : Nat

def carries : Action → Nat
  | .receive event => (socket event).toList.length
  | _ => 0

def hears : Action → Nat
  | .send (.ready _ socket _) => socket.toList.length
  | _ => 0

inductive Step (hs hr : Host) (a : Line) (action : Action) : Line → Prop
  | turn (q : System) (taken : Network.Step hs hr a.system action q) :
      Step hs hr a action ⟨q,a.carried + carries action,a.heard + hears action⟩

def Start (hr : Host) (capacity maxWindow : UInt32) (a : Line) : Prop :=
  Network.Start hr capacity maxWindow a.system ∧ a.carried = 0 ∧ a.heard = 0

/-- A socket holds the oldest datagram that has not arrived, and the file is read in order. -/
def InTurn (chunks : List Chunk) (a : Line) : Action → Prop
  | .send (.ready _ socket file) =>
    (∀ input, socket = some input →
      ∃ r, a.system.receiver.state.replies[a.heard]? = some r ∧ input = .datagram r.datagram) ∧
    ∀ result, file = some result → ∃ bytes, result = .data bytes ∧
      (feed chunks)[a.system.sender.state.input.length]? = some bytes
  | .send _ => True
  | .receive event => ∀ input, socket event = some input →
    ∃ e, a.system.sender.state.wire[a.carried]? = some e ∧ input = .datagram e.datagram

/-- No call fails, and no timer expires but those of a sender with nothing to
acknowledge and of a receiver that lingers. -/
def Patient (p : System) : Action → Prop
  | .send .failed => False
  | .send .timeout => pktbufEmpty p.sender.state.sendBuf = true
  | .send (.ready _ _ _) => True
  | .receive .failed => False
  | .receive .timeout => ∃ retry, p.receiver.state.phase = .lingering retry
  | .receive (.ready none _) => p.receiver.state.phase = .receiving
  | .receive (.ready (some _) _) => True
  | .receive (.datagram _ linked) => linked = true

def Calm (chunks : List Chunk) (a : Line) (action : Action) : Prop :=
  InTurn chunks a action ∧ Patient a.system action

section Invariant

variable {hs hr : Host} {capacity maxWindow : UInt32} {chunks : List Chunk} {a : Line} {s : Sender}

theorem Told.consistent {c : Config Halt Receiver} {k : Nat} (told : Told k c.state) (consistent : Consistent c) :
    c.state.expected = k := by
  rcases consistent.state with sound | fresh
  · exact told.expected sound
  · have none := told.accepted
    rw [fresh.accepted] at none
    rw [fresh.expected,List.range_eq_nil.mp none.symm]

/-- The invariant of the line. -/
structure Clean (hs hr : Host) (capacity maxWindow : UInt32) (chunks : List Chunk) (a : Line) : Prop where
  joint : Joint hs hr capacity chunks a.system
  agreed : Agreed hs hr maxWindow chunks a.system
  sender : ∃ s, a.system.sender.Unfailed s
  once : Once a.system.sender.state
  receiver : ∃ r, a.system.receiver.Unfailed r
  told : Told a.carried a.system.receiver.state
  heard : (numbers a.system.receiver.state.replies)[a.heard]? = some a.system.sender.state.acked
  poised : EndOfTransfer.Poised a.system.receiver

theorem start_clean (least : 1 ≤ maxWindow.toNat) (most : maxWindow.toNat ≤ maxWindowSize)
    (first : Start hr capacity maxWindow a) : Clean hs hr capacity maxWindow chunks a := by
  obtain ⟨⟨sender,receiver⟩,carried,heard⟩ := a
  obtain ⟨begun,none,no⟩ := first
  obtain rfl : carried = 0 := none
  obtain rfl : heard = 0 := no
  have joint : Joint hs hr capacity chunks ⟨sender,receiver⟩ := start_joint least most begun
  have agreed : Agreed hs hr maxWindow chunks ⟨sender,receiver⟩ := start_agreed least begun
  have poised := EndOfTransfer.start_poised begun.2
  obtain ⟨⟨buf,_,rfl⟩,new,slot,places,_,_,rfl⟩ := begun
  refine ⟨joint,agreed,⟨_,Or.inl rfl⟩,⟨rfl,rfl,rfl⟩,⟨_,Or.inl rfl⟩,⟨rfl,⟨?_,?_,?_⟩,rfl,?_⟩,rfl,poised⟩
  · intro r member
    contradiction
  · exact List.pairwise_singleton _ _
  · exact fun n member => Nat.le_of_eq (List.mem_singleton.mp member)
  · intro impossible
    contradiction

namespace Clean

variable (clean : Clean hs hr capacity maxWindow chunks a)

include clean

theorem expected : a.system.receiver.state.expected = a.carried := clean.told.consistent clean.joint.consistent

theorem carried_le (unfailed : a.system.sender.Unfailed s) : a.carried ≤ s.sent := by
  rw [← clean.expected]
  exact Accord.expected_le clean.joint.consistent (clean.agreed.accepted s unfailed)

theorem read (unfailed : a.system.sender.Unfailed s) : s.input <+: feed chunks ∧ s.sent ≤ chunks.length + 1 := by
  have read := clean.joint.read
  rw [unfailed.state] at read
  have short := List.IsPrefix.length_le read
  rw [feed,List.length_append,List.length_singleton] at short
  exact ⟨read,Nat.le_trans (valid_of_unfailed clean.joint unfailed).sentRead short⟩

theorem datagram (unfailed : a.system.sender.Unfailed s) {e : Sending} (found : s.wire[a.carried]? = some e) :
    a.carried < s.sent ∧ e ∈ s.wire ∧ ∃ bytes, e.number = some a.carried ∧ s.input[a.carried]? = some bytes ∧
      e.datagram = chunkDatagram hs.crc32 a.carried bytes := by
  have once := clean.once
  rw [unfailed.state] at once
  have number : (s.wire.map Sending.number)[a.carried]? = some e.number := by rw [List.getElem?_map,found]; rfl
  rw [once.wire,List.getElem?_map] at number
  obtain ⟨i,inside,same⟩ := Option.map_eq_some_iff.mp number
  obtain ⟨before,rfl⟩ := List.getElem?_eq_some_iff.mp inside
  rw [List.getElem_range] at same
  rw [List.length_range] at before
  have member := List.mem_of_getElem? found
  obtain ⟨n,bytes,number',_,known,datagram⟩ := (clean.agreed.regular s unfailed).wire e member
  obtain rfl : a.carried = n := Option.some.inj (same.trans number')
  exact ⟨before,member,bytes,number',known,datagram⟩

theorem reply (same : hr.crc32 = hs.crc32) (unfailed : a.system.sender.Unfailed s) {r : Reply}
    (found : a.system.receiver.state.replies[a.heard]? = some r) :
    r ∈ a.system.receiver.state.replies ∧ s.acked < r.number ∧ r.number ≤ s.sent ∧
      (numbers a.system.receiver.state.replies)[a.heard + 1]? = some r.number ∧
      ∃ pkt, Encodable pkt ∧ pkt.type = ptypeAck ∧ pkt.seq = serial r.number ∧ r.datagram = image hs.crc32 pkt := by
  have member := List.mem_of_getElem? found
  have heard := clean.heard
  rw [unfailed.state] at heard
  have later : (numbers a.system.receiver.state.replies)[a.heard + 1]? = some r.number := by
    rw [numbers,List.getElem?_cons_succ,List.getElem?_map,found]
    rfl
  obtain ⟨before,earlier⟩ := List.getElem?_eq_some_iff.mp heard
  obtain ⟨inside,next⟩ := List.getElem?_eq_some_iff.mp later
  have ordered := List.pairwise_iff_getElem.mp clean.told.replies.ordered _ _ before inside (Nat.lt_succ_self a.heard)
  rw [earlier,next] at ordered
  have most := clean.told.replies.most _ (List.mem_of_getElem? later)
  have type := clean.told.replies.acks r member
  obtain ⟨ts,datagram⟩ := clean.agreed.prepared.announced r member
  refine ⟨member,ordered,Nat.le_trans most (clean.carried_le unfailed),later,_,?_,type,rfl,by rw [datagram,same]⟩
  exact ⟨by change validType r.type = true; rw [type]; rfl,Nat.zero_le _,fun present => absurd rfl present,
    fun truncated => absurd truncated Bool.false_ne_true⟩

/-- Data waits in sequence only when all that was sent has arrived. -/
theorem clear (nonempty : ∀ bytes ∈ chunks, bytes.val ≠ []) (unfailed : a.system.sender.Unfailed s) {r : Receiver}
    (waiting : a.system.receiver = .running r) (more : a.carried < s.sent) : bit r.oosMask 0 = false := by
  by_contra unclear
  have set : bit r.oosMask 0 = true := by simpa using unclear
  have expected := clean.expected
  obtain ⟨phase,silent⟩ := clean.joint.waiting r waiting set
  have consistent := clean.joint.consistent
  have quiet : a.system.receiver.state.replies = [] := by
    rw [waiting]
    exact silent
  rw [waiting] at consistent expected
  have sound : Sound r := by simpa only [Consistent,phase] using consistent
  have ones := trailingOnes_shift set
  have front := sound.expected
  change r.expected = a.carried at expected
  rcases unfailed with running | returned
  · have few := (clean.joint.opening quiet s running).sent
    omega
  · have finished := clean.joint.finished nonempty returned
    have read := (clean.read (Or.inr returned)).2
    rw [waiting] at finished
    change chunks.length < r.drained at finished
    omega

theorem unended (nonempty : ∀ bytes ∈ chunks, bytes.val ≠ []) {event : Event} (calm : Calm chunks a (.receive event)) :
    EndOfTransfer.Unended a.system.receiver event := by
  obtain ⟨s,unfailed⟩ := clean.sender
  have clear (r : Receiver) (waiting : a.system.receiver = .running r) (input : Recv)
    (held : socket event = some input) :
      bit r.oosMask 0 = false := by
    obtain ⟨e,found,_⟩ := calm.1 input held
    rw [unfailed.state] at found
    exact clean.clear nonempty unfailed waiting (clean.datagram unfailed found).1
  cases state : a.system.receiver with
  | returned code r => trivial
  | halted reason r => trivial
  | running r =>
    cases event with
    | failed => trivial
    | timeout => trivial
    | datagram input linked => trivial
    | ready socket file =>
      cases socket with
      | none => trivial
      | some input => exact fun _ set _ => absurd ((clear r state input rfl).symm.trans set) Bool.false_ne_true

/-- What a calm turn does was admitted by the network that may lose and reorder. -/
theorem admitted (smooth : Smooth hs hr) {action : Action} {q : System} (calm : Calm chunks a action)
    (taken : Network.Step hs hr a.system action q) : Admitted hs hr chunks a.system action := by
  obtain ⟨s,unfailed⟩ := clean.sender
  have state := unfailed.state
  have inflight := (valid_of_unfailed clean.joint unfailed).inflight
  unfold maxWindowSize at inflight
  cases action with
  | send event =>
    cases event with
    | failed => trivial
    | timeout => trivial
    | ready stale socket file =>
      obtain ⟨⟨brought,reads⟩,_⟩ := calm
      refine ⟨?_,?_⟩
      · intro input held
        obtain ⟨r,found,rfl⟩ := brought input held
        obtain ⟨member,after,sent,_⟩ := clean.reply smooth.same unfailed found
        refine Or.inr ⟨r,member,?_,Or.inl rfl⟩
        rw [state]
        constructor
        · omega
        · omega
      · intro bytes held
        obtain ⟨other,same,next⟩ := reads _ held
        obtain rfl : bytes = other := by simpa using same
        exact next
  | receive event =>
    intro input held
    obtain ⟨e,found,rfl⟩ := calm.1 input held
    rw [state] at found
    obtain ⟨_,member,bytes,number,known,datagram⟩ := clean.datagram unfailed found
    refine Or.inr ⟨e,by rw [state]; exact member,a.carried,bytes,number,by rw [state]; exact known,datagram,
      ?_,Or.inl rfl⟩
    rw [clean.expected]
    constructor
    · omega
    · omega

theorem readSocket (smooth : Smooth hs hr) (running : a.system.sender = .running s) (stale : Pkt) (socket : Option Recv)
    (brought : ∀ input, socket = some input →
      ∃ r, a.system.receiver.state.replies[a.heard]? = some r ∧ input = .datagram r.datagram) :
    ∃ u, Transmit.readSocket hs stale socket s = .ret u ∧ Valid hs.crc32 u ∧ Polls u ∧ Once u ∧ u.sent = s.sent ∧
      (numbers a.system.receiver.state.replies)[a.heard + socket.toList.length]? = some u.acked := by
  have steady := clean.joint.steady
  have once := clean.once
  have heard := clean.heard
  rw [running] at steady once heard
  obtain ⟨valid,polls,_⟩ := steady
  cases socket with
  | none => exact ⟨s,rfl,valid,polls,once,rfl,heard⟩
  | some input =>
    obtain ⟨r,found,rfl⟩ := brought input rfl
    obtain ⟨_,after,sent,later,pkt,encodable,type,number,datagram⟩ := clean.reply smooth.same (Or.inl running) found
    obtain ⟨u,read,valid',acked,same,wire,dupAck,retryCount⟩ :=
      readSocket_acked valid encodable type number after sent stale
    rw [← datagram] at read
    have met := SenderRuns.readSocket_meets valid polls stale (some (.datagram r.datagram))
    rw [read] at met
    refine ⟨u,read,valid',met.2.1,⟨?_,dupAck,retryCount⟩,same,?_⟩
    · rw [wire,same]
      exact once.wire
    · rw [acked]
      exact later

theorem send (smooth : Smooth hs hr) (running : a.system.sender = .running s) {event : Transmit.Event}
    (calm : Calm chunks a (.send event)) {fuel : Nat} {outcome : Outcome Halt Sender}
    (taken : Transmit.turn hs fuel s event = some outcome) : ∃ t, outcome = .ret t ∧ Once t ∧ s.sent ≤ t.sent ∧
      (numbers a.system.receiver.state.replies)[a.heard + hears (.send event)]? = some t.acked := by
  have once := clean.once
  have heard := clean.heard
  have steady := clean.joint.steady
  obtain ⟨turn,patient⟩ := calm
  rw [running] at once heard steady
  cases event with
  | failed => exact patient.elim
  | timeout =>
    have empty : pktbufEmpty s.sendBuf = true := by
      have empty : pktbufEmpty a.system.sender.state.sendBuf = true := patient
      rw [running] at empty
      exact empty
    have nothing : Transmit.turn hs fuel s .timeout = some (.ret s) := by simp [Transmit.turn,empty]
    exact ⟨s,Option.some.inj (taken.symm.trans nothing),once,Nat.le_refl _,heard⟩
  | ready stale socket file =>
    obtain ⟨u,read,valid,polls,fresh,same,acked⟩ := clean.readSocket smooth running stale socket turn.1
    have sane (result : Transmit.ReadResult) (held : file = some result) : ∃ bytes, result = .data bytes :=
      (turn.2 result held).imp fun _ both => both.1
    obtain ⟨t,ended,after,kept,more⟩ := rest_once smooth.sends valid polls fresh file sane
    have turned := Silence.turn_ready (h := hs) (s := s) stale socket file fuel
    rw [read,Outcome.ret_andThen,ended,taken] at turned
    refine ⟨t,Option.some.inj turned,after,by omega,?_⟩
    rw [kept]
    exact acked

theorem room (unfailed : a.system.sender.Unfailed s) {r : Receiver} (waiting : a.system.receiver = .running r)
    (sound : Sound r) (clear : bit r.oosMask 0 = false) : popcount r.oosMask < r.maxWindow.toNat := by
  have window := clean.agreed.prepared.window
  have acked := clean.joint.acked
  have outstanding := (clean.agreed.regular s unfailed).leveled.outstanding
  have accepted := clean.agreed.accepted s unfailed
  rw [Sender.outstanding] at outstanding
  rw [unfailed.state,waiting] at acked
  rw [waiting] at accepted window
  change s.acked ≤ r.drained at acked
  exact room_of_sent sound clear window accepted (by omega)

theorem receive (smooth : Smooth hs hr) (nonempty : ∀ bytes ∈ chunks, bytes.val ≠ []) {event : Event}
    (calm : Calm chunks a (.receive event)) {d : Config Halt Receiver}
    (taken : Receive.Step hr a.system.receiver event d) :
    Follows (a.carried + carries (.receive event)) a.system.receiver.state d := by
  obtain ⟨s,unfailed⟩ := clean.sender
  obtain ⟨brought,patient⟩ := calm
  have next (input : Recv) (held : socket event = some input) : a.carried < s.sent ∧
      ∃ bytes, input = .datagram (image hr.crc32 (chunkPkt a.carried bytes)) := by
    obtain ⟨e,found,rfl⟩ := brought input held
    rw [unfailed.state] at found
    obtain ⟨sent,_,bytes,_,_,datagram⟩ := clean.datagram unfailed found
    exact ⟨sent,bytes,by rw [datagram,smooth.same]; rfl⟩
  obtain ⟨r,waiting,stepped⟩ := step_cases taken
  have state : a.system.receiver.state = r := congrArg Config.state waiting
  have told := clean.told
  have consistent := clean.joint.consistent
  have expected := clean.expected
  rw [waiting] at consistent
  rw [state] at told expected ⊢
  cases stepped with
  | awaited retry slot input linked phase =>
    have blank : Waiting r slot := by simpa only [Consistent,phase] using consistent
    obtain ⟨_,bytes,rfl⟩ := next input rfl
    obtain rfl : linked = true := patient
    exact told.linked expected blank phase bytes
  | aborted event phase late =>
    rcases late with rfl | rfl
    · exact patient.elim
    · obtain ⟨retry,lingers⟩ := patient
      rw [state,phase] at lingers
      contradiction
  | turned input file phase =>
    have sound : Sound r := by simpa only [Consistent,phase] using consistent
    cases input with
    | none => exact told.idle smooth.replies smooth.complete sound file
    | some input =>
      obtain ⟨sent,bytes,rfl⟩ := next input rfl
      have clear := clean.clear nonempty unfailed waiting sent
      exact told.brought smooth.replies smooth.complete sound clear (clean.room unfailed waiting sound clear) bytes file
  | lingered retry event phase =>
    have sound : Sound r := by simpa only [Consistent,phase] using consistent
    have finished := clean.agreed.prepared.finished r (Or.inl ⟨waiting,retry,phase⟩)
    have read := (clean.read unfailed).2
    have front := sound.expected
    -- Everything that was ever sent has arrived.
    have silent (input : Recv) (held : socket event = some input) : False := by
      obtain ⟨sent,_⟩ := next input held
      omega
    cases event with
    | failed => exact patient.elim
    | datagram input linked => exact (silent input rfl).elim
    | timeout => exact ⟨r,Or.inr rfl,told,Nat.le_refl _,fun receiving => by rw [phase] at receiving; contradiction⟩
    | ready socket file =>
      cases socket with
      | some input => exact (silent input rfl).elim
      | none =>
        have receiving : a.system.receiver.state.phase = .receiving := patient
        rw [state,phase] at receiving
        contradiction

end Clean

theorem replies_kept {h : Host} (complete : ∀ n, h.write n = .complete) {c d : Config Halt Receiver} {event : Event}
    (consistent : Consistent c) (timely : Timely h c event) (taken : Receive.Step h c event d) :
    c.state.replies <+: d.state.replies := by
  obtain ⟨_,evolved⟩ := next_evolved (fun n => Or.inl (complete n)) consistent timely taken
  rcases evolved.summary with ⟨before,after⟩ | ⟨base,m,began,_,moves,answered⟩
  · rw [before.replies]
    exact List.nil_prefix
  · obtain ⟨_,_,same⟩ := Fresh.agree began
    obtain ⟨news,appended,_⟩ := answered.news
    rw [← same,← moves_replies moves]
    exact ⟨news,appended.symm⟩

/-- Step lemma: a calm turn keeps the line clean. -/
theorem step_clean (smooth : Smooth hs hr) (small : capacity.toNat ≤ 128) (least : 1 ≤ maxWindow.toNat)
    (most : maxWindow.toNat ≤ maxWindowSize) (nonempty : ∀ bytes ∈ chunks, bytes.val ≠ [])
    (clean : Clean hs hr capacity maxWindow chunks a) {action : Action} {b : Line} (calm : Calm chunks a action)
    (taken : Step hs hr a action b) : Clean hs hr capacity maxWindow chunks b := by
  obtain ⟨q,turned⟩ := taken
  have admitted := clean.admitted smooth calm turned
  obtain ⟨joint,agreed,sender,once,receiver,told,heard,poised⟩ := id clean
  cases turned with
  | send event c stepped =>
    have joint' := joint.send smooth.same small admitted stepped
    have agreed' := agreed.send joint smooth.same small least most admitted stepped
    obtain ⟨system,carried,counted⟩ := a
    obtain ⟨first,second⟩ := system
    obtain ⟨fuel,s,event,outcome,ended⟩ := stepped
    obtain ⟨t,rfl,once',_,heard'⟩ := clean.send smooth rfl calm ended
    have unfailed : (Transmit.afterTurn (.ret t) : Config Halt Sender).Unfailed t := by
      rw [Transmit.afterTurn]
      split
      next => exact Or.inl rfl
      next => exact Or.inr rfl
    refine ⟨joint',agreed',⟨t,unfailed⟩,?_,receiver,told,?_,poised⟩
    · rw [unfailed.state]
      exact once'
    · rw [unfailed.state]
      exact heard'
  | receive event d stepped =>
    have joint' := joint.receive smooth.same smooth.complete admitted stepped
    have agreed' := agreed.receive joint smooth.same smooth.complete nonempty most admitted stepped
    obtain ⟨u,unfailed,told',_⟩ := clean.receive smooth nonempty calm stepped
    have timely := joint.timely smooth.same admitted
    have poised' := EndOfTransfer.next_poised (fun n => Or.inl (smooth.complete n)) joint.consistent poised timely
      (clean.unended nonempty calm) stepped
    obtain ⟨news,more⟩ := replies_kept smooth.complete joint.consistent timely stepped
    refine ⟨joint',agreed',sender,once,⟨u,unfailed⟩,?_,?_,poised'⟩
    · rw [unfailed.state]
      exact told'
    · have longer : numbers d.state.replies = numbers a.system.receiver.state.replies ++ news.map Reply.number := by
        rw [← more,numbers,List.map_append]
        rfl
      obtain ⟨inside,_⟩ := List.getElem?_eq_some_iff.mp heard
      change (numbers d.state.replies)[a.heard]? = _
      rw [longer,List.getElem?_append_left inside]
      exact heard

theorem reachable_clean (smooth : Smooth hs hr) (small : capacity.toNat ≤ 128) (least : 1 ≤ maxWindow.toNat)
    (most : maxWindow.toNat ≤ maxWindowSize) (nonempty : ∀ bytes ∈ chunks, bytes.val ≠ [])
    (reached : Reach (Start hr capacity maxWindow) (Step hs hr) (Calm chunks) a) :
    Clean hs hr capacity maxWindow chunks a :=
  reached.invariant (fun _ first => start_clean least most first)
    (fun _ _ _ clean calm taken => step_clean smooth small least most nonempty clean calm taken)

namespace Clean

variable (clean : Clean hs hr capacity maxWindow chunks a)

include clean

theorem attending (short : a.system.receiver.state.drained ≤ chunks.length) : ∃ r, a.system.receiver = .running r ∧
    (r.phase = .receiving ∨ ∃ retry slot, r.phase = .connecting retry slot) := by
  obtain ⟨r,unfailed⟩ := clean.receiver
  rw [unfailed.state] at short
  have beyond (last : (a.system.receiver = .running r ∧ ∃ retry, r.phase = .lingering retry) ∨
      a.system.receiver = .returned 0 r) :
      False := Nat.not_lt_of_le short (clean.agreed.prepared.finished r last)
  rcases unfailed with waiting | ended
  · refine ⟨r,waiting,?_⟩
    cases phase : r.phase with
    | connecting retry slot => exact Or.inr ⟨retry,slot,rfl⟩
    | receiving => exact Or.inl rfl
    | lingering retry => exact (beyond (Or.inl ⟨waiting,retry,phase⟩)).elim
  · exact (beyond (Or.inr ended)).elim

theorem even (running : a.system.sender = .running s) (silent : a.system.receiver.state.replies[a.heard]? = none)
    (quiet : s.wire[a.carried]? = none) (written : a.carried ≤ a.system.receiver.state.drained) : s.acked = s.sent := by
  have unfailed : a.system.sender.Unfailed s := Or.inl running
  have ordered := (valid_of_unfailed clean.joint unfailed).ackedSent
  have carried := clean.carried_le unfailed
  have expected := clean.expected
  have acked := acked_le clean.joint running
  have once := congrArg List.length clean.once.wire
  have heard := clean.heard
  rw [unfailed.state] at once heard
  rw [List.length_map,List.length_map,List.length_range] at once
  have all := List.getElem?_eq_none_iff.mp quiet
  have last := List.getElem?_eq_none_iff.mp silent
  have front := Transfer.drained_le clean.joint.consistent
  have clear : bit a.system.receiver.state.oosMask 0 = false := by
    rcases clean.joint.consistent.state with sound | fresh
    · by_contra unclear
      have ones := trailingOnes_shift (by simpa using unclear)
      have beyond := sound.expected
      omega
    · rw [fresh.oosMask,bit_zero]
  obtain ⟨r,attending⟩ := clean.receiver
  have state := attending.state
  rcases clean.agreed.prepared.acknowledged r attending (by rw [← state]; exact clear) with none | ⟨e,member,_,number⟩
  · rw [← state] at none
    omega
  · -- The last reply was heard, and none goes further than it.
    rw [← state] at member number
    obtain ⟨i,inside,found⟩ := List.getElem_of_mem member
    have place : (numbers a.system.receiver.state.replies)[i + 1]? = some e.number := by
      rw [numbers,List.getElem?_cons_succ,List.getElem?_map,List.getElem?_eq_getElem inside,found]
      rfl
    obtain ⟨before,earlier⟩ := List.getElem?_eq_some_iff.mp place
    obtain ⟨reached,latest⟩ := List.getElem?_eq_some_iff.mp heard
    rcases Nat.lt_or_eq_of_le (show i + 1 ≤ a.heard by omega) with sooner | same
    · have increasing := List.pairwise_iff_getElem.mp clean.told.replies.ordered _ _ before reached sooner
      omega
    · have equal : s.acked = e.number := by
        rw [← same,place] at heard
        exact (Option.some.inj heard).symm
      omega

end Clean

theorem Clean.sent (clean : Clean hs hr capacity maxWindow chunks a) (nonempty : ∀ bytes ∈ chunks, bytes.val ≠ [])
    (returned : a.system.sender = .returned 0 s) : s.sent = chunks.length + 1 := by
  have finished := clean.joint.finished nonempty returned
  have front := Transfer.drained_le clean.joint.consistent
  have expected := clean.expected
  have carried := clean.carried_le (Or.inr returned)
  have read := (clean.read (Or.inr returned)).2
  omega

theorem Advancing.length {k : Nat} {replies : List Reply} (advancing : Advancing k replies) : replies.length ≤ k := by
  have distinct : (numbers replies).Nodup := advancing.ordered.imp Nat.ne_of_lt
  have among : numbers replies ⊆ List.range (k + 1) :=
    fun n member => List.mem_range.mpr (Nat.lt_succ_of_le (advancing.most n member))
  have few := (List.subperm_of_subset distinct among).length_le
  rw [numbers,List.length_cons,List.length_map,List.length_range] at few
  exact Nat.le_of_succ_le_succ few

end Invariant

/-- In every run on such a line the sender puts each chunk on it once and in order, and the
receiver accepts them as they arrive, requests nothing and never repeats an acknowledgement. -/
theorem line_once (hs hr : Host) (smooth : Smooth hs hr) (capacity maxWindow : UInt32) (small : capacity.toNat ≤ 128)
    (least : 1 ≤ maxWindow.toNat) (most : maxWindow.toNat ≤ maxWindowSize) (chunks : List Chunk)
    (nonempty : ∀ bytes ∈ chunks, bytes.val ≠ []) (a : Line)
    (reached : Reach (Start hr capacity maxWindow) (Step hs hr) (Calm chunks) a) :
    ∃ s r, a.system.sender.Unfailed s ∧ a.system.receiver.Unfailed r ∧
      s.wire.map Sending.number = (List.range s.sent).map some ∧ s.dupAck = 0 ∧ s.retryCount = 0 ∧
      r.accepted = List.range a.carried ∧ a.carried ≤ s.sent ∧
      (∀ e ∈ r.replies, e.type = ptypeAck) ∧ (numbers r.replies).Pairwise (· < ·) ∧ r.replies.length ≤ a.carried ∧
      (a.system.sender = .returned 0 s → s.wire.length = chunks.length + 1) := by
  have clean := reachable_clean smooth small least most nonempty reached
  obtain ⟨s,sending⟩ := clean.sender
  obtain ⟨r,receiving⟩ := clean.receiver
  have once := clean.once
  have told := clean.told
  rw [sending.state] at once
  rw [receiving.state] at told
  refine ⟨s,r,sending,receiving,once.wire,once.dupAck,once.retryCount,told.accepted,clean.carried_le sending,
    told.replies.acks,told.replies.ordered,told.replies.length,?_⟩
  intro returned
  have length := congrArg List.length once.wire
  rw [List.length_map,List.length_map,List.length_range,clean.sent nonempty returned] at length
  exact length

def firstLine : Line := ⟨⟨.running (Transmit.start fourPlaces),firstWait 31⟩,0,0⟩

theorem firstLine_start : Start steadyHost 4 31 firstLine := ⟨⟨fourPlaces_start,firstWait_start steadyHost 31⟩,rfl,rfl⟩

inductive Ply where
  | read | carry | hear | write

def ply (hs hr : Host) (chunks : List Chunk) (a : Line) : Ply → Option Line
  | .read => do
    let bytes ← (feed chunks)[a.system.sender.state.input.length]?
    let c ← Transmit.next hs 0 a.system.sender (.ready Pkt.zero none (some (.data bytes)))
    return ⟨{ a.system with sender := c },a.carried,a.heard⟩
  | .carry => do
    let e ← a.system.sender.state.wire[a.carried]?
    let d ← next hr a.system.receiver (occasion a.system.receiver.state.phase (some (.datagram e.datagram)))
    return ⟨{ a.system with receiver := d },a.carried + 1,a.heard⟩
  | .hear => do
    let r ← a.system.receiver.state.replies[a.heard]?
    let c ← Transmit.next hs 0 a.system.sender (.ready Pkt.zero (some (.datagram r.datagram)) none)
    return ⟨{ a.system with sender := c },a.carried,a.heard + 1⟩
  | .write => do
    if a.system.receiver.state.phase = .receiving then
      let d ← next hr a.system.receiver (.ready none true)
      return ⟨{ a.system with receiver := d },a.carried,a.heard⟩
    else none

theorem ply_calm {command : Ply} {b : Line} (played : ply hs hr chunks a command = some b) :
    ∃ action, Calm chunks a action ∧ Step hs hr a action b := by
  cases command with
  | read =>
    obtain ⟨bytes,known,rest⟩ := Option.bind_eq_some_iff.mp played
    obtain ⟨c,taken,made⟩ := Option.bind_eq_some_iff.mp rest
    obtain rfl := Option.some.inj made
    refine ⟨.send (.ready Pkt.zero none (some (.data bytes))),⟨⟨?_,?_⟩,trivial⟩,
      .turn _ (.send _ c (Transmit.next_step hs 0 _ _ _ taken))⟩
    · intro input none
      contradiction
    · intro result held
      exact ⟨bytes,(Option.some.inj held).symm,known⟩
  | carry =>
    obtain ⟨e,found,rest⟩ := Option.bind_eq_some_iff.mp played
    obtain ⟨d,taken,made⟩ := Option.bind_eq_some_iff.mp rest
    obtain rfl := Option.some.inj made
    let event := occasion a.system.receiver.state.phase (some (.datagram e.datagram))
    have one : carries (.receive event) = 1 := by
      change (socket event).toList.length = 1
      rw [socket_occasion]
      rfl
    have turn : Step hs hr a (.receive event) _ := .turn _ (.receive event d taken)
    rw [one] at turn
    refine ⟨.receive event,⟨?_,?_⟩,turn⟩
    · intro input held
      rw [socket_occasion] at held
      exact ⟨e,found,(Option.some.inj held).symm⟩
    · change Patient a.system (.receive (occasion a.system.receiver.state.phase _))
      cases a.system.receiver.state.phase with
      | connecting retry slot => exact rfl
      | receiving => trivial
      | lingering retry => trivial
  | hear =>
    obtain ⟨r,found,rest⟩ := Option.bind_eq_some_iff.mp played
    obtain ⟨c,taken,made⟩ := Option.bind_eq_some_iff.mp rest
    obtain rfl := Option.some.inj made
    refine ⟨.send (.ready Pkt.zero (some (.datagram r.datagram)) none),⟨⟨?_,?_⟩,trivial⟩,
      .turn _ (.send _ c (Transmit.next_step hs 0 _ _ _ taken))⟩
    · intro input held
      exact ⟨r,found,(Option.some.inj held).symm⟩
    · intro result none
      contradiction
  | write =>
    simp only [ply] at played
    split at played
    next phase =>
      obtain ⟨d,taken,made⟩ := Option.bind_eq_some_iff.mp played
      obtain rfl := Option.some.inj made
      refine ⟨.receive (.ready none true),⟨?_,phase⟩,.turn _ (.receive _ d taken)⟩
      intro input none
      contradiction
    next => contradiction

/-- Two chunks and the end of the file, of which two are on the line at the same time. -/
def twoChunks : List Ply :=
  [.read,.carry,.write,.hear,.read,.read,.carry,.hear,.carry,.hear]

theorem line_once_twoChunks : ∃ (a : Line) (s : Sender) (r : Receiver), a.carried = 3 ∧
    a.system.sender = .returned 0 s ∧
    s.wire.length = 3 ∧ r.accepted = [0,1,2] ∧ r.replies.length = 3 ∧ (∀ e ∈ r.replies, e.type = ptypeAck) ∧
    (numbers r.replies).Pairwise (· < ·) := by
  let chunks : List Chunk := [⟨[97],by decide⟩,⟨[98],by decide⟩]
  let test (a : Line) : Bool :=
    returnedZero (some a.system) && (a.carried == 3 && a.system.receiver.state.replies.length == 3)
  have passed : (twoChunks.foldlM (ply steadyHost steadyHost chunks) firstLine).any test = true := by decide +kernel
  obtain ⟨a,played,right⟩ := (Option.any_eq_true _ _).mp passed
  obtain ⟨ended,counts⟩ := (Bool.and_eq_true _ _).mp right
  obtain ⟨carried,replied⟩ := (Bool.and_eq_true _ _).mp counts
  obtain ⟨p,same,u,returned⟩ := exists_of_returnedZero ended
  obtain rfl := Option.some.inj same
  have reached : Reach (Start steadyHost 4 31) (Step steadyHost steadyHost) (Calm chunks) a :=
    Reach.play (fun _ _ _ taken => ply_calm taken) (.start _ firstLine_start) _ played
  obtain ⟨s,r,sending,receiving,_,_,_,accepted,_,acks,ordered,_,whole⟩ := line_once steadyHost steadyHost
    ⟨rfl,fun _ => rfl,fun _ => rfl,fun _ => rfl⟩ 4 31 (by decide) (by decide) (by decide) chunks
      (by simp [chunks]) a reached
  obtain rfl : u = s := by
    rw [← sending.state,returned]
    rfl
  rw [receiving.state] at replied
  rw [beq_iff_eq.mp carried] at accepted
  exact ⟨a,u,r,beq_iff_eq.mp carried,returned,whole returned,accepted,beq_iff_eq.mp replied,acks,ordered⟩

end Trtp.Faultless
