import Trtp.Buffer
import Trtp.Net
import Trtp.Lib.Run

/-! The sender, transmit.c: its static variables, the handlers of its poll loop
and the loop itself.
The counts `acked`, `sent` and the list `input` are what `last_ack`, `last_sent`
and `last_chunk_read` stand for; no handler consults them. -/
namespace Trtp.Transmit
open Lib.Bytes Lib.Run Packet Process Buffer Net

def maxDupAck : UInt8 := 3
def maxRetransmission : Nat := 5

def econnaborted : Int := -103

/-- What one read() of the input file can return. -/
abbrev Chunk := { bytes : List UInt8 // bytes.length ≤ maxPayloadSize }

inductive ReadResult where
  | error
  | data (bytes : Chunk)

/-- A datagram handed to the socket: the number of the chunk whose packet it was
taken from, the packets outstanding just before and the window known then. -/
structure Sending where
  number : Option Nat
  outstanding : Nat
  window : UInt8
  datagram : List UInt8

structure Sender where
  sendBuf : Pktbuf
  lastAck : UInt8
  lastWin : UInt8
  lastSent : UInt8
  lastChunkRead : UInt8
  dupAck : UInt8
  retryCount : Nat
  lastInRead : Int
  pfdsCount : Nat
  -- What the process has done so far.
  acked : Nat
  sent : Nat
  input : List Chunk
  chunkAt : UInt32 → Option Nat
  writes : Nat
  wire : List Sending

def start (sendBuf : Pktbuf) : Sender where
  sendBuf := sendBuf
  lastAck := 0
  lastWin := 1
  lastSent := -1
  lastChunkRead := -1
  dupAck := 0
  retryCount := 0
  lastInRead := -1
  pfdsCount := 2
  acked := 0
  sent := 0
  input := []
  chunkAt := fun _ => none
  writes := 0
  wire := []

def Sender.outstanding (s : Sender) : Nat := s.sent - s.acked

def Sender.tried (s : Sender) : Sender := { s with writes := s.writes + 1 }

def Sender.recorded (s : Sender) (sending : Sending) : Sender :=
  { s.tried with wire := s.wire ++ [sending] }

def Sender.sending (s : Sender) (place : UInt32) (outstanding : Nat) : Sending :=
  ⟨s.chunkAt place,outstanding,s.lastWin,(s.sendBuf.head place).datagram⟩

variable (h : Host)

def sendPlace (s : Sender) (place : UInt32) (outstanding : Nat) : Outcome Halt Sender :=
  match netSend h s.writes with
  | .netOk => .ret (s.recorded (s.sending place outstanding))
  | _ => .err s.tried

/-- The search loop of process_nack, from index `i` for `count` turns. -/
def nackScan (nack : UInt8) : Nat → Nat → Sender → Outcome Halt Sender
  | _, 0, s => .ret s
  | i, count + 1, s =>
    .call s (pktbufAt s.sendBuf (UInt32.ofNat i)) fun place =>
      if (s.sendBuf.head place).seq = nack then sendPlace h s place s.outstanding
      else nackScan nack (i + 1) count s

def processNack (nack : UInt8) (s : Sender) : Outcome Halt Sender :=
  nackScan h nack 0 (pktbufUsed s.sendBuf).toNat s

/-- The loop of process_ack; it ends after at most 255 turns. -/
def ackLoop (ack : UInt8) : Nat → Sender → Outcome Halt Sender
  | 0, s => .ret s
  | fuel + 1, s =>
    if s.lastAck = ack then .ret s
    else .call s (pktbufDequeue h s.sendBuf) fun (_,buf) =>
      ackLoop ack fuel { s with sendBuf := buf, lastAck := s.lastAck + 1, acked := s.acked + 1 }

def processAck (ack : UInt8) (s : Sender) : Outcome Halt Sender :=
  (ackLoop h ack 256 s).andThen fun s => .ret { s with dupAck := 0 }

def processDupAck (s : Sender) : Outcome Halt Sender :=
  let s := { s with dupAck := s.dupAck + 1 }
  if s.dupAck = maxDupAck then
    let s := { s with dupAck := 0 }
    match pktbufFirst s.sendBuf with
    -- net_send reads the length of the packet it is given.
    | none => .halt .segv s
    | some place => sendPlace h s place s.outstanding
  else .ret s

/-- What handle_socket_read does with a packet that net_recv_pkt let through. -/
def processPkt (pkt : Pkt) (s : Sender) : Outcome Halt Sender :=
  if pkt.type ≠ ptypeAck ∧ pkt.type ≠ ptypeNack then .ret s else
  let window := UInt8.ofNat pkt.window.toNat
  let s := if s.lastWin ≠ window then { s with lastWin := window } else s
  if pkt.type = ptypeNack then processNack h pkt.seq s
  else if s.lastAck = pkt.seq then processDupAck h s
  else processAck h pkt.seq s

/-- `stale` is what the local variable `pkt` holds before it is filled. -/
def handleSocketRead (stale : Pkt) (input : Recv) (s : Sender) : Outcome Halt Sender :=
  let s := { s with retryCount := 0 }
  let win := s.lastSent - s.lastAck + 1
  match netRecvPkt h stale s.lastAck win input with
  | (.netOk,pkt) => processPkt h pkt s
  | (.netError,_) => .err s
  | (.netDrop,_) => .ret s

def handleInputRead (result : ReadResult) (s : Sender) : Outcome Halt Sender :=
  let s := { s with lastChunkRead := s.lastChunkRead + 1 }
  .call s (pktbufEnqueue h s.sendBuf) fun (place,buf) =>
    let pkt := { buf.head place with
      type := ptypeData, window := 0, seq := s.lastChunkRead, ts := pktTimestamp }
    match result with
    | .error => .err { s with sendBuf := buf.put place pkt, lastInRead := -1 }
    | .data bytes =>
      let pkt := { pkt with
        tail := blit pkt.tail 0 bytes.val, length := UInt16.ofNat bytes.val.length }
      .ret { s with
        sendBuf := buf.put place (pktEncodeInline h.crc32 pkt).2
        lastInRead := bytes.val.length
        input := s.input ++ [bytes]
        chunkAt := fun i => if i = place then some s.input.length else s.chunkAt i }

/-- The loop of handle_retransmission. The test promotes `last_sent + 1` to int,
so it need not end: `none` when `fuel` turns are not enough. -/
def resend : Nat → UInt8 → Sender → Option (Outcome Halt Sender)
  | 0, _, _ => none
  | fuel + 1, sseq, s =>
    if (sseq.toNat : Int) = s.lastSent.toNat + 1 then some (.ret { s with dupAck := 0 })
    else match pktbufSlotforSeq h s.sendBuf sseq with
    | .error reason => some (.halt reason s)
    | .ok (place,buf) =>
      match sendPlace h { s with sendBuf := buf } place s.outstanding with
      | .ret s => resend fuel (sseq + 1) s
      | stopped => some stopped

def handleRetransmission (fuel : Nat) (s : Sender) : Option (Outcome Halt Sender) :=
  let s := { s with retryCount := s.retryCount + 1 }
  if s.retryCount > maxRetransmission then some (.err s)
  else resend h fuel s.lastAck s

def canSend (s : Sender) : Bool :=
  !pktbufEmpty s.sendBuf && s.lastSent + 1 - s.lastAck < s.lastWin

/-- The loop of do_send_sbuf; it ends after at most 255 turns. -/
def sendLoop : Nat → Sender → Outcome Halt Sender
  | 0, s => .ret s
  | fuel + 1, s =>
    if s.lastSent ≠ s.lastChunkRead ∧ canSend s then
      let next := { s with lastSent := s.lastSent + 1, sent := s.sent + 1 }
      .call next (pktbufSlotforSeq h next.sendBuf next.lastSent) fun (place,buf) =>
        (sendPlace h { next with sendBuf := buf } place s.outstanding).andThen (sendLoop fuel)
    else .ret s

def doSendSbuf (s : Sender) : Outcome Halt Sender := sendLoop h 256 s

inductive Event where
  | failed
  | timeout
  | ready (stale : Pkt) (socket : Option Recv) (file : Option ReadResult)

def readSocket (stale : Pkt) (socket : Option Recv) (s : Sender) : Outcome Halt Sender :=
  match socket with
  | some input => handleSocketRead h stale input s
  | none => .ret s

def readFile (file : Option ReadResult) (s : Sender) : Outcome Halt Sender :=
  match if s.pfdsCount = 2 then file else none with
  | some result => handleInputRead h result s
  | none => .ret s

def choosePolled (s : Sender) : Sender :=
  { s with pfdsCount := if s.lastInRead ≠ 0 ∧ !pktbufFull s.sendBuf then 2 else 1 }

def turn (fuel : Nat) (s : Sender) : Event → Option (Outcome Halt Sender)
  | .failed => some (.err s)
  | .timeout =>
    if !pktbufEmpty s.sendBuf then handleRetransmission h fuel s else some (.ret s)
  | .ready stale socket file =>
    some ((((readSocket h stale socket s).andThen (readFile h file)).andThen (doSendSbuf h)).andThen
      fun s => .ret (choosePolled s))

def afterTurn : Outcome Halt Sender → Config Halt Sender
  | .ret s => if s.lastInRead ≠ 0 ∨ !pktbufEmpty s.sendBuf then .running s else .returned 0 s
  | .err s => .returned econnaborted s
  | .halt reason s => .halted reason s

/-- transmit goes from one turn of its loop to the next. -/
inductive Step : Config Halt Sender → Event → Config Halt Sender → Prop
  | turn (fuel : Nat) (s : Sender) (event : Event) (outcome : Outcome Halt Sender)
      (taken : turn h fuel s event = some outcome) : Step (.running s) event (afterTurn outcome)

/-- The turns of the loop as far as they end within `fuel` turns of the retransmission loop. -/
def next (fuel : Nat) : Config Halt Sender → Event → Option (Config Halt Sender)
  | .running s, event => (turn h fuel s event).map afterTurn
  | _, _ => none

theorem next_step (fuel : Nat) (c : Config Halt Sender) (event : Event) (d : Config Halt Sender)
    (taken : next h fuel c event = some d) : Step h c event d := by
  cases c with
  | running s =>
    obtain ⟨outcome,ended,rfl⟩ := Option.map_eq_some_iff.mp taken
    exact .turn fuel s event outcome ended
  | returned code s => simp [next] at taken
  | halted reason s => simp [next] at taken

/-- transmit called with a new buffer of the given capacity. -/
def Start (capacity : UInt32) (c : Config Halt Sender) : Prop :=
  ∃ buf, pktbufNew capacity true = .ok (some buf) ∧ c = .running (start buf)

end Trtp.Transmit
