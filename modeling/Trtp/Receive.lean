import Trtp.Buffer
import Trtp.Net
import Trtp.Lib.Run

/-! The receiver, receive.c: its static variables, the handlers of its poll loop,
the wait for the first packet and the final lingering.
The counts `expected` and `drained`, the numbers `accepted`, the list `replies` and
the bytes `output` tell what has happened so far; no handler consults them. -/
namespace Trtp.Receive
open Lib.Mask Lib.Run Packet Process Buffer Net

def initialSeqnum : UInt8 := 0
def maxRetries : Nat := 5
def maxLingerRetry : Nat := 5

/-- The capacity main gives to the receive buffer. -/
def recvCapacity : UInt32 := 32

def econnaborted : Int := -103

/-- Where receive is between two system calls that wait: in net_wait_and_connect
with its count of retries and the slot it fills, in the main loop or in the last loop. -/
inductive Phase where
  | connecting (retryCount : Nat) (slot : UInt32)
  | receiving
  | lingering (retry : Nat)
  deriving DecidableEq

structure Reply where
  type : BitVec 2
  number : Nat
  datagram : List UInt8

structure Receiver where
  phase : Phase
  maxWindow : UInt32
  recvBuf : Pktbuf
  oosMask : UInt32
  expectedSeq : UInt8
  lastTs : UInt32
  needAck : Bool
  needNack : Bool
  nackSeq : UInt8
  lastWrittenLen : Int
  pfdsCount : Nat
  -- What the process has done so far.
  expected : Nat
  drained : Nat
  accepted : List Nat
  replies : List Reply
  output : List UInt8
  fileWrites : Nat
  writes : Nat

def start (maxWindow : UInt32) (recvBuf : Pktbuf) (slot : UInt32) : Receiver where
  phase := .connecting 0 slot
  maxWindow := maxWindow
  recvBuf := recvBuf
  oosMask := 0
  expectedSeq := 0
  lastTs := 0
  needAck := false
  needNack := false
  nackSeq := 0
  lastWrittenLen := -1
  pfdsCount := 2
  expected := 0
  drained := 0
  accepted := []
  replies := []
  output := []
  fileWrites := 0
  writes := 0

def rbufFull (s : Receiver) : Bool := UInt32.ofNat (popcount s.oosMask) ≥ s.maxWindow

def canEmptyRbuf (s : Receiver) : Bool := !pktbufEmpty s.recvBuf && s.oosMask &&& 1 == 1

def windowSize (s : Receiver) : UInt32 := s.maxWindow - UInt32.ofNat (trailingOnes s.oosMask)

variable (h : Host)

def replyPkt (type : BitVec 2) (seq : UInt8) (s : Receiver) : Pkt :=
  (pktEncodeInline h.crc32 { Pkt.zero with
    type := type, seq := seq, ts := s.lastTs, window := BitVec.ofNat 5 (windowSize s).toNat }).2

def sendReply (type : BitVec 2) (seq : UInt8) (number : Nat) (s : Receiver) : Outcome Halt Receiver :=
  match netSend h s.writes with
  | .netOk => .ret { s with
      writes := s.writes + 1
      replies := s.replies ++ [⟨type,number,(replyPkt h type seq s).datagram⟩] }
  | _ => .err { s with writes := s.writes + 1 }

def sendAck (s : Receiver) : Outcome Halt Receiver := sendReply h ptypeAck s.expectedSeq s.expected s

/-- The packet that was truncated lies before the expected one when that one has been
accepted since. -/
def sendNack (seq : UInt8) (s : Receiver) : Outcome Halt Receiver :=
  sendReply h ptypeNack seq (Lib.Serial.nearest s.expected seq) s

def discardIncomingData (input : Recv) (s : Receiver) : Outcome Halt Receiver :=
  match input with
  | .error => .err s
  | .datagram _ => .ret s

/-- Distance from the start of the buffer to the expected packet; `none` when the
first packet of an empty buffer is read. -/
def distance (s : Receiver) : Option UInt8 :=
  if s.oosMask &&& 1 = 1 then
    (pktbufFirst s.recvBuf).map (fun front => s.expectedSeq - (s.recvBuf.head front).seq - 1)
  else some 0

/-- What process_incoming_pkt does with a packet that is not truncated. -/
def acceptPkt (place : UInt32) (distance gap : UInt8) (s : Receiver) : Outcome Halt Receiver :=
  let shift := distance.toNat + gap.toNat
  if shift ≥ 32 then .halt .undefined s else
  let s := { s with
    oosMask := setBit s.oosMask shift
    accepted := s.accepted ++ [s.expected + gap.toNat] }
  if gap > 0 then
    let receivedSeq := (s.recvBuf.head place).seq
    -- The copy found at `place` is given back the number of the missing packet.
    let buf := setSeq s.recvBuf place s.expectedSeq
    .call s (pktbufSlotforSeq h buf receivedSeq) fun (stored,buf) =>
      .ret { s with recvBuf := buf.put stored { buf.head place with seq := receivedSeq } }
  else
    let step := (s.maxWindow - windowSize s).toUInt8
    .ret { s with expectedSeq := s.expectedSeq + step, expected := s.expected + step.toNat }

def processIncomingPkt (place : UInt32) (s : Receiver) : Outcome Halt Receiver :=
  let pkt := s.recvBuf.head place
  let s := { s with lastTs := pkt.ts }
  match distance s with
  | none => .halt .segv s
  | some distance =>
    let gap := pkt.seq - s.expectedSeq
    if pkt.tr then
      let s := { s with needNack := true, nackSeq := pkt.seq }
      .ret (if gap > 0 then { s with recvBuf := setSeq s.recvBuf place s.expectedSeq } else s)
    else acceptPkt h place distance gap s

def doReceiveData (input : Recv) (s : Receiver) : Outcome Halt Receiver :=
  let win := windowSize s
  .call s (pktbufSlotforSeq h s.recvBuf s.expectedSeq) fun (place,buf) =>
    match netRecvPkt h (buf.head place) s.expectedSeq win.toUInt8 input with
    | (.netOk,pkt) =>
      if pkt.type ≠ ptypeData then
        .ret { s with recvBuf := buf.put place { pkt with seq := s.expectedSeq } }
      else processIncomingPkt h place { s with recvBuf := buf.put place pkt }
    | (.netError,pkt) => .err { s with recvBuf := buf.put place { pkt with seq := s.expectedSeq } }
    | (.netDrop,pkt) => .ret { s with recvBuf := buf.put place { pkt with seq := s.expectedSeq } }

/-- The packet at the front has been written. -/
def dequeueFirst (payload : List UInt8) (s : Receiver) (next : Receiver → Outcome Halt Receiver) :
    Outcome Halt Receiver :=
  let s := { s with output := s.output ++ payload }
  .call s (pktbufDequeue h s.recvBuf) fun (_,buf) =>
    next { s with recvBuf := buf, oosMask := s.oosMask >>> 1, drained := s.drained + 1 }

/-- The loop of do_empty_rbuf; the mask is zero after at most 32 turns. -/
def emptyLoop : Nat → Receiver → Outcome Halt Receiver
  | 0, s => .ret s
  | fuel + 1, s =>
    if s.oosMask &&& 1 = 1 then
      .call s (assert h (!pktbufEmpty s.recvBuf)) fun _ =>
      match pktbufFirst s.recvBuf with
      | none => .halt .segv s
      | some front =>
        let pkt := s.recvBuf.head front
        let payload := pkt.payload pkt.length.toNat
        let s := { s with lastWrittenLen := pkt.length.toNat }
        if pkt.length ≠ 0 then
          let tried := { s with fileWrites := s.fileWrites + 1 }
          match h.write s.fileWrites with
          | .again => .ret tried
          | .error => .err tried
          | .short count => .err { tried with output := s.output ++ payload.take count }
          | .complete => dequeueFirst h payload tried (emptyLoop fuel)
        else dequeueFirst h [] s (emptyLoop fuel)
    else .ret s

def doEmptyRbuf (s : Receiver) : Outcome Halt Receiver := emptyLoop h 32 s

def doReadSock (input : Recv) (s : Receiver) : Outcome Halt Receiver :=
  if !rbufFull s then doReceiveData h input s else discardIncomingData input s

inductive Event where
  | failed
  | timeout
  | ready (socket : Option Recv) (file : Bool)
  | datagram (input : Recv) (connected : Bool)

def readSocket (socket : Option Recv) (s : Receiver) : Outcome Halt Receiver :=
  match socket with
  | some input =>
    (doReadSock h input s).andThen fun s => .ret (if !s.needNack then { s with needAck := true } else s)
  | none => .ret s

def writeFile (file : Bool) (s : Receiver) : Outcome Halt Receiver :=
  if (s.pfdsCount == 2 && file) || canEmptyRbuf s then doEmptyRbuf h s else .ret s

def answer (s : Receiver) : Outcome Halt Receiver :=
  (if s.needAck then sendAck h s else .ret s).andThen fun s =>
    if s.needNack then sendNack h s.nackSeq s else .ret s

def choosePolled (s : Receiver) : Receiver :=
  { s with pfdsCount := if canEmptyRbuf s then 2 else 1, needAck := false, needNack := false }

def turn (socket : Option Recv) (file : Bool) (s : Receiver) : Outcome Halt Receiver :=
  (((readSocket h socket s).andThen (writeFile h file)).andThen (answer h)).andThen fun s =>
    .ret (choosePolled s)

def afterTurn : Outcome Halt Receiver → Config Halt Receiver
  | .ret s => .running { s with
      phase := if s.lastWrittenLen ≠ 0 ∨ !pktbufEmpty s.recvBuf then .receiving else .lingering 0 }
  | .err s => .returned econnaborted s
  | .halt reason s => .halted reason s

def connected (slot : UInt32) (s : Receiver) : Config Halt Receiver :=
  match processIncomingPkt h slot s with
  | .ret s => .running { s with phase := .receiving, needAck := true }
  | .err s => .returned econnaborted s
  | .halt reason s => .halted reason s

/-- One turn of the loop of net_wait_and_connect; the last retry is followed by giving up. -/
def waitAndConnect (retryCount : Nat) (slot : UInt32) (input : Recv) (linked : Bool) (s : Receiver) :
    Config Halt Receiver :=
  let retry (s : Receiver) : Config Halt Receiver :=
    if retryCount + 1 ≥ maxRetries then .returned econnaborted s
    else .running { s with phase := .connecting (retryCount + 1) slot }
  match netRecvfrom h (s.recvBuf.head slot) input with
  | (.netError,_) => .returned econnaborted s
  | (.netDrop,pkt) => retry { s with recvBuf := s.recvBuf.put slot pkt }
  | (.netOk,pkt) =>
    let s := { s with recvBuf := s.recvBuf.put slot pkt }
    if pkt.seq ≠ initialSeqnum then retry s
    else if linked then connected h slot s
    else .returned econnaborted s

def linger (retry : Nat) (event : Event) (s : Receiver) : Config Halt Receiver :=
  match event with
  | .failed => if retry < maxLingerRetry then .returned econnaborted s else .returned 0 s
  | .ready _ _ =>
    if retry < maxLingerRetry then
      match sendAck h s with
      | .ret s => .running { s with phase := .lingering (retry + 1) }
      | .err s => .returned econnaborted s
      | .halt reason s => .halted reason s
    else .returned 0 s
  | _ => .returned 0 s

/-- receive goes from one waiting system call to the next. -/
def next (c : Config Halt Receiver) (event : Event) : Option (Config Halt Receiver) :=
  match c with
  | .running s =>
    match s.phase,event with
    | .connecting retryCount slot,.datagram input linked => some (waitAndConnect h retryCount slot input linked s)
    | .connecting _ _,_ => none
    | _,.datagram _ _ => none
    | .receiving,.ready socket file => some (afterTurn (turn h socket file s))
    | .receiving,_ => some (.returned econnaborted s)
    | .lingering retry,event => some (linger h retry event s)
  | _ => none

def Step (c : Config Halt Receiver) (event : Event) (d : Config Halt Receiver) : Prop := next h c event = some d

/-- receive called with a new buffer, up to the first receive. -/
def Start (maxWindow : UInt32) (c : Config Halt Receiver) : Prop :=
  ∃ new slot buf, pktbufNew recvCapacity true = .ok (some new) ∧ pktbufEnqueue h new = .ok (slot,buf) ∧
    c = .running (start maxWindow buf slot)

end Trtp.Receive
