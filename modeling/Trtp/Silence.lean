import Trtp.Retransmission

/-! A peer that is not heard any more.
Each time the timer expires the whole window is sent again; with the sixth expiry in
a row the transfer is given up. -/
namespace Trtp.Silence
open Lib.Circular Lib.Run Lib.Serial Packet Process Buffer Net Transmit SendBuffer SenderRuns Retransmission

/-- What one round of the retransmission loop puts on the wire, the oldest packet first. -/
def window (s : Sender) : List Sending :=
  (List.range s.outstanding).map (fun i => s.sending (s.sendBuf.slot i) s.outstanding)

/-- The sender after `rounds` expiries of the timer with nothing in between. -/
def Sender.waited (s : Sender) (rounds : Nat) : Sender :=
  { s with
    retryCount := s.retryCount + rounds
    dupAck := if rounds = 0 then s.dupAck else 0
    writes := s.writes + rounds * s.outstanding
    wire := s.wire ++ (List.replicate rounds (window s)).flatten }

variable {h : Host} {crc32 : List UInt8 → UInt32} {s t : Sender}

def Sender.retried (count : Nat) (s : Sender) : Sender := { s with retryCount := count }

theorem sendPlace_retried (count : Nat) (place : UInt32) (outstanding : Nat) :
    sendPlace h (Sender.retried count s) place outstanding = (sendPlace h s place outstanding).map
      (Sender.retried count) := by
  have writes : (Sender.retried count s).writes = s.writes := rfl
  rw [sendPlace_eq,sendPlace_eq,writes]
  split <;> rfl

theorem readFile_commutes (h : Host) (file : Option ReadResult) (count : Nat) :
    Outcome.Commutes (Sender.retried count) (readFile h file) := by
  intro s
  have polled : (Sender.retried count s).pfdsCount = s.pfdsCount := rfl
  have buffer : (Sender.retried count s).sendBuf = s.sendBuf := rfl
  rw [readFile,readFile,polled]
  cases (if s.pfdsCount = 2 then file else none) with
  | none => rfl
  | some result =>
    simp only [handleInputRead,buffer]
    cases pktbufEnqueue h s.sendBuf with
    | error reason => rfl
    | ok slot => cases result <;> rfl

theorem sendLoop_commutes (h : Host) (fuel count : Nat) :
    Outcome.Commutes (Sender.retried count) (sendLoop h fuel) := by
  induction fuel with
  | zero => exact fun _ => rfl
  | succ fuel ih =>
    intro s
    have sendable : canSend (Sender.retried count s) = canSend s := rfl
    have sent : (Sender.retried count s).lastSent = s.lastSent := rfl
    have read : (Sender.retried count s).lastChunkRead = s.lastChunkRead := rfl
    have buffer : (Sender.retried count s).sendBuf = s.sendBuf := rfl
    rw [sendLoop,sendLoop,sendable,sent,read]
    split
    next =>
      simp only [buffer]
      cases pktbufSlotforSeq h s.sendBuf (s.lastSent + 1) with
      | error reason => rfl
      | ok slot =>
        obtain ⟨place,buf⟩ := slot
        let released (s : Sender) : Sender := { s with lastSent := s.lastSent + 1, sent := s.sent + 1, sendBuf := buf }
        have sending : Outcome.Commutes (Sender.retried count) (fun t => sendPlace h t place s.outstanding) :=
          fun t => sendPlace_retried count place s.outstanding
        exact sending.andThen ih (released s)
    next => rfl

/-- The part of a turn behind the socket. -/
def rest (h : Host) (file : Option ReadResult) (s : Sender) : Outcome Halt Sender :=
  ((readFile h file s).andThen (doSendSbuf h)).andThen fun t => .ret (choosePolled t)

theorem rest_commutes (h : Host) (file : Option ReadResult) (count : Nat) :
    Outcome.Commutes (Sender.retried count) (rest h file) :=
  ((readFile_commutes h file count).andThen (sendLoop_commutes h 256 count)).andThen (fun _ => rfl)

theorem turn_ready (stale : Pkt) (socket : Option Recv) (file : Option ReadResult) (fuel : Nat) :
    turn h fuel s (.ready stale socket file) = some ((readSocket h stale socket s).andThen (rest h file)) := by
  rw [turn,Outcome.andThen_assoc,Outcome.andThen_assoc]
  exact congrArg (fun later => some ((readSocket h stale socket s).andThen later))
    (funext fun t => (Outcome.andThen_assoc (readFile h file t) (doSendSbuf h) _).symm)

theorem resend_retried (fuel count : Nat) (sseq : UInt8) : resend h fuel sseq (Sender.retried count s) =
    (resend h fuel sseq s).map (Outcome.map (Sender.retried count)) := by
  induction fuel generalizing sseq s with
  | zero => rfl
  | succ fuel ih =>
    have sent : (Sender.retried count s).lastSent = s.lastSent := rfl
    have buffer : (Sender.retried count s).sendBuf = s.sendBuf := rfl
    rw [resend,resend,sent,buffer]
    split
    next => rfl
    next =>
      cases pktbufSlotforSeq h s.sendBuf sseq with
      | error reason => rfl
      | ok slot =>
        obtain ⟨place,buf⟩ := slot
        have sending := @sendPlace_retried h { s with sendBuf := buf } count place s.outstanding
        dsimp only at sending ⊢
        erw [sending]
        cases sendPlace h { s with sendBuf := buf } place s.outstanding with
        | ret t => exact ih (sseq + 1)
        | err t => rfl
        | halt reason t => rfl

theorem resend_retries (fuel : Nat) (sseq : UInt8) (ended : resend h fuel sseq s = some (.ret t)) :
    t.retryCount = s.retryCount := by
  have same := @resend_retried h s fuel s.retryCount sseq
  have fixed : Sender.retried s.retryCount s = s := rfl
  rw [fixed,ended] at same
  have kept : t = Sender.retried s.retryCount t := Outcome.ret.inj (Option.some.inj same)
  exact congrArg (fun u => u.retryCount) kept

end Trtp.Silence
