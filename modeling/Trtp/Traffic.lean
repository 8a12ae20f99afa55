import Trtp.PairFlow
import Trtp.FastRetransmit

/-! How much the sender writes to the socket.
Each chunk is sent once; whatever else is on the wire was caused by a NACK, by the
third of three repeated acknowledgements or by the timer. -/
namespace Trtp.Traffic
open Lib.Circular Lib.Run Lib.Serial Packet Process Buffer Net Transmit SendBuffer SenderRuns FastRetransmit PairFlow

/-- The socket holds a NACK that is let through. -/
def refuses (h : Host) (s : Sender) (stale : Pkt) (input : Recv) : Bool :=
  match netRecvPkt h stale s.lastAck (s.lastSent - s.lastAck + 1) input with
  | (.netOk,pkt) => pkt.type == ptypeNack
  | _ => false

/-- What a run has given the sender cause to send again: NACKs, acknowledgements that
repeat `last_ack`, and the packets outstanding when the timer expired. -/
structure Causes where
  nacks : Nat
  repeated : Nat
  expired : Nat

def Causes.count (h : Host) (s : Sender) (causes : Causes) : Event → Causes
  | .failed => causes
  | .timeout => { causes with expired := causes.expired + s.outstanding }
  | .ready _ none _ => causes
  | .ready stale (some input) _ => { causes with
      nacks := causes.nacks + (refuses h s stale input).toNat
      repeated := causes.repeated + (repeats h s stale input).toNat }

/-- Every datagram beyond the first sendings is paid for; three repetitions pay for one. -/
structure Paid (s : Sender) (causes : Causes) : Prop where
  few : s.dupAck.toNat ≤ 2
  least : s.sent ≤ s.wire.length
  most : 3 * s.wire.length + s.dupAck.toNat ≤ 3 * (s.sent + causes.nacks + causes.expired) + causes.repeated

variable {h : Host} {s t : Sender} {causes : Causes}

theorem Paid.silent (paid : Paid s causes) (wire : t.wire = s.wire) (sent : t.sent = s.sent)
    (dupAck : t.dupAck = s.dupAck) :
    Paid t causes := by
  refine ⟨?_,?_,?_⟩
  · rw [dupAck]
    exact paid.few
  · rw [wire,sent]
    exact paid.least
  · rw [wire,sent,dupAck]
    exact paid.most

theorem Paid.first (paid : Paid s causes) (sending : Sending) : Paid ((Sender.released s).recorded sending) causes := by
  have least := paid.least
  have most := paid.most
  have wire : ((Sender.released s).recorded sending).wire.length = s.wire.length + 1 :=
    List.length_append.trans (congrArg (s.wire.length + ·) List.length_singleton)
  refine ⟨paid.few,?_,?_⟩
  · rw [wire]
    exact Nat.succ_le_succ least
  · rw [wire]
    change _ + s.dupAck.toNat ≤ 3 * (s.sent + 1 + causes.nacks + causes.expired) + causes.repeated
    omega

end Trtp.Traffic
