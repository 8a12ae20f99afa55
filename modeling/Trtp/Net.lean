import Trtp.Process
import Trtp.Packet

/-! The socket of net.c: one datagram received into a packet or sent from one.
A datagram longer than the struct is cut by recvfrom. -/
namespace Trtp.Net
open Packet Process

inductive NetStatus where
  | netOk | netError | netDrop
  deriving DecidableEq, Repr

/-- What recvfrom finds on the socket. -/
inductive Recv where
  | error
  | datagram (data : List UInt8)
  deriving DecidableEq, Repr

def netRecvfrom (h : Host) (rbuf : Pkt) : Recv → NetStatus × Pkt
  | .error => (.netError,rbuf)
  | .datagram data =>
    let received := data.take 528
    match pktDecodeInline h.crc32 (rbuf.overwrite received) received.length with
    | (.pktOk,pkt) => (.netOk,pkt)
    | (_,pkt) => (.netDrop,pkt)

def netRecvPkt (h : Host) (rbuf : Pkt) (expectedSeq winSize : UInt8) (input : Recv) : NetStatus × Pkt :=
  match netRecvfrom h rbuf input with
  | (.netOk,pkt) => if pkt.seq - expectedSeq > winSize then (.netDrop,pkt) else (.netOk,pkt)
  | failed => failed

/-- The status of the `writes`-th write to the socket. -/
def netSend (h : Host) (writes : Nat) : NetStatus := if h.sendOk writes then .netOk else .netError

theorem netRecvfrom_datagram (h : Host) (stale : Pkt) (data : List UInt8) :
    let decoded := pktDecodeInline h.crc32 (stale.overwrite (data.take 528)) (data.take 528).length
    netRecvfrom h stale (.datagram data) = (if decoded.1 = .pktOk then .netOk else .netDrop,decoded.2) := by
  dsimp only
  rw [netRecvfrom]
  generalize pktDecodeInline h.crc32 (stale.overwrite (data.take 528)) (data.take 528).length = decoded
  obtain ⟨status,pkt⟩ := decoded
  cases status <;> rfl

theorem netRecvPkt_eq (h : Host) (stale : Pkt) (expectedSeq win : UInt8) (input : Recv) :
    netRecvPkt h stale expectedSeq win input = if (netRecvfrom h stale input).1 = .netOk ∧
        (netRecvfrom h stale input).2.seq - expectedSeq > win then (.netDrop,(netRecvfrom h stale input).2)
      else netRecvfrom h stale input := by
  unfold netRecvPkt
  generalize netRecvfrom h stale input = received
  obtain ⟨status,pkt⟩ := received
  cases status <;> simp

theorem netRecvPkt_ok {h : Host} {rbuf pkt : Pkt} {expectedSeq winSize : UInt8} {input : Recv}
    (accepted : netRecvPkt h rbuf expectedSeq winSize input = (.netOk,pkt)) :
    netRecvfrom h rbuf input = (.netOk,pkt) ∧ (pkt.seq - expectedSeq).toNat ≤ winSize.toNat := by
  rw [netRecvPkt_eq] at accepted
  split at accepted
  next => simp at accepted
  next inside =>
    rw [accepted] at inside
    exact ⟨accepted,UInt8.le_iff_toNat_le.mp (UInt8.not_lt.mp (fun beyond => inside ⟨rfl,beyond⟩))⟩

end Trtp.Net
