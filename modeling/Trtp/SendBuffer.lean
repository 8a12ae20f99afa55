import Trtp.Transmit
import Trtp.Codec

/-! The send buffer from one turn of the poll loop to the next.
Three absolute counts say everything about it: the chunks acknowledged, the
chunks sent and the chunks read. Places that were given up keep the packet they
held until the ring comes round again, and process_nack looks at those as well. -/
namespace Trtp.SendBuffer
open Lib.Bytes Lib.Circular Lib.Run Lib.Serial Packet Process Buffer Net Transmit

def chunkPkt (c : Nat) (bytes : Chunk) : Pkt :=
  { Pkt.zero with
    type := ptypeData, seq := serial c, length := UInt16.ofNat bytes.val.length
    ts := pktTimestamp, tail := blit Pkt.zero.tail 0 bytes.val }

def chunkDatagram (crc32 : List UInt8 → UInt32) (c : Nat) (bytes : Chunk) : List UInt8 :=
  Codec.image crc32 (chunkPkt c bytes)

structure Stored (crc32 : List UInt8 → UInt32) (head : UInt32 → Pkt) (chunkAt : UInt32 → Option Nat)
    (place : UInt32) (c : Nat) (bytes : Chunk) : Prop where
  seq : (head place).seq = serial c
  datagram : (head place).datagram = chunkDatagram crc32 c bytes
  number : chunkAt place = some c

/-- What holds of the sender whenever none of its handlers is at work. -/
structure Valid (crc32 : List UInt8 → UInt32) (s : Sender) : Prop where
  ackedSent : s.acked ≤ s.sent
  sentRead : s.sent ≤ s.input.length
  lastAck : s.lastAck = serial s.acked
  lastSent : s.lastSent + 1 = serial s.sent
  lastChunkRead : s.lastChunkRead + 1 = serial s.input.length
  first : s.sendBuf.first = UInt32.ofNat s.acked
  last : s.sendBuf.last = UInt32.ofNat s.input.length
  fits : s.input.length ≤ s.acked + s.sendBuf.capacity.toNat
  window : s.lastWin.toNat ≤ maxWindowSize
  inflight : s.sent ≤ s.acked + maxWindowSize
  stored : ∀ c bytes, s.input[c]? = some bytes → s.input.length ≤ c + s.sendBuf.capacity.toNat →
    Stored crc32 s.sendBuf.head s.chunkAt (s.sendBuf.mask (UInt32.ofNat c)) c bytes
  clear : ∀ i, (s.sendBuf.head i).tr = false
  lastRead : s.lastInRead = (s.input.getLast?.map (fun bytes => (bytes.val.length : Int))).getD (-1)
  nonempty : ∀ c bytes, c + 1 < s.input.length → s.input[c]? = some bytes → bytes.val ≠ []

def Polls (s : Sender) : Prop :=
  s.pfdsCount = 2 → s.lastInRead ≠ 0 ∧ s.sendBuf.size < s.sendBuf.capacity.toNat

theorem chunkPkt_length (c : Nat) (bytes : Chunk) : (chunkPkt c bytes).length.toNat = bytes.val.length := by
  have bound := bytes.property
  unfold maxPayloadSize at bound
  simp only [chunkPkt,UInt16.toNat_ofNat']
  omega

theorem payload_filled (tail : Block 516) (bytes : Chunk) :
    slice (blit tail 0 bytes.val) 0 bytes.val.length = bytes.val := by
  have bound := bytes.property
  unfold maxPayloadSize at bound
  exact slice_blit tail 0 bytes.val (by omega)

theorem chunkPkt_payload (c : Nat) (bytes : Chunk) :
    (chunkPkt c bytes).payload (chunkPkt c bytes).length.toNat = bytes.val := by
  rw [chunkPkt_length]
  exact payload_filled _ bytes

theorem chunkPkt_encodable (c : Nat) (bytes : Chunk) : Codec.Encodable (chunkPkt c bytes) where
  type := rfl
  length := by rw [chunkPkt_length]; exact bytes.property
  payload _ := ⟨rfl,rfl⟩
  truncated clear := rfl

variable {h : Host} {crc32 : List UInt8 → UInt32} {s : Sender}

namespace Valid

theorem size (valid : Valid crc32 s) : s.sendBuf.size = s.input.length - s.acked := by
  have bound := s.sendBuf.capacity_le
  have ordered := valid.ackedSent
  have read := valid.sentRead
  have fits := valid.fits
  exact s.sendBuf.size_of_indices valid.first valid.last (by omega) (by omega)

theorem empty_iff (valid : Valid crc32 s) : pktbufEmpty s.sendBuf = true ↔ s.acked = s.input.length := by
  have ordered := valid.ackedSent
  have read := valid.sentRead
  rw [pktbufEmpty_iff,valid.size]
  omega

theorem live (valid : Valid crc32 s) {c : Nat} {bytes : Chunk} (known : s.input[c]? = some bytes)
    (unacked : s.acked ≤ c) : Stored crc32 s.sendBuf.head s.chunkAt (s.sendBuf.slot (c - s.acked)) c bytes := by
  have fits := valid.fits
  have place : s.sendBuf.slot (c - s.acked) = s.sendBuf.mask (UInt32.ofNat c) := by
    rw [s.sendBuf.slot_eq_mask valid.first,Nat.add_sub_cancel' unacked]
  rw [place]
  exact valid.stored c bytes known (by omega)

theorem aligned (valid : Valid crc32 s) : Aligned s.sendBuf s.acked := by
  have fits := valid.fits
  refine ⟨by rw [valid.size]; omega,?_⟩
  intro i inside
  rw [valid.size] at inside
  obtain ⟨bytes,known⟩ : ∃ bytes, s.input[s.acked + i]? = some bytes :=
    ⟨s.input[s.acked + i],List.getElem?_eq_getElem (by omega)⟩
  have stored := valid.live known (by omega)
  rw [Nat.add_sub_cancel_left] at stored
  exact stored.seq

theorem win (valid : Valid crc32 s) : (s.lastSent - s.lastAck + 1).toNat = s.outstanding := by
  have ordered := valid.ackedSent
  have inflight := valid.inflight
  unfold maxWindowSize at inflight
  have shifted : s.lastSent - s.lastAck + 1 = s.lastSent + 1 - s.lastAck := by grind
  rw [shifted,valid.lastSent,valid.lastAck,serial_sub ordered (by omega)]
  rfl

theorem pending (valid : Valid crc32 s) : (s.lastSent + 1 - s.lastAck).toNat = s.outstanding := by
  rw [← valid.win]
  congr 1
  grind

theorem slotforSeq (valid : Valid crc32 s) {c : Nat} (unacked : s.acked ≤ c) (read : c < s.input.length)
    (close : c < s.acked + 256) :
    pktbufSlotforSeq h s.sendBuf (serial c) = .ok (s.sendBuf.slot (c - s.acked),s.sendBuf) := by
  have inside : c - s.acked < s.sendBuf.size := by rw [valid.size]; omega
  have found := slotforSeq_live h valid.aligned inside (by omega)
  rwa [Nat.add_sub_cancel' unacked] at found

end Valid

theorem sendPlace_eq (place : UInt32) (outstanding : Nat) : sendPlace h s place outstanding =
    if h.sendOk s.writes then .ret (s.recorded (s.sending place outstanding)) else .err s.tried := by
  rw [sendPlace,netSend]
  cases h.sendOk s.writes <;> rfl

theorem sendPlace_ret {place : UInt32} {outstanding : Nat} {t : Sender}
    (ended : sendPlace h s place outstanding = .ret t) : t = s.recorded (s.sending place outstanding) := by
  rw [sendPlace_eq] at ended
  split at ended
  next => exact (Outcome.ret.inj ended).symm
  next => contradiction

theorem sendPlace_not_halt (place : UInt32) (outstanding : Nat) (reason : Halt) (t : Sender) :
    sendPlace h s place outstanding ≠ .halt reason t := by
  rw [sendPlace_eq]
  split <;> simp

/-- The sender without the variables that have no part in its buffer. -/
def Sender.core (s : Sender) : Sender :=
  { s with dupAck := 0, retryCount := 0, pfdsCount := 0, writes := 0, wire := [] }

theorem Valid.frame (valid : Valid crc32 s) {t : Sender} (same : Sender.core t = Sender.core s) :
    Valid crc32 t := by
  have base : Valid crc32 (Sender.core s) := ⟨valid.1,valid.2,valid.3,valid.4,valid.5,valid.6,valid.7,
    valid.8,valid.9,valid.10,valid.11,valid.12,valid.13,valid.14⟩
  rw [← same] at base
  exact ⟨base.1,base.2,base.3,base.4,base.5,base.6,base.7,base.8,base.9,base.10,base.11,base.12,base.13,base.14⟩

def Sender.advanced (s : Sender) (k : Nat) : Sender :=
  { s with
    sendBuf := s.sendBuf.drop k, lastAck := s.lastAck + UInt8.ofNat k, acked := s.acked + k }

theorem ackLoop_eq (fuel k : Nat) (enough : k < fuel) (small : k < 256) (inside : k ≤ s.sendBuf.size) :
    ackLoop h (s.lastAck + UInt8.ofNat k) fuel s = .ret (Sender.advanced s k) := by
  induction fuel generalizing k s with
  | zero => omega
  | succ fuel ih =>
    unfold ackLoop
    cases k with
    | zero => simp [Sender.advanced]
    | succ k =>
      have moving : s.lastAck ≠ s.lastAck + UInt8.ofNat (k + 1) := by
        intro same
        have still : UInt8.ofNat (k + 1) = 0 := by grind
        have zero := congrArg UInt8.toNat still
        rw [UInt8.toNat_ofNat'] at zero
        simp at zero
        omega
      have next : s.lastAck + UInt8.ofNat (k + 1) = s.lastAck + 1 + UInt8.ofNat k := by
        rw [UInt8.ofNat_add]
        grind
      have size := s.sendBuf.size_pop (by omega)
      rw [if_neg moving,pktbufDequeue_live h (by omega : 0 < s.sendBuf.size),Outcome.call_ok,next]
      let popped : Sender := { s with
        sendBuf := s.sendBuf.pop, lastAck := s.lastAck + 1, acked := s.acked + 1 }
      have rest := @ih popped k (by omega) (by omega) (by change k ≤ s.sendBuf.pop.size; omega)
      refine rest.trans ?_
      simp only [Sender.advanced,popped,CircularArray.pop_drop,next,Nat.add_assoc,Nat.add_comm 1 k]

theorem processAck_eq {ack : UInt8} (inside : (ack - s.lastAck).toNat ≤ s.sendBuf.size) :
    processAck h ack s = .ret { Sender.advanced s (ack - s.lastAck).toNat with dupAck := 0 } := by
  have bound := (ack - s.lastAck).toNat_lt
  have loop := @ackLoop_eq h s 256 (ack - s.lastAck).toNat bound bound inside
  have target : s.lastAck + UInt8.ofNat (ack - s.lastAck).toNat = ack := by
    rw [UInt8.ofNat_toNat]
    grind
  rw [target] at loop
  rw [processAck,loop]
  rfl

theorem Valid.advanced (valid : Valid crc32 s) {k : Nat} (inside : s.acked + k ≤ s.sent) :
    Valid crc32 (Sender.advanced s k) := by
  have fits := valid.fits
  have inflight := valid.inflight
  refine ⟨inside,valid.sentRead,?_,valid.lastSent,valid.lastChunkRead,?_,valid.last,?_,valid.window,?_,
    valid.stored,valid.clear,valid.lastRead,valid.nonempty⟩
  · simp only [Sender.advanced,valid.lastAck,serial,UInt8.ofNat_add]
  · simp only [Sender.advanced,CircularArray.drop_first,valid.first,UInt32.ofNat_add]
  · simp only [Sender.advanced,CircularArray.drop_capacity]
    omega
  · simp only [Sender.advanced]
    omega

/-- The place process_nack chooses: the first index below the number of packets
in use whose packet has the wanted number. -/
def nackPlace (nack : UInt8) (buf : Pktbuf) : Option UInt32 :=
  ((List.range buf.size).find? (fun i => (buf.head (UInt32.ofNat i)).seq == nack)).map UInt32.ofNat

theorem Valid.filled (valid : Valid crc32 s) {j : Nat} (inside : j < s.sendBuf.size) :
    ∃ c bytes, s.input[c]? = some bytes ∧ c % s.sendBuf.capacity.toNat = j ∧
      Stored crc32 s.sendBuf.head s.chunkAt (UInt32.ofNat j) c bytes := by
  have positive := s.sendBuf.capacity_pos
  have small := s.sendBuf.capacity_le
  have fits := valid.fits
  rw [valid.size] at inside
  have turns := Nat.div_add_mod (s.input.length - 1 - j) s.sendBuf.capacity.toNat
  have rest := Nat.mod_lt (s.input.length - 1 - j) positive
  let c := j + s.sendBuf.capacity.toNat * ((s.input.length - 1 - j) / s.sendBuf.capacity.toNat)
  have read : c < s.input.length := by omega
  have recent : s.input.length ≤ c + s.sendBuf.capacity.toNat := by omega
  have residue : c % s.sendBuf.capacity.toNat = j := by
    rw [Nat.add_mul_mod_self_left,Nat.mod_eq_of_lt (by omega)]
  have place : s.sendBuf.mask (UInt32.ofNat c) = UInt32.ofNat j := by
    apply UInt32.toNat_inj.mp
    rw [CircularArray.mask_ofNat,residue,UInt32.toNat_ofNat',Nat.mod_eq_of_lt (by omega)]
  have stored := valid.stored c s.input[c] (List.getElem?_eq_getElem read) recent
  rw [place] at stored
  exact ⟨c,s.input[c],List.getElem?_eq_getElem read,residue,stored⟩

theorem nackScan_eq (nack : UInt8) (i count : Nat) (bound : i + count ≤ s.sendBuf.size)
    (fits : s.sendBuf.size ≤ s.sendBuf.capacity.toNat) :
    nackScan h nack i count s =
      match (List.range' i count).find? (fun i => (s.sendBuf.head (UInt32.ofNat i)).seq == nack) with
      | none => .ret s
      | some i => sendPlace h s (UInt32.ofNat i) s.outstanding := by
  induction count generalizing i with
  | zero => rfl
  | succ count ih =>
    have small := s.sendBuf.capacity_le
    have inside : UInt32.ofNat i < s.sendBuf.used := by
      rw [UInt32.lt_iff_toNat_lt,UInt32.toNat_ofNat',Nat.mod_eq_of_lt (by omega)]
      exact (by omega : i < s.sendBuf.size)
    unfold nackScan
    rw [pktbufAt_live inside fits,Outcome.call_ok,List.range'_succ,List.find?_cons]
    by_cases found : (s.sendBuf.head (UInt32.ofNat i)).seq = nack
    · rw [if_pos found,beq_iff_eq.mpr found]
    · rw [if_neg found,beq_eq_false_iff_ne.mpr found]
      exact ih (i + 1) (by omega)

theorem processNack_eq (nack : UInt8) (fits : s.sendBuf.size ≤ s.sendBuf.capacity.toNat) :
    processNack h nack s =
      match nackPlace nack s.sendBuf with
      | none => .ret s
      | some place => sendPlace h s place s.outstanding := by
  have scan := @nackScan_eq h s nack 0 s.sendBuf.size (by omega) fits
  rw [← List.range_eq_range'] at scan
  refine scan.trans ?_
  rw [nackPlace]
  cases (List.range s.sendBuf.size).find? (fun i => (s.sendBuf.head (UInt32.ofNat i)).seq == nack) <;> rfl

def Sender.heard (s : Sender) (pkt : Pkt) : Sender := { s with lastWin := UInt8.ofNat pkt.window.toNat }

theorem Valid.heard (valid : Valid crc32 s) (pkt : Pkt) : Valid crc32 (Sender.heard s pkt) := by
  have bound : (UInt8.ofNat pkt.window.toNat).toNat ≤ maxWindowSize := by
    have small := pkt.window.isLt
    rw [UInt8.toNat_ofNat']
    unfold maxWindowSize
    omega
  exact ⟨valid.1,valid.2,valid.3,valid.4,valid.5,valid.6,valid.7,valid.8,bound,valid.10,valid.11,
    valid.12,valid.13,valid.14⟩

/-- All that can come of a packet that net_recv_pkt let through. -/
inductive Response (h : Host) (s : Sender) (pkt : Pkt) : Outcome Halt Sender → Prop
  | ignored (other : pkt.type ≠ ptypeAck ∧ pkt.type ≠ ptypeNack) : Response h s pkt (.ret s)
  | notFound (nack : pkt.type = ptypeNack) (absent : nackPlace pkt.seq s.sendBuf = none) :
      Response h s pkt (.ret (Sender.heard s pkt))
  | resent (nack : pkt.type = ptypeNack) (place : UInt32)
      (found : nackPlace pkt.seq s.sendBuf = some place) :
      Response h s pkt (sendPlace h (Sender.heard s pkt) place s.outstanding)
  | repeated (ack : pkt.type = ptypeAck) (same : pkt.seq = s.lastAck) (few : s.dupAck + 1 ≠ maxDupAck) :
      Response h s pkt (.ret { Sender.heard s pkt with dupAck := s.dupAck + 1 })
  | nothing (ack : pkt.type = ptypeAck) (same : pkt.seq = s.lastAck) (third : s.dupAck + 1 = maxDupAck)
      (empty : s.sendBuf.size = 0) :
      Response h s pkt (.halt .segv { Sender.heard s pkt with dupAck := 0 })
  | fast (ack : pkt.type = ptypeAck) (same : pkt.seq = s.lastAck) (third : s.dupAck + 1 = maxDupAck)
      (live : 0 < s.sendBuf.size) :
      Response h s pkt
        (sendPlace h { Sender.heard s pkt with dupAck := 0 } (s.sendBuf.slot 0) s.outstanding)
  | acked (ack : pkt.type = ptypeAck) (moved : pkt.seq ≠ s.lastAck) :
      Response h s pkt
        (.ret { Sender.advanced (Sender.heard s pkt) (pkt.seq - s.lastAck).toNat with dupAck := 0 })

theorem processPkt_response (valid : Valid crc32 s) {pkt : Pkt}
    (inside : (pkt.seq - s.lastAck).toNat ≤ s.outstanding) : Response h s pkt (processPkt h pkt s) := by
  have ordered := valid.ackedSent
  have read := valid.sentRead
  have fits := valid.aligned.fits
  have noted : (if s.lastWin ≠ UInt8.ofNat pkt.window.toNat then
      { s with lastWin := UInt8.ofNat pkt.window.toNat } else s) = Sender.heard s pkt := by
    split
    next => rfl
    next same =>
      rw [not_not] at same
      rw [Sender.heard,← same]
  unfold processPkt
  split
  next other => exact .ignored other
  next known =>
    simp only [noted]
    by_cases nack : pkt.type = ptypeNack
    · have scan := @processNack_eq h (Sender.heard s pkt) pkt.seq fits
      rw [if_pos nack,scan]
      cases found : nackPlace pkt.seq s.sendBuf with
      | none =>
        have same : nackPlace pkt.seq (Sender.heard s pkt).sendBuf = none := found
        rw [same]
        exact .notFound nack found
      | some place =>
        have same : nackPlace pkt.seq (Sender.heard s pkt).sendBuf = some place := found
        rw [same]
        exact .resent nack place found
    · have ack : pkt.type = ptypeAck := by
        by_contra other
        exact known ⟨other,nack⟩
      have lastAck : (Sender.heard s pkt).lastAck = s.lastAck := rfl
      have dupAck : (Sender.heard s pkt).dupAck = s.dupAck := rfl
      rw [if_neg nack,lastAck]
      by_cases same : s.lastAck = pkt.seq
      · rw [if_pos same,processDupAck,dupAck]
        by_cases third : s.dupAck + 1 = maxDupAck
        · rw [if_pos third]
          rcases Nat.eq_zero_or_pos s.sendBuf.size with empty | live
          · have first : pktbufFirst (Sender.heard s pkt).sendBuf = none := pktbufFirst_empty empty
            simp only [first]
            exact .nothing ack same.symm third empty
          · have first : pktbufFirst (Sender.heard s pkt).sendBuf = some (s.sendBuf.slot 0) :=
              pktbufFirst_live live
            simp only [first]
            exact .fast ack same.symm third live
        · rw [if_neg third]
          exact .repeated ack same.symm third
      · have bound : (pkt.seq - (Sender.heard s pkt).lastAck).toNat ≤ (Sender.heard s pkt).sendBuf.size := by
          change (pkt.seq - s.lastAck).toNat ≤ s.sendBuf.size
          rw [valid.size]
          unfold Sender.outstanding at inside
          omega
        rw [if_neg same,processAck_eq bound]
        exact .acked ack (fun equal => same equal.symm)

def queuedPkt (crc32 : List UInt8 → UInt32) (old : Pkt) (seq : UInt8) (bytes : Chunk) : Pkt :=
  (pktEncodeInline crc32 { old with
    type := ptypeData, window := 0, seq := seq, ts := pktTimestamp
    tail := blit old.tail 0 bytes.val, length := UInt16.ofNat bytes.val.length }).2

def Sender.queued (crc32 : List UInt8 → UInt32) (s : Sender) (bytes : Chunk) : Sender :=
  let place := s.sendBuf.slot s.sendBuf.size
  { s with
    sendBuf := s.sendBuf.push.put place
      (queuedPkt crc32 (s.sendBuf.head place) (s.lastChunkRead + 1) bytes)
    lastChunkRead := s.lastChunkRead + 1
    lastInRead := bytes.val.length
    input := s.input ++ [bytes]
    chunkAt := fun i => if i = place then some s.input.length else s.chunkAt i }

theorem handleInputRead_data (bytes : Chunk) (room : s.sendBuf.size < s.sendBuf.capacity.toNat) :
    handleInputRead h (.data bytes) s = .ret (Sender.queued h.crc32 s bytes) := by
  simp only [handleInputRead,pktbufEnqueue_room h room,Outcome.call_ok]
  rfl

theorem queuedPkt_stored (old : Pkt) (clear : old.tr = false) (c : Nat) (bytes : Chunk) :
    (queuedPkt crc32 old (serial c) bytes).seq = serial c ∧
      (queuedPkt crc32 old (serial c) bytes).tr = false ∧
      (queuedPkt crc32 old (serial c) bytes).datagram = chunkDatagram crc32 c bytes := by
  let filled : Pkt := { old with
    type := ptypeData, window := 0, seq := serial c, ts := pktTimestamp
    tail := blit old.tail 0 bytes.val, length := UInt16.ofNat bytes.val.length }
  have length : filled.length.toNat = bytes.val.length := chunkPkt_length c bytes
  have fields := Codec.pktEncodeInline_eq crc32 filled
  have agrees : Codec.Agrees filled (chunkPkt c bytes) := by
    refine ⟨rfl,clear,rfl,rfl,rfl,rfl,?_⟩
    rw [length]
    exact (payload_filled old.tail bytes).trans (payload_filled _ bytes).symm
  refine ⟨congrArg (fun r => r.2.seq) fields,(congrArg (fun r => r.2.tr) fields).trans clear,?_⟩
  rw [chunkDatagram,← Codec.image_agrees crc32 agrees]
  exact Codec.datagram_encoded crc32 filled (by rw [length]; exact bytes.property)

theorem Valid.queued (valid : Valid crc32 s) (bytes : Chunk) (more : s.lastInRead ≠ 0)
    (room : s.sendBuf.size < s.sendBuf.capacity.toNat) : Valid crc32 (Sender.queued crc32 s bytes) := by
  have ordered := valid.ackedSent
  have read := valid.sentRead
  have fits := valid.fits
  have size := valid.size
  have place : s.sendBuf.slot s.sendBuf.size = s.sendBuf.mask (UInt32.ofNat s.input.length) := by
    rw [s.sendBuf.slot_eq_mask valid.first,size,Nat.add_sub_cancel' (by omega)]
  obtain ⟨seq,tr,datagram⟩ := @queuedPkt_stored crc32
    (s.sendBuf.head (s.sendBuf.slot s.sendBuf.size)) (valid.clear _) s.input.length bytes
  have chunkRead := valid.lastChunkRead
  refine ⟨ordered,?_,valid.lastAck,valid.lastSent,?_,valid.first,?_,?_,valid.window,valid.inflight,
    ?_,?_,?_,?_⟩
  · simp only [Sender.queued,List.length_append,List.length_singleton]
    omega
  · simp only [Sender.queued,List.length_append,List.length_singleton,chunkRead,serial_succ]
  · simp only [Sender.queued,CircularArray.put_last,CircularArray.push_last,valid.last,
      List.length_append,List.length_singleton,UInt32.ofNat_add]
    rfl
  · simp only [Sender.queued,List.length_append,List.length_singleton,CircularArray.put_capacity,
      CircularArray.push_capacity]
    omega
  · intro c other known recent
    simp only [Sender.queued,List.length_append,List.length_singleton,CircularArray.put_capacity,
      CircularArray.push_capacity] at known recent
    simp only [Sender.queued,CircularArray.put_mask,CircularArray.push_mask,place,chunkRead]
    rcases Nat.lt_or_ge c s.input.length with old | new
    · rw [List.getElem?_append_left old] at known
      have apart := s.sendBuf.mask_ne old (by omega)
      obtain ⟨oldSeq,oldDatagram,oldNumber⟩ := valid.stored c other known (by omega)
      exact ⟨by rw [CircularArray.put_head,if_neg apart]; exact oldSeq,
        by rw [CircularArray.put_head,if_neg apart]; exact oldDatagram,by rw [if_neg apart]; exact oldNumber⟩
    · have bound : c < s.input.length + 1 := by
        simpa using (List.getElem?_eq_some_iff.mp known).1
      obtain rfl : c = s.input.length := by omega
      obtain rfl : bytes = other := by simpa using known
      rw [← place]
      exact ⟨by rw [CircularArray.put_head_self]; exact seq,
        by rw [CircularArray.put_head_self]; exact datagram,if_pos rfl⟩
  · intro i
    simp only [Sender.queued,CircularArray.put_head,CircularArray.push_head,chunkRead]
    split
    next => exact tr
    next => exact valid.clear i
  · simp [Sender.queued]
  · intro c other before known
    simp only [Sender.queued,List.length_append,List.length_singleton] at before known
    rw [List.getElem?_append_left (by omega)] at known
    rcases Nat.lt_or_ge (c + 1) s.input.length with inner | final
    · exact valid.nonempty c other inner known
    · intro none
      have last : s.input.getLast? = some other := by
        rw [List.getLast?_eq_getElem?,← known]
        congr 1
        omega
      have lastRead := valid.lastRead
      rw [last,Option.map_some,Option.getD_some,none] at lastRead
      exact more lastRead

def Sender.released (s : Sender) : Sender := { s with lastSent := s.lastSent + 1, sent := s.sent + 1 }

theorem Valid.released (valid : Valid crc32 s) (left : s.sent < s.input.length)
    (allowed : s.outstanding < s.lastWin.toNat) : Valid crc32 (Sender.released s) := by
  have ordered := valid.ackedSent
  have window := valid.window
  unfold Sender.outstanding at allowed
  exact ⟨by simp only [Sender.released]; omega,left,valid.3,
    by simp only [Sender.released,valid.lastSent,serial_succ],valid.5,valid.6,valid.7,valid.8,valid.9,
    by simp only [Sender.released]; omega,valid.11,valid.12,valid.13,valid.14⟩

def Sender.firstSending (crc32 : List UInt8 → UInt32) (s : Sender) (bytes : Chunk) : Sending :=
  ⟨some s.sent,s.outstanding,s.lastWin,chunkDatagram crc32 s.sent bytes⟩

theorem canSend_iff (valid : Valid crc32 s) :
    canSend s = true ↔ s.acked < s.input.length ∧ s.outstanding < s.lastWin.toNat := by
  have ordered := valid.ackedSent
  have read := valid.sentRead
  have live : (!pktbufEmpty s.sendBuf) = true ↔ s.acked < s.input.length := by
    rw [Bool.not_eq_true',Bool.eq_false_iff,ne_eq,valid.empty_iff]
    omega
  rw [canSend,Bool.and_eq_true,live,decide_eq_true_eq,UInt8.lt_iff_toNat_lt,valid.pending]

theorem sendLoop_turn (valid : Valid crc32 s) (fuel : Nat)
    (going : s.lastSent ≠ s.lastChunkRead ∧ canSend s = true) :
    ∃ bytes, s.input[s.sent]? = some bytes ∧ s.outstanding < s.lastWin.toNat ∧
      sendLoop h (fuel + 1) s =
        (if h.sendOk s.writes then
          sendLoop h fuel ((Sender.released s).recorded (Sender.firstSending crc32 s bytes))
        else .err (Sender.released s).tried) := by
  obtain ⟨unread,sendable⟩ := going
  obtain ⟨_,allowed⟩ := (canSend_iff valid).mp sendable
  have read := valid.sentRead
  have ordered := valid.ackedSent
  have inflight := valid.inflight
  unfold maxWindowSize at inflight
  have left : s.sent < s.input.length := by
    rcases Nat.lt_or_ge s.sent s.input.length with below | above
    · exact below
    · have same : s.sent = s.input.length := by omega
      have counters : s.lastSent + 1 = s.lastChunkRead + 1 := by
        rw [valid.lastSent,valid.lastChunkRead,same]
      exact absurd (by grind) unread
  obtain ⟨bytes,known⟩ : ∃ bytes, s.input[s.sent]? = some bytes :=
    ⟨s.input[s.sent],List.getElem?_eq_getElem left⟩
  have next := valid.released left allowed
  have found : pktbufSlotforSeq h s.sendBuf (s.lastSent + 1) =
      .ok (s.sendBuf.slot (s.sent - s.acked),s.sendBuf) := by
    rw [valid.lastSent]
    exact valid.slotforSeq ordered left (by omega)
  obtain ⟨_,datagram,number⟩ := valid.live known ordered
  refine ⟨bytes,known,allowed,?_⟩
  have entry : (Sender.released s).sending (s.sendBuf.slot (s.sent - s.acked)) s.outstanding =
      Sender.firstSending crc32 s bytes := by
    simp only [Sender.sending,Sender.firstSending,Sender.released,datagram,number]
  have step := @sendPlace_eq h (Sender.released s) (s.sendBuf.slot (s.sent - s.acked)) s.outstanding
  rw [entry] at step
  rw [sendLoop,if_pos ⟨unread,sendable⟩]
  simp only [found,Outcome.call_ok]
  refine (congrArg (fun outcome => outcome.andThen (sendLoop h fuel)) step).trans ?_
  change Outcome.andThen (if h.sendOk s.writes = true then _ else _) (sendLoop h fuel) = _
  cases h.sendOk s.writes <;> rfl

variable {J bad : Sender → Prop}

/-- Rule for do_send_sbuf: what every first sending keeps holds when the loop ends. -/
theorem sendLoop_meets
    (kept : ∀ s bytes, Valid h.crc32 s → J s → s.input[s.sent]? = some bytes →
      s.outstanding < s.lastWin.toNat →
      J ((Sender.released s).recorded (Sender.firstSending h.crc32 s bytes)))
    (failed : ∀ s, Valid h.crc32 s → J s → s.outstanding < s.lastWin.toNat → bad (Sender.released s).tried)
    (fuel : Nat) (valid : Valid h.crc32 s) (before : J s) :
    (sendLoop h fuel s).Meets (fun t => Valid h.crc32 t ∧ J t) bad (fun _ _ => False) := by
  induction fuel generalizing s with
  | zero => exact ⟨valid,before⟩
  | succ fuel ih =>
    by_cases going : s.lastSent ≠ s.lastChunkRead ∧ canSend s = true
    · obtain ⟨bytes,known,allowed,turn⟩ := sendLoop_turn valid fuel going
      have left := (List.getElem?_eq_some_iff.mp known).1
      have next : Valid h.crc32 ((Sender.released s).recorded (Sender.firstSending h.crc32 s bytes)) :=
        (valid.released left allowed).frame rfl
      rw [turn]
      split
      next => exact ih next (kept s bytes valid before known allowed)
      next => exact failed s valid before allowed
    · rw [sendLoop,if_neg going]
      exact ⟨valid,before⟩

theorem sendLoop_done (fuel : Nat) (valid : Valid h.crc32 s) (enough : s.lastWin.toNat < s.outstanding + fuel)
    {t : Sender} (ended : sendLoop h fuel s = .ret t) : ¬ (t.lastSent ≠ t.lastChunkRead ∧ canSend t = true) := by
  induction fuel generalizing s with
  | zero =>
    obtain rfl := Outcome.ret.inj ended
    rintro ⟨_,sendable⟩
    have allowed := ((canSend_iff valid).mp sendable).2
    omega
  | succ fuel ih =>
    by_cases going : s.lastSent ≠ s.lastChunkRead ∧ canSend s = true
    · obtain ⟨bytes,known,allowed,turn⟩ := sendLoop_turn (h := h) valid fuel going
      have left := (List.getElem?_eq_some_iff.mp known).1
      have next : Valid h.crc32 ((Sender.released s).recorded (Sender.firstSending h.crc32 s bytes)) :=
        (valid.released left allowed).frame rfl
      rw [turn] at ended
      split at ended
      next =>
        have ordered := valid.ackedSent
        have more : ((Sender.released s).recorded (Sender.firstSending h.crc32 s bytes)).outstanding =
            s.outstanding + 1 := by
          change s.sent + 1 - s.acked = s.sent - s.acked + 1
          omega
        refine ih next ?_ ended
        rw [more]
        change s.lastWin.toNat < _
        omega
      next => contradiction
    · rw [sendLoop,if_neg going] at ended
      obtain rfl := Outcome.ret.inj ended
      exact going

def Sender.resending (crc32 : List UInt8 → UInt32) (s : Sender) (c : Nat) (bytes : Chunk) : Sending :=
  ⟨some c,s.outstanding,s.lastWin,chunkDatagram crc32 c bytes⟩

theorem Valid.sending (valid : Valid crc32 s) {c : Nat} {bytes : Chunk} (known : s.input[c]? = some bytes)
    (unacked : s.acked ≤ c) :
    s.sending (s.sendBuf.slot (c - s.acked)) s.outstanding = Sender.resending crc32 s c bytes := by
  obtain ⟨_,datagram,number⟩ := valid.live known unacked
  simp only [Sender.sending,Sender.resending,datagram,number]

def Sender.expired (s : Sender) : Sender := { s with retryCount := s.retryCount + 1 }

theorem handleRetransmission_eq (valid : Valid crc32 s) (fuel : Nat) : handleRetransmission h fuel s =
    if s.retryCount < maxRetransmission then resend h fuel (serial s.acked) (Sender.expired s)
    else some (.err (Sender.expired s)) := by
  rw [handleRetransmission,← valid.lastAck]
  by_cases few : s.retryCount < maxRetransmission
  · rw [if_pos few]
    exact if_neg (by simp only; omega)
  · rw [if_neg few]
    exact if_pos (by simp only; omega)

theorem resend_turn (valid : Valid crc32 s) {c : Nat} (unacked : s.acked ≤ c) (left : c < s.sent)
    (fuel : Nat) :
    ∃ bytes, s.input[c]? = some bytes ∧
      resend h (fuel + 1) (serial c) s =
        if h.sendOk s.writes then
          resend h fuel (serial (c + 1)) (s.recorded (Sender.resending crc32 s c bytes))
        else some (.err s.tried) := by
  have read := valid.sentRead
  have inflight := valid.inflight
  unfold maxWindowSize at inflight
  obtain ⟨bytes,known⟩ : ∃ bytes, s.input[c]? = some bytes :=
    ⟨s.input[c],List.getElem?_eq_getElem (by omega)⟩
  have going : ¬ ((serial c).toNat : Int) = s.lastSent.toNat + 1 := by
    intro stop
    have counter := congrArg UInt8.toNat valid.lastSent
    rw [UInt8.toNat_add,serial_toNat,UInt8.toNat_one] at counter
    rw [serial_toNat] at stop
    omega
  have step := @sendPlace_eq h s (s.sendBuf.slot (c - s.acked)) s.outstanding
  rw [valid.sending known unacked] at step
  refine ⟨bytes,known,?_⟩
  rw [resend,if_neg going,valid.slotforSeq unacked (by omega) (by omega)]
  simp only
  rw [step]
  cases h.sendOk s.writes
  · rfl
  · simp only [if_true,serial_succ]

theorem resend_stop (valid : Valid crc32 s) (last : s.lastSent ≠ 255) (fuel : Nat) :
    resend h (fuel + 1) (serial s.sent) s = some (.ret { s with dupAck := 0 }) := by
  have stop : ((serial s.sent).toNat : Int) = s.lastSent.toNat + 1 := by
    have small : s.lastSent.toNat ≠ 255 := by
      intro same
      exact last (UInt8.toNat_inj.mp same)
    have bound := s.lastSent.toNat_lt
    rw [← valid.lastSent,UInt8.toNat_add,UInt8.toNat_one]
    omega
  rw [resend,if_pos stop]

theorem resend_cases {fuel : Nat} {sseq : UInt8} {outcome : Outcome Halt Sender}
    (ended : resend h (fuel + 1) sseq s = some outcome) :
    ((sseq.toNat : Int) = s.lastSent.toNat + 1 ∧ outcome = .ret { s with dupAck := 0 }) ∨
    (∃ reason, outcome = .halt reason s) ∨
    ∃ buf, outcome = .err { s with sendBuf := buf }.tried ∨
      h.sendOk s.writes = true ∧
        ∃ sending, resend h fuel (sseq + 1) ({ s with sendBuf := buf }.recorded sending) = some outcome := by
  rw [resend] at ended
  split at ended
  next stop => exact Or.inl ⟨stop,(Option.some.inj ended).symm⟩
  next =>
    right
    split at ended
    next reason _ => exact Or.inl ⟨reason,(Option.some.inj ended).symm⟩
    next place buf _ =>
      right
      refine ⟨buf,?_⟩
      rw [sendPlace_eq] at ended
      cases accepted : h.sendOk s.writes
      · simp only [accepted] at ended
        exact Or.inl (Option.some.inj ended).symm
      · simp only [accepted] at ended
        exact Or.inr ⟨rfl,_,ended⟩

/-- An 8-bit counter never reaches 256: after packet 255 the loop cannot end normally. -/
theorem resend_unending (last : s.lastSent = 255) (fuel : Nat) (sseq : UInt8) (t : Sender) :
    resend h fuel sseq s ≠ some (.ret t) := by
  intro ended
  induction fuel generalizing sseq s with
  | zero => simp [resend] at ended
  | succ fuel ih =>
    rcases resend_cases ended with ⟨stop,_⟩ | ⟨_,halted⟩ | ⟨buf,failed | ⟨_,sending,rest⟩⟩
    · have bound := sseq.toNat_lt
      rw [last] at stop
      change (sseq.toNat : Int) = 256 at stop
      omega
    · simp at halted
    · simp at failed
    · refine ih ?_ (sseq + 1) rest
      exact last

theorem resend_counts (fuel : Nat) (sseq : UInt8) {outcome : Outcome Halt Sender}
    (ended : resend h fuel sseq s = some outcome) : outcome.state.acked = s.acked ∧
      outcome.state.sent = s.sent ∧ outcome.state.lastWin = s.lastWin ∧ outcome.state.input = s.input := by
  induction fuel generalizing sseq s with
  | zero => simp [resend] at ended
  | succ fuel ih =>
    rcases resend_cases ended with ⟨_,rfl⟩ | ⟨_,rfl⟩ | ⟨buf,rfl | ⟨_,sending,rest⟩⟩
    · exact ⟨rfl,rfl,rfl,rfl⟩
    · exact ⟨rfl,rfl,rfl,rfl⟩
    · exact ⟨rfl,rfl,rfl,rfl⟩
    · have same := ih (sseq + 1) rest
      exact same

theorem resend_wire (fuel : Nat) (sseq : UInt8) {outcome : Outcome Halt Sender}
    (ended : resend h fuel sseq s = some outcome) : s.wire <+: outcome.state.wire := by
  induction fuel generalizing sseq s with
  | zero => simp [resend] at ended
  | succ fuel ih =>
    rcases resend_cases ended with ⟨_,rfl⟩ | ⟨_,rfl⟩ | ⟨buf,rfl | ⟨_,sending,rest⟩⟩
    · exact List.prefix_refl _
    · exact List.prefix_refl _
    · exact List.prefix_refl _
    · exact List.IsPrefix.trans (List.prefix_append s.wire [sending]) (ih (sseq + 1) rest)

theorem resend_dupAck (fuel : Nat) (sseq : UInt8) {t : Sender} (ended : resend h fuel sseq s = some (.ret t)) :
    t.dupAck = 0 := by
  induction fuel generalizing sseq s with
  | zero => simp [resend] at ended
  | succ fuel ih =>
    rcases resend_cases ended with ⟨_,stopped⟩ | ⟨_,halted⟩ | ⟨buf,failed | ⟨_,sending,rest⟩⟩
    · obtain rfl := Outcome.ret.inj stopped
      rfl
    · contradiction
    · contradiction
    · exact ih (sseq + 1) rest

theorem resend_core (valid : Valid crc32 s) {c : Nat} (unacked : s.acked ≤ c) (sent : c ≤ s.sent)
    (fuel : Nat) {t : Sender} (ended : resend h fuel (serial c) s = some (.ret t)) :
    Sender.core t = Sender.core s ∧ t.pfdsCount = s.pfdsCount := by
  induction fuel generalizing c s with
  | zero => simp [resend] at ended
  | succ fuel ih =>
    rcases Nat.lt_or_ge c s.sent with left | none
    · obtain ⟨bytes,known,turn⟩ := @resend_turn h crc32 s valid c unacked left fuel
      rw [turn] at ended
      split at ended
      next =>
        have next : Valid crc32 (s.recorded (Sender.resending crc32 s c bytes)) := valid.frame rfl
        have rest := ih next (Nat.le_succ_of_le unacked) left ended
        exact rest
      next => simp at ended
    · obtain rfl : c = s.sent := by omega
      by_cases last : s.lastSent = 255
      · exact absurd ended (resend_unending last _ _ _)
      · rw [resend_stop valid last fuel] at ended
        obtain rfl := Outcome.ret.inj (Option.some.inj ended)
        exact ⟨rfl,rfl⟩

theorem Valid.expired (valid : Valid crc32 s) : Valid crc32 (Sender.expired s) := valid.frame rfl

/-- Inversion of a turn in which the timer expires: there is nothing to send, the window
is sent again, or no retries are left. -/
inductive Expiry (h : Host) (fuel : Nat) (s : Sender) : Outcome Halt Sender → Prop
  | idle (empty : pktbufEmpty s.sendBuf = true) : Expiry h fuel s (.ret s)
  | again (live : pktbufEmpty s.sendBuf = false) (few : s.retryCount < maxRetransmission)
      (outcome : Outcome Halt Sender) (ended : resend h fuel (serial s.acked) (Sender.expired s) = some outcome) :
      Expiry h fuel s outcome
  | spent (live : pktbufEmpty s.sendBuf = false) (many : maxRetransmission ≤ s.retryCount) :
      Expiry h fuel s (.err (Sender.expired s))

theorem turn_expiry (valid : Valid crc32 s) {fuel : Nat} {outcome : Outcome Halt Sender}
    (taken : turn h fuel s .timeout = some outcome) : Expiry h fuel s outcome := by
  rw [turn] at taken
  split at taken
  next live =>
    rw [Bool.not_eq_true'] at live
    rw [handleRetransmission_eq valid] at taken
    split at taken
    next few => exact .again live few outcome taken
    next many =>
      obtain rfl := Option.some.inj taken
      exact .spent live (Nat.not_lt.mp many)
  next empty =>
    obtain rfl := Option.some.inj taken
    exact .idle (by simpa using empty)

theorem Expiry.core (valid : Valid crc32 s) {fuel : Nat} {t : Sender} (expiry : Expiry h fuel s (.ret t)) :
    Sender.core t = Sender.core s ∧ t.pfdsCount = s.pfdsCount := by
  cases expiry with
  | idle empty => exact ⟨rfl,rfl⟩
  | again live few _ ended => exact resend_core valid.expired (Nat.le_refl s.acked) valid.ackedSent fuel ended

end Trtp.SendBuffer
