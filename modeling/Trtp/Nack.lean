import Trtp.SenderRuns

/-! Negative acknowledgements.
process_nack looks for the wanted packet at the indices below the number of
packets in use, while the packets in use lie between `first` and `last`. It finds
one only as long as the two ranges overlap at the right place. -/
namespace Trtp.Nack
open Lib.Circular Lib.Run Lib.Serial Packet Process Buffer Net Transmit SendBuffer SenderRuns

variable {h : Host} {crc32 : List UInt8 → UInt32} {s : Sender}

def Served (h : Host) (nack : UInt8) (s : Sender) : Prop :=
  ∃ sending, processNack h nack s = .ret (s.recorded sending) ∧
    sending.datagram = (s.sendBuf.get (nack - s.lastAck).toNat).datagram ∧
    (s.sendBuf.get (nack - s.lastAck).toNat).seq = nack

def ownPlace (nack : UInt8) (buf : Pktbuf) : UInt32 := maskIndex nack.toUInt32 buf

/-- Packet numbers and ring positions: one of the two moduli divides the other. -/
theorem capacity_cases (buf : Pktbuf) : buf.capacity.toNat ∣ 256 ∨ 256 ∣ buf.capacity.toNat := by
  obtain ⟨k,_,power⟩ := buf.pow2
  rw [power]
  rcases Nat.le_total k 8 with small | large
  · exact Or.inl (Nat.pow_dvd_pow 2 small)
  · exact Or.inr (Nat.pow_dvd_pow 2 large)

theorem ownPlace_toNat (nack : UInt8) (buf : Pktbuf) :
    (ownPlace nack buf).toNat = nack.toNat % buf.capacity.toNat := by
  rw [ownPlace,maskIndex,CircularArray.mask_toNat,UInt8.toNat_toUInt32]

theorem ownPlace_le (valid : Valid crc32 s) {nack : UInt8} {j : Nat} (inside : j < s.sendBuf.size)
    (found : (s.sendBuf.head (UInt32.ofNat j)).seq = nack) : (ownPlace nack s.sendBuf).toNat ≤ j := by
  obtain ⟨c,bytes,_,residue,stored⟩ := valid.filled inside
  have number : nack.toNat = c % 256 := by
    rw [← found,stored.seq,serial_toNat]
  rw [ownPlace_toNat,number]
  rcases capacity_cases s.sendBuf with short | long
  · rw [Nat.mod_mod_of_dvd c short,residue]
  · have folded : j % 256 = c % 256 := by rw [← residue,Nat.mod_mod_of_dvd c long]
    calc c % 256 % s.sendBuf.capacity.toNat ≤ c % 256 := Nat.mod_le _ _
      _ = j % 256 := folded.symm
      _ ≤ j := Nat.mod_le _ _

theorem ownPlace_seq (valid : Valid crc32 s) {nack : UInt8}
    (outstanding : (nack - s.lastAck).toNat < s.outstanding)
    (inside : (ownPlace nack s.sendBuf).toNat < s.sendBuf.size) :
    (s.sendBuf.head (ownPlace nack s.sendBuf)).seq = nack ∧
      (s.sendBuf.capacity.toNat ≤ 256 →
        ownPlace nack s.sendBuf = s.sendBuf.slot (nack - s.lastAck).toNat) := by
  have read := valid.sentRead
  have target : serial (s.acked + (nack - s.lastAck).toNat) = nack := by
    rw [valid.lastAck]
    exact serial_offset nack s.acked
  have number : (s.acked + (nack - s.lastAck).toNat) % 256 = nack.toNat := by
    rw [← serial_toNat,target]
  have known : s.acked + (nack - s.lastAck).toNat < s.input.length := by
    unfold Sender.outstanding at outstanding
    omega
  have stored := valid.live (List.getElem?_eq_getElem known) (Nat.le_add_right _ _)
  rw [Nat.add_sub_cancel_left] at stored
  have short (divides : s.sendBuf.capacity.toNat ∣ 256) :
      ownPlace nack s.sendBuf = s.sendBuf.slot (nack - s.lastAck).toNat := by
    apply UInt32.toNat_inj.mp
    rw [s.sendBuf.slot_eq_mask valid.first,ownPlace_toNat,CircularArray.mask_ofNat,← number,
      Nat.mod_mod_of_dvd _ divides]
  constructor
  · rcases capacity_cases s.sendBuf with divides | long
    · rw [short divides,stored.seq,target]
    · obtain ⟨c,bytes,_,residue,other⟩ := valid.filled inside
      rw [UInt32.ofNat_toNat] at other
      have small : nack.toNat < s.sendBuf.capacity.toNat :=
        Nat.lt_of_lt_of_le nack.toNat_lt (Nat.le_of_dvd s.sendBuf.capacity_pos long)
      rw [ownPlace_toNat,Nat.mod_eq_of_lt small] at residue
      apply UInt8.toNat_inj.mp
      rw [other.seq,serial_toNat,← Nat.mod_mod_of_dvd c long,residue]
      exact Nat.mod_eq_of_lt nack.toNat_lt
  · intro small
    rcases capacity_cases s.sendBuf with divides | long
    · exact short divides
    · have equal : s.sendBuf.capacity.toNat = 256 :=
        Nat.le_antisymm small (Nat.le_of_dvd s.sendBuf.capacity_pos long)
      exact short ⟨1,by omega⟩

theorem nackPlace_eq (valid : Valid crc32 s) {nack : UInt8}
    (outstanding : (nack - s.lastAck).toNat < s.outstanding) :
    nackPlace nack s.sendBuf = if ownPlace nack s.sendBuf < pktbufUsed s.sendBuf then
      some (ownPlace nack s.sendBuf) else none := by
  have used : ownPlace nack s.sendBuf < pktbufUsed s.sendBuf ↔
      (ownPlace nack s.sendBuf).toNat < s.sendBuf.size := UInt32.lt_iff_toNat_lt
  by_cases inside : (ownPlace nack s.sendBuf).toNat < s.sendBuf.size
  · have first : (List.range s.sendBuf.size).find?
        (fun i => (s.sendBuf.head (UInt32.ofNat i)).seq == nack) =
          some (ownPlace nack s.sendBuf).toNat := by
      rw [List.find?_range_eq_some]
      refine ⟨?_,List.mem_range.mpr inside,?_⟩
      · rw [UInt32.ofNat_toNat,beq_iff_eq]
        exact (ownPlace_seq valid outstanding inside).1
      · intro j before
        rw [Bool.not_eq_true',beq_eq_false_iff_ne]
        intro found
        have least := ownPlace_le valid (by omega) found
        omega
    rw [nackPlace,first,if_pos (used.mpr inside),Option.map_some,UInt32.ofNat_toNat]
  · have absent : (List.range s.sendBuf.size).find?
        (fun i => (s.sendBuf.head (UInt32.ofNat i)).seq == nack) = none := by
      rw [List.find?_range_eq_none]
      intro j before
      rw [Bool.not_eq_true',beq_eq_false_iff_ne]
      intro found
      have least := ownPlace_le valid before found
      omega
    rw [nackPlace,absent,if_neg (fun below => inside (used.mp below))]
    rfl

/-- A NACK for an outstanding packet is served if and only if the number, taken as
an index of the ring, is below the number of packets in use and that place holds
the outstanding packet; the second part is automatic up to 256 places. -/
theorem processNack_iff (h : Host) (capacity : UInt32) (s : Sender) (nack : UInt8)
    (reached : Reach (Start capacity) (Step h) (fun _ _ => True) (.running s))
    (outstanding : (nack - s.lastAck).toNat < (s.lastSent - s.lastAck + 1).toNat)
    (accepted : h.sendOk s.writes = true) :
    (Served h nack s ↔ ownPlace nack s.sendBuf < pktbufUsed s.sendBuf ∧
      (s.sendBuf.head (ownPlace nack s.sendBuf)).datagram =
        (s.sendBuf.get (nack - s.lastAck).toNat).datagram) ∧
    (capacity.toNat ≤ 256 → (Served h nack s ↔ ownPlace nack s.sendBuf < pktbufUsed s.sendBuf)) := by
  obtain ⟨valid,_,size⟩ := reachable_valid reached rfl
  rw [valid.win] at outstanding
  have read := valid.sentRead
  have live : (nack - s.lastAck).toNat < s.sendBuf.size := by
    rw [valid.size]
    unfold Sender.outstanding at outstanding
    omega
  have number : (s.sendBuf.get (nack - s.lastAck).toNat).seq = nack := by
    rw [valid.aligned.seq _ live,valid.lastAck]
    exact serial_offset nack s.acked
  have scan := @processNack_eq h s nack valid.aligned.fits
  rw [nackPlace_eq valid outstanding] at scan
  have general : Served h nack s ↔ ownPlace nack s.sendBuf < pktbufUsed s.sendBuf ∧
      (s.sendBuf.head (ownPlace nack s.sendBuf)).datagram =
        (s.sendBuf.get (nack - s.lastAck).toNat).datagram := by
    by_cases inside : ownPlace nack s.sendBuf < pktbufUsed s.sendBuf
    · rw [if_pos inside] at scan
      simp only [sendPlace_eq,accepted,if_true] at scan
      constructor
      · rintro ⟨sending,served,datagram,_⟩
        rw [scan] at served
        have wires := congrArg Sender.wire (Outcome.ret.inj served)
        have same := List.singleton_inj.mp (List.append_cancel_left wires)
        exact ⟨inside,by rw [← datagram,← same]; rfl⟩
      · rintro ⟨_,datagram⟩
        exact ⟨_,scan,datagram,number⟩
    · rw [if_neg inside] at scan
      simp only at scan
      constructor
      · rintro ⟨sending,served,_⟩
        rw [scan] at served
        have wires := congrArg (fun t => t.wire.length) (Outcome.ret.inj served)
        simp [Sender.recorded] at wires
      · rintro ⟨below,_⟩
        exact absurd below inside
  refine ⟨general,?_⟩
  intro small
  rw [general]
  constructor
  · exact fun both => both.1
  · intro inside
    rw [← size] at small
    have own := (ownPlace_seq valid outstanding (UInt32.lt_iff_toNat_lt.mp inside)).2 small
    exact ⟨inside,by rw [own]; rfl⟩

/-- One chunk is sent and acknowledged, a second one is sent: it lies at index 1,
one packet is in use, and a NACK for it sends nothing. -/
theorem processNack_second :
    ∃ s, [byteEvent,ackEvent 1 31,byteEvent].foldlM (next steadyHost 0) (.running (start fourPlaces)) =
        some (.running s) ∧
      Reach (Start 4) (Step steadyHost) (fun _ _ => True) (.running s) ∧
      (1 - s.lastAck).toNat < (s.lastSent - s.lastAck + 1).toNat ∧
      processNack steadyHost 1 s = .ret s ∧ ¬ Served steadyHost 1 s := by
  have passed : runningWith (fun s => decide ((1 - s.lastAck).toNat < (s.lastSent - s.lastAck + 1).toNat) &&
      (nackPlace 1 s.sendBuf).isNone)
      ([byteEvent,ackEvent 1 31,byteEvent].foldlM (next steadyHost 0) (.running (start fourPlaces))) = true := by
    decide +kernel
  obtain ⟨s,played,test⟩ := exists_of_runningWith passed
  rw [Bool.and_eq_true,decide_eq_true_eq,Option.isNone_iff_eq_none] at test
  obtain ⟨outstanding,absent⟩ := test
  have reached := fourPlaces_play steadyHost 0 _ played
  have silent : processNack steadyHost 1 s = .ret s := by
    rw [processNack_eq 1 (reachable_valid reached rfl).1.aligned.fits,absent]
  refine ⟨s,played,reached,outstanding,silent,?_⟩
  rintro ⟨sending,served,_⟩
  rw [silent] at served
  have wires := congrArg (fun t => t.wire.length) (Outcome.ret.inj served)
  simp [Sender.recorded] at wires

theorem processNack_firstChunk :
    ∃ s, [byteEvent].foldlM (next steadyHost 0) (.running (start fourPlaces)) = some (.running s) ∧
      Served steadyHost 0 s := by
  have passed : runningWith (fun s => decide ((0 - s.lastAck).toNat < (s.lastSent - s.lastAck + 1).toNat) &&
      decide (ownPlace 0 s.sendBuf < pktbufUsed s.sendBuf))
      ([byteEvent].foldlM (next steadyHost 0) (.running (start fourPlaces))) = true := by decide +kernel
  obtain ⟨s,played,test⟩ := exists_of_runningWith passed
  rw [Bool.and_eq_true,decide_eq_true_eq,decide_eq_true_eq] at test
  obtain ⟨outstanding,inside⟩ := test
  have reached := fourPlaces_play steadyHost 0 _ played
  exact ⟨s,played,((processNack_iff steadyHost 4 s 0 reached outstanding rfl).2 (by decide)).mpr inside⟩

end Trtp.Nack
