import Trtp.SenderRuns
import Trtp.Lookup

/-! The retransmission timer.
handle_retransmission compares an 8-bit counter with `last_sent + 1`, which C
computes as an int: the loop ends behind the last sent packet for every value of
the counters but one. -/
namespace Trtp.Retransmission
open Lib.Circular Lib.Run Lib.Serial Packet Process Buffer Net Transmit SendBuffer SenderRuns

structure Resent (s t : Sender) : Prop where
  count : s.outstanding = (s.lastSent - s.lastAck + 1).toNat
  numbers : ∀ i < s.outstanding, (s.sendBuf.get i).seq = s.lastAck + UInt8.ofNat i
  wire : t.wire = s.wire ++
    (List.range s.outstanding).map (fun i => s.sending (s.sendBuf.slot i) s.outstanding)
  sendBuf : t.sendBuf = s.sendBuf
  lastAck : t.lastAck = s.lastAck
  lastSent : t.lastSent = s.lastSent
  lastChunkRead : t.lastChunkRead = s.lastChunkRead

/-- A write has failed before anything but packets of the window was sent. -/
def Interrupted (h : Host) (s t : Sender) : Prop :=
  ∃ k ≤ s.outstanding, h.sendOk (s.writes + k) = false ∧
    t.wire = s.wire ++ (List.range k).map (fun i => s.sending (s.sendBuf.slot i) s.outstanding)

/-- The write that fails is that of a packet of the window, or of the packet behind it if
pktbuf_slotfor_seq finds a place for that one. -/
def Interrupts (h : Host) (s : Sender) (k : Nat) : Prop :=
  h.sendOk (s.writes + k) = false ∧
    (k < s.outstanding ∨ k = s.outstanding ∧ (s.outstanding < s.sendBuf.capacity.toNat ∨ h.debug = false))

variable {h : Host} {crc32 : List UInt8 → UInt32} {s : Sender}

theorem resend_mono {fuel more : Nat} (enough : fuel ≤ more) {sseq : UInt8} {outcome : Outcome Halt Sender}
    (ended : resend h fuel sseq s = some outcome) : resend h more sseq s = some outcome := by
  induction fuel generalizing more sseq s with
  | zero => simp [resend] at ended
  | succ fuel ih =>
    obtain ⟨rest,rfl⟩ : ∃ rest, more = rest + 1 := ⟨more - 1,by omega⟩
    rw [resend] at ended ⊢
    split at ended
    next stop => rw [if_pos stop,ended]
    next going =>
      rw [if_neg going]
      cases found : pktbufSlotforSeq h s.sendBuf sseq with
      | error reason =>
        rw [found] at ended
        exact ended
      | ok slot =>
        obtain ⟨place,buf⟩ := slot
        rw [found] at ended
        simp only [sendPlace_eq] at ended ⊢
        cases accepted : h.sendOk s.writes
        · simp only [accepted] at ended ⊢
          exact ended
        · simp only [accepted] at ended ⊢
          exact ih (by omega) ended

theorem turn_mono {fuel more : Nat} (enough : fuel ≤ more) {event : Event} {outcome : Outcome Halt Sender}
    (taken : turn h fuel s event = some outcome) : turn h more s event = some outcome := by
  cases event with
  | failed => exact taken
  | ready stale socket file => exact taken
  | timeout =>
    simp only [turn,handleRetransmission] at taken ⊢
    split at taken
    next live =>
      rw [if_pos live]
      split at taken
      next stop => rwa [if_pos stop]
      next going =>
        rw [if_neg going]
        exact resend_mono enough taken
    next empty => rwa [if_neg empty]

theorem step_iff {fuel : Nat} {event : Event} {outcome : Outcome Halt Sender}
    (turned : turn h fuel s event = some outcome) (c : Config Halt Sender) :
    Step h (.running s) event c ↔ c = afterTurn outcome := by
  constructor
  · intro taken
    obtain ⟨other,_,_,found,ended⟩ := taken
    have left := turn_mono (Nat.le_max_left other fuel) ended
    have right := turn_mono (Nat.le_max_right other fuel) turned
    rw [Option.some.inj (left.symm.trans right)]
  · rintro rfl
    exact .turn fuel s event outcome turned

def Sender.resent (s : Sender) (k : Nat) : Sender :=
  { s with
    writes := s.writes + k
    wire := s.wire ++ (List.range k).map (fun i => s.sending (s.sendBuf.slot i) s.outstanding) }

theorem resent_turn (valid : Valid crc32 s) {k : Nat} (inside : k < s.outstanding) (fuel : Nat) :
    resend h (fuel + 1) (serial (s.acked + k)) (Sender.resent s k) =
      if h.sendOk (s.writes + k) then resend h fuel (serial (s.acked + (k + 1))) (Sender.resent s (k + 1))
      else some (.err (Sender.resent s k).tried) := by
  unfold Sender.outstanding at inside
  have next : Valid crc32 (Sender.resent s k) := valid.frame rfl
  obtain ⟨bytes,known,turn⟩ := @resend_turn h crc32 _ next (s.acked + k) (Nat.le_add_right _ _)
    (by change s.acked + k < s.sent; omega) fuel
  have entry := valid.sending known (Nat.le_add_right _ _)
  rw [Nat.add_sub_cancel_left] at entry
  have more : (Sender.resent s k).recorded (Sender.resending crc32 (Sender.resent s k) (s.acked + k) bytes) =
      Sender.resent s (k + 1) := by
    have sending : Sender.resending crc32 (Sender.resent s k) (s.acked + k) bytes =
        s.sending (s.sendBuf.slot k) s.outstanding := entry.symm
    rw [sending]
    simp only [Sender.resent,Sender.recorded,Sender.tried,List.range_succ,List.map_append,List.map_singleton,
      List.append_assoc,Nat.add_assoc]
  rw [turn,more]
  rfl

theorem resend_run (valid : Valid crc32 s) (k : Nat) (inside : k ≤ s.outstanding)
    (sends : ∀ i < k, h.sendOk (s.writes + i) = true) (fuel : Nat) :
    resend h (k + fuel) (serial s.acked) s = resend h fuel (serial (s.acked + k)) (Sender.resent s k) := by
  induction k generalizing fuel with
  | zero =>
    have same : Sender.resent s 0 = s := by simp [Sender.resent]
    rw [same,Nat.zero_add,Nat.add_zero]
  | succ k ih =>
    have before := ih (Nat.le_of_succ_le inside) (fun i earlier => sends i (Nat.lt_succ_of_lt earlier)) (fuel + 1)
    rw [show k + 1 + fuel = k + (fuel + 1) by omega,before,resent_turn valid (Nat.lt_of_succ_le inside),
      sends k (Nat.lt_succ_self k),if_pos rfl]

theorem resend_broken (valid : Valid crc32 s) {k : Nat} (inside : k < s.outstanding)
    (sends : ∀ i < k, h.sendOk (s.writes + i) = true) (fails : h.sendOk (s.writes + k) = false) :
    resend h (k + 1) (serial s.acked) s = some (.err (Sender.resent s k).tried) := by
  rw [resend_run valid k (Nat.le_of_lt inside) sends,resent_turn valid inside,fails]
  rfl

theorem resend_whole (valid : Valid crc32 s) (last : s.lastSent ≠ 255)
    (sends : ∀ i < s.outstanding, h.sendOk (s.writes + i) = true) :
    resend h (s.outstanding + 1) (serial s.acked) s =
      some (.ret { Sender.resent s s.outstanding with dupAck := 0 }) := by
  have total : s.acked + s.outstanding = s.sent := Nat.add_sub_cancel' valid.ackedSent
  have next : Valid crc32 (Sender.resent s s.outstanding) := valid.frame rfl
  rw [resend_run valid _ (Nat.le_refl _) sends,total]
  exact resend_stop next last 0

/-- Behind the window the loop looks for a place as if the buffer went on. -/
theorem slotforSeq_behind (valid : Valid crc32 s) :
    (s.outstanding < s.sendBuf.capacity.toNat ∨ h.debug = false →
      ∃ place buf, pktbufSlotforSeq h s.sendBuf (serial s.sent) = .ok (place,buf)) ∧
    (s.sendBuf.capacity.toNat ≤ s.outstanding → h.debug = true →
      pktbufSlotforSeq h s.sendBuf (serial s.sent) = .error .exit) := by
  have total : s.acked + s.outstanding = s.sent := Nat.add_sub_cancel' valid.ackedSent
  have aligned := valid.aligned
  have fits := aligned.fits
  have size := valid.size
  have read := valid.sentRead
  have inflight := valid.inflight
  have positive := s.sendBuf.capacity_pos
  unfold maxWindowSize at inflight
  have behind (live : 0 < s.sendBuf.size) : Lookup.position s.sendBuf (serial s.sent) = s.outstanding := by
    have first : (s.sendBuf.get 0).seq = serial s.acked := aligned.seq 0 live
    have none : s.sendBuf.size ≠ 0 := by omega
    rw [Lookup.position,if_neg none,first,serial_sub valid.ackedSent (by omega)]
    rfl
  have distance (live : 0 < s.sendBuf.size) : (serial s.sent - (s.sendBuf.get 0).seq).toNat = s.outstanding := by
    have none : s.sendBuf.size ≠ 0 := by omega
    rw [← behind live,Lookup.position,if_neg none]
  constructor
  · intro either
    rcases Nat.lt_or_ge s.outstanding s.sendBuf.capacity.toNat with room | full
    · obtain ⟨more,found,_⟩ := slotforSeq_reserve h aligned room (by omega) (by omega)
      rw [total] at found
      exact ⟨_,more,found⟩
    · have release : h.debug = false := either.resolve_left (Nat.not_lt.mpr full)
      have live : 0 < s.sendBuf.size := by omega
      have enough : (serial s.sent - (s.sendBuf.get 0).seq).toNat < s.sendBuf.size + 256 := by
        rw [distance live]
        omega
      obtain ⟨more,extended,_⟩ := @Lookup.extendTo_beyond h release _ (s.sendBuf.get 0).seq 256 s.sendBuf enough
      refine ⟨more.slot s.outstanding,more,?_⟩
      rw [Lookup.slotforSeq_eq live,behind live,if_pos (by omega),extended]
      simp [bind,Except.bind,assert,release]
  · intro full debug
    have live : 0 < s.sendBuf.size := by omega
    have stopped : extendTo h (serial s.sent - (s.sendBuf.get 0).seq)
      (s.sendBuf.get 0).seq 256 s.sendBuf = .error .exit :=
      Lookup.extendTo_exit debug 256 s.sendBuf fits (by rw [distance live]; omega) (by omega)
    rw [Lookup.slotforSeq_eq live,behind live,if_pos (by omega),stopped]
    rfl

theorem resend_interrupted (valid : Valid crc32 s) (broken : ∃ k, k < s.outstanding ∧ h.sendOk (s.writes + k) = false) :
    ∃ fuel t, resend h fuel (serial s.acked) s = some (.err t) ∧ Interrupted h s t := by
  obtain ⟨inside,fails⟩ := Nat.find_spec broken
  have sends (i : Nat) (earlier : i < Nat.find broken) : h.sendOk (s.writes + i) = true := by
    have least := Nat.find_min broken earlier
    simpa using fun refused => least ⟨Nat.lt_trans earlier inside,refused⟩
  exact ⟨_,_,resend_broken valid inside sends fails,Nat.find broken,Nat.le_of_lt inside,fails,rfl⟩

/-- After packet 255 the loop goes on behind the window. -/
theorem resend_behind (valid : Valid crc32 s) (last : s.lastSent = 255)
    (sends : ∀ i < s.outstanding, h.sendOk (s.writes + i) = true) (fuel : Nat) :
    resend h (s.outstanding + (fuel + 1)) (serial s.acked) s =
      match pktbufSlotforSeq h s.sendBuf (serial s.sent) with
      | .error reason => some (.halt reason (Sender.resent s s.outstanding))
      | .ok (place,buf) =>
        match sendPlace h { Sender.resent s s.outstanding with sendBuf := buf } place s.outstanding with
        | .ret t => resend h fuel (serial s.sent + 1) t
        | stopped => some stopped := by
  have total : s.acked + s.outstanding = s.sent := Nat.add_sub_cancel' valid.ackedSent
  have going : ¬ ((serial s.sent).toNat : Int) = (Sender.resent s s.outstanding).lastSent.toNat + 1 := by
    have bound := (serial s.sent).toNat_lt
    change ¬ ((serial s.sent).toNat : Int) = s.lastSent.toNat + 1
    rw [last]
    change ¬ ((serial s.sent).toNat : Int) = 256
    omega
  rw [resend_run valid _ (Nat.le_refl _) sends,total,resend,if_neg going]
  rfl

theorem resend_turnedBack (valid : Valid crc32 s) (last : s.lastSent = 255)
    (sends : ∀ i < s.outstanding, h.sendOk (s.writes + i) = true)
    (room : s.outstanding < s.sendBuf.capacity.toNat ∨ h.debug = false)
    (fails : h.sendOk (s.writes + s.outstanding) = false) :
    ∃ fuel t, resend h fuel (serial s.acked) s = some (.err t) ∧ Interrupted h s t := by
  obtain ⟨place,buf,found⟩ := (slotforSeq_behind valid).1 room
  have refused : sendPlace h { Sender.resent s s.outstanding with sendBuf := buf } place s.outstanding =
      .err { Sender.resent s s.outstanding with sendBuf := buf }.tried := by
    have failed : ¬ h.sendOk (s.writes + s.outstanding) = true := by simpa using fails
    rw [sendPlace_eq]
    exact if_neg failed
  have ended := @resend_behind h crc32 s valid last sends 0
  rw [found] at ended
  simp only [refused] at ended
  exact ⟨_,_,ended,s.outstanding,Nat.le_refl _,fails,rfl⟩

theorem handleRetransmission_unending (valid : Valid crc32 s) (last : s.lastSent = 255) (fuel : Nat) (t : Sender) :
    handleRetransmission h fuel s ≠ some (.ret t) := by
  intro ended
  have expired : (Sender.expired s).lastSent = 255 := last
  rw [handleRetransmission_eq valid] at ended
  split at ended
  next => exact resend_unending expired fuel _ t ended
  next => simp at ended

theorem resend_exits (valid : Valid crc32 s) (last : s.lastSent = 255)
    (sends : ∀ i < s.outstanding, h.sendOk (s.writes + i) = true)
    (full : ¬ (s.outstanding < s.sendBuf.capacity.toNat ∨ h.debug = false)) :
    resend h (s.outstanding + 1) (serial s.acked) s = some (.halt .exit (Sender.resent s s.outstanding)) := by
  obtain ⟨most,debug⟩ := not_or.mp full
  have stopped := (slotforSeq_behind valid).2 (Nat.not_lt.mp most) (by simpa using debug)
  have ended := @resend_behind h crc32 s valid last sends 0
  rwa [stopped] at ended

theorem resend_resent (valid : Valid crc32 s) (last : s.lastSent ≠ 255)
    (sends : ∀ i < s.outstanding, h.sendOk (s.writes + i) = true) :
    ∃ fuel t, resend h fuel (serial s.acked) s = some (.ret t) ∧ Resent s t := by
  refine ⟨_,_,resend_whole valid last sends,valid.win.symm,?_,rfl,rfl,rfl,rfl,rfl⟩
  intro i inside
  have live : i < s.sendBuf.size := by
    have read := valid.sentRead
    have size := valid.size
    unfold Sender.outstanding at inside
    omega
  rw [valid.aligned.seq i live,valid.lastAck,serial,UInt8.ofNat_add]
  rfl

theorem sends_of_none (none : ¬ ∃ k, k < s.outstanding ∧ h.sendOk (s.writes + k) = false) :
    ∀ i < s.outstanding, h.sendOk (s.writes + i) = true := by
  intro i inside
  simpa using fun refused => none ⟨i,inside,refused⟩

theorem resend_iff (valid : Valid crc32 s) :
    (∃ fuel t, resend h fuel (serial s.acked) s = some (.ret t) ∧ Resent s t ∨
      resend h fuel (serial s.acked) s = some (.err t) ∧ Interrupted h s t) ↔
    s.lastSent ≠ 255 ∨ ∃ k, Interrupts h s k := by
  constructor
  · rintro ⟨fuel,t,⟨ended,_⟩ | ⟨ended,k,inside,fails,_⟩⟩
    · exact Or.inl (fun last => resend_unending last fuel _ t ended)
    · by_contra neither
      obtain ⟨last,none⟩ := not_or.mp neither
      have sends := sends_of_none (fun ⟨j,earlier,refused⟩ => none ⟨j,refused,Or.inl earlier⟩)
      obtain rfl : k = s.outstanding := by
        by_contra other
        exact none ⟨k,fails,Or.inl (by omega)⟩
      -- The write behind the window is not reached: the buffer has no place for it.
      have stopped := resend_exits valid (not_not.mp last) sends (fun room => none ⟨_,fails,Or.inr ⟨rfl,room⟩⟩)
      have first := resend_mono (Nat.le_max_left fuel (s.outstanding + 1)) ended
      have second := resend_mono (Nat.le_max_right fuel (s.outstanding + 1)) stopped
      exact absurd (first.symm.trans second) (by simp)
  · intro either
    by_cases fails : ∃ k, k < s.outstanding ∧ h.sendOk (s.writes + k) = false
    · obtain ⟨fuel,t,ended⟩ := resend_interrupted valid fails
      exact ⟨fuel,t,Or.inr ended⟩
    · by_cases last : s.lastSent = 255
      · obtain ⟨k,refused,inside | ⟨rfl,room⟩⟩ := either.resolve_left (not_not.mpr last)
        · exact absurd ⟨k,inside,refused⟩ fails
        · obtain ⟨fuel,t,ended⟩ := resend_turnedBack valid last (sends_of_none fails) room refused
          exact ⟨fuel,t,Or.inr ended⟩
      · obtain ⟨fuel,t,ended⟩ := resend_resent valid last (sends_of_none fails)
        exact ⟨fuel,t,Or.inl ended⟩

/-- In every state in which the timer can expire with retries left, the handler ends
and sends the window again if and only if the last sent number is not 255. Where writes may
fail it ends with nothing else sent if and only if that holds or a failing write stops it in time. -/
theorem handleRetransmission_iff (h : Host) (capacity : UInt32) (s : Sender)
    (reached : Reach (Start capacity) (Step h) (fun _ _ => True) (.running s))
    (few : s.retryCount < maxRetransmission) :
    (s.lastSent ≠ 255 → ∃ fuel t, handleRetransmission h fuel s = some (.ret t) ∨
      handleRetransmission h fuel s = some (.err t)) ∧
    ((∀ n, s.writes ≤ n → h.sendOk n = true) →
      ((∃ fuel t, handleRetransmission h fuel s = some (.ret t) ∧ Resent s t) ↔ s.lastSent ≠ 255)) ∧
    ((∃ fuel t, handleRetransmission h fuel s = some (.ret t) ∧ Resent s t ∨
        handleRetransmission h fuel s = some (.err t) ∧ Interrupted h s t) ↔
      s.lastSent ≠ 255 ∨ ∃ k, Interrupts h s k) := by
  obtain ⟨valid,_,_⟩ := reachable_valid reached rfl
  have same (t : Sender) : Resent (Sender.expired s) t ↔ Resent s t :=
    ⟨fun resent => { resent with },fun resent => { resent with }⟩
  have exact : (∃ fuel t, handleRetransmission h fuel s = some (.ret t) ∧ Resent s t ∨
      handleRetransmission h fuel s = some (.err t) ∧ Interrupted h s t) ↔
      s.lastSent ≠ 255 ∨ ∃ k, Interrupts h s k := by
    simp only [handleRetransmission_eq valid,if_pos few,← same]
    exact resend_iff valid.expired
  refine ⟨?_,?_,exact⟩
  · intro last
    obtain ⟨fuel,t,⟨ended,_⟩ | ⟨ended,_⟩⟩ := exact.mpr (Or.inl last)
    · exact ⟨fuel,t,Or.inl ended⟩
    · exact ⟨fuel,t,Or.inr ended⟩
  · intro sends
    constructor
    · rintro ⟨fuel,t,ended,_⟩ last
      exact handleRetransmission_unending valid last fuel t ended
    · intro last
      obtain ⟨fuel,t,⟨ended,resent⟩ | ⟨_,k,_,fails,_⟩⟩ := exact.mpr (Or.inl last)
      · exact ⟨fuel,t,ended,resent⟩
      · rw [sends _ (Nat.le_add_right _ _)] at fails
        contradiction

/-- A window of zero arrives before any input, and then a chunk is read that may
not be sent: the timer finds a packet in the buffer and 255 in `last_sent`. -/
theorem handleRetransmission_255 :
    ∃ s, [ackEvent 0 0,byteEvent].foldlM (next steadyHost 0) (.running (start fourPlaces)) = some (.running s) ∧
      Reach (Start 4) (Step steadyHost) (fun _ _ => True) (.running s) ∧
      pktbufEmpty s.sendBuf = false ∧ s.retryCount < maxRetransmission ∧
      (∀ n, steadyHost.sendOk n = true) ∧
      ¬ ∃ fuel t, handleRetransmission steadyHost fuel s = some (.ret t) ∧ Resent s t := by
  have passed : runningWith (fun s => !pktbufEmpty s.sendBuf && decide (s.retryCount < maxRetransmission) &&
      s.lastSent == 255) ([ackEvent 0 0,byteEvent].foldlM (next steadyHost 0) (.running (start fourPlaces))) =
      true := by decide +kernel
  obtain ⟨s,played,test⟩ := exists_of_runningWith passed
  have reached := fourPlaces_play steadyHost 0 _ played
  simp only [Bool.and_eq_true,Bool.not_eq_true',decide_eq_true_eq,beq_iff_eq] at test
  obtain ⟨⟨live,few⟩,last⟩ := test
  refine ⟨s,played,reached,live,few,fun _ => rfl,?_⟩
  rintro ⟨fuel,t,ended,_⟩
  exact handleRetransmission_unending (reachable_valid reached rfl).1 last fuel t ended

theorem handleRetransmission_threeChunks :
    ∃ s, [byteEvent,ackEvent 1 3,byteEvent,byteEvent,byteEvent,byteEvent].foldlM (next steadyHost 0)
        (.running (start fourPlaces)) = some (.running s) ∧
      s.acked = 1 ∧ s.sent = 4 ∧ s.input.length = 5 ∧
      ∃ fuel t, handleRetransmission steadyHost fuel s = some (.ret t) ∧ Resent s t := by
  have passed : runningWith (fun s => decide (s.retryCount < maxRetransmission) && (s.lastSent == 3 &&
        (s.acked == 1 && (s.sent == 4 && s.input.length == 5))))
      ([byteEvent,ackEvent 1 3,byteEvent,byteEvent,byteEvent,byteEvent].foldlM (next steadyHost 0)
        (.running (start fourPlaces))) = true := by decide +kernel
  obtain ⟨s,played,test⟩ := exists_of_runningWith passed
  simp only [Bool.and_eq_true,decide_eq_true_eq,beq_iff_eq] at test
  obtain ⟨few,last,acked,sent,read⟩ := test
  have reached := fourPlaces_play steadyHost 0 _ played
  refine ⟨s,played,acked,sent,read,?_⟩
  exact ((handleRetransmission_iff steadyHost 4 s reached few).2.1 (fun _ _ => rfl)).mpr (by rw [last]; decide)

end Trtp.Retransmission
