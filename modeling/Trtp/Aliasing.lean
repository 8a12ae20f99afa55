import Trtp.SenderRuns

/-! What do_send_sbuf leaves unsent.
Its loop stops when last_sent equals last_chunk_read, which compares the two counts
modulo 256, while a large buffer holds more chunks than that. -/
namespace Trtp.Aliasing
open Lib.Circular Lib.Run Lib.Serial Packet Process Buffer Net Transmit SendBuffer SenderRuns

def unsent (s : Sender) : Nat := s.input.length - s.sent

def nextChunks (crc32 : List UInt8 → UInt32) (s : Sender) (count : Nat) : List (Option Nat × List UInt8) :=
  ((s.input.drop s.sent).take count).mapIdx (fun i bytes =>
    (some (s.sent + i),chunkDatagram crc32 (s.sent + i) bytes))

/-- What was put on the wire between two states is the next chunks in order. -/
def InOrder (crc32 : List UInt8 → UInt32) (s t : Sender) : Prop :=
  ∃ sendings, t.wire = s.wire ++ sendings ∧
    sendings.map (fun sending => (sending.number,sending.datagram)) = nextChunks crc32 s (t.sent - s.sent)

/-- do_send_sbuf sends in order until everything is sent or the window is used up. -/
def SendsAllowed (h : Host) (s : Sender) : Prop :=
  ∃ t, doSendSbuf h s = .ret t ∧ InOrder h.crc32 s t ∧
    (t.outstanding = (pktbufUsed t.sendBuf).toNat ∨ t.lastWin.toNat ≤ t.outstanding)

variable {h : Host} {crc32 : List UInt8 → UInt32} {s : Sender}

theorem nextChunks_zero (crc32 : List UInt8 → UInt32) (s : Sender) : nextChunks crc32 s 0 = [] := rfl

theorem nextChunks_succ {bytes : Chunk} (known : s.input[s.sent]? = some bytes) (count : Nat) {t : Sender}
    (input : t.input = s.input) (sent : t.sent = s.sent + 1) : nextChunks crc32 s (count + 1) =
    (some s.sent,chunkDatagram crc32 s.sent bytes) :: nextChunks crc32 t count := by
  obtain ⟨inside,rfl⟩ := List.getElem?_eq_some_iff.mp known
  rw [nextChunks,List.drop_eq_getElem_cons inside,List.take_succ_cons,List.mapIdx_cons,nextChunks,input,sent]
  congr 1
  simp only [Nat.add_right_comm,Nat.add_assoc]

theorem unread_iff (valid : Valid crc32 s) : s.lastSent = s.lastChunkRead ↔ unsent s % 256 = 0 := by
  have read := valid.sentRead
  have counters : s.lastSent = s.lastChunkRead ↔ serial s.sent = serial s.input.length := by
    rw [← valid.lastSent,← valid.lastChunkRead]
    exact (UInt8.add_left_inj 1).symm
  rw [counters,← UInt8.toNat_inj,serial_toNat,serial_toNat,unsent]
  omega

theorem going_iff (valid : Valid crc32 s) : (s.lastSent ≠ s.lastChunkRead ∧ canSend s = true) ↔
    unsent s % 256 ≠ 0 ∧ s.outstanding < s.lastWin.toNat := by
  have ordered := valid.ackedSent
  rw [canSend_iff valid,ne_eq,unread_iff valid]
  constructor
  · rintro ⟨some,_,allowed⟩
    exact ⟨some,allowed⟩
  · rintro ⟨some,allowed⟩
    refine ⟨some,?_,allowed⟩
    unfold unsent at some
    omega

theorem InOrder.refl (crc32 : List UInt8 → UInt32) (s : Sender) : InOrder crc32 s s := by
  refine ⟨[],(List.append_nil _).symm,?_⟩
  rw [Nat.sub_self,nextChunks_zero,List.map_nil]

theorem InOrder.first {bytes : Chunk} (known : s.input[s.sent]? = some bytes) {next t : Sender}
    (taken : next = (Sender.released s).recorded (Sender.firstSending crc32 s bytes)) (ordered : InOrder crc32 next t)
    (later : next.sent ≤ t.sent) : InOrder crc32 s t := by
  obtain ⟨sendings,wire,chunks⟩ := ordered
  have wired : next.wire = s.wire ++ [Sender.firstSending crc32 s bytes] := by rw [taken]; rfl
  have sent : next.sent = s.sent + 1 := by rw [taken]; rfl
  have input : next.input = s.input := by rw [taken]; rfl
  have count : t.sent - s.sent = t.sent - next.sent + 1 := by omega
  refine ⟨Sender.firstSending crc32 s bytes :: sendings,by rw [wire,wired,List.append_assoc]; rfl,?_⟩
  rw [count,nextChunks_succ known _ input sent,← chunks]
  rfl

theorem sendLoop_sends (sends : ∀ n, h.sendOk n = true) (fuel : Nat) (valid : Valid h.crc32 s)
    (enough : s.lastWin.toNat < s.outstanding + fuel) : ∃ t, sendLoop h fuel s = .ret t ∧ Valid h.crc32 t ∧
      t.sent = s.sent + min (unsent s % 256) (s.lastWin.toNat - s.outstanding) ∧
      t.acked = s.acked ∧ t.input = s.input ∧ t.lastWin = s.lastWin ∧ InOrder h.crc32 s t := by
  induction fuel generalizing s with
  | zero => exact ⟨s,rfl,valid,by omega,rfl,rfl,rfl,.refl _ s⟩
  | succ fuel ih =>
    have decided := going_iff valid
    by_cases going : s.lastSent ≠ s.lastChunkRead ∧ canSend s = true
    · obtain ⟨bytes,known,allowed,turn⟩ := sendLoop_turn (h := h) valid fuel going
      have left := (List.getElem?_eq_some_iff.mp known).1
      have ordered := valid.ackedSent
      have some := (decided.mp going).1
      rw [turn,if_pos (sends _)]
      generalize taken : (Sender.released s).recorded (Sender.firstSending h.crc32 s bytes) = next
      have after : Valid h.crc32 next := taken ▸ (valid.released left allowed).frame rfl
      have sent : next.sent = s.sent + 1 := by rw [← taken]; rfl
      have acked : next.acked = s.acked := by rw [← taken]; rfl
      have input : next.input = s.input := by rw [← taken]; rfl
      have window : next.lastWin = s.lastWin := by rw [← taken]; rfl
      have remaining : unsent next + 1 = unsent s := by
        unfold unsent
        rw [sent,input]
        omega
      have outstanding : next.outstanding = s.outstanding + 1 := by
        unfold Sender.outstanding
        rw [sent,acked]
        omega
      obtain ⟨t,ended,valid',sent',acked',input',window',rest⟩ := ih after (by rw [window,outstanding]; omega)
      refine ⟨t,ended,valid',?_,acked'.trans acked,input'.trans input,window'.trans window,
        .first known taken.symm rest (by omega)⟩
      rw [sent',sent,window,outstanding]
      omega
    · have ended := mt decided.mpr going
      rw [sendLoop,if_neg going]
      exact ⟨s,rfl,valid,by omega,rfl,rfl,rfl,.refl _ s⟩

/-- What is left is sent, or does not fit into the window, exactly when no more than one
round of the counter was waiting or the window ends within the last one. -/
theorem doSendSbuf_sends (sends : ∀ n, h.sendOk n = true) (valid : Valid h.crc32 s) :
    ∃ t, doSendSbuf h s = .ret t ∧ InOrder h.crc32 s t ∧
      ((t.outstanding = (pktbufUsed t.sendBuf).toNat ∨ t.lastWin.toNat ≤ t.outstanding) ↔
        unsent s < 256 ∨ s.lastWin.toNat ≤ s.outstanding + unsent s % 256) := by
  have window := valid.window
  unfold maxWindowSize at window
  obtain ⟨t,ended,after,sent,acked,input,lastWin,order⟩ := sendLoop_sends sends 256 valid (by omega)
  have ordered := valid.ackedSent
  have read := valid.sentRead
  have read' := after.sentRead
  have used : (pktbufUsed t.sendBuf).toNat = t.input.length - t.acked := after.size
  refine ⟨t,ended,order,?_⟩
  rw [used,lastWin]
  unfold Sender.outstanding unsent at *
  rw [input,acked,sent]
  omega

/-- In every state in which do_send_sbuf is called it sends the next chunks in order. -/
theorem doSendSbuf_iff (h : Host) (capacity : UInt32) (r s : Sender) (stale : Pkt) (socket : Option Recv)
    (file : Option ReadResult) (reached : Reach (Start capacity) (Step h) (fun _ _ => True) (.running r))
    (called : (readSocket h stale socket r).andThen (readFile h file) = .ret s) (sends : ∀ n, h.sendOk n = true) :
    (∃ t, doSendSbuf h s = .ret t ∧ InOrder h.crc32 s t) ∧
      (SendsAllowed h s ↔ unsent s < 256 ∨ s.lastWin.toNat ≤ s.outstanding + unsent s % 256) := by
  obtain ⟨valid,polls,_⟩ := reachable_valid reached rfl
  have input : ((readSocket h stale socket r).andThen (readFile h file)).Meets (fun t => Valid h.crc32 t ∧ True)
      (fun _ => True) (fun _ _ => True) := by
    refine ((readSocket_meets valid polls stale socket).mono (fun _ met => met) (fun _ _ => trivial)
      (fun _ _ _ => trivial)).andThen ?_
    rintro t ⟨after,stillPolls,_⟩
    exact readFile_meets after stillPolls file trivial (fun _ _ => trivial) (fun _ => trivial)
  obtain ⟨t,ended,order,drained⟩ := doSendSbuf_sends sends (input.of_ret called).1
  refine ⟨⟨t,ended,order⟩,?_⟩
  rw [← drained]
  constructor
  · rintro ⟨u,ended',_,allowed⟩
    obtain rfl := Outcome.ret.inj (ended.symm.trans ended')
    exact allowed
  · exact fun allowed => ⟨t,ended,order,allowed⟩

theorem readFile_next (stale : Pkt) (bytes : Chunk) (polled : s.pfdsCount = 2)
    (room : s.sendBuf.size < s.sendBuf.capacity.toNat) : (readSocket h stale none s).andThen
      (readFile h (some (.data bytes))) = .ret (Sender.queued h.crc32 s bytes) := by
  simp only [readSocket,Outcome.ret_andThen,readFile,polled,if_true]
  exact handleInputRead_data bytes room

theorem doSendSbuf_iff_firstChunk : ∃ s, (readSocket steadyHost Pkt.zero none (start fourPlaces)).andThen
    (readFile steadyHost (some (.data oneByte))) = .ret s ∧ SendsAllowed steadyHost s := by
  have read := @readFile_next steadyHost (start fourPlaces) Pkt.zero oneByte rfl (by decide)
  have few : unsent (Sender.queued steadyHost.crc32 (start fourPlaces) oneByte) < 256 := by decide
  exact ⟨_,read,((doSendSbuf_iff steadyHost 4 _ _ _ _ _ (.start _ fourPlaces_start) read (fun _ => rfl)).2).mpr
    (Or.inl few)⟩

def manyPlaces : Pktbuf := ⟨0,0,256,fun _ => Pkt.zero,⟨8,by decide,by decide⟩⟩

theorem manyPlaces_start : Start 256 (.running (start manyPlaces)) := ⟨manyPlaces,rfl,rfl⟩

/-- Chunk 0 is acknowledged with window 0, and `k` chunks were read since. -/
structure Waiting (k : Nat) (s : Sender) : Prop where
  acked : s.acked = 1
  sent : s.sent = 1
  read : s.input.length = 1 + k
  window : s.lastWin = 0
  dupAck : s.dupAck = 0
  more : s.lastInRead ≠ 0
  polled : k < 256 → s.pfdsCount = 2

abbrev Reached (s : Sender) : Prop :=
  Reach (Start 256) (Step steadyHost) (fun _ _ => True) (.running s)

theorem waiting_start : ∃ s, Reached s ∧ Waiting 0 s := by
  have passed : runningWith (fun s => decide (s.acked = 1) && decide (s.sent = 1) && decide (s.input.length = 1) &&
      s.lastWin == 0 && s.dupAck == 0 && decide (s.lastInRead ≠ 0) && decide (s.pfdsCount = 2))
      ([byteEvent,ackEvent 1 0].foldlM (next steadyHost 0) (.running (start manyPlaces))) = true := by decide +kernel
  obtain ⟨s,played,test⟩ := exists_of_runningWith passed
  simp only [Bool.and_eq_true,decide_eq_true_eq,beq_iff_eq] at test
  obtain ⟨⟨⟨⟨⟨⟨acked,sent⟩,read⟩,window⟩,dupAck⟩,more⟩,polled⟩ := test
  refine ⟨s,?_,acked,sent,read,window,dupAck,more,fun _ => polled⟩
  exact Reach.play (fun c event d taken => ⟨event,trivial,next_step steadyHost 0 c event d taken⟩)
    (.start _ manyPlaces_start) _ played

theorem waiting_read {k : Nat} {s : Sender} (reached : Reached s) (waiting : Waiting k s) (room : k < 256) :
    ∃ t, Reached t ∧ Waiting (k + 1) t := by
  obtain ⟨valid,polls,capacity⟩ := reachable_valid reached rfl
  obtain ⟨more,free⟩ := polls (waiting.polled room)
  have after := valid.queued oneByte more free
  generalize taken : Sender.queued steadyHost.crc32 s oneByte = t at after
  have acked : t.acked = 1 := by rw [← taken]; exact waiting.acked
  have sent : t.sent = 1 := by rw [← taken]; exact waiting.sent
  have window : t.lastWin = 0 := by rw [← taken]; exact waiting.window
  have dupAck : t.dupAck = 0 := by rw [← taken]; exact waiting.dupAck
  have lastInRead : t.lastInRead = 1 := by rw [← taken]; rfl
  have places : t.sendBuf.capacity = 256 := by rw [← taken]; exact capacity
  have read : t.input.length = 1 + (k + 1) := by
    rw [← taken]
    simp [Sender.queued,waiting.read,Nat.add_assoc]
  have file : (readSocket steadyHost Pkt.zero none s).andThen
    (readFile steadyHost (some (.data oneByte))) = .ret t := by
    rw [← taken]
    exact readFile_next Pkt.zero oneByte (waiting.polled room) free
  have closed : doSendSbuf steadyHost t = .ret t := by
    have stopped : ¬ (t.lastSent ≠ t.lastChunkRead ∧ canSend t = true) := by
      intro going
      have allowed := ((going_iff after).mp going).2
      rw [window] at allowed
      exact absurd allowed (Nat.not_lt_zero _)
    rw [doSendSbuf,sendLoop,if_neg stopped]
  have turned : turn steadyHost 0 s (.ready Pkt.zero none (some (.data oneByte))) = some (.ret (choosePolled t)) := by
    rw [turn,file,Outcome.ret_andThen,closed,Outcome.ret_andThen]
  have running : afterTurn (.ret (choosePolled t)) = .running (choosePolled t) := by
    have unended : (choosePolled t).lastInRead ≠ 0 := by
      change t.lastInRead ≠ 0
      rw [lastInRead]
      decide
    rw [afterTurn,if_pos (Or.inl unended)]
  have stepped := Step.turn 0 s _ _ turned
  rw [running] at stepped
  refine ⟨choosePolled t,.step _ _ _ reached trivial stepped,acked,sent,read,window,dupAck,?_,?_⟩
  · change t.lastInRead ≠ 0
    rw [lastInRead]
    decide
  · intro below
    have free' : pktbufFull t.sendBuf = false := by
      refine pktbufFull_false ?_
      rw [after.size,read,acked,places]
      change 1 + (k + 1) - 1 < 256
      omega
    simp only [choosePolled,free',lastInRead]
    decide

theorem waiting_full : ∀ k ≤ 256, ∃ s, Reached s ∧ Waiting k s := by
  intro k bound
  induction k with
  | zero => exact waiting_start
  | succ k ih =>
    obtain ⟨s,reached,waiting⟩ := ih (by omega)
    exact waiting_read reached waiting (by omega)

def reopening : Recv := .datagram (Codec.image Lib.Crc.crc32
  { Pkt.zero with type := ptypeAck, seq := 1, window := 31 })

theorem waiting_reopened {s : Sender} (reached : Reached s) (waiting : Waiting 256 s) {input : Recv} {pkt : Pkt}
    (received : netRecvPkt steadyHost Pkt.zero 1 0 input = (.netOk,pkt)) (type : pkt.type = ptypeAck)
    (seq : pkt.seq = 1) (window : pkt.window = 31) : ∃ t, readSocket steadyHost Pkt.zero (some input) s = .ret t ∧
      Valid steadyHost.crc32 t ∧ unsent t = 256 ∧ t.outstanding = 0 ∧ t.lastWin = 31 := by
  obtain ⟨valid,polls,_⟩ := reachable_valid reached rfl
  have lastAck : s.lastAck = 1 := by rw [valid.lastAck,waiting.acked]; rfl
  have none : s.lastSent - s.lastAck + 1 = 0 := by
    apply UInt8.toNat_inj.mp
    rw [valid.win,Sender.outstanding,waiting.sent,waiting.acked]
    rfl
  have found : netRecvPkt steadyHost Pkt.zero s.lastAck (s.lastSent - s.lastAck + 1) input = (.netOk,pkt) := by
    rw [none,lastAck]
    exact received
  have inside := (netRecvPkt_ok found).2
  rw [valid.win] at inside
  have idle : Valid steadyHost.crc32 { s with retryCount := 0 } := valid.frame rfl
  have response := @processPkt_response steadyHost steadyHost.crc32 _ idle pkt inside
  have handled : readSocket steadyHost Pkt.zero (some input) s = processPkt steadyHost pkt
    { s with retryCount := 0 } := by
    simp only [readSocket,handleSocketRead,found]
  have one : s.dupAck + 1 = 1 := by rw [waiting.dupAck]; rfl
  have heard : Valid steadyHost.crc32 (Sender.heard { s with retryCount := 0 } pkt) := idle.heard pkt
  rw [handled]
  generalize processPkt steadyHost pkt { s with retryCount := 0 } = outcome at response
  cases response with
  | ignored other => exact absurd type other.1
  | notFound nack _ => exact absurd (nack.symm.trans type) (by decide)
  | resent nack _ _ => exact absurd (nack.symm.trans type) (by decide)
  | repeated _ _ _ =>
    refine ⟨_,rfl,heard.frame rfl,?_,?_,?_⟩
    · change s.input.length - s.sent = 256
      rw [waiting.read,waiting.sent]
    · change s.sent - s.acked = 0
      rw [waiting.sent,waiting.acked]
    · change UInt8.ofNat pkt.window.toNat = 31
      rw [window]
      rfl
  | nothing _ _ third _ => exact absurd (one.symm.trans third) (by decide)
  | fast _ _ third _ => exact absurd (one.symm.trans third) (by decide)
  | acked _ moved => exact absurd (seq.trans lastAck.symm) moved

/-- A sender with 256 unsent chunks and an open window sends nothing. -/
theorem doSendSbuf_stuck : ¬ ∀ (h : Host) (capacity : UInt32) (r s : Sender) (stale : Pkt) (socket : Option Recv)
    (file : Option ReadResult), Reach (Start capacity) (Step h) (fun _ _ => True) (.running r) →
    (readSocket h stale socket r).andThen (readFile h file) = .ret s → (∀ n, h.sendOk n = true) →
    SendsAllowed h s := by
  intro claim
  obtain ⟨r,reached,waiting⟩ := waiting_full 256 (Nat.le_refl _)
  have fields : (netRecvPkt steadyHost Pkt.zero 1 0 reopening).1 = .netOk ∧
      (netRecvPkt steadyHost Pkt.zero 1 0 reopening).2.type = ptypeAck ∧
      (netRecvPkt steadyHost Pkt.zero 1 0 reopening).2.seq = 1 ∧
      (netRecvPkt steadyHost Pkt.zero 1 0 reopening).2.window = 31 := by decide +kernel
  generalize reopening = input at fields
  obtain ⟨ok,type,seq,window⟩ := fields
  obtain ⟨s,read,after,left,outstanding,opened⟩ := waiting_reopened reached waiting (Prod.ext ok rfl) type seq window
  have called : (readSocket steadyHost Pkt.zero (some input) r).andThen (readFile steadyHost none) = .ret s := by
    rw [read,Outcome.ret_andThen,readFile,ite_self]
  obtain ⟨t,ended,_,allowed⟩ := claim steadyHost 256 r s Pkt.zero (some input) none reached called (fun _ => rfl)
  obtain ⟨u,ended',_,drained⟩ := @doSendSbuf_sends steadyHost s (fun _ => rfl) after
  obtain rfl := Outcome.ret.inj (ended.symm.trans ended')
  have stuck := drained.mp allowed
  rw [left,outstanding,opened] at stuck
  exact absurd stuck (by decide)

end Trtp.Aliasing
