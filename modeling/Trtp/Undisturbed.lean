import Trtp.Silence
import Trtp.PairFlow

/-! Datagrams that mean nothing to the sender: damaged, out of its window, or neither
an ACK nor a NACK. However many of them arrive, and wherever in the run, the transfer
goes on as it would have done without them. -/
namespace Trtp.Undisturbed
open Lib.Run Packet Process Buffer Net Transmit SendBuffer SenderRuns Retransmission Silence PairFlow

/-- The same state, except that fewer expiries may have been counted. -/
def Alike (s t : Sender) : Prop := ∃ count ≤ s.retryCount, t = Sender.retried count s

/-- What handle_socket_read drops, without an error of recvfrom. -/
structure Ignored (h : Host) (s : Sender) (stale : Pkt) (input : Recv) : Prop where
  received : (netRecvPkt h stale s.lastAck (s.lastSent - s.lastAck + 1) input).1 ≠ .netError
  other : ∀ pkt, netRecvPkt h stale s.lastAck (s.lastSent - s.lastAck + 1) input = (.netOk,pkt) →
    pkt.type ≠ ptypeAck ∧ pkt.type ≠ ptypeNack

/-- A run on the events `quiet`, and the events `noisy` in which ignored datagrams come on
top: where only the file or nothing at all was ready. -/
inductive Disturbed (h : Host) : Config Halt Sender → List Event → List Event → Config Halt Sender → Prop
  | done (c : Config Halt Sender) : Disturbed h c [] [] c
  | kept (c : Config Halt Sender) (event : Event) (middle : Config Halt Sender) (quiet noisy : List Event)
      (d : Config Halt Sender) (taken : Step h c event middle) (later : Disturbed h middle quiet noisy d) :
      Disturbed h c (event :: quiet) (event :: noisy) d
  | along (s : Sender) (blank stale : Pkt) (input : Recv) (file : Option ReadResult) (middle : Config Halt Sender)
      (quiet noisy : List Event) (d : Config Halt Sender) (ignored : Ignored h s stale input)
      (taken : Step h (.running s) (.ready blank none file) middle) (later : Disturbed h middle quiet noisy d) :
      Disturbed h (.running s) (.ready blank none file :: quiet) (.ready stale (some input) file :: noisy) d
  | between (s : Sender) (stale : Pkt) (input : Recv) (quiet noisy : List Event) (d : Config Halt Sender)
      (ignored : Ignored h s stale input) (later : Disturbed h (.running s) quiet noisy d) :
      Disturbed h (.running s) quiet (.ready stale (some input) none :: noisy) d

variable {h : Host} {s t : Sender}

theorem handleSocketRead_ignored {stale : Pkt} {input : Recv} (ignored : Ignored h s stale input) :
    handleSocketRead h stale input s = .ret (Sender.retried 0 s) := by
  obtain ⟨received,other⟩ := ignored
  rw [handleSocketRead]
  simp only
  generalize netRecvPkt h stale s.lastAck (s.lastSent - s.lastAck + 1) input = answer at received other
  obtain ⟨status,pkt⟩ := answer
  cases status with
  | netOk => exact if_pos (other pkt rfl)
  | netError => exact absurd rfl received
  | netDrop => rfl

structure Idle (s : Sender) : Prop where
  sent : ¬ (s.lastSent ≠ s.lastChunkRead ∧ canSend s = true)
  polled : s.pfdsCount = (choosePolled s).pfdsCount
  going : s.lastInRead ≠ 0 ∨ (!pktbufEmpty s.sendBuf) = true

theorem Idle.frame (idle : Idle s) (core : Sender.core t = Sender.core s)
    (polled : t.pfdsCount = s.pfdsCount) : Idle t := by
  have buffer : t.sendBuf = s.sendBuf := congrArg (fun u => u.sendBuf) core
  have last : t.lastInRead = s.lastInRead := congrArg (fun u => u.lastInRead) core
  have sent : t.lastSent = s.lastSent := congrArg (fun u => u.lastSent) core
  have read : t.lastChunkRead = s.lastChunkRead := congrArg (fun u => u.lastChunkRead) core
  have acked : t.lastAck = s.lastAck := congrArg (fun u => u.lastAck) core
  have window : t.lastWin = s.lastWin := congrArg (fun u => u.lastWin) core
  refine ⟨?_,?_,?_⟩
  · rw [sent,read,canSend,buffer,sent,acked,window]
    exact idle.sent
  · rw [polled,idle.polled,choosePolled,choosePolled,buffer,last]
  · rw [buffer,last]
    exact idle.going

theorem rest_idle (idle : Idle s) : rest h none s = .ret s := by
  have read : readFile h none s = .ret s := by
    rw [readFile]
    split
    next found => simp at found
    next => rfl
  have sent : doSendSbuf h s = .ret s := by
    rw [doSendSbuf,sendLoop,if_neg idle.sent]
  have polled : choosePolled s = s := by
    change { s with pfdsCount := (choosePolled s).pfdsCount } = s
    rw [← idle.polled]
  rw [rest,read,Outcome.ret_andThen,sent,Outcome.ret_andThen,polled]

theorem turn_idle (valid : Valid h.crc32 s) (polls : Polls s) (idle : Idle s) (fuel : Nat) (event : Event)
    (taken : turn h fuel s event = some (.ret t)) (going : t.lastInRead ≠ 0 ∨ (!pktbufEmpty t.sendBuf) = true) :
    Idle t := by
  cases event with
  | failed => simp [turn] at taken
  | timeout =>
    obtain ⟨core,polled⟩ := (turn_expiry valid taken).core valid
    exact idle.frame core polled
  | ready stale socket file =>
    rw [turn_ready] at taken
    obtain ⟨u,first,later⟩ := Outcome.andThen_ret (Option.some.inj taken)
    obtain ⟨w,before,chosen⟩ := Outcome.andThen_ret later
    obtain ⟨v,filed,ended⟩ := Outcome.andThen_ret before
    obtain rfl := Outcome.ret.inj chosen
    obtain ⟨after,stillPolls,_⟩ := (readSocket_meets valid polls stale socket).of_ret first
    have read := @readFile_meets h u (fun _ => True) (fun _ => True) (fun _ _ => True) after stillPolls file trivial
      (fun _ _ => trivial) (fun _ => trivial)
    have enough : v.lastWin.toNat < v.outstanding + 256 := by
      have bound := v.lastWin.toNat_lt
      omega
    have done : ¬ (w.lastSent ≠ w.lastChunkRead ∧ canSend w = true) :=
      sendLoop_done 256 (read.of_ret filed).1 enough ended
    exact ⟨done,rfl,going⟩

theorem reachable_idle {capacity : UInt32} {c : Config Halt Sender}
    (reached : Reach (Start capacity) (Step h) (fun _ _ => True) c) : ∀ s, c = .running s → Idle s := by
  induction reached with
  | start c first =>
    rintro s running
    obtain ⟨buf,made,begun⟩ := first
    rw [begun] at running
    obtain rfl := Config.running.inj running
    obtain ⟨_,polls⟩ := @start_valid h.crc32 capacity buf made
    have unread : (start buf).lastInRead ≠ 0 := by
      change (-1 : Int) ≠ 0
      decide
    have room : pktbufFull (start buf).sendBuf = false := pktbufFull_false (polls rfl).2
    refine ⟨fun both => both.1 rfl,?_,Or.inl unread⟩
    exact (if_pos ⟨unread,by rw [room]; rfl⟩).symm
  | step c event d before _ taken ih =>
    intro t running
    obtain ⟨fuel,s,event,outcome,ended⟩ := taken
    obtain ⟨valid,polls,_⟩ := reachable_valid before rfl
    obtain rfl := afterTurn_running running
    have going : t.lastInRead ≠ 0 ∨ (!pktbufEmpty t.sendBuf) = true := by
      by_contra ended'
      rw [afterTurn,if_neg ended'] at running
      contradiction
    exact turn_idle valid polls (ih s rfl) fuel event ended going

theorem Alike.refl (s : Sender) : Alike s s := ⟨s.retryCount,Nat.le_refl _,rfl⟩

theorem turn_alike (alike : Alike s t) (fuel : Nat) (event : Event) {u : Sender}
    (taken : turn h fuel s event = some (.ret u)) : ∃ v, turn h fuel t event = some (.ret v) ∧ Alike u v := by
  obtain ⟨count,fewer,rfl⟩ := alike
  cases event with
  | failed => simp [turn] at taken
  | timeout =>
    have buffer : (Sender.retried count s).sendBuf = s.sendBuf := rfl
    simp only [turn,buffer] at taken ⊢
    split at taken
    next live =>
      rw [if_pos live]
      simp only [handleRetransmission] at taken ⊢
      split at taken
      next => simp at taken
      next few =>
        have same := @resend_retried h { s with retryCount := s.retryCount + 1 } fuel (count + 1) s.lastAck
        have counted := resend_retries fuel _ taken
        rw [taken] at same
        have still : ¬ (Sender.retried count s).retryCount + 1 > maxRetransmission := by
          change ¬ count + 1 > maxRetransmission
          omega
        rw [if_neg still]
        refine ⟨Sender.retried (count + 1) u,same,count + 1,?_,rfl⟩
        rw [counted]
        exact Nat.succ_le_succ fewer
    next empty =>
      obtain rfl := Outcome.ret.inj (Option.some.inj taken)
      exact ⟨_,if_neg empty,count,fewer,rfl⟩
  | ready stale socket file =>
    rw [turn_ready] at taken ⊢
    cases socket with
    | some input => exact ⟨u,taken,.refl u⟩
    | none =>
      have ended : rest h file s = .ret u := Option.some.inj taken
      have kept : Sender.retried s.retryCount u = u := (rest_commutes h file s.retryCount).kept rfl ended
      have same := rest_commutes h file count s
      rw [ended] at same
      refine ⟨Sender.retried count u,congrArg some same,count,?_,rfl⟩
      rw [← kept]
      exact fewer

theorem turn_noise (alike : Alike s t) {stale : Pkt} {input : Recv} (ignored : Ignored h s stale input)
    (file : Option ReadResult) (fuel : Nat) {u : Sender} (ended : rest h file s = .ret u) :
    turn h fuel t (.ready stale (some input) file) = some (.ret (Sender.retried 0 u)) := by
  obtain ⟨count,_,rfl⟩ := alike
  -- The count is set to zero before it could be seen.
  have read : readSocket h stale (some input) (Sender.retried count s) = .ret (Sender.retried 0 s) := by
    change handleSocketRead h stale input s = _
    exact handleSocketRead_ignored ignored
  have same := rest_commutes h file 0 s
  rw [ended] at same
  rw [turn_ready,read,Outcome.ret_andThen,same]
  rfl

theorem afterTurn_alike {u v : Sender} (alike : Alike u v) {c : Config Halt Sender} (ended : afterTurn (.ret u) = c) :
    Config.Alike Alike c (afterTurn (.ret v)) := by
  subst ended
  obtain ⟨count,fewer,rfl⟩ := alike
  have last : (Sender.retried count u).lastInRead = u.lastInRead := rfl
  have buffer : (Sender.retried count u).sendBuf = u.sendBuf := rfl
  rw [afterTurn,afterTurn,last,buffer]
  split
  next => exact .running u _ ⟨count,fewer,rfl⟩
  next => exact .returned 0 u _ ⟨count,fewer,rfl⟩

theorem Disturbed.stopped {c d : Config Halt Sender} {quiet noisy : List Event} {u : Sender}
    (disturbed : Disturbed h c quiet noisy d) (unfailed : d.Unfailed u) : ∃ s, c.Unfailed s := by
  cases disturbed with
  | done c => exact ⟨u,unfailed⟩
  | kept c event middle quiet noisy d taken later =>
    obtain ⟨fuel,s,_,_,_⟩ := taken
    exact ⟨s,Or.inl rfl⟩
  | along s => exact ⟨s,Or.inl rfl⟩
  | between s => exact ⟨s,Or.inl rfl⟩

/-- Run lemma: from alike states, the noisy run has one end, alike the quiet one. -/
theorem Disturbed.runs {capacity : UInt32} {c d e : Config Halt Sender} {quiet noisy : List Event} {u : Sender}
    (disturbed : Disturbed h c quiet noisy d) (reached : Reach (Start capacity) (Step h) (fun _ _ => True) c)
    (alike : Config.Alike Alike c e) (unfailed : d.Unfailed u) :
    ∃ f, Config.Alike Alike d f ∧ ∀ g, Runs (Step h) e noisy g ↔ g = f := by
  induction disturbed generalizing e with
  | done c => exact ⟨e,alike,fun g => Runs.nil_iff⟩
  | kept c event middle quiet noisy d taken later ih =>
    have onward := reached.step _ event middle trivial taken
    obtain ⟨w,still⟩ := later.stopped unfailed
    obtain ⟨fuel,s,event,outcome,ended⟩ := taken
    obtain rfl := afterTurn_unfailed still
    cases alike with
    | running _ t related =>
      obtain ⟨v,turned,after⟩ := turn_alike related fuel event ended
      obtain ⟨f,same,only⟩ := ih onward (afterTurn_alike after rfl) unfailed
      exact ⟨f,same,fun g => (Runs.cons_iff (step_iff turned)).trans (only g)⟩
  | along s blank stale input file middle quiet noisy d ignored taken later ih =>
    have onward := reached.step _ _ middle trivial taken
    obtain ⟨w,still⟩ := later.stopped unfailed
    obtain ⟨fuel,_,_,outcome,ended⟩ := taken
    obtain rfl := afterTurn_unfailed still
    rw [turn_ready] at ended
    cases alike with
    | running _ t related =>
      have turned := turn_noise related ignored file fuel (Option.some.inj ended)
      obtain ⟨f,same,only⟩ := ih onward (afterTurn_alike ⟨0,Nat.zero_le _,rfl⟩ rfl) unfailed
      exact ⟨f,same,fun g => (Runs.cons_iff (step_iff turned)).trans (only g)⟩
  | between s stale input quiet noisy d ignored later ih =>
    have idle := reachable_idle reached s rfl
    cases alike with
    | running _ t related =>
      have turned := turn_noise related ignored none 0 (rest_idle idle)
      have going : afterTurn (.ret (Sender.retried 0 s)) = .running (Sender.retried 0 s) := if_pos idle.going
      have only := step_iff turned
      rw [going] at only
      obtain ⟨f,same,rest⟩ := ih reached (.running s _ ⟨0,Nat.zero_le _,rfl⟩) unfailed
      exact ⟨f,same,fun g => (Runs.cons_iff only).trans (rest g)⟩

/-- As long as the sender has not failed, the datagrams it ignores make no difference:
the run with them has exactly one end, which is that of the run without them. They only
start the count of expiries again, so that a transfer may be given up later. -/
theorem transmit_undisturbed (h : Host) (capacity : UInt32) (c d : Config Halt Sender) (first : Start capacity c)
    (quiet noisy : List Event) (disturbed : Disturbed h c quiet noisy d) (u : Sender) (unfailed : d.Unfailed u) :
    ∃ e, Config.Alike Alike d e ∧ ∀ f, Runs (Step h) c noisy f ↔ f = e := by
  have same : Config.Alike Alike c c := by
    obtain ⟨buf,_,rfl⟩ := first
    exact .running _ _ (.refl _)
  exact disturbed.runs (.start c first) same unfailed

theorem ignored_empty (h : Host) (s : Sender) (stale : Pkt) : Ignored h s stale (.datagram []) := by
  have dropped : (netRecvPkt h stale s.lastAck (s.lastSent - s.lastAck + 1) (.datagram [])).1 = .netDrop := rfl
  refine ⟨by rw [dropped]; decide,?_⟩
  intro pkt received
  rw [received] at dropped
  contradiction

theorem transmit_undisturbed_empty : ∃ t, t.wire.length = 1 ∧
    Runs (Step steadyHost) (.running (start fourPlaces))
      [.ready Pkt.zero (some (.datagram [])) none,byteEvent,.ready Pkt.zero (some (.datagram [])) none]
      (.running t) := by
  have runs : runningWith (fun s => s.wire.length == 1)
    (next steadyHost 0 (.running (start fourPlaces)) byteEvent) = true := by
    decide +kernel
  obtain ⟨s,played,passed⟩ := exists_of_runningWith runs
  have taken := next_step steadyHost 0 _ _ _ played
  have noise : Disturbed steadyHost (.running (start fourPlaces)) [byteEvent]
      [.ready Pkt.zero (some (.datagram [])) none,byteEvent,.ready Pkt.zero (some (.datagram [])) none] (.running s) :=
    .between _ _ _ _ _ _ (ignored_empty _ _ _) (.kept _ _ _ _ _ _ taken
      (.between _ _ _ _ _ _ (ignored_empty _ _ _) (.done _)))
  obtain ⟨e,alike,only⟩ := transmit_undisturbed steadyHost 4 _ _ fourPlaces_start _ _ noise s (Or.inl rfl)
  have run := (only e).mpr rfl
  cases alike with
  | running _ t related =>
    obtain ⟨count,_,rfl⟩ := related
    exact ⟨Sender.retried count s,beq_iff_eq.mp passed,run⟩

end Trtp.Undisturbed
