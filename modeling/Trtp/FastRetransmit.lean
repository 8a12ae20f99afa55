import Trtp.SenderRuns

/-! Fast retransmission.
process_dup_ack sends the first packet of the buffer without looking whether there
is one. An empty buffer does not prevent acknowledgements from being repeated, so
what decides is how many of them arrive while the buffer stays empty. -/
namespace Trtp.FastRetransmit
open Lib.Circular Lib.Run Lib.Serial Packet Process Buffer Net Transmit SendBuffer SenderRuns

/-- The socket holds an ACK that is accepted and repeats `last_ack`. -/
def repeats (h : Host) (s : Sender) (stale : Pkt) (input : Recv) : Bool :=
  match netRecvPkt h stale s.lastAck (s.lastSent - s.lastAck + 1) input with
  | (.netOk,pkt) => pkt.type == ptypeAck && pkt.seq == s.lastAck
  | _ => false

def eventRepeats (h : Host) (s : Sender) : Event → Bool
  | .ready stale (some input) _ => repeats h s stale input
  | _ => false

/-- How often `last_ack` was repeated since the buffer became empty, 0 while it is not. -/
def idleRepeats (h : Host) (idle : Nat) (event : Event) : Config Halt Sender → Config Halt Sender → Nat
  | .running s, .running t =>
    if pktbufEmpty s.sendBuf && pktbufEmpty t.sendBuf then
      if eventRepeats h s event then idle + 1 else idle
    else 0
  | _, _ => 0

def WatchedStep (h : Host) (before : Config Halt Sender × Nat) (event : Event)
    (after : Config Halt Sender × Nat) : Prop :=
  Step h before.1 event after.1 ∧ after.2 = idleRepeats h before.2 event before.1 after.1

def WatchedStart (capacity : UInt32) (first : Config Halt Sender × Nat) : Prop :=
  Start capacity first.1 ∧ first.2 = 0

variable {h : Host} {s : Sender}

inductive Counted (h : Host) (s : Sender) (stale : Pkt) (input : Recv) (t : Sender) : Prop
  | kept (other : repeats h s stale input = false) (buffer : t.sendBuf = s.sendBuf) (dupAck : t.dupAck = s.dupAck)
  | counted (again : repeats h s stale input = true) (buffer : t.sendBuf = s.sendBuf)
      (few : s.dupAck + 1 ≠ maxDupAck) (dupAck : t.dupAck = s.dupAck + 1)
  | cleared (live : pktbufEmpty s.sendBuf = false) (dupAck : t.dupAck = 0)

theorem handleSocketRead_counted (valid : Valid h.crc32 s) (stale : Pkt) (input : Recv) {t : Sender}
    (ended : handleSocketRead h stale input s = .ret t) : Counted h s stale input t := by
  rcases handleSocketRead_cases valid stale input with failed | ⟨refused,dropped⟩ | ⟨pkt,received,inside,response⟩
  · rw [failed] at ended
    contradiction
  · rw [dropped] at ended
    obtain rfl := Outcome.ret.inj ended
    refine .kept ?_ rfl rfl
    unfold repeats
    split
    next pkt found => exact absurd found (refused pkt)
    next => rfl
  · have again : repeats h s stale input = (pkt.type == ptypeAck && pkt.seq == s.lastAck) := by
      simp only [repeats,received]
    have types : ptypeNack ≠ ptypeAck := by decide
    generalize handleSocketRead h stale input s = outcome at response ended
    cases response with
    | ignored other =>
      obtain rfl := Outcome.ret.inj ended
      exact .kept (by simp [again,other.1]) rfl rfl
    | notFound nack absent =>
      obtain rfl := Outcome.ret.inj ended
      exact .kept (by simp [again,nack,types]) rfl rfl
    | resent nack place found =>
      obtain rfl := sendPlace_ret ended
      exact .kept (by simp [again,nack,types]) rfl rfl
    | repeated ack same few =>
      obtain rfl := Outcome.ret.inj ended
      exact .counted (by simp [again,ack,same]) rfl few rfl
    | nothing ack same third empty => contradiction
    | fast ack same third live =>
      obtain rfl := sendPlace_ret ended
      exact .cleared (pktbufEmpty_false live) rfl
    | acked ack moved =>
      obtain rfl := Outcome.ret.inj ended
      refine .cleared ?_ rfl
      have read := valid.sentRead
      have ordered := valid.ackedSent
      have forward : 0 < (pkt.seq - s.lastAck).toNat := by
        rw [Nat.pos_iff_ne_zero]
        intro zero
        have none : pkt.seq - s.lastAck = 0 := UInt8.toNat_inj.mp zero
        exact moved (by grind)
      apply pktbufEmpty_false
      rw [valid.size]
      unfold Sender.outstanding at inside
      omega

structure Settled (s t : Sender) : Prop where
  dupAck : t.dupAck = s.dupAck
  acked : t.acked = s.acked
  read : s.input.length ≤ t.input.length

theorem Settled.empty {crc32 : List UInt8 → UInt32} {t : Sender} (settled : Settled s t) (before : Valid crc32 s)
    (after : Valid crc32 t) (empty : pktbufEmpty t.sendBuf = true) : pktbufEmpty s.sendBuf = true := by
  have ordered := before.ackedSent
  have sent := before.sentRead
  have acked := settled.acked
  have read := settled.read
  rw [after.empty_iff] at empty
  rw [before.empty_iff]
  omega

theorem rest_settled (valid : Valid h.crc32 s) (polls : Polls s) (file : Option ReadResult) :
    (((readFile h file s).andThen (doSendSbuf h)).andThen fun t => .ret (choosePolled t)).Meets
      (fun t => Valid h.crc32 t ∧ Settled s t) (fun _ => True) (fun _ _ => True) := by
  have input := @readFile_meets h s (Settled s) (fun _ => True) (fun _ _ => True) valid polls
    file ⟨rfl,rfl,Nat.le_refl _⟩ (fun bytes _ => ⟨rfl,rfl,by simp [Sender.queued]⟩) (fun _ => trivial)
  have output : ((readFile h file s).andThen (doSendSbuf h)).Meets
      (fun t => Valid h.crc32 t ∧ Settled s t) (fun _ => True) (fun _ _ => True) := by
    refine input.andThen ?_
    rintro t ⟨after,settled⟩
    have loop := @sendLoop_meets h t (Settled s) (fun _ => True)
      (fun u _ _ kept _ _ => ⟨kept.dupAck,kept.acked,kept.read⟩) (fun _ _ _ _ => trivial) 256 after settled
    exact loop.mono (fun _ both => both) (fun _ _ => trivial) (fun _ _ _ => trivial)
  refine output.andThen ?_
  rintro t ⟨after,settled⟩
  exact ⟨after.frame rfl,⟨settled.dupAck,settled.acked,settled.read⟩⟩

structure Counting (s : Sender) (idle : Nat) : Prop where
  few : s.dupAck.toNat ≤ 2
  same : pktbufEmpty s.sendBuf = true → s.dupAck.toNat = idle

theorem below_max {dupAck : UInt8} (few : dupAck.toNat ≤ 2) (notThird : dupAck + 1 ≠ maxDupAck) :
    (dupAck + 1).toNat = dupAck.toNat + 1 ∧ dupAck.toNat + 1 ≤ 2 := by
  have next : (dupAck + 1).toNat = dupAck.toNat + 1 := by
    rw [UInt8.toNat_add,UInt8.toNat_one]
    omega
  refine ⟨next,?_⟩
  by_contra many
  apply notThird
  apply UInt8.toNat_inj.mp
  rw [next]
  change dupAck.toNat + 1 = 3
  omega

/-- Step lemma: the count goes on from one turn to the next. -/
theorem turn_counting (valid : Valid h.crc32 s) (polls : Polls s) {idle : Nat} (counting : Counting s idle)
    (fuel : Nat) (event : Event) {t : Sender} (taken : turn h fuel s event = some (.ret t)) :
    Counting t (idleRepeats h idle event (.running s) (.running t)) := by
  cases event with
  | failed => simp [turn] at taken
  | timeout =>
    cases turn_expiry valid taken with
    | again live few _ ended =>
      have cleared := resend_dupAck fuel _ ended
      refine ⟨by rw [cleared]; decide,?_⟩
      intro _
      rw [cleared,idleRepeats,live]
      rfl
    | idle empty =>
      refine ⟨counting.few,?_⟩
      intro _
      rw [idleRepeats,empty]
      exact counting.same empty
  | ready stale socket file =>
    have split := Option.some.inj taken
    rw [Outcome.andThen_assoc,Outcome.andThen_assoc] at split
    obtain ⟨u,first,rest⟩ := Outcome.andThen_ret split
    have met := (readSocket_meets valid polls stale socket).of_ret first
    obtain ⟨after,stillPolls,_⟩ := met
    have settling := rest_settled after stillPolls file
    rw [Outcome.andThen_assoc] at settling
    obtain ⟨final,settled⟩ := settling.of_ret rest
    have empties := settled.empty after final
    cases socket with
    | none =>
      obtain rfl := Outcome.ret.inj first
      refine ⟨by rw [settled.dupAck]; exact counting.few,?_⟩
      intro empty
      rw [idleRepeats,empties empty,empty,settled.dupAck]
      exact counting.same (empties empty)
    | some input =>
      cases handleSocketRead_counted valid stale input first with
      | kept other buffer dupAck =>
        refine ⟨by rw [settled.dupAck,dupAck]; exact counting.few,?_⟩
        intro empty
        have before : pktbufEmpty s.sendBuf = true := by rw [← buffer]; exact empties empty
        simp only [idleRepeats,before,empty,eventRepeats,other,Bool.and_self,if_true,settled.dupAck,dupAck]
        exact counting.same before
      | counted again buffer few dupAck =>
        obtain ⟨next,bound⟩ := below_max counting.few few
        refine ⟨by rw [settled.dupAck,dupAck,next]; exact bound,?_⟩
        intro empty
        have before : pktbufEmpty s.sendBuf = true := by rw [← buffer]; exact empties empty
        simp only [idleRepeats,before,empty,eventRepeats,again,Bool.and_self,if_true,settled.dupAck,dupAck,next]
        rw [counting.same before]
      | cleared live dupAck =>
        refine ⟨by rw [settled.dupAck,dupAck]; decide,?_⟩
        intro _
        rw [settled.dupAck,dupAck,idleRepeats,live]
        rfl

theorem reachable_counting {capacity : UInt32} {watched : Config Halt Sender × Nat}
    (reached : Reach (WatchedStart capacity) (WatchedStep h) (fun _ _ => True) watched) :
    Reach (Start capacity) (Step h) (fun _ _ => True) watched.1 ∧
      ∀ s, watched.1 = .running s → Counting s watched.2 := by
  induction reached with
  | start first started =>
    refine ⟨.start _ started.1,?_⟩
    intro s running
    obtain ⟨buf,_,begun⟩ := started.1
    rw [begun] at running
    obtain rfl := Config.running.inj running
    rw [started.2]
    exact ⟨Nat.zero_le 2,fun _ => rfl⟩
  | step before event after _ _ taken ih =>
    obtain ⟨c,idle⟩ := before
    obtain ⟨d,idle'⟩ := after
    obtain ⟨plain,counting⟩ := ih
    obtain ⟨moved,count⟩ := taken
    refine ⟨.step _ event _ plain trivial moved,?_⟩
    intro t running
    obtain ⟨fuel,s,event,outcome,ended⟩ := moved
    obtain ⟨valid,polls,_⟩ := reachable_valid plain rfl
    rw [afterTurn_running running] at ended
    simp only at running count
    rw [count,running]
    exact turn_counting valid polls (counting s rfl) fuel event ended

theorem handleSocketRead_halts_iff (valid : Valid h.crc32 s) (stale : Pkt) (input : Recv) :
    (∃ reason t, handleSocketRead h stale input s = .halt reason t) ↔
      pktbufEmpty s.sendBuf = true ∧ repeats h s stale input = true ∧ s.dupAck + 1 = maxDupAck := by
  have idle : Valid h.crc32 { s with retryCount := 0 } := valid.frame rfl
  constructor
  · rintro ⟨reason,t,halted⟩
    rcases handleSocketRead_cases valid stale input with failed | ⟨_,dropped⟩ | ⟨pkt,received,inside,response⟩
    · rw [failed] at halted
      contradiction
    · rw [dropped] at halted
      contradiction
    · generalize handleSocketRead h stale input s = outcome at response halted
      cases response with
      | resent nack place found => exact absurd halted (sendPlace_not_halt _ _ _ _)
      | fast ack same third live => exact absurd halted (sendPlace_not_halt _ _ _ _)
      | nothing ack same third empty =>
        refine ⟨(pktbufEmpty_iff _).mpr empty,?_,third⟩
        simp [repeats,received,ack,same]
      | ignored other => contradiction
      | notFound nack absent => contradiction
      | repeated ack same few => contradiction
      | acked ack moved => contradiction
  · rintro ⟨empty,again,third⟩
    unfold repeats at again
    split at again
    next pkt received =>
      rw [Bool.and_eq_true,beq_iff_eq,beq_iff_eq] at again
      obtain ⟨ack,same⟩ := again
      have inside := (netRecvPkt_ok received).2
      rw [valid.win] at inside
      have response := @processPkt_response h h.crc32 _ idle pkt inside
      simp only [handleSocketRead,received]
      generalize processPkt h pkt { s with retryCount := 0 } = outcome at response
      have types : ptypeNack ≠ ptypeAck := by decide
      cases response with
      | nothing _ _ _ _ => exact ⟨_,_,rfl⟩
      | ignored other => exact absurd ack other.1
      | notFound nack absent => exact absurd (nack.symm.trans ack) types
      | resent nack place found => exact absurd (nack.symm.trans ack) types
      | repeated _ _ few => exact absurd third few
      | fast _ _ _ live =>
        rw [pktbufEmpty_false live] at empty
        contradiction
      | acked _ moved => exact absurd same moved
    next => contradiction

/-- The packet that process_dup_ack hands to net_send is missing exactly when the
acknowledgement is the third one accepted, since the buffer became empty, that
repeats `last_ack`. -/
theorem fastRetransmission_iff (h : Host) (capacity : UInt32) (s : Sender) (idle : Nat)
    (reached : Reach (WatchedStart capacity) (WatchedStep h) (fun _ _ => True) (.running s,idle))
    (stale : Pkt) (input : Recv) :
    (∀ reason t, handleSocketRead h stale input s ≠ .halt reason t) ↔
      ¬ (pktbufEmpty s.sendBuf = true ∧ repeats h s stale input = true ∧ idle = 2) := by
  obtain ⟨plain,counting⟩ := reachable_counting reached
  obtain ⟨valid,_,_⟩ := reachable_valid plain rfl
  have same := (counting s rfl).same
  have third : s.dupAck + 1 = maxDupAck ↔ s.dupAck.toNat = 2 := by
    constructor
    · intro reached
      by_contra other
      have moved : s.dupAck = maxDupAck - 1 := by grind
      exact other (by rw [moved]; decide)
    · intro two
      have value : s.dupAck = 2 := UInt8.toNat_inj.mp two
      rw [value]
      rfl
  constructor
  · rintro alive ⟨empty,again,two⟩
    have count : s.dupAck.toNat = 2 := (same empty).trans two
    obtain ⟨reason,t,halted⟩ :=
      (handleSocketRead_halts_iff valid stale input).mpr ⟨empty,again,third.mpr count⟩
    exact alive reason t halted
  · intro harmless reason t halted
    obtain ⟨empty,again,last⟩ := (handleSocketRead_halts_iff valid stale input).mp ⟨reason,t,halted⟩
    exact harmless ⟨empty,again,(same empty).symm.trans (third.mp last)⟩

def crashed : Option (Config Halt Sender) → Bool
  | some (.halted .segv _) => true
  | _ => false

theorem exists_of_crashed {found : Option (Config Halt Sender)} (crash : crashed found = true) :
    ∃ t, found = some (.halted .segv t) := by
  unfold crashed at crash
  split at crash
  next t => exact ⟨t,rfl⟩
  next => contradiction

/-- Three times the same acknowledgement before any input: the third one follows NULL. -/
theorem fastRetransmission_null :
    ∃ s t, [ackEvent 0 31,ackEvent 0 31].foldlM (next steadyHost 0) (.running (Transmit.start fourPlaces)) =
        some (.running s) ∧
      Reach (Start 4) (Step steadyHost) (fun _ _ => True) (.running s) ∧ pktbufFirst s.sendBuf = none ∧
      Step steadyHost (.running s) (ackEvent 0 31) (.halted .segv t) := by
  have passed : runningWith (fun s => (pktbufFirst s.sendBuf).isNone &&
        crashed (next steadyHost 0 (.running s) (ackEvent 0 31)))
      ([ackEvent 0 31,ackEvent 0 31].foldlM (next steadyHost 0) (.running (Transmit.start fourPlaces))) =
      true := by decide +kernel
  obtain ⟨s,played,test⟩ := exists_of_runningWith passed
  rw [Bool.and_eq_true,Option.isNone_iff_eq_none] at test
  obtain ⟨missing,death⟩ := test
  obtain ⟨t,stepped⟩ := exists_of_crashed death
  exact ⟨s,t,played,fourPlaces_play steadyHost 0 _ played,missing,next_step steadyHost 0 _ _ _ stepped⟩

def watch (h : Host) (before : Config Halt Sender × Nat) (event : Event) : Option (Config Halt Sender × Nat) :=
  (next h 0 before.1 event).map fun d => (d,idleRepeats h before.2 event before.1 d)

theorem watch_step {before after : Config Halt Sender × Nat} {event : Event}
    (watched : watch h before event = some after) :
    WatchedStep h before event after := by
  obtain ⟨d,taken,rfl⟩ := Option.map_eq_some_iff.mp watched
  exact ⟨next_step h 0 _ _ _ taken,rfl⟩

theorem watch_play {h : Host} {events : List Event} {after : Config Halt Sender × Nat}
    (played : events.foldlM (watch h) (.running (Transmit.start fourPlaces),0) = some after) :
    Reach (WatchedStart 4) (WatchedStep h) (fun _ _ => True) after := by
  refine Reach.play ?_ (.start _ ⟨fourPlaces_start,rfl⟩) events played
  exact fun _ event _ watched => ⟨event,trivial,watch_step watched⟩

def watchedWith (test : Sender → Nat → Bool) : Option (Config Halt Sender × Nat) → Bool
  | some (.running s,idle) => test s idle
  | _ => false

theorem exists_of_watchedWith {test : Sender → Nat → Bool} {found : Option (Config Halt Sender × Nat)}
    (passed : watchedWith test found = true) : ∃ s idle, found = some (.running s,idle) ∧ test s idle = true := by
  unfold watchedWith at passed
  split at passed
  next s idle => exact ⟨s,idle,rfl,passed⟩
  next => contradiction

/-- Two repetitions find the buffer empty, then a chunk is read: the third one sends it again. -/
theorem fastRetransmission_read :
    ∃ s : Sender, s.dupAck = 2 ∧ pktbufEmpty s.sendBuf = false ∧
      ¬ ∃ reason t, handleSocketRead steadyHost Pkt.zero (.datagram (Codec.image Lib.Crc.crc32
        { Pkt.zero with type := ptypeAck, window := 31 })) s = .halt reason t := by
  have passed : watchedWith (fun s idle => s.dupAck == 2 && (!pktbufEmpty s.sendBuf && idle == 0))
      ([ackEvent 0 31,ackEvent 0 31,byteEvent].foldlM (watch steadyHost) (.running (Transmit.start fourPlaces),0)) =
      true := by decide +kernel
  obtain ⟨s,idle,played,test⟩ := exists_of_watchedWith passed
  simp only [Bool.and_eq_true,beq_iff_eq,Bool.not_eq_true'] at test
  obtain ⟨twice,live,none⟩ := test
  refine ⟨s,twice,live,?_⟩
  rintro ⟨reason,t,halted⟩
  refine (fastRetransmission_iff steadyHost 4 s idle (watch_play played) Pkt.zero _).mpr ?_ reason t halted
  exact fun all => Bool.false_ne_true (live.symm.trans all.1)

end Trtp.FastRetransmit
