import Trtp.EndOfTransfer

/-! The last loop of receive and the socket that it polls.
A positive poll is answered by an ACK, but nothing is read from the socket, so that
the next poll reports the same datagram again. -/
namespace Trtp.Lingering
open Lib.Run Packet Process Net Receive ReceiveBuffer DataStream EndOfTransfer

structure Linger where
  receiver : Config Halt Receiver
  unread : List (List UInt8)

inductive Action where
  | arrival (data : List UInt8)
  | poll
  | silence
  deriving DecidableEq

/-- poll returns a positive value exactly when a datagram is unread; nothing reads it. -/
inductive Step (h : Host) (p : Linger) : Action → Linger → Prop
  | arrival (data : List UInt8) : Step h p (.arrival data) { p with unread := p.unread ++ [data] }
  | poll (data : List UInt8) (rest : List (List UInt8)) (c : Config Halt Receiver) (queued : p.unread = data :: rest)
      (step : Receive.Step h p.receiver (.ready (some (.datagram data)) false) c) :
      Step h p .poll { p with receiver := c }
  | silence (c : Config Halt Receiver) (none : p.unread = []) (step : Receive.Step h p.receiver .timeout c) :
      Step h p .silence { p with receiver := c }

def finalAcks (s : Receiver) (p : Linger) : Nat := (p.receiver.state.replies.drop s.replies.length).length

def Action.arrives : Action → Bool
  | .arrival _ => true
  | _ => false

def arrivals (schedule : List Action) : Nat := schedule.countP Action.arrives

def polls (schedule : List Action) : Nat := schedule.count .poll

/-- The k-th positive poll comes after the k-th arrival, for the first MAX_LINGER_RETRY of them. -/
def Spaced (schedule : List Action) : Prop :=
  ∀ before after, schedule = before ++ .poll :: after → polls before < maxLingerRetry → polls before < arrivals before

/-- At every moment of a run there were no more final ACKs than arrivals. -/
def OneByOne (h : Host) (s : Receiver) (p : Linger) (schedule : List Action) (q : Linger) : Prop :=
  ∀ before after m, schedule = before ++ after → Runs (Step h) p before m → Runs (Step h) m after q →
    finalAcks s m ≤ arrivals before

variable {h : Host} {s : Receiver} {p q : Linger} {action : Action}

structure Counted (s : Receiver) (p : Linger) (count : Nat) : Prop where
  replies : ∃ acks, p.receiver.state.replies = s.replies ++ acks ∧ acks.length = count
  phase : ∀ t, p.receiver = .running t → t.phase = .lingering count

theorem Counted.acks {count : Nat} (counted : Counted s p count) : finalAcks s p = count := by
  obtain ⟨acks,replies,length⟩ := counted.replies
  rw [finalAcks,replies,List.drop_left,length]

theorem begins_counted (phase : s.phase = .lingering 0) (running : p.receiver = .running s) : Counted s p 0 := by
  refine ⟨⟨[],?_,rfl⟩,?_⟩
  · rw [running,List.append_nil]
    rfl
  · intro t same
    obtain rfl := Config.running.inj (running.symm.trans same)
    exact phase

theorem linger_step {t : Receiver} {c : Config Halt Receiver} {event : Event} {count : Nat}
    (phase : t.phase = .lingering count) (step : Receive.Step h (.running t) event c) : c = linger h count event t := by
  obtain ⟨u,same,stepped⟩ := step_cases step
  obtain rfl := Config.running.inj same
  cases stepped with
  | awaited retry slot input linked other => exact absurd (phase.symm.trans other) (by simp)
  | aborted event other => exact absurd (phase.symm.trans other) (by simp)
  | turned input file other => exact absurd (phase.symm.trans other) (by simp)
  | lingered retry event other =>
    obtain rfl := Phase.lingering.inj (phase.symm.trans other)
    rfl

theorem sendAck_eq (h : Host) (t : Receiver) : sendAck h t =
    if h.sendOk t.writes then .ret { t with writes := t.writes + 1, replies := t.replies ++ [ackReply h t] }
    else .err { t with writes := t.writes + 1 } := by
  unfold sendAck sendReply netSend
  cases h.sendOk t.writes <;> rfl

theorem Counted.ended {count : Nat} (counted : Counted s p count) {t : Receiver} (running : p.receiver = .running t)
    {c : Config Halt Receiver} (stopped : ∃ code u, c = .returned code u ∧ u.replies = t.replies) :
    Counted s { p with receiver := c } count := by
  obtain ⟨code,u,rfl,same⟩ := stopped
  obtain ⟨acks,replies,length⟩ := counted.replies
  rw [running] at replies
  exact ⟨⟨acks,same.trans replies,length⟩,fun v other => by simp at other⟩

/-- A positive poll is answered below the limit and ends the loop at the limit. -/
theorem poll_counted {count : Nat} (counted : Counted s p count) {t : Receiver} (running : p.receiver = .running t)
    {socket : Option Recv} {file : Bool} {c : Config Halt Receiver}
    (step : Receive.Step h p.receiver (.ready socket file) c) :
    Counted s { p with receiver := c } count ∧ (h.sendOk t.writes = true → maxLingerRetry ≤ count) ∨
    count < maxLingerRetry ∧ (∃ u, c = .running u) ∧ Counted s { p with receiver := c } (count + 1) := by
  rw [running] at step
  obtain rfl := linger_step (counted.phase t running) step
  unfold linger
  by_cases few : count < maxLingerRetry
  · simp only [if_pos few,sendAck_eq]
    cases accepted : h.sendOk t.writes with
    | true =>
      obtain ⟨acks,replies,length⟩ := counted.replies
      rw [running] at replies
      refine Or.inr ⟨few,⟨_,rfl⟩,⟨acks ++ [ackReply h t],?_,by rw [List.length_append,length]; rfl⟩,?_⟩
      · rw [← List.append_assoc,← replies]
        rfl
      · intro u same
        obtain rfl := Config.running.inj same
        rfl
    | false => exact Or.inl ⟨counted.ended running ⟨_,_,rfl,rfl⟩,fun sent => absurd sent (by simp)⟩
  · simp only [if_neg few]
    exact Or.inl ⟨counted.ended running ⟨_,_,rfl,rfl⟩,fun _ => Nat.not_lt.mp few⟩

@[simp] theorem polls_arrival (data : List UInt8) (schedule : List Action) :
    polls (.arrival data :: schedule) = polls schedule := List.count_cons_of_ne (by simp)

@[simp] theorem polls_poll (schedule : List Action) : polls (.poll :: schedule) = polls schedule + 1 :=
    List.count_cons_self

@[simp] theorem polls_silence (schedule : List Action) : polls (.silence :: schedule) = polls schedule :=
  List.count_cons_of_ne (by simp)

theorem spaced_append_singleton {schedule : List Action} {action : Action} : Spaced (schedule ++ [action]) ↔
    Spaced schedule ∧ (action = .poll → polls schedule < maxLingerRetry → polls schedule < arrivals schedule) := by
  constructor
  · intro spaced
    refine ⟨fun before after cut => spaced before (after ++ [action]) ?_,?_⟩
    · rw [cut,List.append_assoc]
      rfl
    · rintro rfl
      exact spaced schedule [] rfl
  · rintro ⟨spaced,last⟩ before after cut
    rcases List.eq_nil_or_concat after with rfl | ⟨rest,other,rfl⟩
    · obtain ⟨rfl,same⟩ := List.append_inj' cut rfl
      exact last (List.cons.inj same).1
    · rw [List.concat_eq_append,← List.cons_append,← List.append_assoc] at cut
      exact spaced before rest (List.append_inj' cut rfl).1

theorem Spaced.bound {schedule : List Action} (spaced : Spaced schedule) :
    min (polls schedule) maxLingerRetry ≤ arrivals schedule := by
  induction schedule using List.reverseRecOn with
  | nil => exact Nat.zero_le _
  | append_singleton schedule action ih =>
    obtain ⟨before,last⟩ := spaced_append_singleton.mp spaced
    have bound := ih before
    have polled : polls (schedule ++ [action]) = polls schedule + polls [action] := List.count_append
    have arrived : arrivals (schedule ++ [action]) = arrivals schedule + arrivals [action] := List.countP_append
    rw [polled,arrived]
    cases action with
    | arrival data =>
      rw [polls_arrival]
      exact Nat.le_add_right_of_le bound
    | silence =>
      rw [polls_silence]
      exact Nat.le_add_right_of_le bound
    | poll =>
      have new := last rfl
      rw [polls_poll]
      change min (polls schedule + 1) maxLingerRetry ≤ arrivals schedule + 0
      omega

/-- Run lemma: each positive poll adds one ACK until the retries are used up. -/
theorem runs_counted {schedule : List Action} (run : Runs (Step h) p schedule q) {n : Nat} (counted : Counted s p n)
    (few : n ≤ maxLingerRetry) : ∃ count ≤ min (n + polls schedule) maxLingerRetry, Counted s q count ∧
      ((∀ n, h.sendOk n = true) → count = min (n + polls schedule) maxLingerRetry) := by
  induction run generalizing n with
  | done p => exact ⟨n,Nat.le_min.mpr ⟨Nat.le_refl _,few⟩,counted,fun _ => (Nat.min_eq_left few).symm⟩
  | next p action m rest q taken _ ih =>
    cases taken with
    | arrival data =>
      rw [polls_arrival]
      exact ih ⟨counted.replies,counted.phase⟩ few
    | silence c none step =>
      obtain ⟨t,running,_⟩ := step_cases step
      rw [running] at step
      obtain rfl := linger_step (counted.phase t running) step
      rw [polls_silence]
      exact ih (counted.ended running ⟨_,_,rfl,rfl⟩) few
    | poll data queue c queued step =>
      obtain ⟨t,running,_⟩ := step_cases step
      rw [polls_poll]
      rcases poll_counted counted running step with ⟨same,ended⟩ | ⟨below,_,more⟩
      · obtain ⟨count,bound,counted',exactly⟩ := ih same few
        refine ⟨count,by omega,counted',fun sends => ?_⟩
        have full := ended (sends _)
        have number := exactly sends
        omega
      · obtain ⟨count,bound,counted',exactly⟩ := ih more below
        refine ⟨count,by omega,counted',fun sends => ?_⟩
        have number := exactly sends
        omega

theorem runs_available {schedule : List Action} (sends : ∀ n, h.sendOk n = true) (run : Runs (Step h) p schedule q)
    (active : .silence ∉ schedule) {n : Nat} (counted : Counted s p n) (few : n + polls schedule ≤ maxLingerRetry)
    (running : ∃ t, p.receiver = .running t) : ∃ t, q.receiver = .running t := by
  induction run generalizing n with
  | done p => exact running
  | next p action m rest q taken _ ih =>
    have later : .silence ∉ rest := fun member => active (List.mem_cons_of_mem _ member)
    cases taken with
    | arrival data =>
      rw [polls_arrival] at few
      exact ih later ⟨counted.replies,counted.phase⟩ few running
    | silence c none step => exact absurd List.mem_cons_self active
    | poll data queue c queued step =>
      obtain ⟨t,waiting,_⟩ := step_cases step
      rw [polls_poll] at few
      rcases poll_counted counted waiting step with ⟨_,ended⟩ | ⟨_,answered,more⟩
      · have full := ended (sends _)
        omega
      · exact ih later more (by omega) answered

theorem oneByOne_of_spaced (phase : s.phase = .lingering 0) (running : p.receiver = .running s) {schedule : List Action}
    (spaced : Spaced schedule) : OneByOne h s p schedule q := by
  rintro before after m rfl run _
  have early : Spaced before := by
    intro first last cut
    refine spaced first (last ++ after) ?_
    rw [cut,List.append_assoc]
    rfl
  obtain ⟨count,bound,counted,_⟩ := runs_counted run (begins_counted phase running) (Nat.zero_le _)
  rw [Nat.zero_add] at bound
  rw [counted.acks]
  exact Nat.le_trans bound early.bound

theorem spaced_of_oneByOne (phase : s.phase = .lingering 0) (running : p.receiver = .running s)
    (sends : ∀ n, h.sendOk n = true) {schedule : List Action} (run : Runs (Step h) p schedule q)
    (answered : OneByOne h s p schedule q) : Spaced schedule := by
  rintro before after rfl few
  have cut : before ++ .poll :: after = (before ++ [.poll]) ++ after := by rw [List.append_assoc]; rfl
  rw [cut] at run
  obtain ⟨m,early,late⟩ := Runs.append_iff.mp run
  obtain ⟨count,_,counted,exactly⟩ := runs_counted early (begins_counted phase running) (Nat.zero_le _)
  have bound := answered (before ++ [.poll]) after m cut early late
  have polled : polls (before ++ [.poll]) = polls before + 1 := List.count_append
  have arrived : arrivals (before ++ [.poll]) = arrivals before := List.countP_append
  have number := exactly sends
  rw [counted.acks,arrived] at bound
  rw [polled] at number
  omega

/-- The final ACKs never outnumber the arrivals if, and when all sends succeed only if, the
polls are spaced by arrivals; the receiver then goes on answering while fewer datagrams
have arrived than there are retries and no silence ends its loop. -/
theorem linger_answers (h : Host) (s : Receiver) (phase : s.phase = .lingering 0) (p : Linger)
    (running : p.receiver = .running s) (schedule : List Action) (q : Linger) (run : Runs (Step h) p schedule q) :
    (Spaced schedule → OneByOne h s p schedule q) ∧
    ((∀ n, h.sendOk n = true) → (OneByOne h s p schedule q ↔ Spaced schedule) ∧
      (Spaced schedule → .silence ∉ schedule → arrivals schedule < maxLingerRetry → ∃ t, q.receiver = .running t)) := by
  refine ⟨oneByOne_of_spaced phase running,fun sends => ⟨⟨?_,oneByOne_of_spaced phase running⟩,?_⟩⟩
  · exact spaced_of_oneByOne phase running sends run
  · intro spaced active few
    have bound := spaced.bound
    exact runs_available sends run active (begins_counted phase running) (by omega) ⟨s,running⟩

def Reached (s : Receiver) : Prop :=
  Reach (Start steadyHost 31) (Receive.Step steadyHost) (fun _ _ => True) (.running s)

theorem emptyFile_lingers : ∃ s, Reached s ∧ s.phase = .lingering 0 := by
  have runs : runningWith (fun s => runningWith (fun t => decide (t.phase = .lingering 0))
      (next steadyHost (.running s) (.ready none true)))
      (next steadyHost (firstWait 31) (.datagram emptyChunk true)) = true := by decide +kernel
  obtain ⟨s,opened,passed⟩ := exists_of_runningWith runs
  obtain ⟨t,taken,phase⟩ := exists_of_runningWith passed
  exact ⟨t,.step _ _ _ (.step _ _ _ (.start _ (firstWait_start steadyHost 31)) trivial opened) trivial taken,
    of_decide_eq_true phase⟩

theorem poll_again {count : Nat} (sends : ∀ n, h.sendOk n = true) (counted : Counted s p count)
    (running : ∃ t, p.receiver = .running t) {data : List UInt8} {rest : List (List UInt8)}
    (queued : p.unread = data :: rest)
    (few : count < maxLingerRetry) : ∃ c, Step h p .poll { p with receiver := c } ∧
      (∃ u, c = .running u) ∧ Counted s { p with receiver := c } (count + 1) := by
  obtain ⟨t,running⟩ := running
  have phase := counted.phase t running
  have step : Receive.Step h p.receiver (.ready (some (.datagram data)) false)
      (linger h count (.ready (some (.datagram data)) false) t) := by
    rw [running]
    simp only [Receive.Step,next,phase]
  rcases poll_counted counted running step with ⟨_,ended⟩ | ⟨_,answered,more⟩
  · exact absurd few (Nat.not_lt.mpr (ended (sends _)))
  · exact ⟨_,.poll data rest _ queued step,answered,more⟩

def lastPacket : List UInt8 := Codec.image steadyHost.crc32 (emptyFile 0)

/-- The last packet is retransmitted twice, and each time one poll reports it. -/
def spacedSchedule : List Action := [.arrival lastPacket,.poll,.arrival lastPacket,.poll]

theorem spacedSchedule_spaced : Spaced spacedSchedule := by
  have first : Spaced [] := fun before after cut => by simp at cut
  have second : Spaced ([] ++ [.arrival lastPacket]) := spaced_append_singleton.mpr ⟨first,by simp⟩
  have third : Spaced (([] ++ [.arrival lastPacket]) ++ [.poll]) :=
    spaced_append_singleton.mpr ⟨second,fun _ _ => by decide⟩
  have fourth : Spaced ((([] ++ [.arrival lastPacket]) ++ [.poll]) ++ [.arrival lastPacket]) :=
    spaced_append_singleton.mpr ⟨third,by simp⟩
  exact spaced_append_singleton.mpr ⟨fourth,fun _ _ => by decide⟩

theorem linger_answers_twice : ∃ s p q, Reached s ∧ s.phase = .lingering 0 ∧ p.receiver = .running s ∧
    Runs (Step steadyHost) p spacedSchedule q ∧ finalAcks s q = 2 ∧
    OneByOne steadyHost s p spacedSchedule q ∧ ∃ t, q.receiver = .running t := by
  obtain ⟨s,reached,phase⟩ := emptyFile_lingers
  have sends : ∀ n, steadyHost.sendOk n = true := fun _ => rfl
  let first : Linger := ⟨.running s,[]⟩
  let second : Linger := { first with unread := [lastPacket] }
  have counted : Counted s second 0 := ⟨(begins_counted phase rfl).replies,(begins_counted phase rfl).phase⟩
  obtain ⟨c,polled,running,once⟩ := poll_again sends counted ⟨s,rfl⟩ rfl (by decide)
  let third : Linger := { second with receiver := c }
  let fourth : Linger := { third with unread := [lastPacket,lastPacket] }
  have later : Counted s fourth 1 := ⟨once.replies,once.phase⟩
  obtain ⟨d,again,_,twice⟩ := poll_again sends later running rfl (by decide)
  have run : Runs (Step steadyHost) first spacedSchedule { fourth with receiver := d } :=
    .next first _ second _ _ (.arrival lastPacket) (.next second _ third _ _ polled
      (.next third _ fourth _ _ (.arrival lastPacket) (.next fourth _ _ _ _ again (.done _))))
  obtain ⟨answers,both⟩ := linger_answers steadyHost s phase first rfl spacedSchedule _ run
  exact ⟨s,first,_,reached,phase,rfl,run,twice.acks,answers spacedSchedule_spaced,
    (both sends).2 spacedSchedule_spaced (by decide) (by decide)⟩

/-- The last packet is retransmitted once and two polls report it. -/
theorem linger_repeats : ¬ ∀ (h : Host) (maxWindow : UInt32) (s : Receiver) (p : Linger) (schedule : List Action)
    (q : Linger),
    Reach (Start h maxWindow) (Receive.Step h) (fun _ _ => True) (.running s) → s.phase = .lingering 0 →
    p.receiver = .running s → Runs (Step h) p schedule q → OneByOne h s p schedule q := by
  intro claim
  obtain ⟨s,reached,phase⟩ := emptyFile_lingers
  have sends : ∀ n, steadyHost.sendOk n = true := fun _ => rfl
  let first : Linger := ⟨.running s,[]⟩
  let second : Linger := { first with unread := [lastPacket] }
  have counted : Counted s second 0 := ⟨(begins_counted phase rfl).replies,(begins_counted phase rfl).phase⟩
  obtain ⟨c,polled,running,once⟩ := poll_again sends counted ⟨s,rfl⟩ rfl (by decide)
  let third : Linger := { second with receiver := c }
  obtain ⟨d,again,_,twice⟩ := @poll_again steadyHost s third 1 sends once running lastPacket [] rfl (by decide)
  have run : Runs (Step steadyHost) first [.arrival lastPacket,.poll,.poll] { third with receiver := d } :=
    .next first _ second _ _ (.arrival lastPacket)
      (.next second _ third _ _ polled (.next third _ _ _ _ again (.done _)))
  have bound := claim steadyHost 31 s first _ _ reached phase rfl run _ [] _ rfl run (.done _)
  rw [twice.acks] at bound
  have more : ¬ 2 ≤ 1 := by decide
  exact more bound

end Trtp.Lingering
