import Mathlib.Logic.Basic

/-! Procedures of a C program as functions of the state they act on, and the
runs of a machine that takes one step after another.
A procedure returns zero, returns an error to its caller or stops the whole
process; in each case the state it left behind stays visible. -/
namespace Trtp.Lib.Run

/-- How a call ends: `ret` returns zero, `err` returns a failure, `halt` does not return. -/
inductive Outcome (ε σ : Type) where
  | ret (s : σ)
  | err (s : σ)
  | halt (reason : ε) (s : σ)

variable {ε σ : Type}

namespace Outcome

def state : Outcome ε σ → σ
  | .ret s => s
  | .err s => s
  | .halt _ s => s

/-- Sequencing: only a call that returned zero is followed by the next one. -/
def andThen (first : Outcome ε σ) (next : σ → Outcome ε σ) : Outcome ε σ :=
  match first with
  | .ret s => next s
  | .err s => .err s
  | .halt reason s => .halt reason s

/-- A call of a function that may stop the process but leaves the state `s` alone. -/
def call {α : Type} (s : σ) (result : Except ε α) (next : α → Outcome ε σ) : Outcome ε σ :=
  match result with
  | .ok a => next a
  | .error reason => .halt reason s

@[simp] theorem call_ok {α : Type} (s : σ) (a : α) (next : α → Outcome ε σ) :
    call s (.ok a) next = next a := rfl

@[simp] theorem state_ret (s : σ) : (ret s : Outcome ε σ).state = s := rfl
@[simp] theorem state_err (s : σ) : (err s : Outcome ε σ).state = s := rfl
@[simp] theorem state_halt (reason : ε) (s : σ) : (halt reason s).state = s := rfl

@[simp] theorem ret_andThen (s : σ) (next : σ → Outcome ε σ) : (ret s).andThen next = next s := rfl
@[simp] theorem err_andThen (s : σ) (next : σ → Outcome ε σ) : (err s).andThen next = .err s := rfl
@[simp] theorem halt_andThen (reason : ε) (s : σ) (next : σ → Outcome ε σ) :
    (halt reason s).andThen next = .halt reason s := rfl

theorem andThen_assoc (first : Outcome ε σ) (next last : σ → Outcome ε σ) :
    (first.andThen next).andThen last = first.andThen (fun s => (next s).andThen last) := by
  cases first <;> rfl

theorem andThen_ret {first : Outcome ε σ} {next : σ → Outcome ε σ} {t : σ} (ended : first.andThen next = .ret t) :
    ∃ s, first = .ret s ∧ next s = .ret t := by
  cases first with
  | ret s => exact ⟨s,rfl,ended⟩
  | err s => contradiction
  | halt reason s => contradiction

/-- A call meets its contract when it returns zero in a state of `good`,
returns an error in a state of `bad` and halts only in a state of `dead`. -/
def Meets (o : Outcome ε σ) (good bad : σ → Prop) (dead : ε → σ → Prop) : Prop :=
  match o with
  | .ret s => good s
  | .err s => bad s
  | .halt reason s => dead reason s

/-- The part of the outcome that can be seen through `f`. -/
def map {τ : Type} (f : σ → τ) : Outcome ε σ → Outcome ε τ
  | .ret s => .ret (f s)
  | .err s => .err (f s)
  | .halt reason s => .halt reason (f s)

@[simp] theorem map_ret {τ : Type} (f : σ → τ) (s : σ) : (ret s : Outcome ε σ).map f = .ret (f s) := rfl
@[simp] theorem map_err {τ : Type} (f : σ → τ) (s : σ) : (err s : Outcome ε σ).map f = .err (f s) := rfl
@[simp] theorem map_halt {τ : Type} (f : σ → τ) (reason : ε) (s : σ) :
    (halt reason s).map f = .halt reason (f s) := rfl

/-- A procedure does not look at what `view` leaves out. -/
def Blind (view : σ → σ) (run : σ → Outcome ε σ) : Prop := ∀ s, (run s).map view = (run (view s)).map view

section Blind

variable {view : σ → σ} {run next : σ → Outcome ε σ}

theorem Blind.alike (blind : Blind view run) {s t : σ} (same : view s = view t) :
    (run s).map view = (run t).map view := by
  rw [blind s,same,← blind t]

theorem Blind.andThen (first : Blind view run) (later : Blind view next) :
    Blind view (fun s => (run s).andThen next) := by
  intro s
  have same := first s
  change ((run s).andThen next).map view = ((run (view s)).andThen next).map view
  cases left : run s <;> cases right : run (view s) <;> rw [left,right] at same <;>
    simp only [map_ret,map_err,map_halt,ret.injEq,err.injEq,halt.injEq,reduceCtorEq] at same
  · exact later.alike same
  · simp only [err_andThen,map_err,same]
  · simp only [halt_andThen,map_halt,same]

theorem Blind.ret_of_alike (blind : Blind view run) {s t u : σ} (same : view s = view t) (ended : run s = .ret u) :
    ∃ v, run t = .ret v ∧ view v = view u := by
  have outcome := blind.alike same
  rw [ended] at outcome
  cases right : run t with
  | ret v =>
    rw [right] at outcome
    exact ⟨v,rfl,(ret.inj outcome).symm⟩
  | err v =>
    rw [right] at outcome
    contradiction
  | halt reason v =>
    rw [right] at outcome
    contradiction

end Blind

/-- A procedure neither reads nor writes what `f` changes. -/
def Commutes (f : σ → σ) (run : σ → Outcome ε σ) : Prop := ∀ s, run (f s) = (run s).map f

section Commutes

variable {f : σ → σ} {run next : σ → Outcome ε σ}

theorem Commutes.andThen (first : Commutes f run) (later : Commutes f next) :
    Commutes f (fun s => (run s).andThen next) := by
  intro s
  change (run (f s)).andThen next = ((run s).andThen next).map f
  rw [first s]
  cases run s with
  | ret t => exact later t
  | err t => rfl
  | halt reason t => rfl

/-- Frame rule: what `f` changes stays as it was. -/
theorem Commutes.kept (commutes : Commutes f run) {s t : σ} (fixed : f s = s) (ended : run s = .ret t) : f t = t := by
  have outcome := commutes s
  rw [fixed,ended] at outcome
  exact (ret.inj outcome).symm

end Commutes

variable {good good' bad bad' : σ → Prop} {dead dead' : ε → σ → Prop}

@[simp] theorem meets_ret (s : σ) : (ret s : Outcome ε σ).Meets good bad dead ↔ good s := Iff.rfl
@[simp] theorem meets_err (s : σ) : (err s : Outcome ε σ).Meets good bad dead ↔ bad s := Iff.rfl
@[simp] theorem meets_halt (reason : ε) (s : σ) :
    (halt reason s).Meets good bad dead ↔ dead reason s := Iff.rfl

/-- Rule of sequencing. -/
theorem Meets.andThen {first : Outcome ε σ} {next : σ → Outcome ε σ}
    (before : first.Meets good bad dead) (after : ∀ s, good s → (next s).Meets good' bad dead) :
    (first.andThen next).Meets good' bad dead := by
  cases first with
  | ret s => exact after s before
  | err s => exact before
  | halt reason s => exact before

/-- Rule of consequence. -/
theorem Meets.mono {o : Outcome ε σ} (met : o.Meets good bad dead) (onRet : ∀ s, good s → good' s)
    (onErr : ∀ s, bad s → bad' s) (onHalt : ∀ reason s, dead reason s → dead' reason s) :
    o.Meets good' bad' dead' := by
  cases o with
  | ret s => exact onRet s met
  | err s => exact onErr s met
  | halt reason s => exact onHalt reason s met

/-- Rule of conjunction. -/
theorem Meets.and {o : Outcome ε σ} (left : o.Meets good bad dead) (right : o.Meets good' bad' dead') :
    o.Meets (fun s => good s ∧ good' s) (fun s => bad s ∧ bad' s) (fun reason s => dead reason s ∧ dead' reason s) := by
  cases o with
  | ret s => exact ⟨left,right⟩
  | err s => exact ⟨left,right⟩
  | halt reason s => exact ⟨left,right⟩

theorem Meets.of_ret {o : Outcome ε σ} {s : σ} (met : o.Meets good bad dead) (ended : o = .ret s) :
    good s := by
  subst ended
  exact met

/-- A contract that does not depend on how the call ends speaks of the state left behind. -/
theorem Meets.state {o : Outcome ε σ} {all : σ → Prop} (met : o.Meets all all (fun _ => all)) :
    all o.state := by
  cases o <;> exact met

end Outcome

/-- A program between two turns of its main loop, or after its end. -/
inductive Config (ε σ : Type) where
  | running (s : σ)
  | returned (code : Int) (s : σ)
  | halted (reason : ε) (s : σ)

def Config.state : Config ε σ → σ
  | .running s => s
  | .returned _ s => s
  | .halted _ s => s

@[simp] theorem Config.state_running (s : σ) : (running s : Config ε σ).state = s := rfl
@[simp] theorem Config.state_returned (code : Int) (s : σ) : (returned code s : Config ε σ).state = s := rfl
@[simp] theorem Config.state_halted (reason : ε) (s : σ) : (halted reason s).state = s := rfl

/-- The program goes on, or it has ended well, in the state `s`. -/
def Config.Unfailed (c : Config ε σ) (s : σ) : Prop := c = .running s ∨ c = .returned 0 s

theorem Config.Unfailed.state {c : Config ε σ} {s : σ} (unfailed : c.Unfailed s) : c.state = s := by
  rcases unfailed with rfl | rfl
  · rfl
  · rfl

/-- Two programs at the same point, in related states. -/
inductive Config.Alike (same : σ → σ → Prop) : Config ε σ → Config ε σ → Prop
  | running (s t : σ) (related : same s t) : Config.Alike same (.running s) (.running t)
  | returned (code : Int) (s t : σ) (related : same s t) : Config.Alike same (.returned code s) (.returned code t)
  | halted (reason : ε) (s t : σ) (related : same s t) : Config.Alike same (.halted reason s) (.halted reason t)

/-- The states a machine can reach through steps on events that `allowed` admits. -/
inductive Reach {σ ε : Type} (start : σ → Prop) (step : σ → ε → σ → Prop) (allowed : σ → ε → Prop) :
    σ → Prop
  | start (s : σ) (first : start s) : Reach start step allowed s
  | step (s : σ) (event : ε) (next : σ) (before : Reach start step allowed s)
      (admitted : allowed s event) (taken : step s event next) : Reach start step allowed next

namespace Reach

variable {start : σ → Prop} {step : σ → ε → σ → Prop} {allowed wider : σ → ε → Prop}

/-- What holds at the start and is kept by every admitted step holds of every reachable state. -/
theorem invariant {inv : σ → Prop} (base : ∀ s, start s → inv s)
    (kept : ∀ s event next, inv s → allowed s event → step s event next → inv next)
    {s : σ} (reached : Reach start step allowed s) : inv s := by
  induction reached with
  | start s first => exact base s first
  | step s event next before admitted taken ih => exact kept s event next ih admitted taken

theorem play {κ : Type} {next : σ → κ → Option σ}
    (sound : ∀ s command t, next s command = some t → ∃ event, allowed s event ∧ step s event t) {s t : σ}
    (reached : Reach start step allowed s) (commands : List κ) (played : commands.foldlM next s = some t) :
    Reach start step allowed t := by
  induction commands generalizing s with
  | nil =>
    obtain rfl : s = t := by simpa using played
    exact reached
  | cons command commands ih =>
    rw [List.foldlM_cons] at played
    obtain ⟨middle,first,rest⟩ := Option.bind_eq_some_iff.mp played
    obtain ⟨event,admitted,taken⟩ := sound s command middle first
    exact ih (.step s event middle reached admitted taken) rest

end Reach

/-- A number of admitted steps, one after another. -/
inductive Path {σ ε : Type} (step : σ → ε → σ → Prop) (allowed : σ → ε → Prop) : Nat → σ → σ → Prop
  | refl (s : σ) : Path step allowed 0 s s
  | head (n : Nat) (s : σ) (event : ε) (middle t : σ) (admitted : allowed s event) (taken : step s event middle)
      (rest : Path step allowed n middle t) : Path step allowed (n + 1) s t

namespace Path

variable {start : σ → Prop} {step : σ → ε → σ → Prop} {allowed : σ → ε → Prop}

theorem tail {n : Nat} {s t u : σ} {event : ε} (path : Path step allowed n s t) (admitted : allowed t event)
    (taken : step t event u) : Path step allowed (n + 1) s u := by
  induction path with
  | refl s => exact .head 0 s event u u admitted taken (.refl u)
  | head n s first middle t permitted begun rest ih =>
    exact .head (n + 1) s first middle u permitted begun (ih admitted taken)

end Path

/-- The run that takes the given events, one after another. -/
inductive Runs {σ ε : Type} (step : σ → ε → σ → Prop) : σ → List ε → σ → Prop
  | done (s : σ) : Runs step s [] s
  | next (s : σ) (event : ε) (middle : σ) (events : List ε) (t : σ) (taken : step s event middle)
      (rest : Runs step middle events t) : Runs step s (event :: events) t

theorem Runs.cons_iff {σ ε : Type} {step : σ → ε → σ → Prop} {s middle t : σ} {event : ε} {events : List ε}
    (only : ∀ u, step s event u ↔ u = middle) : Runs step s (event :: events) t ↔ Runs step middle events t := by
  constructor
  · intro run
    cases run with
    | next _ _ other _ _ taken rest =>
      obtain rfl := (only other).mp taken
      exact rest
  · intro rest
    exact .next s event middle events t ((only middle).mpr rfl) rest

theorem Runs.nil_iff {σ ε : Type} {step : σ → ε → σ → Prop} {s t : σ} : Runs step s [] t ↔ t = s := by
  constructor
  · intro run
    cases run
    rfl
  · rintro rfl
    exact .done t

theorem Runs.append_iff {σ ε : Type} {step : σ → ε → σ → Prop} {s t : σ} {first last : List ε} :
    Runs step s (first ++ last) t ↔ ∃ middle, Runs step s first middle ∧ Runs step middle last t := by
  induction first generalizing s with
  | nil =>
    constructor
    · exact fun run => ⟨s,.done s,run⟩
    · rintro ⟨middle,nothing,run⟩
      obtain rfl := Runs.nil_iff.mp nothing
      exact run
  | cons event first ih =>
    constructor
    · intro run
      cases run with
      | next _ _ between _ _ taken rest =>
        obtain ⟨middle,before,after⟩ := ih.mp rest
        exact ⟨middle,.next s event between first middle taken before,after⟩
    · rintro ⟨middle,run,after⟩
      cases run with
      | next _ _ between _ _ taken rest =>
        exact .next s event between (first ++ last) t taken (ih.mpr ⟨middle,rest,after⟩)

def runningWith {ε σ : Type} (test : σ → Bool) : Option (Config ε σ) → Bool
  | some (.running s) => test s
  | _ => false

theorem exists_of_runningWith {ε σ : Type} {test : σ → Bool} {found : Option (Config ε σ)}
    (passed : runningWith test found = true) : ∃ s, found = some (.running s) ∧ test s = true := by
  unfold runningWith at passed
  split at passed
  next s => exact ⟨s,rfl,passed⟩
  next => contradiction

def stopped {ε σ : Type} : Option (Config ε σ) → Bool
  | some (.halted _ _) => true
  | _ => false

theorem exists_of_stopped {ε σ : Type} {found : Option (Config ε σ)} (passed : stopped found = true) :
    ∃ reason s, found = some (.halted reason s) := by
  unfold stopped at passed
  split at passed
  next reason s => exact ⟨reason,s,rfl⟩
  next => contradiction

end Trtp.Lib.Run
