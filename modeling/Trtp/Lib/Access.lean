import Mathlib.Logic.Function.Basic

/-! Programs that touch a memory cell by cell, and the cells they read.
What such a program does depends on no other cell of the memory it starts in. -/
namespace Trtp.Lib.Access

inductive Code (κ β α : Type) where
  | done (result : α)
  | read (cell : κ) (next : β → Code κ β α)
  | write (cell : κ) (content : β) (next : Code κ β α)

def Code.bind {κ β α γ : Type} : Code κ β α → (α → Code κ β γ) → Code κ β γ
  | .done a, k => k a
  | .read i next, k => .read i (fun b => (next b).bind k)
  | .write i b next, k => .write i b (next.bind k)

instance {κ β : Type} : Monad (Code κ β) where
  pure := .done
  bind := Code.bind

def get {κ β : Type} (i : κ) : Code κ β β := .read i .done

def put {κ β : Type} (i : κ) (b : β) : Code κ β Unit := .write i b (.done ())

def getAll {κ β : Type} : List κ → Code κ β (List β)
  | [] => pure []
  | i :: rest => do
    let b ← get i
    let more ← getAll rest
    return b :: more

section Run

variable {κ β α γ : Type} [DecidableEq κ]

def run : Code κ β α → (κ → β) → α × (κ → β)
  | .done a, mem => (a,mem)
  | .read i next, mem => run (next (mem i)) mem
  | .write i b next, mem => run next (Function.update mem i b)

/-- The cells read, in the order of the reads; a write reads nothing. -/
def reads : Code κ β α → (κ → β) → List κ
  | .done _, _ => []
  | .read i next, mem => i :: reads (next (mem i)) mem
  | .write i b next, mem => reads next (Function.update mem i b)

theorem run_bind (m : Code κ β α) (k : α → Code κ β γ) (mem : κ → β) :
    run (m >>= k) mem = run (k (run m mem).1) (run m mem).2 := by
  induction m generalizing mem with
  | done a => rfl
  | read i next ih => exact ih (mem i) mem
  | write i b next ih => exact ih (Function.update mem i b)

theorem reads_bind (m : Code κ β α) (k : α → Code κ β γ) (mem : κ → β) :
    reads (m >>= k) mem = reads m mem ++ reads (k (run m mem).1) (run m mem).2 := by
  induction m generalizing mem with
  | done a => rfl
  | read i next ih => exact congrArg (i :: ·) (ih (mem i) mem)
  | write i b next ih => exact ih (Function.update mem i b)

/-- From `mem` the program ends with a result and a memory, and reads cells of `P` only. -/
structure Within (P : κ → Prop) (m : Code κ β α) (mem : κ → β) (a : α) (after : κ → β) : Prop where
  run : run m mem = (a,after)
  reads : ∀ i ∈ reads m mem, P i

variable {P : κ → Prop} {mem mid after : κ → β} {a : α} {c : γ}

theorem Within.pure (a : α) : Within P (pure a) mem a mem :=
  ⟨rfl,fun _ member => absurd member List.not_mem_nil⟩

theorem Within.bind {m : Code κ β α} {k : α → Code κ β γ} (first : Within P m mem a mid)
    (second : Within P (k a) mid c after) : Within P (m >>= k) mem c after := by
  refine ⟨?_,?_⟩
  · rw [run_bind,first.run]
    exact second.run
  · intro i member
    rw [reads_bind,first.run] at member
    rcases List.mem_append.mp member with early | late
    · exact first.reads i early
    · exact second.reads i late

theorem Within.get {i : κ} (allowed : P i) : Within P (get i) mem (mem i) mem :=
  ⟨rfl,fun _ member => List.mem_singleton.mp member ▸ allowed⟩

theorem Within.put (i : κ) (b : β) : Within P (put i b) mem () (Function.update mem i b) :=
  ⟨rfl,fun _ member => absurd member List.not_mem_nil⟩

theorem Within.getAll {cells : List κ} (allowed : ∀ i ∈ cells, P i) :
    Within P (getAll cells) mem (cells.map mem) mem := by
  induction cells with
  | nil => exact Within.pure []
  | cons i rest ih =>
    have more := ih (fun j member => allowed j (List.mem_cons_of_mem i member))
    exact (Within.get (allowed i List.mem_cons_self)).bind (more.bind (Within.pure _))

theorem reads_getAll (cells : List κ) (mem : κ → β) : reads (getAll cells) mem = cells := by
  induction cells generalizing mem with
  | nil => rfl
  | cons i rest ih =>
    rw [getAll,reads_bind,reads_bind,ih]
    exact congrArg (i :: ·) (List.append_nil rest)

/-- Memories that agree where the program may read give the same result, and agree
there afterwards. -/
theorem Within.agree {m : Code κ β α} (within : Within P m mem a after) {other : κ → β}
    (same : ∀ i, P i → other i = mem i) : (Access.run m other).1 = a ∧ ∀ i, P i →
    (Access.run m other).2 i = after i := by
  obtain ⟨ran,inside⟩ := within
  induction m generalizing mem other with
  | done b =>
    obtain ⟨rfl,rfl⟩ := Prod.mk.inj ran
    exact ⟨rfl,same⟩
  | read i next ih =>
    have here : other i = mem i := same i (inside i List.mem_cons_self)
    simp only [Access.run,here] at ran ⊢
    exact ih (mem i) same ran (fun j member => inside j (List.mem_cons_of_mem i member))
  | write i b next ih =>
    refine ih ?_ ran inside
    intro j allowed
    by_cases at_cell : j = i
    · rw [at_cell,Function.update_self,Function.update_self]
    · rw [Function.update_of_ne at_cell,Function.update_of_ne at_cell]
      exact same j allowed

end Run

end Trtp.Lib.Access
