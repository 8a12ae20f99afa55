import Mathlib.Data.List.Basic

/-! A queue of bounded length as a list, oldest item first: what each operation does
to the items, what it returns and when it may be called. -/
namespace Trtp.Lib.Queue

inductive Op (α : Type) where
  | enqueue (x : α) | dequeue | first | last

variable {α ε σ : Type}

def Op.after (queue : List α) : Op α → List α
  | .enqueue x => queue ++ [x]
  | .dequeue => queue.tail
  | _ => queue

def Op.answer (queue : List α) : Op α → Option α
  | .enqueue _ => none
  | .last => queue.getLast?
  | _ => queue.head?

/-- A full queue takes no item, and an empty one has none to give. -/
def Op.Allowed (capacity : Nat) (queue : List α) : Op α → Prop
  | .enqueue _ => queue.length < capacity
  | .dequeue => queue ≠ []
  | _ => True

def contents : List α → List (Op α) → List α := List.foldl Op.after

def answers : List α → List (Op α) → List (Option α)
  | _, [] => []
  | queue, op :: ops => op.answer queue :: answers (op.after queue) ops

def Admits (capacity : Nat) : List α → List (Op α) → Prop
  | _, [] => True
  | queue, op :: ops => op.Allowed capacity queue ∧ Admits capacity (op.after queue) ops

def Op.given : Op α → List α
  | .enqueue x => [x]
  | _ => []

def Op.taken (queue : List α) : Op α → List α
  | .dequeue => queue.head?.toList
  | _ => []

def enqueued (ops : List (Op α)) : List α := ops.flatMap Op.given

def dequeued : List α → List (Op α) → List α
  | _, [] => []
  | queue, op :: ops => op.taken queue ++ dequeued (op.after queue) ops

theorem Op.conserves (queue : List α) (op : Op α) : queue ++ op.given = op.taken queue ++ op.after queue := by
  cases op with
  | enqueue x => rfl
  | dequeue =>
    cases queue with
    | nil => rfl
    | cons x rest => exact List.append_nil _
  | first => exact List.append_nil _
  | last => exact List.append_nil _

/-- First in, first out: what was there and what was put in is what was taken out,
followed by what is left. -/
theorem conservation (queue : List α) (ops : List (Op α)) :
    queue ++ enqueued ops = dequeued queue ops ++ contents queue ops := by
  induction ops generalizing queue with
  | nil => exact List.append_nil queue
  | cons op ops ih =>
    calc queue ++ enqueued (op :: ops) = (queue ++ op.given) ++ enqueued ops := (List.append_assoc _ _ _).symm
      _ = (op.taken queue ++ op.after queue) ++ enqueued ops := by rw [op.conserves]
      _ = op.taken queue ++ (op.after queue ++ enqueued ops) := List.append_assoc _ _ _
      _ = op.taken queue ++ (dequeued (op.after queue) ops ++ contents (op.after queue) ops) := by rw [ih]
      _ = dequeued queue (op :: ops) ++ contents queue (op :: ops) := (List.append_assoc _ _ _).symm

/-- Operations of an implementation, one after another. -/
def runAll (perform : σ → Op α → Except ε (Option α × σ)) : σ → List (Op α) → Except ε (List (Option α) × σ)
  | s, [] => .ok ([],s)
  | s, op :: ops => do
    let (answer,s) ← perform s op
    let (rest,s) ← runAll perform s ops
    return (answer :: rest,s)

/-- Rule of simulation: what represents a queue before each operation and after it does so
after any number of them, and gives the answers of the queue. -/
theorem runAll_simulates {perform : σ → Op α → Except ε (Option α × σ)} {Represents : σ → List α → Prop}
    {capacity : Nat} (one : ∀ s queue op, Represents s queue → op.Allowed capacity queue →
      ∃ t, perform s op = .ok (op.answer queue,t) ∧ Represents t (op.after queue))
    {s : σ} {queue : List α} (represents : Represents s queue) (ops : List (Op α))
    (admitted : Admits capacity queue ops) :
    ∃ t, runAll perform s ops = .ok (answers queue ops,t) ∧ Represents t (contents queue ops) := by
  induction ops generalizing s queue with
  | nil => exact ⟨s,rfl,represents⟩
  | cons op ops ih =>
    obtain ⟨allowed,later⟩ := admitted
    obtain ⟨middle,performed,still⟩ := one s queue op represents allowed
    obtain ⟨t,ended,represented⟩ := ih still later
    refine ⟨t,?_,represented⟩
    rw [runAll,performed]
    change (runAll perform middle ops >>= _) = _
    rw [ended]
    rfl

end Trtp.Lib.Queue
