import Mathlib.Data.List.Infix
import Trtp.Lib.Reorder

/-! The transfer of a finite stream through a sliding window.
The sending side reads items while it has places for them, sends what the window
allows and forgets what has been acknowledged; the receiving side accepts sent items
in any order and passes them on in the order of the stream. Nothing is said of what
carries the items and the acknowledgements: it may lose, repeat and reorder them. -/
namespace Trtp.Lib.SlidingWindow
open Reorder

structure Transfer (α : Type) where
  read : List α
  sent : Nat
  acked : Nat
  stream : Reassembly
  acks : Set Nat

variable {α : Type} {source : List α} {places window : Nat} {t u : Transfer α}

namespace Transfer

def start : Transfer α := ⟨[],0,0,.empty,∅⟩

/-- The items that have been passed on. -/
def output (t : Transfer α) : List α := t.read.take t.stream.passed

end Transfer

inductive Step (source : List α) (places window : Nat) (t : Transfer α) : Transfer α → Prop
  | read (a : α) (next : source[t.read.length]? = some a) (room : t.read.length < t.acked + places) :
      Step source places window t { t with read := t.read ++ [a] }
  | send (ready : t.sent < t.read.length) (allowed : t.sent < t.acked + window) :
      Step source places window t { t with sent := t.sent + 1 }
  | accept (n : Nat) (sent : n < t.sent) : Step source places window t { t with stream := t.stream.accept n }
  | pass (ready : t.stream.passed ∈ t.stream.accepted) :
      Step source places window t { t with stream := t.stream.pass ready }
  | acknowledge : Step source places window t { t with acks := insert t.stream.passed t.acks }
  | hear (n : Nat) (given : n ∈ t.acks) (later : t.acked ≤ n) : Step source places window t { t with acked := n }

def Steps (source : List α) (places window : Nat) : Transfer α → Transfer α → Prop :=
  Relation.ReflTransGen (Step source places window)

/-- The invariant of a transfer. -/
structure Ordered (source : List α) (places window : Nat) (t : Transfer α) : Prop where
  read : t.read <+: source
  room : t.read.length ≤ t.acked + places
  sent : t.sent ≤ t.read.length
  allowed : t.sent ≤ t.acked + window
  accepted : ∀ n ∈ t.stream.accepted, n < t.sent
  acked : t.acked ≤ t.stream.passed
  acks : ∀ n ∈ t.acks, n ≤ t.stream.passed

theorem start_ordered : Ordered source places window Transfer.start where
  read := List.nil_prefix
  room := Nat.zero_le _
  sent := Nat.le_refl 0
  allowed := Nat.zero_le _
  accepted _ member := member.elim
  acked := Nat.le_refl 0
  acks _ member := member.elim

theorem Step.ordered (step : Step source places window t u) (ordered : Ordered source places window t) :
    Ordered source places window u := by
  obtain ⟨read,room,sent,allowed,accepted,acked,acks⟩ := ordered
  cases step with
  | read a next free =>
    obtain ⟨inside,found⟩ := List.getElem?_eq_some_iff.mp next
    have grown : t.read ++ [a] = source.take (t.read.length + 1) := by
      rw [List.take_succ_eq_append_getElem inside,← List.prefix_iff_eq_take.mp read,found]
    have length : (t.read ++ [a]).length = t.read.length + 1 := by rw [List.length_append,List.length_singleton]
    refine ⟨?_,?_,?_,allowed,accepted,acked,acks⟩
    · change t.read ++ [a] <+: source
      rw [grown]
      exact List.take_prefix _ _
    · change (t.read ++ [a]).length ≤ t.acked + places
      omega
    · change t.sent ≤ (t.read ++ [a]).length
      omega
  | send ready free =>
    exact ⟨read,room,ready,free,fun n member => Nat.lt_succ_of_lt (accepted n member),acked,acks⟩
  | accept n known =>
    refine ⟨read,room,sent,allowed,?_,acked,acks⟩
    rintro k (rfl | old)
    · exact known
    · exact accepted k old
  | pass ready =>
    exact ⟨read,room,sent,allowed,accepted,Nat.le_succ_of_le acked,fun n member => Nat.le_succ_of_le (acks n member)⟩
  | acknowledge =>
    refine ⟨read,room,sent,allowed,accepted,acked,?_⟩
    rintro n (rfl | old)
    · exact Nat.le_refl _
    · exact acks n old
  | hear n given later =>
    exact ⟨read,Nat.le_trans room (Nat.add_le_add_right later _),sent,
      Nat.le_trans allowed (Nat.add_le_add_right later _),
      accepted,acks n given,acks⟩

theorem steps_ordered (steps : Steps source places window t u) (ordered : Ordered source places window t) :
    Ordered source places window u := by
  induction steps with
  | refl => exact ordered
  | tail _ step ih => exact step.ordered ih

namespace Ordered

theorem passed_le (ordered : Ordered source places window t) : t.stream.passed ≤ t.sent := by
  rcases Nat.eq_zero_or_pos t.stream.passed with none | some
  · rw [none]
    exact Nat.zero_le _
  · have last := ordered.accepted (t.stream.passed - 1) (t.stream.closed _ (by omega))
    omega

theorem output_eq (ordered : Ordered source places window t) : t.output = source.take t.stream.passed := by
  have passed := ordered.passed_le
  have sent := ordered.sent
  obtain ⟨rest,parts⟩ := ordered.read
  rw [Transfer.output,← parts,List.take_append_of_le_length (by omega)]

end Ordered

end Trtp.Lib.SlidingWindow
