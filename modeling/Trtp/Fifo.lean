import Trtp.Buffer
import Trtp.Lib.Queue

/-! The packet buffer as a queue: however far its two indices have run, it holds the
packets that were enqueued and not yet dequeued, oldest first. -/
namespace Trtp.Fifo
open Lib.Circular Lib.Queue Packet Process Buffer

/-- A call on the buffer; the place that pktbuf_enqueue returns is filled at once. What
the other calls return is read through the pointer. -/
def perform (h : Host) (buf : Pktbuf) : Op Pkt → Except Halt (Option Pkt × Pktbuf)
  | .enqueue pkt => do
    let (place,buf) ← pktbufEnqueue h buf
    return (none,buf.put place pkt)
  | .dequeue => do
    let (place,buf) ← pktbufDequeue h buf
    return (some (buf.head place),buf)
  | .first => return ((pktbufFirst buf).map buf.head,buf)
  | .last => return ((pktbufLast buf).map buf.head,buf)

/-- The live packets are the items of a queue that the buffer has room for. -/
structure Represents (capacity : Nat) (buf : Pktbuf) (queue : List Pkt) : Prop where
  items : buf.items = queue
  places : buf.capacity.toNat = capacity
  fits : queue.length ≤ capacity

variable {h : Host} {buf : Pktbuf} {queue : List Pkt} {capacity : Nat}

namespace Represents

theorem size (represents : Represents capacity buf queue) : buf.size = queue.length := by
  rw [← represents.items,buf.items_length]

theorem empty_iff (represents : Represents capacity buf queue) : pktbufEmpty buf = true ↔ queue = [] := by
  rw [pktbufEmpty_iff,represents.size,List.length_eq_zero_iff]

theorem full_iff (represents : Represents capacity buf queue) : pktbufFull buf = true ↔ queue.length = capacity := by
  have fits := represents.fits
  rw [pktbufFull_iff,represents.size,represents.places]
  omega

theorem freeslots (represents : Represents capacity buf queue) :
    (pktbufFreeslots buf).toNat = capacity - queue.length := by
  have size := represents.size
  have fits := represents.fits
  have bound : pktbufUsed buf ≤ buf.capacity := by
    rw [UInt32.le_iff_toNat_le,represents.places]
    change buf.size ≤ capacity
    omega
  rw [pktbufFreeslots,UInt32.toNat_sub_of_le _ _ bound,represents.places]
  change capacity - buf.size = _
  rw [size]

theorem get (represents : Represents capacity buf queue) (i : Nat) (inside : i < queue.length) :
    queue[i]? = some (buf.get i) := by
  rw [← represents.items,CircularArray.items,List.getElem?_map,
    List.getElem?_range (by rw [represents.size]; exact inside)]
  rfl

theorem first (represents : Represents capacity buf queue) : (pktbufFirst buf).map buf.head = queue.head? := by
  rcases Nat.eq_zero_or_pos queue.length with none | some
  · rw [pktbufFirst_empty (by rw [represents.size,none]),List.length_eq_zero_iff.mp none]
    rfl
  · rw [pktbufFirst_live (by rw [represents.size]; exact some),List.head?_eq_getElem?,represents.get 0 some]
    rfl

theorem last (represents : Represents capacity buf queue) : (pktbufLast buf).map buf.head = queue.getLast? := by
  have size := represents.size
  rcases Nat.eq_zero_or_pos queue.length with none | some
  · rw [pktbufLast,(pktbufEmpty_iff buf).mpr (by omega),List.length_eq_zero_iff.mp none]
    rfl
  · have live : 0 < buf.size := by omega
    have place : bufGet (lastItem buf) buf = buf.slot (buf.size - 1) := by
      rw [bufGet,lastItem,maskIndex,maskIndex,buf.mask_mask,buf.mask_pred_last live]
    rw [pktbufLast,pktbufEmpty_false live,List.getLast?_eq_getElem?,represents.get _ (by omega),place,size]
    rfl

theorem enqueue (represents : Represents capacity buf queue) (room : queue.length < capacity) (pkt : Pkt) :
    pktbufEnqueue h buf = .ok (buf.slot buf.size,buf.push) ∧
      Represents capacity (buf.push.put (buf.slot buf.size) pkt) (queue ++ [pkt]) := by
  have free : buf.size < buf.capacity.toNat := by
    rw [represents.size,represents.places]
    exact room
  refine ⟨pktbufEnqueue_room h free,?_,represents.places,?_⟩
  · rw [buf.items_push pkt free,represents.items]
  · rw [List.length_append]
    exact room

theorem dequeue {pkt : Pkt} {rest : List Pkt} (represents : Represents capacity buf (pkt :: rest)) :
    pktbufDequeue h buf = .ok (buf.slot 0,buf.pop) ∧ buf.get 0 = pkt ∧ Represents capacity buf.pop rest := by
  have live : 0 < buf.size := by
    rw [represents.size]
    exact Nat.succ_pos _
  have fits := represents.fits
  obtain ⟨front,later⟩ := List.cons.inj ((buf.items_pop live).symm.trans represents.items)
  exact ⟨pktbufDequeue_live h live,front,later,represents.places,Nat.le_of_succ_le fits⟩

/-- Step lemma: an allowed call does what it does to the queue. -/
theorem perform (represents : Represents capacity buf queue) (op : Op Pkt) (allowed : op.Allowed capacity queue) :
    ∃ more, Fifo.perform h buf op = .ok (op.answer queue,more) ∧ Represents capacity more (op.after queue) := by
  cases op with
  | enqueue pkt =>
    obtain ⟨done,after⟩ := represents.enqueue allowed pkt
    refine ⟨_,?_,after⟩
    rw [Fifo.perform,done]
    rfl
  | dequeue =>
    cases queue with
    | nil => exact absurd rfl allowed
    | cons pkt rest =>
      obtain ⟨done,front,after⟩ := represents.dequeue
      refine ⟨_,?_,after⟩
      rw [Fifo.perform,done]
      exact congrArg (fun front => Except.ok (some front,buf.pop)) front
  | first =>
    refine ⟨buf,?_,represents⟩
    rw [Fifo.perform,represents.first]
    rfl
  | last =>
    refine ⟨buf,?_,represents⟩
    rw [Fifo.perform,represents.last]
    rfl

end Represents

theorem pktbufNew_represents {capacity : UInt32} {new : Pktbuf} (made : pktbufNew capacity true = .ok (some new)) :
    Represents capacity.toNat new [] := by
  obtain ⟨first,last,size,_⟩ := pktbufNew_fields made
  have empty : new.size = 0 := new.size_eq_zero.mpr (first.trans last.symm)
  refine ⟨?_,by rw [size],Nat.zero_le _⟩
  rw [← List.length_eq_zero_iff,new.items_length,empty]

theorem runAll_represents {capacity : UInt32} {new : Pktbuf} (made : pktbufNew capacity true = .ok (some new))
    {ops : List (Op Pkt)} (admitted : Admits capacity.toNat [] ops) :
    ∃ buf, runAll (Fifo.perform h) new ops = .ok (answers [] ops,buf) ∧
    Represents capacity.toNat buf (contents [] ops) :=
  runAll_simulates (fun _ _ op before => before.perform op) (pktbufNew_represents made) ops admitted

/-- What can be read off a buffer at any time: it holds the queue and nothing else, and
the place of the next packet is none of the live ones. -/
structure Queues (h : Host) (capacity : Nat) (buf : Pktbuf) (queue : List Pkt) : Prop where
  items : buf.items = queue
  used : (pktbufUsed buf).toNat = queue.length
  fits : queue.length ≤ capacity
  freeslots : (pktbufFreeslots buf).toNat = capacity - queue.length
  empty : pktbufEmpty buf = true ↔ queue = []
  full : pktbufFull buf = true ↔ queue.length = capacity
  fresh : queue.length < capacity → ∃ place more, pktbufEnqueue h buf = .ok (place,more) ∧
    (∀ i < buf.size, place ≠ buf.slot i) ∧ ∀ pkt, ∀ i < buf.size,
      (more.put place pkt).slot i = buf.slot i ∧ (more.put place pkt).get i = buf.get i

theorem Represents.queues (represents : Represents capacity buf queue) : Queues h capacity buf queue where
  items := represents.items
  used := represents.size
  fits := represents.fits
  freeslots := represents.freeslots
  empty := represents.empty_iff
  full := represents.full_iff
  fresh room := by
    have size := represents.size
    have free : buf.size < buf.capacity.toNat := by
      rw [size,represents.places]
      exact room
    refine ⟨buf.slot buf.size,buf.push,pktbufEnqueue_room h free,?_,?_⟩
    · intro i inside same
      have equal := buf.slot_inj free (by omega) same
      omega
    · intro pkt i inside
      exact ⟨rfl,(extends_push free pkt).kept i inside⟩

/-- However many calls come in whatever order, as long as none enqueues into a full
buffer or dequeues from an empty one, the buffer answers like a queue and holds its items. -/
theorem runAll_fifo (h : Host) (capacity : UInt32) (new : Pktbuf) (made : pktbufNew capacity true = .ok (some new))
    (ops : List (Op Pkt)) (admitted : Admits capacity.toNat [] ops) :
    ∃ buf, runAll (perform h) new ops = .ok (answers [] ops,buf) ∧ Queues h capacity.toNat buf (contents [] ops) ∧
      enqueued ops = dequeued [] ops ++ contents [] ops := by
  obtain ⟨buf,ended,represents⟩ := runAll_represents made admitted
  exact ⟨buf,ended,represents.queues,conservation [] ops⟩

def twoPlaces : Pktbuf := ⟨0,0,2,fun _ => Pkt.zero,⟨1,by decide,by decide⟩⟩

theorem twoPlaces_new : pktbufNew 2 true = .ok (some twoPlaces) := rfl

def numbered (seq : UInt8) : Pkt := { Pkt.zero with seq := seq }

def threeThroughTwo : List (Op Pkt) :=
  [.enqueue (numbered 1),.enqueue (numbered 2),.dequeue,.enqueue (numbered 3),.last]

theorem threeThroughTwo_admitted : Admits (2 : UInt32).toNat [] threeThroughTwo :=
  ⟨Nat.zero_lt_two,Nat.one_lt_two,List.cons_ne_nil _ _,Nat.one_lt_two,trivial,trivial⟩

theorem runAll_fifo_threeThroughTwo : ∃ buf, runAll (perform steadyHost) twoPlaces threeThroughTwo =
    .ok ([none,none,some (numbered 1),none,some (numbered 3)],buf) ∧ buf.items = [numbered 2,numbered 3] := by
  obtain ⟨buf,ended,queues,_⟩ :=
    runAll_fifo steadyHost 2 twoPlaces twoPlaces_new threeThroughTwo threeThroughTwo_admitted
  exact ⟨buf,ended,queues.items⟩

end Trtp.Fifo
