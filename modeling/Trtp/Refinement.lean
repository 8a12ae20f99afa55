import Trtp.Accord
import Trtp.Lib.SlidingWindow

/-! The two ends and the network refine the transfer through a sliding window.
Losses, repetitions, retransmissions, negative acknowledgements and everything that is
dropped or rejected leave the transfer as it is. -/
namespace Trtp.Refinement
open Lib.Circular Lib.Mask Lib.Reorder Lib.Run Lib.Serial Lib.SlidingWindow Packet Codec Process Buffer Net
open SendBuffer SenderRuns Progress ReceiveBuffer ReceiverRuns DataStream Acknowledgement
open Network Transfer PairFlow Accord
open Transmit (Sender Sending Chunk)
open Receive (Receiver Reply)

def acksOf (r : Receiver) : Set Nat := {n | ∃ e ∈ r.replies, e.type = ptypeAck ∧ e.number = n}

/-- The transfer that the two processes carry out. -/
def transfer (s : Sender) (r : Receiver) : Lib.SlidingWindow.Transfer Chunk where
  read := s.input
  sent := s.sent
  acked := s.acked
  stream := view r
  acks := acksOf r

def transferOf (p : System) : Lib.SlidingWindow.Transfer Chunk := transfer p.sender.state p.receiver.state

variable {hs hr : Host} {capacity maxWindow : UInt32} {chunks : List Chunk} {p : System} {s t : Sender} {r u : Receiver}

abbrev Onto (capacity maxWindow : UInt32) (chunks : List Chunk) :=
  Steps (feed chunks) capacity.toNat maxWindow.toNat

theorem acks_given (joint : Joint hs hr capacity chunks p) (same : hr.crc32 = hs.crc32)
    (running : p.sender = .running s) {event : Transmit.Event} (admitted : Admitted hs hr chunks p (.send event))
    {n : Nat} (acks : Acks hs s event n) :
    n ∈ acksOf p.receiver.state := by
  obtain ⟨stale,input,file,pkt,rfl,received,ack,inside,rfl⟩ := acks
  have steady := joint.steady
  rw [running] at steady
  have inflight := steady.1.inflight
  have state : p.sender.state = s := congrArg Config.state running
  obtain ⟨e,member,near,type,seq⟩ := (admitted.1 input rfl).heard same joint.genuine (netRecvPkt_ok received).1
  rw [state] at near
  rw [seq,steady.1.lastAck,Sender.outstanding] at inside
  unfold maxWindowSize at inflight
  have number := near_gap near inside (by omega)
  refine ⟨e,member,type.symm.trans ack,?_⟩
  rw [seq,steady.1.lastAck]
  omega

theorem sendLoop_steps {h : Host} (valid : Valid h.crc32 s) (most : s.lastWin.toNat ≤ maxWindow.toNat) (r : Receiver)
    (ended : Transmit.doSendSbuf h s = .ret t) : Onto capacity maxWindow chunks (transfer s r) (transfer t r) := by
  have met := @sendLoop_meets h s (fun u => Onto capacity maxWindow chunks (transfer s r) (transfer u r) ∧
      u.lastWin.toNat ≤ maxWindow.toNat) (fun _ => True)
    (fun u bytes valid kept known allowed => by
      refine ⟨kept.1.tail (.send (List.getElem?_eq_some_iff.mp known).1 ?_),kept.2⟩
      have ordered := valid.ackedSent
      have most := kept.2
      rw [Sender.outstanding] at allowed
      change u.sent < u.acked + maxWindow.toNat
      omega)
    (fun _ _ _ _ => trivial) 256 valid ⟨.refl,most⟩
  exact (met.of_ret ended).2.1

theorem turn_steps (joint : Joint hs hr capacity chunks p) (agreed : Agreed hs hr maxWindow chunks p)
    (same : hr.crc32 = hs.crc32) (least : 1 ≤ maxWindow.toNat) (most : maxWindow.toNat ≤ maxWindowSize)
    (running : p.sender = .running s) {event : Transmit.Event}
    (admitted : Admitted hs hr chunks p (.send event)) {fuel : Nat}
    (taken : Transmit.turn hs fuel s event = some (.ret t)) :
    Onto capacity maxWindow chunks (transfer s p.receiver.state) (transfer t p.receiver.state) := by
  have steady := joint.steady
  rw [running] at steady
  obtain ⟨valid,polls,size⟩ := steady
  have regular := agreed.regular s (Or.inl running)
  have polite := agreed.polite joint same most running admitted
  have state : p.sender.state = s := congrArg Config.state running
  cases event with
  | failed => simp [Transmit.turn] at taken
  | timeout =>
    obtain ⟨core,_⟩ := (turn_expiry valid taken).core valid
    have input := congrArg Sender.input core
    have sent := congrArg Sender.sent core
    have acked := congrArg Sender.acked core
    change t.input = s.input at input
    change t.sent = s.sent at sent
    change t.acked = s.acked at acked
    rw [transfer,transfer,input,sent,acked]
    exact .refl
  | ready stale socket file =>
    obtain ⟨c,ended,rest⟩ := Outcome.andThen_ret (Option.some.inj taken)
    obtain rfl := Outcome.ret.inj rest
    obtain ⟨b,filed,sending⟩ := Outcome.andThen_ret ended
    obtain ⟨a,heard,reading⟩ := Outcome.andThen_ret filed
    obtain ⟨after,stillPolls,later⟩ := (readSocket_meets valid polls stale socket).of_ret heard
    obtain ⟨acked,input⟩ := (readSocket_counts valid stale socket file).of_ret heard
    have sent := ((readSocket_heard valid stale socket).of_ret heard).2.sent
    have leveled := ((readSocket_onward valid regular.leveled stale socket file polite least).of_ret heard).leveled
    have first : Onto capacity maxWindow chunks (transfer s p.receiver.state) (transfer a p.receiver.state) := by
      have heeded : transfer a p.receiver.state = { transfer s p.receiver.state with acked := a.acked } := by
        rw [transfer,transfer,input,sent]
      rcases acked with kept | acks
      · rw [heeded,kept]
        exact .refl
      · rw [heeded]
        exact .single (.hear a.acked (acks_given joint same running admitted acks) later.acked)
    obtain ⟨valid',read⟩ := (@readFile_meets hs a (fun b => b = a ∨
        ∃ bytes, file = some (.data bytes) ∧ b = Sender.queued hs.crc32 a bytes) (fun _ => True) (fun _ _ => True) after
      stillPolls file (Or.inl rfl) (fun bytes chosen => Or.inr ⟨bytes,chosen,rfl⟩) (fun _ => trivial)).of_ret reading
    have second : Onto capacity maxWindow chunks (transfer a p.receiver.state) (transfer b p.receiver.state) := by
      rcases read with rfl | ⟨bytes,chosen,rfl⟩
      · exact .refl
      · have next := admitted.2 bytes chosen
        have fits := valid'.fits
        change (a.input ++ [bytes]).length ≤ a.acked + a.sendBuf.capacity.toNat at fits
        rw [List.length_append,List.length_singleton,later.capacity,size] at fits
        rw [state,← input] at next
        exact .single (.read bytes next fits)
    have window : b.lastWin.toNat ≤ maxWindow.toNat := by
      have bound := leveled.most
      rcases read with rfl | ⟨bytes,_,rfl⟩
      · exact bound
      · exact bound
    have third : Onto capacity maxWindow chunks (transfer b p.receiver.state) (transfer c p.receiver.state) :=
      sendLoop_steps valid' window p.receiver.state sending
    exact (first.trans second).trans third

theorem fresh_transfer (fresh : Fresh r) (s : Sender) :
    transfer s r = { read := s.input, sent := s.sent, acked := s.acked, stream := .empty, acks := ∅ } := by
  have none : acksOf r = ∅ := by
    ext n
    simp [acksOf,fresh.replies]
  rw [transfer,none,view,fresh.drained,fresh.oosMask,Reassembly.masked_zero]

theorem move_steps {source : Nat → Pkt → Prop} (sound : Sound r)
    (sent : ∀ n pkt, source n pkt → pkt.tr = false → n < s.sent) (move : Move source r u) :
    Onto capacity maxWindow chunks (transfer s r) (transfer s u) := by
  cases move with
  | idle _ same =>
    have mask := congrArg Receiver.oosMask same
    have drained := congrArg Receiver.drained same
    have replies := congrArg Receiver.replies same
    change u.oosMask = r.oosMask at mask
    change u.drained = r.drained at drained
    change u.replies = r.replies at replies
    rw [transfer,transfer,view,view,acksOf,acksOf,mask,drained,replies]
    exact .refl
  | reserved buf kept => exact .refl
  | stored pkt gap clear inside near room read whole number =>
    have most := sound.most
    unfold maxWindowSize at most
    have inserted : view (Receiver.storing r pkt gap) = (view r).accept (r.drained + gap) :=
      Reassembly.masked_accept r.drained r.oosMask (by omega)
    have before := sent _ pkt read whole
    rw [sound.expected_eq_drained clear] at before
    have step : Step (feed chunks) capacity.toNat maxWindow.toNat (transfer s r)
        { transfer s r with stream := (view r).accept (r.drained + gap) } := .accept _ before
    rw [← inserted] at step
    exact .single step
  | drained set =>
    have ready : r.drained + 0 ∈ (Reassembly.masked r.drained r.oosMask).accepted := Reassembly.mem_masked_add.mpr set
    have passed : view (Receiver.draining r) = (view r).pass ready := Reassembly.masked_pass r.drained r.oosMask set
    have step : Step (feed chunks) capacity.toNat maxWindow.toNat (transfer s r)
        { transfer s r with stream := (view r).pass ready } := .pass ready
    rw [← passed] at step
    exact .single step

theorem moves_steps {source : Nat → Pkt → Prop} (sound : Sound r)
    (sent : ∀ n pkt, source n pkt → pkt.tr = false → n < s.sent) (moves : Moves source r u) :
    Onto capacity maxWindow chunks (transfer s r) (transfer s u) := by
  induction moves with
  | refl => exact .refl
  | tail before move ih => exact ih.trans (move_steps (Moves.sound before sound) sent move)

/-- With nothing left to write, an acknowledgement carries the number of written chunks. -/
theorem answered_steps {h : Host} (sound : Sound r) (clear : bit r.oosMask 0 = false) (answered : Answered h r u) :
    Onto capacity maxWindow chunks (transfer s r) (transfer s u) := by
  obtain ⟨news,appended,all⟩ := answered.news
  have mask := congrArg Receiver.oosMask answered.same
  have drained := congrArg Receiver.drained answered.same
  change u.oosMask = r.oosMask at mask
  change u.drained = r.drained at drained
  have stream : view u = view r := by rw [view,view,mask,drained]
  have front := sound.expected_eq_drained clear
  by_cases acked : ackReply h r ∈ news
  · have more : acksOf u = insert (view r).passed (acksOf r) := by
      ext n
      change (∃ e ∈ u.replies, _) ↔ n = r.drained ∨ ∃ e ∈ r.replies, _
      rw [appended]
      constructor
      · rintro ⟨e,member,type,rfl⟩
        rcases List.mem_append.mp member with old | new
        · exact Or.inr ⟨e,old,type,rfl⟩
        · rcases all e new with rfl | ⟨_,rfl⟩
          · exact Or.inl front
          · exact absurd (show ptypeNack = ptypeAck from type) (by decide)
      · rintro (rfl | ⟨e,old,type,number⟩)
        · exact ⟨_,List.mem_append_right _ acked,rfl,front⟩
        · exact ⟨e,List.mem_append_left _ old,type,number⟩
    rw [transfer,transfer,stream,more]
    exact .single .acknowledge
  · have none : acksOf u = acksOf r := by
      ext n
      change (∃ e ∈ u.replies, _) ↔ ∃ e ∈ r.replies, _
      rw [appended]
      constructor
      · rintro ⟨e,member,type,number⟩
        rcases List.mem_append.mp member with old | new
        · exact ⟨e,old,type,number⟩
        · rcases all e new with rfl | ⟨_,rfl⟩
          · exact absurd new acked
          · exact absurd (show ptypeNack = ptypeAck from type) (by decide)
      · rintro ⟨e,old,rest⟩
        exact ⟨e,List.mem_append_left _ old,rest⟩
    rw [transfer,transfer,stream,none]
    exact .refl

theorem next_steps (joint : Joint hs hr capacity chunks p) (agreed : Agreed hs hr maxWindow chunks p)
    (same : hr.crc32 = hs.crc32) (complete : ∀ n, hr.write n = .complete) (nonempty : ∀ bytes ∈ chunks, bytes.val ≠ [])
    (most : maxWindow.toNat ≤ maxWindowSize) (unfailed : p.sender.Unfailed s) {event : Receive.Event}
    (admitted : Admitted hs hr chunks p (.receive event)) {d : Config Halt Receiver}
    (taken : Receive.Step hr p.receiver event d) :
    Onto capacity maxWindow chunks (transfer s p.receiver.state) (transfer s d.state) := by
  have timely := joint.timely same admitted
  have later := (agreed.receive joint same complete nonempty most admitted taken).prepared.window
  obtain ⟨_,evolved⟩ := next_evolved (fun n => Or.inl (complete n)) joint.consistent timely taken
  have sent {base m : Receiver} (began : base = p.receiver.state ∨ Fresh p.receiver.state ∧ Fresh base)
      (moves : Moves (Arrived hr (socket event) base) base m) (answered : Answered hr m d.state) (n : Nat) (pkt : Pkt)
      (arrived : Arrived hr (socket event) base n pkt) (_ : pkt.tr = false) : n < s.sent := by
    have kept := congrArg Receiver.maxWindow answered.same
    have fixed : base.maxWindow = maxWindow := (Moves.maxWindow moves).symm.trans (Eq.trans (Eq.symm kept) later)
    exact agreed.arrived_sent same most unfailed admitted fixed (Fresh.agree began).1 arrived
  cases evolved with
  | waited _ before after =>
    rw [fresh_transfer before,fresh_transfer after]
    exact .refl
  | linked base t before after sound moves phase =>
    rw [fresh_transfer before,← fresh_transfer after]
    exact moves_steps sound (sent (Or.inr ⟨before,after⟩) moves (.silent rfl)) moves
  | broken code t sound moves => exact moves_steps sound (sent (Or.inl rfl) moves (.silent rfl)) moves
  | turned m _ sound moves emptied answered =>
    exact (moves_steps sound (sent (Or.inl rfl) moves answered) moves).trans
      (answered_steps (Moves.sound moves sound) (emptied complete) answered)
  | lingered retry _ sound phase answered =>
    refine answered_steps sound ?_ answered
    by_contra other
    obtain ⟨w,running,_⟩ := step_cases taken
    rw [running] at other phase
    have receiving := (joint.waiting w running (by simpa using other)).1
    exact absurd (receiving.symm.trans phase) (by simp)

theorem step_steps (joint : Joint hs hr capacity chunks p) (agreed : Agreed hs hr maxWindow chunks p)
    (same : hr.crc32 = hs.crc32) (complete : ∀ n, hr.write n = .complete) (least : 1 ≤ maxWindow.toNat)
    (most : maxWindow.toNat ≤ maxWindowSize) (nonempty : ∀ bytes ∈ chunks, bytes.val ≠ [])
    {action : Action} {q : System} (admitted : Admitted hs hr chunks p action) (taken : Network.Step hs hr p action q)
    (unfailed : q.sender.Unfailed t) :
    Onto capacity maxWindow chunks (transferOf p) (transferOf q) := by
  cases taken with
  | send event c turned =>
    obtain ⟨sender,receiver⟩ := p
    obtain ⟨fuel,s,event,outcome,ended⟩ := turned
    have state : (Transmit.afterTurn outcome).state = t := unfailed.state
    obtain rfl := afterTurn_unfailed unfailed
    have steps := turn_steps joint agreed same least most rfl admitted ended
    change Onto capacity maxWindow chunks (transfer s receiver.state)
      (transfer (Transmit.afterTurn (.ret t)).state receiver.state)
    rw [state]
    exact steps
  | receive event d turned =>
    have steps := next_steps joint agreed same complete nonempty most unfailed admitted turned
    have state : p.sender.state = t := unfailed.state
    rw [transferOf,transferOf,state]
    exact steps

theorem start_transfer (first : Network.Start hr capacity maxWindow p) : transferOf p = .start := by
  obtain ⟨sender,receiver⟩ := p
  obtain ⟨⟨buf,_,rfl⟩,new,slot,buf',_,_,rfl⟩ := first
  have fresh : Fresh (Receive.start maxWindow buf' slot) := ⟨rfl,rfl,rfl,rfl,rfl,rfl⟩
  exact fresh_transfer fresh _

theorem feed_take (k : Nat) : ((feed chunks).take k).flatMap Subtype.val = (chunks.take k).flatMap Subtype.val := by
  have nothing : ∀ n, ([endOfFile].take n).flatMap Subtype.val = [] := by
    intro n
    cases n with
    | zero => rfl
    | succ n =>
      rw [List.take_succ_cons,List.take_nil]
      rfl
  rw [feed,List.take_append,List.flatMap_append,nothing,List.append_nil]

theorem reachable_steps (same : hr.crc32 = hs.crc32) (complete : ∀ n, hr.write n = .complete)
    (small : capacity.toNat ≤ 128) (least : 1 ≤ maxWindow.toNat) (most : maxWindow.toNat ≤ maxWindowSize)
    (nonempty : ∀ bytes ∈ chunks, bytes.val ≠ [])
    (reached : Reach (Network.Start hr capacity maxWindow) (Network.Step hs hr) (Admitted hs hr chunks) p)
    (unfailed : ∃ s, p.sender.Unfailed s) : Onto capacity maxWindow chunks .start (transferOf p) := by
  induction reached with
  | start p first =>
    rw [start_transfer first]
    exact .refl
  | step p action q before admitted taken ih =>
    obtain ⟨joint,agreed⟩ := reachable_agreed same complete small least most nonempty before
    obtain ⟨t,after⟩ := unfailed
    exact (ih (unfailed_before taken after)).trans
      (step_steps joint agreed same complete least most nonempty admitted taken after)

/-- As long as the sender has not failed, the two ends have carried out the transfer of the
input through a sliding window, and each of their turns carries it on. -/
theorem transfer_refines (hs hr : Host) (same : hr.crc32 = hs.crc32) (complete : ∀ n, hr.write n = .complete)
    (capacity maxWindow : UInt32) (small : capacity.toNat ≤ 128) (least : 1 ≤ maxWindow.toNat)
    (most : maxWindow.toNat ≤ maxWindowSize) (chunks : List Chunk) (nonempty : ∀ bytes ∈ chunks, bytes.val ≠ [])
    (p : System) (reached : Reach (Network.Start hr capacity maxWindow) (Network.Step hs hr) (Admitted hs hr chunks) p)
    (unfailed : ∃ s, p.sender.Unfailed s) :
    Steps (feed chunks) capacity.toNat maxWindow.toNat .start (transferOf p) ∧
    p.receiver.state.output = (transferOf p).output.flatMap Subtype.val ∧
    ∀ action q t, Admitted hs hr chunks p action → Network.Step hs hr p action q → q.sender.Unfailed t →
      Steps (feed chunks) capacity.toNat maxWindow.toNat (transferOf p) (transferOf q) := by
  have steps := reachable_steps same complete small least most nonempty reached unfailed
  obtain ⟨joint,agreed⟩ := reachable_agreed same complete small least most nonempty reached
  refine ⟨steps,?_,?_⟩
  · rw [(steps_ordered steps start_ordered).output_eq,feed_take]
    exact joint.carrying.written.trans (written_take _)
  · intro action q t admitted taken after
    exact step_steps joint agreed same complete least most nonempty admitted taken after

def threeChunks : List Chunk := [oneByte,⟨[98],by decide⟩,⟨[99],by decide⟩]

/-- Chunk 2 overtakes chunk 1, and the acknowledgement of both is still to come. -/
theorem transfer_refines_reordered : ∃ p, (transferOf p).acked = 1 ∧ (transferOf p).sent = 3 ∧
    p.receiver.state.accepted = [0,2,1] ∧ p.receiver.state.output = [97,98,99] ∧
    Steps (feed threeChunks) 4 31 .start (transferOf p) := by
  have passed : bothRunning (fun s r =>
      (s.acked == 1 && s.sent == 3) && (r.accepted == [0,2,1] && r.output == [97,98,99]))
      ([.read,.forward 0,.write,.backward 0,.read,.read,.forward 2,.forward 1].foldlM
        (obey steadyHost steadyHost threeChunks) firstPair) = true := by decide +kernel
  obtain ⟨s,r,played,test⟩ := exists_of_bothRunning passed
  simp only [Bool.and_eq_true,beq_iff_eq] at test
  obtain ⟨⟨acked,sent⟩,accepted,output⟩ := test
  exact ⟨⟨.running s,.running r⟩,acked,sent,accepted,output,
    (transfer_refines steadyHost steadyHost rfl (fun _ => rfl) 4 31 (by decide) (by decide) (by decide) threeChunks
      (by simp [threeChunks,oneByte]) _ (obey_reach played) ⟨s,Or.inl rfl⟩).1⟩

/-- Neither end overruns the other: what is outstanding fits into the window of the receiver,
which never has to discard a datagram, and what it has accepted was sent. -/
theorem pair_flow (hs hr : Host) (same : hr.crc32 = hs.crc32) (complete : ∀ n, hr.write n = .complete)
    (capacity maxWindow : UInt32) (small : capacity.toNat ≤ 128) (least : 1 ≤ maxWindow.toNat)
    (most : maxWindow.toNat ≤ maxWindowSize) (chunks : List Chunk) (nonempty : ∀ bytes ∈ chunks, bytes.val ≠ [])
    (p : System) (reached : Reach (Network.Start hr capacity maxWindow) (Network.Step hs hr) (Admitted hs hr chunks) p)
    (s : Sender) (unfailed : p.sender.Unfailed s) :
    s.acked ≤ p.receiver.state.drained ∧ p.receiver.state.expected ≤ s.sent ∧ s.sent ≤ s.acked + maxWindow.toNat ∧
    FlowControl.Disciplined s.wire ∧
    (∀ e ∈ s.wire, ∃ n bytes, e.number = some n ∧ n < s.sent ∧ (feed chunks)[n]? = some bytes ∧
      e.datagram = chunkDatagram hs.crc32 n bytes) ∧
    ∀ r, p.receiver = .running r → r.phase = .receiving → bit r.oosMask 0 = false → Receive.rbufFull r = false := by
  obtain ⟨joint,agreed⟩ := reachable_agreed same complete small least most nonempty reached
  have steps := reachable_steps same complete small least most nonempty reached ⟨s,unfailed⟩
  have ordered := steps_ordered steps start_ordered
  have regular := agreed.regular s unfailed
  rw [transferOf,unfailed.state] at ordered
  refine ⟨ordered.acked,expected_le joint.consistent (agreed.accepted s unfailed),ordered.allowed,
    regular.opened.disciplined,?_,?_⟩
  · intro e member
    obtain ⟨n,bytes,number,sent,known,datagram⟩ := regular.wire e member
    obtain ⟨more,parts⟩ := ordered.read
    have inside := (List.getElem?_eq_some_iff.mp known).1
    change s.input ++ more = feed chunks at parts
    exact ⟨n,bytes,number,sent,by rw [← parts,List.getElem?_append_left inside,known],datagram⟩
  · intro r waiting phase clear
    have consistent := joint.consistent
    rw [waiting] at consistent
    have sound : Sound r := by simpa only [Consistent,phase] using consistent
    have accepted := agreed.accepted s unfailed
    have window := agreed.prepared.window
    have acked := ordered.acked
    have allowed := ordered.allowed
    rw [waiting] at accepted window acked
    change s.acked ≤ r.drained at acked
    change s.sent ≤ s.acked + maxWindow.toNat at allowed
    exact (rbufFull_iff sound).mpr (room_of_sent sound clear window accepted (by omega))

/-- Two chunks are outstanding, of which the receiver has stored the second. -/
theorem pair_flow_reordered : ∃ (s : Sender) (r : Receiver), s.sent = 3 ∧ r.oosMask = 2 ∧
    s.acked ≤ r.drained ∧ r.expected ≤ s.sent ∧ FlowControl.Disciplined s.wire ∧ Receive.rbufFull r = false := by
  have passed : bothRunning (fun s r => s.sent == 3 && (r.oosMask == 2 && decide (r.phase = .receiving)))
      ([.read,.forward 0,.write,.backward 0,.read,.read,.forward 2].foldlM (obey steadyHost steadyHost threeChunks)
        firstPair) = true := by decide +kernel
  obtain ⟨s,r,played,test⟩ := exists_of_bothRunning passed
  simp only [Bool.and_eq_true,beq_iff_eq,decide_eq_true_eq] at test
  obtain ⟨sent,mask,phase⟩ := test
  obtain ⟨acked,expected,_,disciplined,_,room⟩ := pair_flow steadyHost steadyHost rfl (fun _ => rfl) 4 31 (by decide)
    (by decide) (by decide) threeChunks (by simp [threeChunks,oneByte]) _ (obey_reach played) s (Or.inl rfl)
  have clear : bit r.oosMask 0 = false := by
    rw [mask]
    decide
  exact ⟨s,r,sent,mask,acked,expected,disciplined,room r rfl phase clear⟩

end Trtp.Refinement
