import Trtp.Network

/-! What holds of both ends of a transfer together.
The sender drops a chunk only after the receiver has written it, and the window of
one with which it starts keeps every chunk but the first off the wire until the
receiver has written that one. -/
namespace Trtp.Transfer
open Lib.Circular Lib.Mask Lib.Reorder Lib.Run Lib.Serial Packet Codec Process Buffer Net SendBuffer SenderRuns Progress
open ReceiveBuffer ReceiverRuns DataStream InOrder Acknowledgement Network
open Transmit (Sender Sending Chunk)
open Receive (Receiver Reply)

/-- The invariant of the two ends. -/
structure Joint (hs hr : Host) (capacity : UInt32) (chunks : List Chunk) (p : System) : Prop where
  steady : Steady hs.crc32 capacity p.sender
  consistent : Consistent p.receiver
  carrying : Carrying (fun i => content (streamOf chunks i)) p.receiver.state
  read : p.sender.state.input <+: feed chunks
  acked : p.sender.state.acked ≤ p.receiver.state.drained
  genuine : ∀ r ∈ p.receiver.state.replies, Genuine hr r
  acks : ∀ r ∈ p.receiver.state.replies, r.type = ptypeAck → r.number ≤ p.receiver.state.drained
  shy : p.receiver.state.replies = [] → Shy p.sender.state
  opening : p.receiver.state.replies = [] → ∀ s, p.sender = .running s → Opening s
  waiting : ∀ s, p.receiver = .running s → bit s.oosMask 0 = true → s.phase = .receiving ∧ s.replies = []

variable {hs hr : Host} {capacity maxWindow : UInt32} {chunks : List Chunk} {p : System}

theorem start_joint (least : 1 ≤ maxWindow.toNat) (most : maxWindow.toNat ≤ maxWindowSize)
    (first : Start hr capacity maxWindow p) : Joint hs hr capacity chunks p := by
  obtain ⟨c,d⟩ := p
  obtain ⟨sender,receiver⟩ := first
  have steady := @start_steady hs.crc32 capacity c sender
  have consistent := start_consistent least most receiver
  obtain ⟨new,_,rfl⟩ := sender
  obtain ⟨old,slot,buf,_,_,rfl⟩ := receiver
  have opening := start_opening new
  refine ⟨steady,consistent,.fresh ⟨rfl,rfl,rfl,rfl,rfl,rfl⟩,List.nil_prefix,Nat.le_refl 0,?_,?_,
    fun _ => opening.toShy,?_,?_⟩
  · intro r member
    contradiction
  · intro r member
    contradiction
  · rintro _ s same
    obtain rfl := Config.running.inj same
    exact opening
  · rintro s same set
    obtain rfl := Config.running.inj same
    change bit 0 0 = true at set
    rw [bit_zero] at set
    contradiction

/-- An acknowledgement that is let through names a chunk the receiver has written up to. -/
theorem Joint.acks_le (joint : Joint hs hr capacity chunks p) (same : hr.crc32 = hs.crc32) {s : Sender}
    (running : p.sender = .running s) {event : Transmit.Event} (admitted : Admitted hs hr chunks p (.send event))
    {n : Nat} (acks : Acks hs s event n) : n ≤ p.receiver.state.drained := by
  obtain ⟨stale,input,file,pkt,rfl,received,ack,inside,rfl⟩ := acks
  have steady := joint.steady
  rw [running] at steady
  have inflight := steady.1.inflight
  have state : p.sender.state = s := congrArg Config.state running
  obtain ⟨r,member,near,type,seq⟩ := (admitted.1 input rfl).heard same joint.genuine (netRecvPkt_ok received).1
  rw [state] at near
  rw [seq,steady.1.lastAck,Sender.outstanding] at inside
  unfold maxWindowSize at inflight
  have number := near_gap near inside (by omega)
  have bound := joint.acks r member (type.symm.trans ack)
  rw [seq,steady.1.lastAck]
  omega

theorem Joint.deaf (joint : Joint hs hr capacity chunks p) (same : hr.crc32 = hs.crc32)
    (quiet : p.receiver.state.replies = []) {s : Sender} {event : Transmit.Event}
    (admitted : Admitted hs hr chunks p (.send event)) : Deaf hs s event := by
  rintro stale input file pkt rfl received
  obtain ⟨r,member,_⟩ := (admitted.1 input rfl).heard same joint.genuine (netRecvPkt_ok received).1
  rw [quiet] at member
  contradiction

theorem Joint.send (joint : Joint hs hr capacity chunks p) (same : hr.crc32 = hs.crc32) (small : capacity.toNat ≤ 128)
    {event : Transmit.Event} (admitted : Admitted hs hr chunks p (.send event)) {c : Config Halt Sender}
    (taken : Transmit.Step hs p.sender event c) : Joint hs hr capacity chunks { p with sender := c } := by
  have steady := step_steady joint.steady taken
  obtain ⟨sender,receiver⟩ := p
  obtain ⟨fuel,s,event,outcome,ended⟩ := taken
  obtain ⟨valid,polls,size⟩ := joint.steady
  have heeded := (turn_heeded valid polls fuel event ended).state
  have state : (Transmit.afterTurn outcome).state = outcome.state := afterTurn_state outcome
  have opened (quiet : receiver.state.replies = []) := turn_opening valid polls (joint.opening quiet s rfl)
    (by rw [size]; exact small) fuel (joint.deaf same quiet admitted) ended
  refine ⟨steady,joint.consistent,joint.carrying,?_,?_,joint.genuine,joint.acks,?_,?_,joint.waiting⟩
  · change (Transmit.afterTurn outcome).state.input <+: feed chunks
    rw [state]
    have before : s.input <+: feed chunks := joint.read
    rcases heeded.input with kept | ⟨stale,socket,bytes,rfl,appended⟩
    · rw [kept]
      exact before
    · have next : (feed chunks)[s.input.length]? = some bytes := admitted.2 bytes rfl
      obtain ⟨inside,found⟩ := List.getElem?_eq_some_iff.mp next
      have grown : s.input ++ [bytes] = (feed chunks).take (s.input.length + 1) := by
        rw [List.take_succ_eq_append_getElem inside,← List.prefix_iff_eq_take.mp before,found]
      rw [appended,grown]
      exact List.take_prefix _ _
  · change (Transmit.afterTurn outcome).state.acked ≤ receiver.state.drained
    rw [state]
    rcases heeded.acked with kept | acks
    · rw [kept]
      exact joint.acked
    · exact joint.acks_le same rfl admitted acks
  · intro quiet
    change Shy (Transmit.afterTurn outcome).state
    rw [state]
    have met := opened quiet
    cases outcome with
    | ret t => exact met.toShy
    | err t => exact met
    | halt reason t => exact met
  · intro quiet t running
    exact (opened quiet).of_ret (afterTurn_running running)

/-- While data waits to be written, only chunk 0 is on the wire, and it is behind. -/
theorem Joint.timely (joint : Joint hs hr capacity chunks p) (same : hr.crc32 = hs.crc32)
    {event : Receive.Event} (admitted : Admitted hs hr chunks p (.receive event)) :
    Timely hr p.receiver event := by
  obtain ⟨sender,receiver⟩ := p
  cases receiver with
  | returned code s => trivial
  | halted reason s => trivial
  | running s =>
    cases event with
    | failed => trivial
    | timeout => trivial
    | datagram input linked => trivial
    | ready socket file =>
      cases socket with
      | none => trivial
      | some input =>
        rintro phase ⟨set,_,stale,pkt,received,_,whole⟩
        have sound : Sound s := by simpa only [Consistent,phase] using joint.consistent
        have quiet := (joint.waiting s rfl set).2
        obtain ⟨read,inside⟩ := netRecvPkt_ok received
        rcases admitted input rfl with rejected | ⟨e,member,n,bytes,number,_,datagram,near,unaltered⟩
        · have status := rejected stale
          rw [read] at status
          contradiction
        · have first := (joint.shy quiet).wire e member
          obtain rfl : n = 0 := Option.some.inj (number.symm.trans first)
          rw [Unaltered,datagram,chunkDatagram,← same] at unaltered
          rcases unaltered with rfl | rfl
          · obtain ⟨q,decoded,agrees⟩ := netRecvfrom_image (h := hr) (chunkPkt_encodable 0 bytes) stale
            rw [decoded] at read
            obtain rfl := (Prod.mk.inj read).2
            have seq : q.seq = serial 0 := agrees.seq.symm
            have most := sound.most
            unfold maxWindowSize at most
            rw [seq,sound.expectedSeq,sound.window8] at inside
            have behind := (near_window near inside (by omega)).1
            have ones := trailingOnes_shift set
            have expected := sound.expected
            change s.expected ≤ 0 at behind
            omega
          · obtain ⟨q,decoded,truncated,_⟩ := netRecvfrom_truncate (h := hr) (chunkPkt_encodable 0 bytes) rfl stale
            rw [decoded] at read
            obtain rfl := (Prod.mk.inj read).2
            rw [truncated] at whole
            contradiction

/-- What follows from moves of the receiver and then its replies. -/
theorem Joint.answered (joint : Joint hs hr capacity chunks p) {d : Config Halt Receiver} (consistent : Consistent d)
    {source : Nat → Pkt → Prop} {base m : Receiver}
    (began : base = p.receiver.state ∨ Fresh p.receiver.state ∧ Fresh base) (sound : Sound base)
    (faithful : ∀ n pkt, source n pkt → pkt.tr = false → content pkt = content (streamOf chunks n))
    (moves : Moves source base m) (answered : Answered hr m d.state)
    (settled : bit m.oosMask 0 = false ∨ d.state.replies = m.replies)
    (waiting : ∀ t, d = .running t → bit t.oosMask 0 = true → t.phase = .receiving ∧ t.replies = []) :
    Joint hs hr capacity chunks { p with receiver := d } := by
  have after := Moves.sound moves sound
  have started : Carrying (fun i => content (streamOf chunks i)) base ∧ base.drained = p.receiver.state.drained := by
    rcases began with rfl | ⟨before,fresh⟩
    · exact ⟨joint.carrying,rfl⟩
    · exact ⟨.fresh fresh,fresh.drained.trans before.drained.symm⟩
  have forward := moves_drained sound moves
  have drained := congrArg Receiver.drained answered.same
  change d.state.drained = m.drained at drained
  have kept : m.replies = p.receiver.state.replies := (moves_replies moves).trans (Fresh.agree began).2.2
  obtain ⟨news,appended,all⟩ := answered.news
  rw [kept] at appended
  have quiet (none : d.state.replies = []) : p.receiver.state.replies = [] := by
    rw [appended] at none
    exact (List.append_eq_nil_iff.mp none).1
  refine ⟨joint.steady,consistent,(started.1.moves sound faithful moves).answered answered,joint.read,?_,?_,?_,
    fun none => joint.shy (quiet none),fun none => joint.opening (quiet none),waiting⟩
  · have acked := joint.acked
    change p.sender.state.acked ≤ d.state.drained
    omega
  · intro r member
    change r ∈ d.state.replies at member
    rw [appended] at member
    rcases List.mem_append.mp member with old | new
    · exact joint.genuine r old
    · rcases all r new with rfl | ⟨_,rfl⟩
      · exact ackReply_genuine after
      · exact nackReply_genuine m m.nackSeq
  · intro r member ack
    change r ∈ d.state.replies at member
    change r.number ≤ d.state.drained
    rw [drained]
    have old (earlier : r ∈ p.receiver.state.replies) : r.number ≤ m.drained := by
      have bound := joint.acks r earlier ack
      omega
    rcases settled with clear | silent
    · rw [appended] at member
      rcases List.mem_append.mp member with earlier | new
      · exact old earlier
      · rcases all r new with rfl | ⟨_,rfl⟩
        · exact Nat.le_of_eq (after.expected_eq_drained clear)
        · have impossible : ptypeNack = ptypeAck := ack
          contradiction
    · rw [silent,kept] at member
      exact old member

theorem Joint.receive (joint : Joint hs hr capacity chunks p) (same : hr.crc32 = hs.crc32)
    (complete : ∀ n, hr.write n = .complete) {event : Receive.Event}
    (admitted : Admitted hs hr chunks p (.receive event)) {d : Config Halt Receiver}
    (taken : Receive.Step hr p.receiver event d) : Joint hs hr capacity chunks { p with receiver := d } := by
  have obliging : Obliging hr := fun n => Or.inl (complete n)
  obtain ⟨consistent,evolved⟩ := next_evolved obliging joint.consistent (joint.timely same admitted) taken
  have delivered := admitted.delivered same joint.read
  have faithful (base : Receiver) (sound : Sound base)
    (began : base = p.receiver.state ∨ Fresh p.receiver.state ∧ Fresh base)
      (n : Nat) (pkt : Pkt) (arrived : Arrived hr (socket event) base n pkt) (whole : pkt.tr = false) :
      content pkt = content (streamOf chunks n) :=
    (arrived_content (streamOf_isStream chunks) delivered sound (Fresh.agree began).1 n pkt arrived whole).1
  have unmarked {m : Receiver} (answered : Answered hr m d.state) (clear : bit m.oosMask 0 = false) (t : Receiver)
      (running : d = .running t) (set : bit t.oosMask 0 = true) : t.phase = .receiving ∧ t.replies = [] := by
    have mask := congrArg Receiver.oosMask answered.same
    change d.state.oosMask = m.oosMask at mask
    rw [running] at mask
    change t.oosMask = m.oosMask at mask
    rw [mask,clear] at set
    contradiction
  cases evolved with
  | waited _ before after =>
    refine ⟨joint.steady,consistent,.fresh after,joint.read,?_,?_,?_,?_,?_,?_⟩
    · have acked := joint.acked
      rw [before.drained] at acked
      change p.sender.state.acked ≤ d.state.drained
      omega
    · intro r member
      change r ∈ d.state.replies at member
      rw [after.replies] at member
      contradiction
    · intro r member
      change r ∈ d.state.replies at member
      rw [after.replies] at member
      contradiction
    · exact fun _ => joint.shy before.replies
    · exact fun _ => joint.opening before.replies
    · rintro t rfl set
      have mask : t.oosMask = 0 := after.oosMask
      rw [mask,bit_zero] at set
      contradiction
  | linked base t before after sound moves phase =>
    refine joint.answered consistent (Or.inr ⟨before,after⟩) sound (faithful base sound (Or.inr ⟨before,after⟩)) moves
      (.silent rfl) (Or.inr rfl) ?_
    rintro u running _
    obtain rfl := Config.running.inj running
    exact ⟨phase,(moves_replies moves).trans after.replies⟩
  | broken code t sound moves =>
    refine joint.answered consistent (Or.inl rfl) sound (faithful _ sound (Or.inl rfl)) moves (.silent rfl)
      (Or.inr rfl) ?_
    rintro u running
    contradiction
  | turned m _ sound moves emptied answered =>
    have clear := emptied complete
    exact joint.answered consistent (Or.inl rfl) sound (faithful _ sound (Or.inl rfl)) moves answered (Or.inl clear)
      (unmarked answered clear)
  | lingered retry _ sound phase answered =>
    have clear : bit p.receiver.state.oosMask 0 = false := by
      by_contra other
      have set : bit p.receiver.state.oosMask 0 = true := by simpa using other
      obtain ⟨s,running⟩ : ∃ s, p.receiver = .running s := by
        cases state : p.receiver with
        | running s => exact ⟨s,rfl⟩
        | returned code s => simp [state,Receive.Step,Receive.next] at taken
        | halted reason s => simp [state,Receive.Step,Receive.next] at taken
      rw [running] at set phase
      have receiving := (joint.waiting s running set).1
      change s.phase = _ at phase
      rw [receiving] at phase
      contradiction
    have still : Moves (fun _ _ => False) p.receiver.state p.receiver.state := .refl
    exact joint.answered consistent (Or.inl rfl) sound (fun _ _ never => never.elim) still answered
      (Or.inl clear) (unmarked answered clear)

theorem reachable_joint (same : hr.crc32 = hs.crc32) (complete : ∀ n, hr.write n = .complete)
    (small : capacity.toNat ≤ 128) (least : 1 ≤ maxWindow.toNat) (most : maxWindow.toNat ≤ maxWindowSize)
    (reached : Reach (Start hr capacity maxWindow) (Step hs hr) (Admitted hs hr chunks) p) :
    Joint hs hr capacity chunks p := by
  refine reached.invariant (fun _ first => start_joint least most first) ?_
  intro p action q joint admitted taken
  cases taken with
  | send event c turned => exact joint.send same small admitted turned
  | receive event d turned => exact joint.receive same complete admitted turned

theorem drained_le {c : Config Halt Receiver} (consistent : Consistent c) : c.state.drained ≤ c.state.expected := by
  have sound {s : Receiver} (sound : Sound s) : s.drained ≤ s.expected := by
    rw [sound.expected]
    exact Nat.le_add_right _ _
  have fresh {s : Receiver} (fresh : Fresh s) : s.drained ≤ s.expected := by
    rw [fresh.drained]
    exact Nat.zero_le _
  cases c with
  | halted reason s => exact consistent.elim
  | returned code s =>
    rcases consistent with kept | ⟨slot,waiting⟩
    · exact sound kept
    · exact fresh waiting.fresh
  | running s =>
    cases phase : s.phase with
    | connecting retry slot =>
      have waiting : Waiting s slot := by simpa only [Consistent,phase] using consistent
      exact fresh waiting.fresh
    | receiving =>
      have kept : Sound s := by simpa only [Consistent,phase] using consistent
      exact sound kept
    | lingering retry =>
      have kept : Sound s := by simpa only [Consistent,phase] using consistent
      exact sound kept

/-- A sender that returned 0 has read the whole input and saw it acknowledged. -/
theorem Joint.finished (joint : Joint hs hr capacity chunks p) (nonempty : ∀ bytes ∈ chunks, bytes.val ≠ [])
    {s : Sender} (returned : p.sender = .returned 0 s) : chunks.length < p.receiver.state.drained := by
  have steady := joint.steady
  have read := joint.read
  have acked := joint.acked
  rw [returned] at steady read acked
  obtain ⟨valid,ended,all⟩ := steady rfl
  change s.input <+: feed chunks at read
  change s.acked ≤ p.receiver.state.drained at acked
  have last := valid.lastRead
  rw [ended] at last
  cases final : s.input.getLast? with
  | none =>
    rw [final] at last
    contradiction
  | some bytes =>
    rw [final,Option.map_some,Option.getD_some] at last
    have empty : bytes.val = [] := List.length_eq_zero_iff.mp (by omega)
    have known : s.input[s.input.length - 1]? = some bytes := by rw [← final,List.getLast?_eq_getElem?]
    have present : s.input ≠ [] := by
      rintro none
      rw [none] at final
      contradiction
    have positive := List.length_pos_iff.mpr present
    by_contra early
    have inside : s.input.length - 1 < chunks.length := by omega
    have chunk := chunk_of_read read known
    rw [List.getElem?_eq_getElem inside,Option.getD_some] at chunk
    exact nonempty bytes (by rw [← chunk]; exact List.getElem_mem inside) empty

/-- End-to-end safety: whatever the network does, the bytes written are the first
chunks of the input, nothing is acknowledged beyond what the receiver expects next,
and when the sender returns 0 the whole input has been written. -/
theorem transfer_safe (hs hr : Host) (same : hr.crc32 = hs.crc32) (complete : ∀ n, hr.write n = .complete)
    (capacity maxWindow : UInt32) (small : capacity.toNat ≤ 128) (least : 1 ≤ maxWindow.toNat)
    (most : maxWindow.toNat ≤ maxWindowSize) (chunks : List Chunk) (nonempty : ∀ bytes ∈ chunks, bytes.val ≠ [])
    (p : System) (reached : Reach (Start hr capacity maxWindow) (Step hs hr) (Admitted hs hr chunks) p) :
    (∃ k, p.receiver.state.output = (chunks.take k).flatMap Subtype.val) ∧
    p.sender.state.acked ≤ p.receiver.state.expected ∧
    ∀ s, p.sender = .returned 0 s → p.receiver.state.output = chunks.flatMap Subtype.val := by
  have joint := reachable_joint same complete small least most reached
  have written := joint.carrying.written.trans (written_take _)
  refine ⟨⟨_,written⟩,joint.acked.trans (drained_le joint.consistent),?_⟩
  intro s returned
  rw [written,List.take_of_length_le (Nat.le_of_lt (joint.finished nonempty returned))]

/-- One datagram of the network arrives, the sender reads its file, or the receiver
only writes. -/
inductive Command where
  | read
  | forward (i : Nat)
  | backward (i : Nat)
  | write

def obey (hs hr : Host) (chunks : List Chunk) (p : System) : Command → Option System
  | .read => do
    let bytes ← (feed chunks)[p.sender.state.input.length]?
    let c ← Transmit.next hs 0 p.sender (.ready Pkt.zero none (some (.data bytes)))
    return { p with sender := c }
  | .forward i => do
    let e ← p.sender.state.wire[i]?
    let n ← e.number
    let bytes ← p.sender.state.input[n]?
    if e.datagram = chunkDatagram hs.crc32 n bytes ∧ Near n p.receiver.state.expected then
      let input := Recv.datagram e.datagram
      let d ← (Receive.next hr p.receiver (.datagram input true)).or
        (Receive.next hr p.receiver (.ready (some input) false))
      return { p with receiver := d }
    else none
  | .backward i => do
    let r ← p.receiver.state.replies[i]?
    if Near r.number p.sender.state.acked then
      let c ← Transmit.next hs 0 p.sender (.ready Pkt.zero (some (.datagram r.datagram)) none)
      return { p with sender := c }
    else none
  | .write => do
    let d ← Receive.next hr p.receiver (.ready none false)
    return { p with receiver := d }

theorem obey_admitted {command : Command} {q : System} (obeyed : obey hs hr chunks p command = some q) :
    ∃ action, Admitted hs hr chunks p action ∧ Step hs hr p action q := by
  cases command with
  | read =>
    obtain ⟨bytes,next,rest⟩ := Option.bind_eq_some_iff.mp obeyed
    obtain ⟨c,taken,made⟩ := Option.bind_eq_some_iff.mp rest
    obtain rfl := Option.some.inj made
    refine ⟨.send (.ready Pkt.zero none (some (.data bytes))),⟨?_,?_⟩,.send _ c (Transmit.next_step hs 0 _ _ _ taken)⟩
    · intro input none
      contradiction
    · intro other same
      obtain rfl : bytes = other := by simpa using same
      exact next
  | forward i =>
    obtain ⟨e,found,rest⟩ := Option.bind_eq_some_iff.mp obeyed
    obtain ⟨n,number,rest⟩ := Option.bind_eq_some_iff.mp rest
    obtain ⟨bytes,known,rest⟩ := Option.bind_eq_some_iff.mp rest
    split at rest
    next holds =>
      obtain ⟨d,taken,made⟩ := Option.bind_eq_some_iff.mp rest
      obtain rfl := Option.some.inj made
      have arrives : Forward hs hr p (.datagram e.datagram) :=
        Or.inr ⟨e,List.mem_of_getElem? found,n,bytes,number,known,holds.1,holds.2,Or.inl rfl⟩
      rcases Option.or_eq_some_iff.mp taken with first | ⟨_,later⟩
      · refine ⟨_,?_,.receive _ d first⟩
        rintro input same
        obtain rfl := Option.some.inj same
        exact arrives
      · refine ⟨_,?_,.receive _ d later⟩
        rintro input same
        obtain rfl := Option.some.inj same
        exact arrives
    next => contradiction
  | backward i =>
    obtain ⟨r,found,rest⟩ := Option.bind_eq_some_iff.mp obeyed
    split at rest
    next near =>
      obtain ⟨c,taken,made⟩ := Option.bind_eq_some_iff.mp rest
      obtain rfl := Option.some.inj made
      refine ⟨.send (.ready Pkt.zero (some (.datagram r.datagram)) none),⟨?_,?_⟩,
        .send _ c (Transmit.next_step hs 0 _ _ _ taken)⟩
      · intro input same
        obtain rfl := Option.some.inj same
        exact Or.inr ⟨r,List.mem_of_getElem? found,near,Or.inl rfl⟩
      · intro bytes none
        contradiction
    next => contradiction
  | write =>
    obtain ⟨d,taken,made⟩ := Option.bind_eq_some_iff.mp obeyed
    obtain rfl := Option.some.inj made
    refine ⟨_,?_,.receive _ d taken⟩
    intro input none
    contradiction

def returnedZero : Option System → Bool
  | some ⟨.returned 0 _,_⟩ => true
  | _ => false

theorem exists_of_returnedZero {found : Option System} (passed : returnedZero found = true) :
    ∃ p, found = some p ∧ ∃ s, p.sender = .returned 0 s := by
  unfold returnedZero at passed
  split at passed
  next s d => exact ⟨_,rfl,s,rfl⟩
  next => contradiction

def bothRunning (test : Sender → Receiver → Bool) : Option System → Bool
  | some ⟨.running s,.running r⟩ => test s r
  | _ => false

theorem exists_of_bothRunning {test : Sender → Receiver → Bool} {found : Option System}
    (passed : bothRunning test found = true) : ∃ s r, found = some ⟨.running s,.running r⟩ ∧ test s r = true := by
  unfold bothRunning at passed
  split at passed
  next s r => exact ⟨s,r,rfl,passed⟩
  next => contradiction

def firstPair : System := ⟨.running (Transmit.start fourPlaces),firstWait 31⟩

theorem firstPair_start (hr : Host) : Start hr 4 31 firstPair := ⟨fourPlaces_start,firstWait_start hr 31⟩

theorem obey_reach {commands : List Command} {q : System}
    (played : commands.foldlM (obey hs hr chunks) firstPair = some q) :
    Reach (Start hr 4 31) (Step hs hr) (Admitted hs hr chunks) q :=
  Reach.play (fun _ _ _ obeyed => obey_admitted obeyed) (.start _ (firstPair_start hr)) commands played

/-- The transfer of one byte, until the sender returns. -/
theorem transfer_safe_oneByte : ∃ p, Reach (Start steadyHost 4 31) (Step steadyHost steadyHost)
    (Admitted steadyHost steadyHost [⟨[97],by decide⟩]) p ∧ (∃ s, p.sender = .returned 0 s) ∧
    p.receiver.state.output = [97] := by
  let chunks : List Chunk := [⟨[97],by decide⟩]
  have passed : returnedZero ([.read,.forward 0,.write,.backward 0,.read,.forward 1,.backward 1].foldlM
      (obey steadyHost steadyHost chunks) firstPair) = true := by decide +kernel
  obtain ⟨p,played,s,ended⟩ := exists_of_returnedZero passed
  have reached := obey_reach played
  exact ⟨p,reached,⟨s,ended⟩,(transfer_safe steadyHost steadyHost rfl (fun _ => rfl) 4 31 (by decide) (by decide)
    (by decide) chunks (by simp [chunks]) p reached).2.2 s ended⟩

end Trtp.Transfer
