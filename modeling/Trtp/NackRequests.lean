import Trtp.Window
import Trtp.Reads

/-! Truncated packets and their NACKs.
The request for a NACK is one flag and one number, consumed at the end of every turn of
the main loop; the packet that opens the connection sets them before the first turn. -/
namespace Trtp.NackRequests
open Lib.Bytes Lib.Circular Lib.Mask Lib.Run Packet Codec Process Buffer Net Receive ReceiveBuffer ReceiverRuns
open DataStream WireFormat Reads

/-- The number in a datagram that is a NACK. -/
def nackOf (datagram : List UInt8) : Option UInt8 :=
  if typeField datagram = 3 then some (datagram.getD 1 0) else none

/-- The numbers of all NACKs sent. -/
def nacks (s : Receiver) : List UInt8 := s.replies.filterMap (fun reply => nackOf reply.datagram)

/-- What the flag and the number ask for. -/
def pending (s : Receiver) : List UInt8 := if s.needNack then [s.nackSeq] else []

/-- The number of a truncated DATA packet that net_recv_pkt lets through, if there is a window. -/
def truncatedIn (h : Host) (s : Receiver) (input : Recv) : Option UInt8 :=
  let received := netRecvPkt h Pkt.zero s.expectedSeq (windowSize s).toUInt8 input
  if received.1 = .netOk ∧ received.2.type = ptypeData ∧ received.2.tr = true ∧ windowSize s ≠ 0 then
    some received.2.seq else none

def truncatedFirst (h : Host) (input : Recv) : Option UInt8 :=
  let received := netRecvfrom h Pkt.zero input
  if received.1 = .netOk ∧ received.2.type = ptypeData ∧ received.2.tr = true ∧ received.2.seq = initialSeqnum then
    some received.2.seq else none

/-- The truncated packet that the receiver gets at an event. -/
def request (h : Host) : Config Halt Receiver → Event → Option UInt8
  | .running s,.ready (some input) _ => if s.phase = .receiving then truncatedIn h s input else none
  | .running _,.datagram input true => truncatedFirst h input
  | _,_ => none

/-- The receiver beside the requests made so far and the number of turns of its main loop. -/
structure Watch where
  receiver : Config Halt Receiver
  requests : List UInt8
  turns : Nat

def inLoop : Config Halt Receiver → Bool
  | .running s => s.phase = .receiving
  | _ => false

inductive Step (h : Host) (w : Watch) (event : Event) : Watch → Prop
  | next (c : Config Halt Receiver) (taken : Receive.Step h w.receiver event c) : Step h w event
      ⟨c,w.requests ++ (request h w.receiver event).toList,w.turns + if inLoop w.receiver then 1 else 0⟩

def Begins (h : Host) (maxWindow : UInt32) (w : Watch) : Prop :=
  Start h maxWindow w.receiver ∧ w.requests = [] ∧ w.turns = 0

/-- The first turn of the main loop reads nothing if the connection was opened by a truncated
packet, and no truncated packet of the window is discarded by a full buffer. -/
def Separate (h : Host) (w : Watch) : Event → Prop
  | .ready (some input) _ => ∀ s, w.receiver = .running s → s.phase = .receiving →
      (w.turns = 0 → w.requests = []) ∧ (rbufFull s = true → truncatedIn h s input = none)
  | _ => True

variable {h : Host} {s t : Receiver}

theorem memory_overwrite {data : List UInt8} (stale : Pkt) (fits : data.length ≤ 528) {i : Nat}
    (inside : i < data.length) :
    memory (stale.overwrite data) i = data.getD i 0 := by
  rw [memory,Pkt.overwrite,bytes_ofBytes,byteAt_received stale fits inside]

theorem netRecvfrom_agrees (h : Host) (stale other : Pkt) (input : Recv) :
    (netRecvfrom h other input).1 = (netRecvfrom h stale input).1 ∧
      ((netRecvfrom h stale input).1 = .netOk → SamePacket (netRecvfrom h stale input).2
        (netRecvfrom h other input).2) := by
  cases input with
  | error => exact ⟨rfl,fun accepted => absurd accepted (by simp [netRecvfrom])⟩
  | datagram data =>
    have fits : (data.take 528).length ≤ 528 := by simp
    obtain ⟨status,packet⟩ := @decodeInline_agrees h.crc32 (stale.overwrite (data.take 528))
      (other.overwrite (data.take 528)) (data.take 528).length fits
      (fun i inside => by rw [memory_overwrite other fits inside,memory_overwrite stale fits inside])
    rw [netRecvfrom_datagram,netRecvfrom_datagram]
    refine ⟨by rw [status],?_⟩
    simp only
    split
    next accepted => exact fun _ => (packet accepted).1
    next => simp

theorem netRecvPkt_agrees (h : Host) (stale other : Pkt) (expectedSeq win : UInt8) (input : Recv) :
    (netRecvPkt h other expectedSeq win input).1 = (netRecvPkt h stale expectedSeq win input).1 ∧
      ((netRecvPkt h stale expectedSeq win input).1 = .netOk → SamePacket (netRecvPkt h stale expectedSeq win input).2
        (netRecvPkt h other expectedSeq win input).2) := by
  obtain ⟨status,packet⟩ := netRecvfrom_agrees h stale other input
  rw [netRecvPkt_eq,netRecvPkt_eq]
  by_cases accepted : (netRecvfrom h stale input).1 = .netOk
  · have same := (packet accepted).seq
    simp only [status,accepted,true_and,same]
    split
    next => exact ⟨rfl,fun dropped => absurd dropped (by simp)⟩
    next => exact ⟨by rw [status,accepted],fun _ => packet accepted⟩
  · rw [if_neg (fun both => accepted (status.symm.trans both.1)),if_neg (fun both => accepted both.1)]
    exact ⟨status,fun wrong => absurd wrong accepted⟩

theorem truncated_isData (stale : Pkt) (input : Recv) (accepted : (netRecvfrom h stale input).1 = .netOk)
    (cut : (netRecvfrom h stale input).2.tr = true) : (netRecvfrom h stale input).2.type = ptypeData := by
  cases input with
  | error => exact absurd accepted (by simp [netRecvfrom])
  | datagram data =>
    rw [netRecvfrom_datagram] at accepted cut ⊢
    simp only at accepted cut ⊢
    split at accepted
    next ok =>
      obtain ⟨_,tr,type,_⟩ := pktDecodeInline_fields (Prod.ext ok rfl)
      obtain ⟨_,valid,_⟩ := (pktDecodeInline_ok_iff _ (accepted_whole ok)).mp ok
      rw [tr] at cut
      rw [type]
      simpa [validTr,cut] using valid
    next => simp at accepted

theorem truncatedIn_some {input : Recv} {stale pkt : Pkt}
    (read : netRecvPkt h stale s.expectedSeq (windowSize s).toUInt8 input = (.netOk,pkt)) (data : pkt.type = ptypeData)
    (window : windowSize s ≠ 0) : truncatedIn h s input = if pkt.tr then some pkt.seq else none := by
  obtain ⟨status,packet⟩ := netRecvPkt_agrees h stale Pkt.zero s.expectedSeq (windowSize s).toUInt8 input
  have same := packet (congrArg Prod.fst read)
  rw [read] at status same
  unfold truncatedIn
  simp only [status,← same.type,← same.tr,← same.seq,data,window,true_and,ne_eq,not_false_eq_true,and_true]

theorem truncatedIn_none {input : Recv} {stale : Pkt}
    (refused : ∀ pkt, netRecvPkt h stale s.expectedSeq (windowSize s).toUInt8 input = (.netOk,pkt) →
      pkt.type ≠ ptypeData) :
    truncatedIn h s input = none := by
  obtain ⟨status,packet⟩ := netRecvPkt_agrees h stale Pkt.zero s.expectedSeq (windowSize s).toUInt8 input
  unfold truncatedIn
  dsimp only
  rw [if_neg]
  rintro ⟨accepted,data,_⟩
  rw [status] at accepted
  have same := packet accepted
  exact refused _ (Prod.ext accepted rfl) (same.type.trans data)

theorem truncatedFirst_some {input : Recv} {stale pkt : Pkt} (read : netRecvfrom h stale input = (.netOk,pkt))
    (number : pkt.seq = initialSeqnum) : truncatedFirst h input = if pkt.tr then some pkt.seq else none := by
  obtain ⟨status,packet⟩ := netRecvfrom_agrees h stale Pkt.zero input
  have accepted := congrArg Prod.fst read
  have same := packet accepted
  have data : pkt.tr = true → pkt.type = ptypeData := by
    have typed := @truncated_isData h stale input accepted
    rw [read] at typed
    exact typed
  rw [read] at status same
  unfold truncatedFirst
  simp only [status,← same.type,← same.tr,← same.seq,number,true_and,and_true]
  by_cases cut : pkt.tr = true
  · simp only [cut,data cut,true_and,if_true]
  · rw [if_neg (fun both => cut both.2),if_neg cut]

def duty (s : Receiver) : Bool × UInt8 × List Reply := (s.needNack,s.nackSeq,s.replies)

theorem pending_congr (same : duty t = duty s) : pending t = pending s := by
  obtain ⟨flag,rest⟩ := Prod.mk.inj same
  obtain ⟨seq,_⟩ := Prod.mk.inj rest
  rw [pending,pending,flag,seq]

theorem pending_length (s : Receiver) : (pending s).length ≤ 1 := by
  unfold pending
  split <;> simp

theorem pending_unset (unset : s.needNack = false) : pending s = [] := if_neg (by rw [unset]; simp)

theorem unset_of_pending (none : pending s = []) : s.needNack = false := by
  by_contra set
  rw [pending,if_pos (by simpa using set)] at none
  simp at none

theorem nacks_congr (same : t.replies = s.replies) : nacks t = nacks s := by
  rw [nacks,nacks,same]

theorem duty_replies (same : duty t = duty s) : t.replies = s.replies :=
  (Prod.mk.inj (Prod.mk.inj same).2).2

theorem acceptPkt_duty (h : Host) (place : UInt32) (distance gap : UInt8) (s : Receiver) :
    duty (acceptPkt h place distance gap s).state = duty s := by
  unfold acceptPkt
  by_cases long : distance.toNat + gap.toNat ≥ 32
  · rw [if_pos long]
    rfl
  · rw [if_neg long]
    by_cases ahead : gap > 0
    · simp only [if_pos ahead]
      cases pktbufSlotforSeq h (setSeq s.recvBuf place s.expectedSeq) (s.recvBuf.head place).seq <;> rfl
    · simp only [if_neg ahead]
      rfl

theorem emptyLoop_duty (h : Host) (fuel : Nat) (s : Receiver) : duty (emptyLoop h fuel s).state = duty s :=
  @emptyLoop_rule (fun s t => duty t = duty s) (fun _ => rfl) (fun _ _ _ _ _ => rfl)
    (fun _ _ _ _ _ _ _ same => same) h fuel s

theorem writeFile_duty (h : Host) (file : Bool) (s : Receiver) : duty (writeFile h file s).state = duty s := by
  unfold writeFile
  split
  next => exact emptyLoop_duty h 32 s
  next => rfl

theorem windowSize_of_room (room : rbufFull s = false) : windowSize s ≠ 0 := by
  have less : popcount s.oosMask < s.maxWindow.toNat := by
    rw [rbufFull,decide_eq_false_iff_not,ge_iff_le,UInt32.le_iff_toNat_le,Window.ofNat_popcount] at room
    omega
  have ones := trailingOnes_le_popcount s.oosMask
  intro zero
  have left := windowSize_toNat (s := s) (by omega)
  rw [zero] at left
  change 0 = _ at left
  omega

/-- The packet at `place` sets the request if it is truncated, unless the process stops. -/
theorem processIncomingPkt_duty (h : Host) (place : UInt32) (s : Receiver) (unset : s.needNack = false) :
    (processIncomingPkt h place s).Meets
      (fun t => t.replies = s.replies ∧
        pending t = if (s.recvBuf.head place).tr then [(s.recvBuf.head place).seq] else [])
      (fun t => t.replies = s.replies) (fun _ t => t.replies = s.replies) := by
  cases found : distance s with
  | none =>
    rw [processIncomingPkt_lost place found]
    rfl
  | some d =>
    cases cut : (s.recvBuf.head place).tr with
    | true =>
      rw [processIncomingPkt_cut place found cut]
      exact ⟨rfl,rfl⟩
    | false =>
      rw [processIncomingPkt_whole place found cut]
      have same := acceptPkt_duty h place d ((s.recvBuf.head place).seq - s.expectedSeq) (Receiver.timed place s)
      have idle : pending (Receiver.timed place s) = [] := pending_unset unset
      cases ended : acceptPkt h place d ((s.recvBuf.head place).seq - s.expectedSeq) (Receiver.timed place s) with
      | ret t =>
        rw [ended] at same
        exact ⟨duty_replies same,(pending_congr same).trans idle⟩
      | err t =>
        rw [ended] at same
        exact duty_replies same
      | halt reason t =>
        rw [ended] at same
        exact duty_replies same

theorem doReceiveData_duty (h : Host) (input : Recv) (s : Receiver) (unset : s.needNack = false)
    (window : windowSize s ≠ 0) : (doReceiveData h input s).Meets
      (fun t => t.replies = s.replies ∧ pending t = (truncatedIn h s input).toList)
      (fun t => t.replies = s.replies) (fun _ t => t.replies = s.replies) := by
  have idle (buf : Pktbuf) : pending (Receiver.holding s buf) = [] := pending_unset unset
  have reading := doReceiveData_cases h input s
  generalize doReceiveData h input s = outcome at reading ⊢
  cases reading with
  | stuck reason lost => rfl
  | failed place buf pkt found => rfl
  | dropped place buf pkt found refused =>
    refine ⟨rfl,?_⟩
    rw [truncatedIn_none refused]
    exact idle _
  | processed place buf pkt found read data =>
    have own : (Receiver.holding s (buf.put place pkt)).recvBuf.head place = pkt := buf.put_head_self place pkt
    have met := processIncomingPkt_duty h place (Receiver.holding s (buf.put place pkt)) unset
    rw [own] at met
    rw [truncatedIn_some read data window]
    refine met.mono ?_ (fun _ same => same) (fun _ _ same => same)
    rintro t ⟨same,asked⟩
    refine ⟨same,asked.trans ?_⟩
    cases pkt.tr <;> rfl

theorem doReadSock_duty (h : Host) (input : Recv) (s : Receiver) (unset : s.needNack = false)
    (discarded : rbufFull s = true → truncatedIn h s input = none) : (doReadSock h input s).Meets
      (fun t => t.replies = s.replies ∧ pending t = (truncatedIn h s input).toList)
      (fun t => t.replies = s.replies) (fun _ t => t.replies = s.replies) := by
  unfold doReadSock
  cases full : rbufFull s with
  | true =>
    cases input with
    | error => rfl
    | datagram data => exact ⟨rfl,by rw [discarded full]; exact pending_unset unset⟩
  | false => exact doReceiveData_duty h input s unset (windowSize_of_room full)

theorem readSocket_duty (h : Host) (socket : Option Recv) (s : Receiver)
    (separate : ∀ input, socket = some input → s.needNack = false ∧
      (rbufFull s = true → truncatedIn h s input = none)) :
    (readSocket h socket s).Meets
      (fun t => t.replies = s.replies ∧ pending t = pending s ++ (socket.bind (truncatedIn h s)).toList)
      (fun t => t.replies = s.replies) (fun _ t => t.replies = s.replies) := by
  cases socket with
  | none => exact ⟨rfl,(List.append_nil _).symm⟩
  | some input =>
    obtain ⟨unset,discarded⟩ := separate input rfl
    refine (doReadSock_duty h input s unset discarded).andThen ?_
    rintro t ⟨same,asked⟩
    have scheduled : (if !t.needNack then { t with needAck := true } else t).replies = t.replies ∧
        pending (if !t.needNack then { t with needAck := true } else t) = pending t := by
      split <;> exact ⟨rfl,rfl⟩
    exact ⟨scheduled.1.trans same,by rw [scheduled.2,asked,pending_unset unset]; rfl⟩

theorem nackOf_reply (h : Host) (type : BitVec 2) (seq : UInt8) (s : Receiver) :
    nackOf (replyPkt h type seq s).datagram = if type = ptypeNack then some seq else none := by
  have bare : (replyPkt h type seq s).datagram = (wireHeader h.crc32 { Pkt.zero with
      type := type, seq := seq, ts := s.lastTs, window := BitVec.ofNat 5 (windowSize s).toNat }).header :=
    (replyPkt_datagram h type seq s).trans (List.append_nil _)
  rw [bare,nackOf]
  generalize packed : wireHeader h.crc32 { Pkt.zero with
    type := type, seq := seq, ts := s.lastTs, window := BitVec.ofNat 5 (windowSize s).toNat } = p
  have kind : p.type = type := by rw [← packed]; rfl
  have number : p.header.getD 1 0 = seq := by rw [← packed]; rfl
  have field : typeField p.header = p.type.toNat := by
    have flags := p.flags_toNat
    have w := p.window.isLt
    have b := p.tr.toNat_le
    change p.flags.toNat / 64 = _
    omega
  rw [field,number,kind]
  have same : type.toNat = 3 ↔ type = ptypeNack := by
    rw [← BitVec.toNat_inj]
    rfl
  simp only [same]

theorem sendReply_nacks (h : Host) (type : BitVec 2) (seq : UInt8) (number : Nat) (s : Receiver) :
    (sendReply h type seq number s).Meets
      (fun t => nacks t = nacks s ++ (if type = ptypeNack then [seq] else []) ∧ pending t = pending s)
      (fun t => nacks t = nacks s) (fun _ _ => False) := by
  rcases sendReply_cases h type seq number s with sent | failed
  · rw [sent]
    refine ⟨?_,rfl⟩
    rw [nacks,List.filterMap_append,List.filterMap_cons,nackOf_reply]
    by_cases nack : type = ptypeNack
    · rw [if_pos nack,if_pos nack]
      rfl
    · rw [if_neg nack,if_neg nack]
      rfl
  · rw [failed]
    rfl

theorem answer_nacks (h : Host) (s : Receiver) :
    (answer h s).Meets (fun t => nacks t = nacks s ++ pending s) (fun t => nacks t = nacks s) (fun _ _ => False) := by
  unfold answer
  have acked : (if s.needAck then sendAck h s else .ret s : Outcome Halt Receiver).Meets
      (fun t => nacks t = nacks s ∧ pending t = pending s) (fun t => nacks t = nacks s) (fun _ _ => False) := by
    split
    next =>
      refine (sendReply_nacks h ptypeAck s.expectedSeq s.expected s).mono ?_ (fun _ same => same)
        (fun _ _ never => never)
      rintro t ⟨sent,same⟩
      exact ⟨sent.trans (List.append_nil _),same⟩
    next => exact ⟨rfl,rfl⟩
  refine acked.andThen ?_
  rintro t ⟨kept,same⟩
  rw [← kept,← same]
  split
  next set =>
    have one : pending t = [t.nackSeq] := if_pos set
    rw [one]
    exact (sendReply_nacks h ptypeNack t.nackSeq _ t).mono (fun _ sent => sent.1) (fun _ failed => failed)
      (fun _ _ never => never)
  next unset =>
    have none : pending t = [] := if_neg unset
    rw [none,List.append_nil]
    rfl

theorem writeFile_nacks (h : Host) (file : Bool) {sent asked : List UInt8} (before : nacks s = sent)
    (waiting : pending s = asked) : (writeFile h file s).Meets (fun t => nacks t = sent ∧ pending t = asked)
      (fun t => nacks t = sent) (fun _ t => nacks t = sent) := by
  have same := writeFile_duty h file s
  have kept (t : Receiver) (duties : duty t = duty s) : nacks t = sent :=
    (nacks_congr (duty_replies duties)).trans before
  cases ended : writeFile h file s with
  | ret t =>
    rw [ended] at same
    exact ⟨kept t same,(pending_congr same).trans waiting⟩
  | err t =>
    rw [ended] at same
    exact kept t same
  | halt reason t =>
    rw [ended] at same
    exact kept t same

/-- A turn of the main loop answers what was asked before and what it reads. -/
theorem turn_nacks (h : Host) (socket : Option Recv) (file : Bool) (s : Receiver)
    (separate : ∀ input, socket = some input → s.needNack = false ∧
      (rbufFull s = true → truncatedIn h s input = none)) :
    (turn h socket file s).Meets
      (fun t => nacks t = nacks s ++ (pending s ++ (socket.bind (truncatedIn h s)).toList) ∧ t.needNack = false)
      (fun t => nacks t = nacks s) (fun _ t => nacks t = nacks s) := by
  have read : (readSocket h socket s).Meets
      (fun t => nacks t = nacks s ∧ pending t = pending s ++ (socket.bind (truncatedIn h s)).toList)
      (fun t => nacks t = nacks s) (fun _ t => nacks t = nacks s) :=
    (readSocket_duty h socket s separate).mono (fun _ both => ⟨nacks_congr both.1,both.2⟩)
      (fun _ same => nacks_congr same) (fun _ _ same => nacks_congr same)
  have written := read.andThen (fun t (before : _ ∧ _) => writeFile_nacks h file before.1 before.2)
  have answered := written.andThen (fun t (before : _ ∧ _) => ((answer_nacks h t).mono
    (fun u sent => sent.trans (congr (congrArg _ before.1) before.2)) (fun u same => same.trans before.1)
    (fun _ _ never => never.elim)))
  exact answered.andThen (fun t sent => ⟨sent,rfl⟩)

/-- Every request has been answered, in order and once, but for one that waits: before the
first turn of the main loop, or for ever when the process ends inside the turn. -/
structure Kept (w : Watch) : Prop where
  waits : ∃ rest, w.requests = nacks w.receiver.state ++ rest ∧ rest.length ≤ 1
  running : ∀ s, w.receiver = .running s → w.requests = nacks s ++ pending s
  unopened : ∀ s retry slot, w.receiver = .running s → s.phase = .connecting retry slot → w.requests = [] ∧ w.turns = 0
  clear : ∀ s, w.receiver = .running s → s.phase ≠ .receiving ∨ w.turns ≠ 0 → s.needNack = false
  done : ∀ s, w.receiver = .returned 0 s → w.requests = nacks s

variable {w v : Watch} {event : Event}

theorem toList_length {α : Type} (o : Option α) : o.toList.length ≤ 1 := by
  cases o <;> simp

theorem Kept.of_running {requests : List UInt8} {turns : Nat} (answered : requests = nacks s ++ pending s)
    (unopened : ∀ retry slot, s.phase = .connecting retry slot → requests = [] ∧ turns = 0)
    (clear : s.phase ≠ .receiving ∨ turns ≠ 0 → s.needNack = false) : Kept ⟨.running s,requests,turns⟩ where
  waits := ⟨pending s,answered,pending_length s⟩
  running t same := by
    obtain rfl := Config.running.inj same
    exact answered
  unopened t retry slot same := by
    obtain rfl := Config.running.inj same
    exact unopened retry slot
  clear t same := by
    obtain rfl := Config.running.inj same
    exact clear
  done t same := by simp at same

theorem Kept.of_ended {c : Config Halt Receiver} {requests rest : List UInt8} {turns : Nat}
    (ended : ∀ t, c ≠ .running t) (answered : requests = nacks c.state ++ rest) (few : rest.length ≤ 1)
    (failed : ∀ t, c = .returned 0 t → rest = []) : Kept ⟨c,requests,turns⟩ where
  waits := ⟨rest,answered,few⟩
  running t same := absurd same (ended t)
  unopened t _ _ same := absurd same (ended t)
  clear t same := absurd same (ended t)
  done t same := by
    have none := failed t same
    change c = .returned 0 t at same
    rw [none,List.append_nil,same] at answered
    exact answered

theorem Kept.of_answered {c : Config Halt Receiver} {requests : List UInt8} {turns : Nat}
    (ended : ∀ t, c ≠ .running t) (answered : requests = nacks c.state) : Kept ⟨c,requests,turns⟩ := by
  exact .of_ended ended (answered.trans (List.append_nil _).symm) (by simp) (fun _ _ => rfl)

theorem begins_kept {maxWindow : UInt32} (begun : Begins h maxWindow w) : Kept w := by
  obtain ⟨c,requests,turns⟩ := w
  obtain ⟨⟨new,slot,buf,_,_,rfl⟩,rfl,rfl⟩ := begun
  exact .of_running rfl (fun _ _ _ => ⟨rfl,rfl⟩) (fun _ => rfl)

/-- The packet that opens the connection. -/
theorem connected_kept {slot : UInt32} {input : Recv} {pkt : Pkt} (quiet : nacks s = []) (unset : s.needNack = false)
    (read : netRecvfrom h (s.recvBuf.head slot) input = (.netOk,pkt)) (number : pkt.seq = initialSeqnum) :
    Kept ⟨connected h slot (Receiver.holding s (s.recvBuf.put slot pkt)),(truncatedFirst h input).toList,0⟩ := by
  have own : (Receiver.holding s (s.recvBuf.put slot pkt)).recvBuf.head slot = pkt := s.recvBuf.put_head_self slot pkt
  have met := processIncomingPkt_duty h slot (Receiver.holding s (s.recvBuf.put slot pkt)) unset
  have asked : (truncatedFirst h input).toList = if pkt.tr then [pkt.seq] else [] := by
    rw [truncatedFirst_some read number]
    cases pkt.tr <;> rfl
  have none (t : Receiver) (same : t.replies = (Receiver.holding s (s.recvBuf.put slot pkt)).replies) : nacks t = [] :=
    (nacks_congr same).trans quiet
  have ended (c : Config Halt Receiver) (stopped : ∀ t, c ≠ .running t) (sent : nacks c.state = [])
      (failed : ∀ t, c ≠ .returned 0 t) : Kept ⟨c,(truncatedFirst h input).toList,0⟩ :=
    .of_ended stopped (by rw [sent]; rfl) (toList_length _) (fun t same => absurd same (failed t))
  rw [own] at met
  unfold connected
  cases outcome : processIncomingPkt h slot (Receiver.holding s (s.recvBuf.put slot pkt)) with
  | ret t =>
    rw [outcome] at met
    obtain ⟨same,set⟩ := met
    refine .of_running ?_ (fun _ _ other => by simp at other) (fun other => by simp at other)
    change (truncatedFirst h input).toList = nacks t ++ pending t
    rw [none t same,set,asked]
    rfl
  | err t =>
    rw [outcome] at met
    exact ended _ (by simp) (none t met) (by simp [econnaborted])
  | halt reason t =>
    rw [outcome] at met
    exact ended _ (by simp) (none t met) (by simp)

theorem truncatedFirst_read {input : Recv} {seq : UInt8} (asked : truncatedFirst h input = some seq) (stale : Pkt) :
    ∃ pkt, netRecvfrom h stale input = (.netOk,pkt) ∧ pkt.seq = initialSeqnum := by
  obtain ⟨status,packet⟩ := netRecvfrom_agrees h Pkt.zero stale input
  unfold truncatedFirst at asked
  simp only [Option.ite_none_right_eq_some] at asked
  obtain ⟨⟨accepted,_,_,number⟩,_⟩ := asked
  exact ⟨_,Prod.ext (status.trans accepted) rfl,(packet accepted).seq.symm.trans number⟩

theorem waitAndConnect_first {retry : Nat} {slot : UInt32} {input : Recv} {pkt : Pkt}
    (read : netRecvfrom h (s.recvBuf.head slot) input = (.netOk,pkt)) (number : pkt.seq = initialSeqnum) :
    waitAndConnect h retry slot input true s = connected h slot (Receiver.holding s (s.recvBuf.put slot pkt)) := by
  simp only [waitAndConnect,read,number,ne_eq,not_true_eq_false,if_false,if_true]
  rfl

theorem waitAndConnect_kept {retry : Nat} {slot : UInt32} (quiet : nacks s = []) (unset : s.needNack = false)
    (input : Recv) (linked : Bool) : Kept ⟨waitAndConnect h retry slot input linked s,
      (request h (.running s) (.datagram input linked)).toList,0⟩ := by
  by_cases opened : ∃ seq, linked = true ∧ truncatedFirst h input = some seq
  · obtain ⟨seq,rfl,asked⟩ := opened
    obtain ⟨pkt,read,number⟩ := truncatedFirst_read asked (s.recvBuf.head slot)
    rw [waitAndConnect_first read number]
    exact connected_kept quiet unset read number
  · have none : request h (.running s) (.datagram input linked) = none := by
      cases linked with
      | false => rfl
      | true => exact Option.eq_none_iff_forall_ne_some.mpr (fun seq asked => opened ⟨seq,rfl,asked⟩)
    have awaited := waitAndConnect_cases h retry slot input linked s
    generalize waitAndConnect h retry slot input linked s = c at awaited ⊢
    cases awaited with
    | aborted pkt =>
      rw [none]
      exact .of_answered (by simp) quiet.symm
    | again pkt =>
      rw [none]
      refine .of_running ?_ (fun _ _ _ => ⟨rfl,rfl⟩) (fun _ => unset)
      change [] = nacks s ++ pending s
      rw [quiet,pending_unset unset]
      rfl
    | first pkt read number accepted =>
      subst accepted
      exact connected_kept quiet unset read number

theorem turned_kept {requests : List UInt8} {turns : Nat} (phase : s.phase = .receiving)
    (answered : requests = nacks s ++ pending s) (socket : Option Recv) (file : Bool)
    (separate : ∀ input, socket = some input → s.needNack = false ∧
      (rbufFull s = true → truncatedIn h s input = none)) :
    Kept ⟨afterTurn (turn h socket file s),requests ++ (request h (.running s) (.ready socket file)).toList,
    turns + 1⟩ := by
  have asked : request h (.running s) (.ready socket file) = socket.bind (truncatedIn h s) := by
    cases socket with
    | none => rfl
    | some input => exact if_pos phase
  have met := turn_nacks h socket file s separate
  have few : (pending s ++ (socket.bind (truncatedIn h s)).toList).length ≤ 1 := by
    cases socket with
    | none =>
      rw [Option.bind_none,Option.toList_none,List.append_nil]
      exact pending_length s
    | some input =>
      rw [pending_unset (separate input rfl).1,List.nil_append]
      exact toList_length _
  rw [asked,answered,List.append_assoc]
  cases ended : turn h socket file s with
  | ret t =>
    rw [ended] at met
    obtain ⟨sent,unset⟩ := met
    refine .of_running ?_ ?_ (fun _ => unset)
    · change _ = nacks t ++ pending t
      rw [sent,pending_unset unset,List.append_nil]
    · intro retry slot never
      change (if t.lastWrittenLen ≠ 0 ∨ !pktbufEmpty t.recvBuf then Phase.receiving else .lingering 0) = _ at never
      split at never <;> contradiction
  | err t =>
    rw [ended] at met
    exact .of_ended (by simp [afterTurn]) (by rw [← met]; rfl) few (by simp [afterTurn,econnaborted])
  | halt reason t =>
    rw [ended] at met
    exact .of_ended (by simp [afterTurn]) (by rw [← met]; rfl) few (by simp [afterTurn])

theorem lingered_kept {requests : List UInt8} {turns : Nat} (answered : requests = nacks s ++ pending s)
    (unset : s.needNack = false) (retry : Nat) (event : Event) : Kept ⟨linger h retry event s,requests,turns⟩ := by
  rw [pending_unset unset,List.append_nil] at answered
  have met := sendReply_nacks h ptypeAck s.expectedSeq s.expected s
  have last := linger_cases h retry event s
  generalize linger h retry event s = c at last ⊢
  cases last with
  | done code => exact .of_answered (by simp) answered
  | replied t sent =>
    have reply : sendReply h ptypeAck s.expectedSeq s.expected s = .ret t := sent
    rw [reply] at met
    obtain ⟨sent,same⟩ := met
    rw [pending_unset unset] at same
    refine .of_running ?_ (fun _ _ other => by simp at other) (fun _ => unset_of_pending same)
    change requests = nacks t ++ pending t
    rw [answered,sent,same,List.append_nil]
    exact (List.append_nil _).symm
  | failed t sent =>
    have reply : sendReply h ptypeAck s.expectedSeq s.expected s = .err t := sent
    rw [reply] at met
    exact .of_answered (by simp) (answered.trans met.symm)

theorem Kept.separate {requests : List UInt8} {turns : Nat} {socket : Option Recv} {file : Bool}
    (kept : Kept ⟨.running s,requests,turns⟩) (phase : s.phase = .receiving)
    (separate : Separate h ⟨.running s,requests,turns⟩ (.ready socket file)) (input : Recv)
    (ready : socket = some input) :
    s.needNack = false ∧ (rbufFull s = true → truncatedIn h s input = none) := by
  subst ready
  obtain ⟨first,discarded⟩ := separate s rfl phase
  refine ⟨?_,discarded⟩
  by_cases opened : turns = 0
  · have answered : requests = nacks s ++ pending s := kept.running s rfl
    have empty : requests = [] := first opened
    rw [empty] at answered
    exact unset_of_pending (List.append_eq_nil_iff.mp answered.symm).2
  · exact kept.clear s rfl (Or.inr opened)

/-- Step lemma. -/
theorem step_kept (kept : Kept w) (separate : Separate h w event) (taken : Step h w event v) : Kept v := by
  obtain ⟨c,requests,turns⟩ := w
  obtain ⟨d,taken⟩ := taken
  obtain ⟨s,rfl,stepped⟩ := step_cases taken
  have answered := kept.running s rfl
  cases stepped with
  | awaited retry slot input linked phase =>
    obtain ⟨rfl,rfl⟩ := kept.unopened s retry slot rfl phase
    have unset := kept.clear s rfl (Or.inl (by rw [phase]; simp))
    obtain ⟨quiet,_⟩ := List.append_eq_nil_iff.mp answered.symm
    have idle : inLoop (.running s) = false := by simp [inLoop,phase]
    rw [idle]
    exact waitAndConnect_kept quiet unset input linked
  | turned socket file phase =>
    have looping : inLoop (.running s) = true := by simp [inLoop,phase]
    rw [looping]
    exact turned_kept phase answered socket file (kept.separate phase separate)
  | lingered retry event phase =>
    have idle : inLoop (.running s) = false := by simp [inLoop,phase]
    have none : request h (.running s) event = none := by
      cases event with
      | ready socket file =>
        cases socket with
        | none => rfl
        | some input => exact if_neg (by rw [phase]; simp)
      | datagram input linked => simp [Receive.Step,next,phase] at taken
      | _ => rfl
    rw [idle,none,Option.toList_none,List.append_nil]
    exact lingered_kept answered (kept.clear s rfl (Or.inl (by rw [phase]; simp))) retry event
  | aborted event phase =>
    have ended (other : request h (.running s) event = none) : Kept ⟨.returned econnaborted s,
        requests ++ (request h (.running s) event).toList,turns + if inLoop (.running s) then 1 else 0⟩ := by
      rw [other,Option.toList_none,List.append_nil]
      exact .of_ended (by simp) answered (pending_length s) (by simp [econnaborted])
    cases event with
    | ready socket file =>
      have looping : inLoop (.running s) = true := by simp [inLoop,phase]
      have aborting : afterTurn (turn h socket file s) = .returned econnaborted s := by
        simpa [Receive.Step,next,phase] using taken
      rw [looping,← aborting]
      exact turned_kept phase answered socket file (kept.separate phase separate)
    | datagram input linked => simp [Receive.Step,next,phase] at taken
    | failed => exact ended rfl
    | timeout => exact ended rfl

theorem receive_kept {maxWindow : UInt32} (reached : Reach (Begins h maxWindow) (Step h) (Separate h) w) : Kept w :=
  reached.invariant (fun _ begun => begins_kept begun) (fun _ _ _ kept separate taken => step_kept kept separate taken)

/-- The NACKs sent name the truncated packets of the window, each once and in order, but
for one that waits; none waits when the socket is read, or when the receiver is done. -/
structure Answered (h : Host) (allowed : Watch → Event → Prop) (w : Watch) : Prop where
  matched : ∃ rest, w.requests = nacks w.receiver.state ++ rest ∧ rest.length ≤ 1
  reading : ∀ event v, allowed w event → Step h w event v → socket event ≠ none → w.requests = nacks w.receiver.state
  turned : ∀ s, w.receiver = .running s → w.turns ≠ 0 → w.requests = nacks s
  done : ∀ s, w.receiver = .returned 0 s → w.requests = nacks s

theorem Kept.answered (kept : Kept w) (s : Receiver) (running : w.receiver = .running s) (unset : s.needNack = false) :
    w.requests = nacks s := by
  rw [kept.running s running,pending_unset unset,List.append_nil]

theorem receive_nacks (h : Host) (maxWindow : UInt32) (w : Watch)
    (reached : Reach (Begins h maxWindow) (Step h) (Separate h) w) : Answered h (Separate h) w := by
  have kept := receive_kept reached
  refine ⟨kept.waits,?_,fun s running later => kept.answered s running (kept.clear s running (Or.inr later)),kept.done⟩
  intro event v separate taken read
  obtain ⟨c,requests,turns⟩ := w
  obtain ⟨d,taken⟩ := taken
  obtain ⟨s,rfl,stepped⟩ := step_cases taken
  by_cases phase : s.phase = .receiving
  · cases event with
    | ready socket file =>
      cases socket with
      | none => exact absurd rfl read
      | some input => exact kept.answered s rfl (kept.separate phase separate input rfl).1
    | datagram input linked => simp [Receive.Step,next,phase] at taken
    | _ => exact absurd rfl read
  · exact kept.answered s rfl (kept.clear s rfl (Or.inl phase))

def watch (h : Host) (w : Watch) (event : Event) : Option Watch :=
  (next h w.receiver event).map (fun c => ⟨c,w.requests ++ (request h w.receiver event).toList,
    w.turns + if inLoop w.receiver then 1 else 0⟩)

theorem watch_step (watched : watch h w event = some v) : Step h w event v := by
  obtain ⟨c,taken,rfl⟩ := Option.map_eq_some_iff.mp watched
  exact .next c taken

theorem watch_reached {maxWindow : UInt32} {events : List Event} (first : Begins h maxWindow w)
    (played : events.foldlM (watch h) w = some v) : Reach (Begins h maxWindow) (Step h) (fun _ _ => True) v := by
  refine Reach.play ?_ (.start w first) events played
  exact fun _ event _ watched => ⟨event,trivial,watch_step watched⟩

def firstWatch : Watch := ⟨firstWait 31,[],0⟩

theorem firstWatch_begins : Begins steadyHost 31 firstWatch := ⟨firstWait_start steadyHost 31,rfl,rfl⟩

def cutChunk (i : Nat) : Recv := .datagram (truncate (image steadyHost.crc32 (countingStream i)))

/-- Chunk 0 opens the connection truncated, and the output file alone is ready. -/
theorem receive_nacks_truncatedFirst : ∃ w, w.requests = [0] ∧ w.turns = 1 ∧
    Answered steadyHost (Separate steadyHost) w := by
  have played : ([.datagram (cutChunk 0) true,.ready none true].foldlM (watch steadyHost) firstWatch).any
      (fun w => w.requests == [0] && w.turns == 1) = true := by decide +kernel
  obtain ⟨w,ended,counted⟩ := (Option.any_eq_true _ _).mp played
  obtain ⟨requests,turns⟩ := (Bool.and_eq_true _ _).mp counted
  rw [List.foldlM_cons] at ended
  obtain ⟨v,opened,rest⟩ := Option.bind_eq_some_iff.mp ended
  rw [List.foldlM_cons] at rest
  obtain ⟨u,turned,same⟩ := Option.bind_eq_some_iff.mp rest
  obtain rfl : u = w := Option.some.inj same
  have linking : Separate steadyHost firstWatch (.datagram (cutChunk 0) true) := trivial
  have writing : Separate steadyHost v (.ready none true) := trivial
  have reached := Reach.step _ _ _
    (Reach.step _ _ _ (Reach.start _ firstWatch_begins) linking (watch_step opened)) writing
    (watch_step turned)
  exact ⟨u,beq_iff_eq.mp requests,beq_iff_eq.mp turns,receive_nacks steadyHost 31 u reached⟩

/-- Chunks 0 and 1 arrive truncated, the second one before the first turn of the main loop. -/
theorem receive_nacks_overwritten : ¬ ∀ (h : Host) (maxWindow : UInt32) (w : Watch), (∀ n, h.sendOk n = true) →
    1 ≤ maxWindow.toNat → maxWindow.toNat ≤ maxWindowSize →
    Reach (Begins h maxWindow) (Step h) (fun _ _ => True) w → Answered h (fun _ _ => True) w := by
  intro claim
  have played : ([.datagram (cutChunk 0) true,.ready (some (cutChunk 1)) false].foldlM
    (watch steadyHost) firstWatch).any
      (fun w => w.requests == [0,1] && nacks w.receiver.state == [1]) = true := by decide +kernel
  obtain ⟨w,ended,lost⟩ := (Option.any_eq_true _ _).mp played
  obtain ⟨requests,sent⟩ := (Bool.and_eq_true _ _).mp lost
  have reached := watch_reached firstWatch_begins ended
  obtain ⟨rest,split,_⟩ := (claim steadyHost 31 w (fun _ => rfl) (by decide) (by decide) reached).matched
  rw [beq_iff_eq.mp requests,beq_iff_eq.mp sent] at split
  simp at split

end Trtp.NackRequests
