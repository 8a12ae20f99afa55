import Trtp.SenderRuns
import Trtp.Promise
import Trtp.WireFormat

/-! What the two programs write to the socket keeps to the wire format, whatever they
are sent: the sender only ever writes chunks it has read, encoded as they were the
first time, and the receiver only ACKs and NACKs without payload.
The one exception is the timer that expires when 255 was the last number sent. -/
namespace Trtp.Conformance
open Lib.Bytes Lib.Circular Lib.Run Lib.Serial Packet Codec WireFormat Process Buffer Net Transmit SendBuffer SenderRuns
open DataStream (image_fits replyPkt_datagram countingStream firstWait firstWait_start chunk tend tend_timely)
open Promise (windowField windowField_image)

section Image

variable {crc32 : List UInt8 → UInt32} {p : Pkt}

theorem image_fields (crc32 : List UInt8 → UInt32) (p : Pkt) : typeField (image crc32 p) = p.type.toNat ∧
    trField (image crc32 p) = p.tr.toNat ∧ lengthField (image crc32 p) = p.length.toNat := by
  have flags : octet (image crc32 p) 0 = p.window.toNat + 32 * p.tr.toNat + 64 * p.type.toNat := p.flags_toNat
  have first : octet (image crc32 p) 2 = (byteOf (swap16 p.length).toNat 0).toNat := rfl
  have second : octet (image crc32 p) 3 = (byteOf (swap16 p.length).toNat 1).toNat := rfl
  have window := p.window.isLt
  have tr := p.tr.toNat_le
  have size := p.length.toNat_lt
  rw [typeField,trField,lengthField,flags,first,second,swap16,(byteOf_word16 _ _).1,(byteOf_word16 _ _).2,
    byteOf_toNat,byteOf_toNat]
  omega

theorem wire_image (valid : Encodable p) : Wire crc32 (image crc32 p) := by
  have fits := @image_fits { steadyHost with crc32 := crc32 } p valid
  obtain ⟨_,decoded,_⟩ := pktDecode_image crc32 p Pkt.zero valid
  rcases (pktDecode_ok_iff Pkt.zero fits).mp (congrArg Prod.fst decoded) with wire | ⟨long,_⟩
  · exact wire
  · rw [image_length,pktLen] at long
    split at long
    next present =>
      have positive : p.length.toNat ≠ 0 := by
        rw [ne_eq,← UInt16.toNat_zero,UInt16.toNat_inj]
        exact present
      simp only [pktHeaderLen,pktFooterLen] at long
      omega
    next => contradiction

end Image

/-- Every datagram on the wire is the encoding of the chunk whose number it carries. -/
def Faithful (crc32 : List UInt8 → UInt32) (s : Sender) : Prop :=
  ∀ e ∈ s.wire, ∃ c bytes, e.number = some c ∧ s.input[c]? = some bytes ∧ e.datagram = chunkDatagram crc32 c bytes

/-- The timer does not expire with packets in the buffer when 255 was the last number sent. -/
def Turning (c : Config Halt Sender) (event : Event) : Prop :=
  ∀ s, c = .running s → event = .timeout → pktbufEmpty s.sendBuf = true ∨ s.lastSent ≠ 255

variable {h : Host} {crc32 : List UInt8 → UInt32} {s t : Sender}

theorem Faithful.same (faithful : Faithful crc32 s) (wire : t.wire = s.wire) (input : s.input <+: t.input) :
    Faithful crc32 t := by
  intro e member
  rw [wire] at member
  obtain ⟨c,bytes,number,known,datagram⟩ := faithful e member
  refine ⟨c,bytes,number,?_,datagram⟩
  obtain ⟨rest,more⟩ := input
  rw [← more,List.getElem?_append_left (List.getElem?_eq_some_iff.mp known).1]
  exact known

theorem Faithful.more (faithful : Faithful crc32 s) {e : Sending} {c : Nat} {bytes : Chunk} (number : e.number = some c)
    (known : s.input[c]? = some bytes) (datagram : e.datagram = chunkDatagram crc32 c bytes) :
    Faithful crc32 (s.recorded e) := by
  intro x member
  rcases List.mem_append.mp member with old | new
  · exact faithful x old
  · obtain rfl := List.mem_singleton.mp new
    exact ⟨c,bytes,number,known,datagram⟩

theorem sendPlace_faithful (valid : Valid h.crc32 s) (faithful : Faithful h.crc32 s) {place : UInt32} {c : Nat}
    {bytes : Chunk} (known : s.input[c]? = some bytes) (outstanding : Nat)
    (stored : Stored h.crc32 s.sendBuf.head s.chunkAt place c bytes) :
    (sendPlace h s place outstanding).Meets (fun t => Valid h.crc32 t ∧ Faithful h.crc32 t) (Faithful h.crc32)
      (fun _ => Faithful h.crc32) := by
  rw [sendPlace_eq]
  split
  next => exact ⟨valid.frame rfl,faithful.more stored.number known stored.datagram⟩
  next => exact faithful.same rfl (List.prefix_refl _)

theorem response_faithful (valid : Valid h.crc32 s) (faithful : Faithful h.crc32 s) {pkt : Pkt}
    (inside : (pkt.seq - s.lastAck).toNat ≤ s.outstanding) {outcome : Outcome Halt Sender}
    (response : Response h s pkt outcome) :
    outcome.Meets (fun t => Valid h.crc32 t ∧ Faithful h.crc32 t) (Faithful h.crc32) (fun _ => Faithful h.crc32) := by
  have heard := valid.heard pkt
  have told : Faithful h.crc32 (Sender.heard s pkt) := faithful.same rfl (List.prefix_refl _)
  cases response with
  | ignored other => exact ⟨valid,faithful⟩
  | notFound nack absent => exact ⟨heard,told⟩
  | resent nack place found =>
    obtain ⟨i,first,rfl⟩ := Option.map_eq_some_iff.mp found
    have below := List.mem_range.mp (List.find?_range_eq_some.mp first).2.1
    obtain ⟨c,bytes,known,_,stored⟩ := valid.filled below
    exact sendPlace_faithful heard told known _ stored
  | repeated ack same few => exact ⟨heard.frame rfl,told.same rfl (List.prefix_refl _)⟩
  | nothing ack same third empty => exact told.same rfl (List.prefix_refl _)
  | fast ack same third live =>
    have quiet : Valid h.crc32 { Sender.heard s pkt with dupAck := 0 } := heard.frame rfl
    have size := valid.size
    have bound : s.acked < s.input.length := by omega
    have stored := valid.live (List.getElem?_eq_getElem bound) (Nat.le_refl _)
    rw [Nat.sub_self] at stored
    exact sendPlace_faithful quiet (told.same rfl (List.prefix_refl _)) (List.getElem?_eq_getElem bound) _ stored
  | acked ack moved =>
    exact ⟨(heard.advanced (acked_inside valid inside)).frame rfl,told.same rfl (List.prefix_refl _)⟩

theorem readSocket_faithful (valid : Valid h.crc32 s) (faithful : Faithful h.crc32 s) (stale : Pkt)
    (socket : Option Recv) : (readSocket h stale socket s).Meets (fun t => Valid h.crc32 t ∧ Faithful h.crc32 t)
      (Faithful h.crc32) (fun _ => Faithful h.crc32) := by
  cases socket with
  | none => exact ⟨valid,faithful⟩
  | some input =>
    have idle : Valid h.crc32 { s with retryCount := 0 } := valid.frame rfl
    have still : Faithful h.crc32 { s with retryCount := 0 } := faithful.same rfl (List.prefix_refl _)
    rw [readSocket]
    rcases handleSocketRead_cases valid stale input with failed | ⟨_,dropped⟩ | ⟨pkt,_,inside,response⟩
    · rw [failed]
      exact still
    · rw [dropped]
      exact ⟨idle,still⟩
    · exact response_faithful idle still inside response

/-- The loop of the timer sends what lies in the buffer for as long as it stays below the last number sent. -/
theorem resend_faithful (fuel : Nat) {c : Nat} (valid : Valid h.crc32 s) (faithful : Faithful h.crc32 s)
    (unacked : s.acked ≤ c) (sent : c ≤ s.sent) (last : s.lastSent ≠ 255) {outcome : Outcome Halt Sender}
    (ended : resend h fuel (serial c) s = some outcome) :
    outcome.Meets (fun t => Valid h.crc32 t ∧ Faithful h.crc32 t) (Faithful h.crc32) (fun _ => Faithful h.crc32) := by
  induction fuel generalizing c s with
  | zero => simp [resend] at ended
  | succ fuel ih =>
    rcases Nat.lt_or_ge c s.sent with left | none
    · obtain ⟨bytes,known,turn⟩ := @resend_turn h h.crc32 s valid c unacked left fuel
      rw [turn] at ended
      split at ended
      next =>
        have next : Valid h.crc32 (s.recorded (Sender.resending h.crc32 s c bytes)) := valid.frame rfl
        have more : Faithful h.crc32 (s.recorded (Sender.resending h.crc32 s c bytes)) := faithful.more rfl known rfl
        exact ih next more (Nat.le_succ_of_le unacked) left last ended
      next =>
        obtain rfl := Option.some.inj ended
        exact faithful.same rfl (List.prefix_refl _)
    · obtain rfl : c = s.sent := by omega
      rw [resend_stop valid last fuel] at ended
      obtain rfl := Option.some.inj ended
      exact ⟨valid.frame rfl,faithful.same rfl (List.prefix_refl _)⟩

theorem turn_faithful (valid : Valid h.crc32 s) (polls : Polls s) (faithful : Faithful h.crc32 s) (fuel : Nat)
    (event : Event) (turning : Turning (.running s) event) {outcome : Outcome Halt Sender}
    (taken : turn h fuel s event = some outcome) :
    outcome.Meets (fun t => Valid h.crc32 t ∧ Faithful h.crc32 t) (Faithful h.crc32) (fun _ => Faithful h.crc32) := by
  cases event with
  | failed =>
    obtain rfl := Option.some.inj taken
    exact faithful
  | timeout =>
    have still : Faithful h.crc32 (Sender.expired s) := faithful.same rfl (List.prefix_refl _)
    cases turn_expiry valid taken with
    | idle empty => exact ⟨valid,faithful⟩
    | spent live many => exact still
    | again live few _ ended =>
      have last : s.lastSent ≠ 255 := by
        rcases turning s rfl rfl with empty | last
        · rw [empty] at live
          contradiction
        · exact last
      exact resend_faithful fuel valid.expired still (Nat.le_refl _) valid.ackedSent last ended
  | ready stale socket file =>
    obtain rfl := Option.some.inj taken
    have input : ((readSocket h stale socket s).andThen (readFile h file)).Meets
        (fun t => Valid h.crc32 t ∧ Faithful h.crc32 t) (Faithful h.crc32) (fun _ => Faithful h.crc32) := by
      have both := (readSocket_meets valid polls stale socket).and (readSocket_faithful valid faithful stale socket)
      have weaker := both.mono (fun _ kept => kept) (fun _ ended => ended.2) (fun _ _ ended => ended.2)
      refine weaker.andThen ?_
      rintro t ⟨⟨after,stillPolls,_⟩,_,still⟩
      exact readFile_meets after stillPolls file still
        (fun bytes _ => still.same rfl (List.prefix_append _ [bytes]))
        (fun _ => still.same rfl (List.prefix_refl _))
    have output : (((readSocket h stale socket s).andThen (readFile h file)).andThen (doSendSbuf h)).Meets
        (fun t => Valid h.crc32 t ∧ Faithful h.crc32 t) (Faithful h.crc32) (fun _ => Faithful h.crc32) := by
      refine input.andThen ?_
      rintro t ⟨after,still⟩
      have loop := @sendLoop_meets h t (Faithful h.crc32) (Faithful h.crc32)
        (fun u bytes _ kept next _ => (kept.same (t := Sender.released u) rfl (List.prefix_refl _)).more rfl next rfl)
        (fun u _ kept _ => kept.same rfl (List.prefix_refl _)) 256 after still
      exact loop.mono (fun _ both => both) (fun _ ended => ended) (fun _ _ never => never.elim)
    refine output.andThen ?_
    rintro t ⟨after,still⟩
    exact ⟨after.frame rfl,still.same rfl (List.prefix_refl _)⟩

theorem reachable_faithful {capacity : UInt32} {c : Config Halt Sender}
    (reached : Reach (Start capacity) (Step h) Turning c) : Faithful h.crc32 c.state := by
  induction reached with
  | start c first =>
    obtain ⟨buf,_,rfl⟩ := first
    intro e member
    simp [Config.state,Transmit.start] at member
  | step c event next before admitted taken ih =>
    obtain ⟨fuel,s,event,outcome,ended⟩ := taken
    obtain ⟨valid,polls,_⟩ := reachable_valid before rfl
    have met := turn_faithful valid polls ih fuel event admitted ended
    rw [afterTurn_state]
    cases outcome with
    | ret t => exact met.2
    | err t => exact met
    | halt reason t => exact met

structure Control (crc32 : List UInt8 → UInt32) (maxWindow : UInt32) (data : List UInt8) : Prop where
  wire : Wire crc32 data
  type : typeField data = 2 ∨ typeField data = 3
  bare : data.length = 12
  window : windowField data ≤ maxWindow.toNat

section Receiver

open Receive ReceiveBuffer Marking Window

variable {maxWindow : UInt32} {r : Receiver}

theorem replyPkt_control (bounded : Bounded maxWindow r) (type : BitVec 2) (kind : type = ptypeAck ∨ type = ptypeNack)
    (seq : UInt8) : Control h.crc32 maxWindow (replyPkt h type seq r).datagram := by
  let p : Pkt := { Pkt.zero with
    type := type, seq := seq, ts := r.lastTs, window := BitVec.ofNat 5 (windowSize r).toNat }
  have datagram : (replyPkt h type seq r).datagram = image h.crc32 p := replyPkt_datagram h type seq r
  have types : validType type = true ∧ (type.toNat = 2 ∨ type.toNat = 3) := by
    rcases kind with rfl | rfl <;> decide
  have valid : Encodable p :=
    ⟨types.1,Nat.zero_le _,fun present => absurd rfl present,fun truncated => nomatch truncated⟩
  have left := bounded.left
  rw [datagram]
  refine ⟨wire_image valid,?_,?_,?_⟩
  · rw [(image_fields h.crc32 p).1]
    exact types.2
  · exact image_length h.crc32 p
  · rw [windowField_image]
    change (BitVec.ofNat 5 (windowSize r).toNat).toNat ≤ _
    rw [BitVec.toNat_ofNat]
    have small := Nat.mod_le (windowSize r).toNat (2 ^ 5)
    omega

theorem reachable_control (least : 1 ≤ maxWindow.toNat) {d : Config Halt Receiver}
    (reached : Reach (Receive.Start h maxWindow) (Receive.Step h) (fun _ _ => True) d) :
    ∀ reply ∈ d.state.replies, Control h.crc32 maxWindow reply.datagram := by
  induction reached with
  | start d first =>
    obtain ⟨new,slot,buf,made,allocated,rfl⟩ := first
    intro reply member
    simp [Config.state,Receive.start] at member
  | step d event after before admitted taken ih =>
    have limited : Limited maxWindow (ledger after.state) :=
      reachable_limited least (.step d event after before trivial taken)
    obtain ⟨s,rfl,_⟩ := step_cases taken
    obtain ⟨l,m,entered,writes,told⟩ := (next_ledger taken).entered
    have quiet : l.replies = s.replies := by
      rcases entered.cases with rfl | ⟨buf,place,entry⟩
      · rfl
      · obtain ⟨k,gap,_,rfl⟩ := entry.enters
        exact Ledger.enter_replies _ k gap
    have replies : m.replies = s.replies := writes.shifted.replies.trans quiet
    obtain ⟨news,replied,kinds⟩ := told.answered.news
    rw [told.ledger] at limited
    have bounded : Bounded maxWindow m := Limited.bounded ⟨limited.fixed,limited.few⟩
    intro reply member
    rw [replied,replies] at member
    rcases List.mem_append.mp member with old | new
    · exact ih reply old
    · rcases kinds reply new with rfl | ⟨_,rfl⟩
      · exact replyPkt_control bounded _ (Or.inl rfl) _
      · exact replyPkt_control bounded _ (Or.inr rfl) _

end Receiver

/-- Whatever arrives at the two programs, each datagram the sender writes is the DATA
packet of a chunk it has read, under the number of that chunk, and each datagram the
receiver writes is an ACK or a NACK of twelve bytes within its window. -/
theorem sends_conforming (hs hr : Host) (capacity maxWindow : UInt32) (least : 1 ≤ maxWindow.toNat) :
    (∀ c, Reach (Start capacity) (Step hs) Turning c → ∀ e ∈ c.state.wire, ∃ n bytes,
      e.number = some n ∧ c.state.input[n]? = some bytes ∧ e.datagram = chunkDatagram hs.crc32 n bytes ∧
      Wire hs.crc32 e.datagram ∧ typeField e.datagram = 1 ∧ trField e.datagram = 0 ∧
      lengthField e.datagram = bytes.val.length) ∧
    ∀ d, Reach (Receive.Start hr maxWindow) (Receive.Step hr) (fun _ _ => True) d →
      ∀ reply ∈ d.state.replies, Control hr.crc32 maxWindow reply.datagram := by
  constructor
  · intro c reached e member
    obtain ⟨n,bytes,number,known,datagram⟩ := reachable_faithful reached e member
    have fields := image_fields hs.crc32 (chunkPkt n bytes)
    refine ⟨n,bytes,number,known,datagram,?_⟩
    rw [datagram]
    refine ⟨wire_image (chunkPkt_encodable n bytes),fields.1,?_,?_⟩
    · exact fields.2.1
    · rw [chunkDatagram,fields.2.2,chunkPkt_length]
  · intro d reached
    exact reachable_control least reached

def nextTurning (h : Host) (c : Config Halt Sender) (event : Event) : Option (Config Halt Sender) :=
  if c.state.lastSent != 255 || pktbufEmpty c.state.sendBuf then next h 4 c event else none

theorem nextTurning_turning {c d : Config Halt Sender} {event : Event} (taken : nextTurning h c event = some d) :
    Turning c event ∧ Step h c event d := by
  unfold nextTurning at taken
  split at taken
  next passed =>
    refine ⟨?_,next_step h 4 _ _ _ taken⟩
    rintro s rfl _
    simp only [Config.state_running,Bool.or_eq_true,bne_iff_ne] at passed
    exact passed.symm
  next => contradiction

/-- Three chunks are sent, two of them again when the timer expires; the receiver, to which
chunk 2 comes before a truncated chunk 1, sends two ACKs and a NACK. -/
theorem sends_conforming_resent : ∃ (s : Sender) (r : Receive.Receiver),
    s.wire.map Sending.number = [some 0,some 1,some 2,some 1,some 2] ∧
    (∀ e ∈ s.wire, Wire steadyHost.crc32 e.datagram ∧ typeField e.datagram = 1 ∧ trField e.datagram = 0) ∧
    r.replies.map Receive.Reply.type = [ptypeAck,ptypeAck,ptypeNack] ∧
    ∀ reply ∈ r.replies, Control steadyHost.crc32 31 reply.datagram := by
  have sends : runningWith (fun s => s.wire.map Sending.number == [some 0,some 1,some 2,some 1,some 2])
      ([byteEvent,ackEvent 1 3,byteEvent,byteEvent,.timeout].foldlM (nextTurning steadyHost)
        (.running (Transmit.start fourPlaces))) = true := by decide +kernel
  let cut : Recv := .datagram (truncate (image steadyHost.crc32 (countingStream 1)))
  have replies : runningWith (fun r => r.replies.map Receive.Reply.type == [ptypeAck,ptypeAck,ptypeNack])
      ([some (chunk steadyHost countingStream 0),none,some (chunk steadyHost countingStream 2),some cut].foldlM
        (tend steadyHost) (firstWait 31)) = true := by decide +kernel
  obtain ⟨s,sent,numbers⟩ := exists_of_runningWith sends
  obtain ⟨r,received,types⟩ := exists_of_runningWith replies
  obtain ⟨left,right⟩ := sends_conforming steadyHost steadyHost 4 31 (by decide)
  refine ⟨s,r,beq_iff_eq.mp numbers,?_,beq_iff_eq.mp types,?_⟩
  · intro e member
    have reached : Reach (Start 4) (Step steadyHost) Turning (.running s) :=
      Reach.play (fun _ event _ taken => ⟨event,nextTurning_turning taken⟩) (.start _ fourPlaces_start) _ sent
    obtain ⟨n,bytes,_,_,_,wire,type,tr,_⟩ := left _ reached e member
    exact ⟨wire,type,tr⟩
  · have reached : Reach (Receive.Start steadyHost 31) (Receive.Step steadyHost) (fun _ _ => True) (.running r) := by
      refine Reach.play ?_ (.start _ (firstWait_start steadyHost 31)) _ received
      exact fun _ _ _ tended => ⟨_,trivial,(tend_timely tended).2⟩
    exact right _ reached

end Trtp.Conformance
