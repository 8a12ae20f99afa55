import Trtp.FlowControl

/-! What a turn of the sender does to its counts, and how a transfer opens.
Until the first acknowledgement the window is one, so that nothing but chunk 0
is on the wire. -/
namespace Trtp.Progress
open Lib.Circular Lib.Run Lib.Serial Packet Process Buffer Net Transmit SendBuffer SenderRuns FlowControl

variable {h : Host} {s t : Sender}

/-- The event's acknowledgement is let through and raises the count to `n`. -/
def Acks (h : Host) (s : Sender) (event : Event) (n : Nat) : Prop :=
  ∃ stale input file pkt, event = .ready stale (some input) file ∧
    netRecvPkt h stale s.lastAck (s.lastSent - s.lastAck + 1) input = (.netOk,pkt) ∧ pkt.type = ptypeAck ∧
    (pkt.seq - s.lastAck).toNat ≤ s.outstanding ∧ n = s.acked + (pkt.seq - s.lastAck).toNat

/-- What a turn has done to the count of acknowledged chunks and to the input. -/
structure Heeded (h : Host) (event : Event) (s t : Sender) : Prop where
  acked : t.acked = s.acked ∨ Acks h s event t.acked
  input : t.input = s.input ∨
    ∃ stale socket bytes, event = .ready stale socket (some (.data bytes)) ∧ t.input = s.input ++ [bytes]

theorem Heeded.refl (event : Event) (s : Sender) : Heeded h event s s := ⟨Or.inl rfl,Or.inl rfl⟩

theorem Heeded.of_counts {event : Event} (acked : t.acked = s.acked) (input : t.input = s.input) :
    Heeded h event s t := ⟨Or.inl acked,Or.inl input⟩

theorem sendPlace_counts (place : UInt32) (outstanding : Nat) :
    (sendPlace h s place outstanding).Meets (fun t => t.acked = s.acked ∧ t.input = s.input)
      (fun t => t.acked = s.acked ∧ t.input = s.input) (fun _ t => t.acked = s.acked ∧ t.input = s.input) := by
  rw [sendPlace_eq]
  split
  next => exact ⟨rfl,rfl⟩
  next => exact ⟨rfl,rfl⟩

theorem response_counts {pkt : Pkt} {outcome : Outcome Halt Sender} (response : Response h s pkt outcome) :
    let counted (t : Sender) := (t.acked = s.acked ∨ pkt.type = ptypeAck ∧
      t.acked = s.acked + (pkt.seq - s.lastAck).toNat) ∧ t.input = s.input
    outcome.Meets counted counted (fun _ => counted) := by
  intro counted
  have sent (t : Sender) (place : UInt32) (acked : t.acked = s.acked) (input : t.input = s.input) :
      (sendPlace h t place s.outstanding).Meets counted counted (fun _ => counted) := by
    have same (u : Sender) (counts : u.acked = t.acked ∧ u.input = t.input) : counted u :=
      ⟨Or.inl (counts.1.trans acked),counts.2.trans input⟩
    exact (sendPlace_counts place s.outstanding).mono same same (fun _ => same)
  cases response with
  | ignored other => exact ⟨Or.inl rfl,rfl⟩
  | notFound nack absent => exact ⟨Or.inl rfl,rfl⟩
  | resent nack place found => exact sent _ place rfl rfl
  | repeated ack equal few => exact ⟨Or.inl rfl,rfl⟩
  | nothing ack equal third empty => exact ⟨Or.inl rfl,rfl⟩
  | fast ack equal third live => exact sent _ _ rfl rfl
  | acked ack moved => exact ⟨Or.inr ⟨ack,rfl⟩,rfl⟩

theorem readSocket_counts (valid : Valid h.crc32 s) (stale : Pkt) (socket : Option Recv) (file : Option ReadResult) :
    let counted (t : Sender) := (t.acked = s.acked ∨ Acks h s (.ready stale socket file) t.acked) ∧ t.input = s.input
    (readSocket h stale socket s).Meets counted counted (fun _ => counted) := by
  intro counted
  cases socket with
  | none => exact ⟨Or.inl rfl,rfl⟩
  | some input =>
    rw [readSocket]
    rcases handleSocketRead_cases valid stale input with failed | ⟨_,dropped⟩ | ⟨pkt,received,inside,response⟩
    · rw [failed]
      exact ⟨Or.inl rfl,rfl⟩
    · rw [dropped]
      exact ⟨Or.inl rfl,rfl⟩
    · have heard (t : Sender) (counts : (t.acked = s.acked ∨ pkt.type = ptypeAck ∧
          t.acked = s.acked + (pkt.seq - s.lastAck).toNat) ∧ t.input = s.input) : counted t := by
        obtain ⟨same | ⟨ack,raised⟩,read⟩ := counts
        · exact ⟨Or.inl same,read⟩
        · exact ⟨Or.inr ⟨stale,input,file,pkt,rfl,received,ack,inside,raised⟩,read⟩
      exact (response_counts response).mono heard heard (fun _ => heard)

theorem turn_heeded (valid : Valid h.crc32 s) (polls : Polls s) (fuel : Nat) (event : Event)
    {outcome : Outcome Halt Sender} (taken : turn h fuel s event = some outcome) :
    outcome.Meets (Heeded h event s) (Heeded h event s) (fun _ => Heeded h event s) := by
  cases event with
  | failed =>
    obtain rfl := Option.some.inj taken
    exact .refl _ s
  | timeout =>
    cases turn_expiry valid taken with
    | idle empty => exact .refl _ s
    | spent live many => exact .of_counts rfl rfl
    | again live few _ ended =>
      obtain ⟨acked,_,_,input⟩ := resend_counts fuel _ ended
      have heeded : Heeded h .timeout s outcome.state := .of_counts acked input
      cases outcome <;> exact heeded
  | ready stale socket file =>
    obtain rfl := Option.some.inj taken
    let event := Event.ready stale socket file
    have read : (readSocket h stale socket s).Meets
        (fun t => (Valid h.crc32 t ∧ Polls t) ∧ (t.acked = s.acked ∨ Acks h s event t.acked) ∧ t.input = s.input)
        (Heeded h event s) (fun _ => Heeded h event s) := by
      have both := (readSocket_meets valid polls stale socket).and (readSocket_counts valid stale socket file)
      exact both.mono (fun _ kept => ⟨⟨kept.1.1,kept.1.2.1⟩,kept.2⟩) (fun _ kept => ⟨kept.2.1,Or.inl kept.2.2⟩)
        (fun _ _ kept => ⟨kept.2.1,Or.inl kept.2.2⟩)
    have filed : ((readSocket h stale socket s).andThen (readFile h file)).Meets
        (fun t => Valid h.crc32 t ∧ Heeded h event s t) (Heeded h event s) (fun _ => Heeded h event s) := by
      refine read.andThen ?_
      rintro t ⟨⟨after,stillPolls⟩,acked,input⟩
      refine readFile_meets after stillPolls file ⟨acked,Or.inl input⟩ ?_ (fun _ => ⟨acked,Or.inl input⟩)
      intro bytes chosen
      refine ⟨acked,Or.inr ⟨stale,socket,bytes,by rw [← chosen],?_⟩⟩
      change t.input ++ [bytes] = s.input ++ [bytes]
      rw [input]
    have output := filed.andThen (fun t (met : _ ∧ _) => @sendLoop_meets h t (Heeded h event s) (Heeded h event s)
      (fun _ _ _ kept _ _ => ⟨kept.acked,kept.input⟩)
      (fun _ _ kept _ => ⟨kept.acked,kept.input⟩) 256 met.1 met.2 |>.mono
        (fun _ both => both) (fun _ ended => ended) (fun _ _ never => never.elim))
    refine output.andThen ?_
    rintro t ⟨_,heeded⟩
    exact ⟨heeded.acked,heeded.input⟩

/-- The sender before anything was acknowledged: only chunk 0 may have been sent. -/
structure Shy (s : Sender) : Prop where
  acked : s.acked = 0
  wire : ∀ e ∈ s.wire, e.number = some 0

def Prompt (s : Sender) : Prop := s.input = [] ∨ s.sent = 1

/-- Such a sender when it is about to poll: the window is still one, and chunk 0 was
sent in the turn in which it was read. -/
structure Opening (s : Sender) : Prop extends Shy s where
  window : s.lastWin = 1
  sent : s.sent ≤ 1
  opened : Open s
  prompt : Prompt s

def Deaf (h : Host) (s : Sender) (event : Event) : Prop :=
  ∀ stale input file pkt, event = .ready stale (some input) file →
    netRecvPkt h stale s.lastAck (s.lastSent - s.lastAck + 1) input ≠ (.netOk,pkt)

theorem Opening.safe (opening : Opening s) (valid : Valid h.crc32 s) {event : Event} (deaf : Deaf h s event) :
    Safe h s event := by
  cases event with
  | failed => trivial
  | timeout =>
    rcases opening.prompt with unread | sent
    · left
      rw [valid.empty_iff,opening.acked,unread]
      rfl
    · right
      right
      left
      have last := valid.lastSent
      rw [sent] at last
      intro full
      rw [full] at last
      exact absurd last (by decide)
  | ready stale socket file =>
    rintro input pkt rfl received
    exact absurd received (deaf stale input file pkt rfl)

def Hushed (s : Sender) : Prop := s.acked = 0 ∧ s.lastWin = 1 ∧ s.sent ≤ 1

/-- While the window is one, do_send_sbuf ends with chunk 0 sent if it was read. -/
theorem doSendSbuf_hushed (valid : Valid h.crc32 s) (hushed : Hushed s) (few : s.input.length < 256) :
    (doSendSbuf h s).Meets (fun t => Valid h.crc32 t ∧ Hushed t ∧ Prompt t) Hushed (fun _ _ => False) := by
  have sending (u : Sender) (hushed : Hushed u) (allowed : u.outstanding < u.lastWin.toNat) :
      Hushed (Sender.released u) := by
    obtain ⟨acked,window,_⟩ := hushed
    refine ⟨acked,window,?_⟩
    rw [window] at allowed
    change u.sent - u.acked < 1 at allowed
    change u.sent + 1 ≤ 1
    omega
  have met := @sendLoop_meets h s (fun u => Hushed u ∧ u.input.length < 256) Hushed
    (fun u _ _ both _ allowed => ⟨sending u both.1 allowed,both.2⟩)
    (fun u _ both allowed => sending u both.1 allowed) 256 valid ⟨hushed,few⟩
  have enough : s.lastWin.toNat < s.outstanding + 256 := by
    have bound := s.lastWin.toNat_lt
    omega
  unfold doSendSbuf
  cases ended : sendLoop h 256 s with
  | err t =>
    rw [ended] at met
    exact met
  | halt reason t =>
    rw [ended] at met
    exact met
  | ret t =>
    rw [ended] at met
    obtain ⟨after,⟨acked,window,sent⟩,few⟩ := met
    refine ⟨after,⟨acked,window,sent⟩,?_⟩
    have done := sendLoop_done 256 valid enough ended
    have read := after.sentRead
    by_contra unsent
    rw [Prompt,not_or,← List.length_eq_zero_iff] at unsent
    apply done
    rw [canSend_iff after,Sender.outstanding,window,acked]
    refine ⟨?_,by omega,by rw [UInt8.toNat_one]; omega⟩
    intro same
    have counters := after.lastSent
    rw [same,after.lastChunkRead] at counters
    have residues := serial_eq_iff.mp counters
    omega

theorem turn_hushed (valid : Valid h.crc32 s) (polls : Polls s) (hushed : Hushed s) (prompt : Prompt s)
    (small : s.sendBuf.capacity.toNat ≤ 128) (fuel : Nat) {event : Event} (deaf : Deaf h s event)
    {outcome : Outcome Halt Sender} (taken : turn h fuel s event = some outcome) :
    outcome.Meets (fun t => Hushed t ∧ Prompt t) Hushed (fun _ => Hushed) := by
  cases event with
  | failed =>
    obtain rfl := Option.some.inj taken
    exact hushed
  | timeout =>
    cases turn_expiry valid taken with
    | idle empty => exact ⟨hushed,prompt⟩
    | spent live many => exact hushed
    | again live few _ ended =>
      obtain ⟨acked,sent,window,input⟩ := resend_counts fuel _ ended
      have after : Hushed outcome.state ∧ Prompt outcome.state := by
        rw [Hushed,Prompt,acked,sent,window,input]
        exact ⟨hushed,prompt⟩
      cases outcome with
      | ret t => exact after
      | err t => exact after.1
      | halt reason t => exact after.1
  | ready stale socket file =>
    obtain rfl := Option.some.inj taken
    let Quiet (t : Sender) : Prop := Hushed t ∧ t.input.length < 256
    have short : s.input.length ≤ 128 := by
      have fits := valid.fits
      rw [hushed.1] at fits
      omega
    have read : (readSocket h stale socket s).Meets
      (fun t => Valid h.crc32 t ∧ Polls t ∧ Hushed t ∧ t.input.length ≤ 128)
        Hushed (fun _ => Hushed) := by
      cases socket with
      | none => exact ⟨valid,polls,hushed,short⟩
      | some input =>
        have idle : Valid h.crc32 { s with retryCount := 0 } := valid.frame rfl
        rw [readSocket]
        rcases handleSocketRead_cases valid stale input with failed | ⟨_,dropped⟩ | ⟨pkt,received,_⟩
        · rw [failed]
          exact hushed
        · rw [dropped]
          exact ⟨idle,polls,hushed,short⟩
        · exact absurd received (deaf stale input file pkt rfl)
    have filed : ((readSocket h stale socket s).andThen (readFile h file)).Meets
        (fun t => Valid h.crc32 t ∧ Quiet t) Hushed (fun _ => Hushed) := by
      refine read.andThen ?_
      rintro t ⟨after,stillPolls,quiet,short⟩
      refine readFile_meets after stillPolls file ⟨quiet,by omega⟩ ?_ (fun _ => quiet)
      intro bytes _
      refine ⟨quiet,?_⟩
      change (t.input ++ [bytes]).length < 256
      rw [List.length_append,List.length_singleton]
      omega
    have output := filed.andThen (fun t (met : _ ∧ _) => (doSendSbuf_hushed met.1 met.2.1 met.2.2).mono
      (fun _ both => both) (fun _ ended => ended) (fun _ _ never => never.elim))
    refine output.andThen ?_
    rintro t ⟨_,quiet,done⟩
    exact ⟨quiet,done⟩

/-- Step lemma: until a packet is let through, chunk 0 is all that is sent. -/
theorem turn_opening (valid : Valid h.crc32 s) (polls : Polls s) (opening : Opening s)
    (small : s.sendBuf.capacity.toNat ≤ 128) (fuel : Nat) {event : Event} (deaf : Deaf h s event)
    {outcome : Outcome Halt Sender} (taken : turn h fuel s event = some outcome) :
    outcome.Meets Opening Shy (fun _ => Shy) := by
  have flowed := turn_flow valid polls opening.opened.flow fuel event (opening.safe valid deaf) taken
  have hushed := turn_hushed valid polls
    ⟨opening.acked,opening.window,opening.sent⟩ opening.prompt small fuel deaf taken
  have shy (t : Sender) (quiet : Hushed t)
      (fresh : ∃ news, t.wire = s.wire ++ news ∧ ∀ e ∈ news, InFlight h.crc32 t e) : Shy t := by
    obtain ⟨news,appended,all⟩ := fresh
    refine ⟨quiet.1,?_⟩
    intro e member
    rw [appended] at member
    rcases List.mem_append.mp member with old | new
    · exact opening.wire e old
    · obtain ⟨c,_,number,_,sent,_⟩ := all e new
      have few := quiet.2.2
      obtain rfl : c = 0 := by omega
      exact number
  refine (flowed.and hushed).mono ?_ (fun t both => shy t both.2 both.1.fresh)
    (fun _ t both => shy t both.2 both.1.fresh)
  rintro t ⟨⟨_,flow⟩,quiet,prompt⟩
  exact ⟨shy t quiet flow.fresh,quiet.2.1,quiet.2.2,⟨flow.known,flow.disciplined⟩,prompt⟩

theorem start_opening (buf : Pktbuf) : Opening (start buf) where
  acked := rfl
  wire e member := by simp [start] at member
  window := rfl
  sent := Nat.zero_le 1
  opened := ⟨fun c before => absurd before (Nat.not_lt_zero c),Disciplined.nil⟩
  prompt := Or.inl rfl

end Trtp.Progress
