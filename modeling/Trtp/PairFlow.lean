import Trtp.Nack
import Trtp.Transfer

/-! The sender when every reply announces the whole window of the receiver and a
NACK names a chunk that is outstanding.
Then no datagram leaves it out of turn: the window never closes, so that there is
always something outstanding while something waits to be sent. -/
namespace Trtp.PairFlow
open Lib.Circular Lib.Run Lib.Serial Packet Process Buffer Net Transmit SendBuffer SenderRuns FlowControl Progress

structure Leveled (maxWindow : Nat) (s : Sender) : Prop where
  least : 1 ≤ s.lastWin.toNat
  most : s.lastWin.toNat ≤ maxWindow
  outstanding : s.outstanding ≤ maxWindow

/-- Everything that was read has been sent, or the window is used up. -/
def Eager (s : Sender) : Prop := s.sent = s.input.length ∨ s.lastWin.toNat ≤ s.outstanding

/-- The input file is polled whenever there is something to read and a place for it. -/
def Curious (s : Sender) : Prop :=
  s.lastInRead ≠ 0 → s.sendBuf.size < s.sendBuf.capacity.toNat → s.pfdsCount = 2

def SentChunk (crc32 : List UInt8 → UInt32) (s : Sender) (e : Sending) : Prop :=
  ∃ n bytes, e.number = some n ∧ n < s.sent ∧ s.input[n]? = some bytes ∧ e.datagram = chunkDatagram crc32 n bytes

/-- The sender about to poll. -/
structure Regular (crc32 : List UInt8 → UInt32) (maxWindow : Nat) (s : Sender) : Prop where
  leveled : Leveled maxWindow s
  eager : Eager s
  curious : Curious s
  opened : Open s
  wire : ∀ e ∈ s.wire, SentChunk crc32 s e

/-- What is let through comes from a receiver whose whole window is free. -/
def Polite (h : Host) (maxWindow : Nat) (s : Sender) (event : Event) : Prop :=
  ∀ stale input file pkt, event = .ready stale (some input) file →
    netRecvPkt h stale s.lastAck (s.lastSent - s.lastAck + 1) input = (.netOk,pkt) →
    pkt.window.toNat = maxWindow ∧
      (pkt.type = ptypeNack → ∃ n, pkt.seq = serial n ∧ s.acked ≤ n ∧ n < s.sent)

variable {h : Host} {s t : Sender} {maxWindow : Nat}

theorem lowest_of_named (valid : Valid h.crc32 s) (small : s.sendBuf.capacity.toNat ≤ 128) {n : Nat}
    (unacked : s.acked ≤ n) (sent : n < s.sent) : LowestOutstanding (serial n) s := by
  intro i inside found _
  obtain ⟨c,_,_,residue,held⟩ := valid.filled inside
  have ordered := valid.sentRead
  have fits := valid.fits
  have read : n < s.input.length := by omega
  have stored := valid.stored n s.input[n] (List.getElem?_eq_getElem read) (by omega)
  have congruent : c % 256 = n % 256 := serial_eq_iff.mp (held.seq.symm.trans found)
  have divides : s.sendBuf.capacity.toNat ∣ 256 := by
    rcases Nack.capacity_cases s.sendBuf with divides | multiple
    · exact divides
    · have large := Nat.le_of_dvd s.sendBuf.capacity_pos multiple
      omega
  have place : s.sendBuf.mask (UInt32.ofNat n) = UInt32.ofNat i := by
    apply UInt32.toNat_inj.mp
    have same : n % s.sendBuf.capacity.toNat = i := by
      rw [← residue,← Nat.mod_mod_of_dvd n divides,← congruent,Nat.mod_mod_of_dvd c divides]
    have bound := s.sendBuf.capacity_le
    have below := Nat.mod_lt n s.sendBuf.capacity_pos
    rw [CircularArray.mask_ofNat,same,UInt32.toNat_ofNat',Nat.mod_eq_of_lt (by omega)]
  rw [place] at stored
  exact ⟨n,stored.number,unacked,sent⟩

theorem Regular.safe (regular : Regular h.crc32 maxWindow s) (valid : Valid h.crc32 s)
    (small : s.sendBuf.capacity.toNat ≤ 128) {event : Event} (polite : Polite h maxWindow s event) {fuel : Nat}
    (taken : turn h fuel s event = some (.ret t)) : Safe h s event := by
  cases event with
  | failed => trivial
  | timeout =>
    cases turn_expiry valid taken with
    | idle empty => exact Or.inl empty
    | again live few _ ended =>
      refine Or.inr (Or.inr (Or.inl (fun last => ?_)))
      exact resend_unending (s := Sender.expired s) last fuel _ t ended
  | ready stale socket file =>
    rintro input pkt rfl received
    obtain ⟨_,named⟩ := polite stale input file pkt rfl received
    refine ⟨fun nack => ?_,fun _ _ _ => ?_⟩
    · obtain ⟨n,seq,unacked,sent⟩ := named nack
      rw [seq]
      exact Or.inl (lowest_of_named valid small unacked sent)
    · rcases regular.eager with all | full
      · by_cases empty : s.sendBuf.size = 0
        · exact Or.inl empty
        · rw [valid.size] at empty
          have ordered := valid.ackedSent
          exact Or.inr (Or.inl (by omega))
      · have least := regular.leveled.least
        rw [Sender.outstanding] at full
        exact Or.inr (Or.inl (by omega))

structure Onward (maxWindow : Nat) (s t : Sender) : Prop where
  leveled : Leveled maxWindow t
  sent : s.sent ≤ t.sent

theorem Onward.frame {u v : Sender} (onward : Onward maxWindow s u) (window : v.lastWin = u.lastWin)
    (acked : v.acked = u.acked) (sent : v.sent = u.sent) : Onward maxWindow s v := by
  have bound := onward.leveled.outstanding
  rw [Sender.outstanding,← acked,← sent] at bound
  exact ⟨⟨by rw [window]; exact onward.leveled.least,by rw [window]; exact onward.leveled.most,bound⟩,
    by rw [sent]; exact onward.sent⟩

theorem readSocket_onward (valid : Valid h.crc32 s) (leveled : Leveled maxWindow s) (stale : Pkt) (socket : Option Recv)
    (file : Option ReadResult) (polite : Polite h maxWindow s (.ready stale socket file)) (positive : 1 ≤ maxWindow) :
    (readSocket h stale socket s).Meets (Onward maxWindow s) (fun _ => True) (fun _ _ => True) := by
  have unmoved : Onward maxWindow s s := ⟨leveled,Nat.le_refl _⟩
  cases socket with
  | none => exact unmoved
  | some input =>
    rw [readSocket]
    rcases handleSocketRead_cases valid stale input with failed | ⟨_,dropped⟩ | ⟨pkt,received,_,response⟩
    · rw [failed]
      trivial
    · rw [dropped]
      exact unmoved.frame rfl rfl rfl
    · generalize handleSocketRead h stale input s = outcome at response ⊢
      have window := (polite stale input file pkt rfl received).1
      have heard : (UInt8.ofNat pkt.window.toNat).toNat = maxWindow := by
        have bound := pkt.window.isLt
        rw [UInt8.toNat_ofNat']
        omega
      have known (u : Sender) (same : u.lastWin = UInt8.ofNat pkt.window.toNat) (sent : u.sent = s.sent)
          (acked : s.acked ≤ u.acked) : Onward maxWindow s u := by
        have bound := leveled.outstanding
        rw [Sender.outstanding] at bound
        refine ⟨⟨by rw [same,heard]; exact positive,by rw [same,heard],?_⟩,Nat.le_of_eq sent.symm⟩
        rw [Sender.outstanding,sent]
        omega
      have sending (u : Sender) (same : u.lastWin = UInt8.ofNat pkt.window.toNat) (sent : u.sent = s.sent)
          (acked : s.acked ≤ u.acked) (place : UInt32) (count : Nat) :
          (sendPlace h u place count).Meets (Onward maxWindow s) (fun _ => True) (fun _ _ => True) := by
        rw [sendPlace_eq]
        split
        · exact known _ same sent acked
        · trivial
      cases response with
      | ignored other => exact unmoved.frame rfl rfl rfl
      | notFound nack absent => exact known _ rfl rfl (Nat.le_refl _)
      | resent nack place found =>
        exact sending (Sender.heard { s with retryCount := 0 } pkt) rfl rfl (Nat.le_refl _) place _
      | repeated ack same few => exact known _ rfl rfl (Nat.le_refl _)
      | nothing ack same third empty => trivial
      | fast ack same third live =>
        exact sending { Sender.heard { s with retryCount := 0 } pkt with dupAck := 0 } rfl rfl (Nat.le_refl _) _ _
      | acked ack moved => exact known _ rfl rfl (Nat.le_add_right _ _)

theorem doSendSbuf_eager {u : Sender} (valid : Valid h.crc32 u) (onward : Onward maxWindow s u)
    (few : u.input.length - u.sent < 256) : (doSendSbuf h u).Meets
      (fun t => Onward maxWindow s t ∧ Eager t) (fun _ => True) (fun _ _ => False) := by
  have met := @sendLoop_meets h u (fun u => Onward maxWindow s u ∧ u.input.length - u.sent < 256) (fun _ => True)
    (fun u bytes valid kept known allowed => by
      have most := kept.1.leveled.most
      have sent := kept.1.sent
      rw [Sender.outstanding] at allowed
      refine ⟨⟨⟨kept.1.leveled.least,most,?_⟩,?_⟩,?_⟩
      · change u.sent + 1 - u.acked ≤ maxWindow
        omega
      · change s.sent ≤ u.sent + 1
        omega
      · change u.input.length - (u.sent + 1) < 256
        omega)
    (fun _ _ _ _ => trivial) 256 valid ⟨onward,few⟩
  have enough : u.lastWin.toNat < u.outstanding + 256 := by
    have bound := u.lastWin.toNat_lt
    omega
  unfold doSendSbuf
  cases ended : sendLoop h 256 u with
  | err t => trivial
  | halt reason t =>
    rw [ended] at met
    exact met
  | ret t =>
    rw [ended] at met
    obtain ⟨after,onward,few⟩ := met
    refine ⟨onward,?_⟩
    have done := sendLoop_done 256 valid enough ended
    have read := after.sentRead
    have acked := after.ackedSent
    by_contra more
    rw [Eager,not_or,Nat.not_le] at more
    apply done
    rw [canSend_iff after]
    refine ⟨?_,by omega,more.2⟩
    intro same
    have counters := after.lastSent
    rw [same,after.lastChunkRead] at counters
    have residues := serial_eq_iff.mp counters
    omega

theorem choosePolled_curious (s : Sender) : Curious (choosePolled s) := by
  intro more room
  have open' : pktbufFull s.sendBuf = false := pktbufFull_false room
  have chosen : s.lastInRead ≠ 0 ∧ (!pktbufFull s.sendBuf) = true := ⟨more,by rw [open']; rfl⟩
  exact if_pos chosen

theorem ready_onward (regular : Regular h.crc32 maxWindow s) (valid : Valid h.crc32 s) (polls : Polls s)
    (small : s.sendBuf.capacity.toNat ≤ 128) (positive : 1 ≤ maxWindow) {stale : Pkt} {socket : Option Recv}
    {file : Option ReadResult} (polite : Polite h maxWindow s (.ready stale socket file)) (fuel : Nat)
    (taken : turn h fuel s (.ready stale socket file) = some (.ret t)) :
    Onward maxWindow s t ∧ Eager t ∧ Curious t := by
  have read := (readSocket_meets valid polls stale socket).and
    (readSocket_onward valid regular.leveled stale socket file polite positive)
  have filed : ((readSocket h stale socket s).andThen (readFile h file)).Meets
      (fun u => Valid h.crc32 u ∧ Onward maxWindow s u ∧ u.sendBuf.capacity = s.sendBuf.capacity)
      (fun _ => True) (fun _ _ => True) := by
    refine (read.mono (fun _ both => both) (fun _ _ => trivial) (fun _ _ _ => trivial)).andThen ?_
    rintro u ⟨⟨after,stillPolls,later⟩,onward⟩
    exact readFile_meets after stillPolls file ⟨onward,later.capacity⟩
      (fun _ _ => ⟨onward.frame rfl rfl rfl,later.capacity⟩) (fun _ => trivial)
  have output : (((readSocket h stale socket s).andThen (readFile h file)).andThen (doSendSbuf h)).Meets
      (fun u => Onward maxWindow s u ∧ Eager u) (fun _ => True) (fun _ _ => True) := by
    refine filed.andThen ?_
    rintro u ⟨after,onward,capacity⟩
    have fits := after.fits
    have ordered := after.ackedSent
    rw [capacity] at fits
    exact (doSendSbuf_eager after onward (by omega)).mono (fun _ both => both) (fun _ _ => trivial)
      (fun _ _ never => never.elim)
  obtain ⟨u,ended,rest⟩ := Outcome.andThen_ret (Option.some.inj taken)
  obtain rfl := Outcome.ret.inj rest
  obtain ⟨onward,eager⟩ := output.of_ret ended
  exact ⟨onward.frame rfl rfl rfl,eager,choosePolled_curious u⟩

theorem SentChunk.later {crc32 : List UInt8 → UInt32} {e : Sending} (chunk : SentChunk crc32 s e)
    (sent : s.sent ≤ t.sent) (input : s.input <+: t.input) : SentChunk crc32 t e := by
  obtain ⟨n,bytes,number,before,known,datagram⟩ := chunk
  obtain ⟨more,appended⟩ := input
  have inside := (List.getElem?_eq_some_iff.mp known).1
  refine ⟨n,bytes,number,by omega,?_,datagram⟩
  rw [← appended,List.getElem?_append_left inside,known]

theorem afterTurn_unfailed {outcome : Outcome Halt Sender} (unfailed : (afterTurn outcome).Unfailed t) :
    outcome = .ret t := by
  rcases unfailed with running | returned
  · exact afterTurn_running running
  · cases outcome with
    | ret s =>
      rw [afterTurn] at returned
      split at returned
      next => contradiction
      next => exact congrArg Outcome.ret (Config.returned.inj returned).2
    | err s => exact absurd (Config.returned.inj returned).1 (by decide)
    | halt reason s => contradiction

/-- Step lemma: a turn that ends leaves the sender regular. -/
theorem turn_regular (regular : Regular h.crc32 maxWindow s) (valid : Valid h.crc32 s) (polls : Polls s)
    (small : s.sendBuf.capacity.toNat ≤ 128) (positive : 1 ≤ maxWindow) {event : Event}
    (polite : Polite h maxWindow s event) (fuel : Nat) (taken : turn h fuel s event = some (.ret t)) :
    Regular h.crc32 maxWindow t ∧ s.sent ≤ t.sent := by
  obtain ⟨_,flow⟩ := (turn_flow valid polls regular.opened.flow fuel event
    (regular.safe valid small polite taken) taken).of_ret rfl
  have input : s.input <+: t.input := by
    rcases ((turn_heeded valid polls fuel event taken).of_ret rfl).input with kept | ⟨_,_,bytes,_,appended⟩
    · rw [kept]
    · rw [appended]
      exact List.prefix_append s.input [bytes]
  have wire (sent : s.sent ≤ t.sent) : ∀ e ∈ t.wire, SentChunk h.crc32 t e := by
    obtain ⟨news,appended,all⟩ := flow.fresh
    intro e member
    rw [appended] at member
    rcases List.mem_append.mp member with old | new
    · exact (regular.wire e old).later sent input
    · obtain ⟨n,bytes,number,_,before,known,datagram⟩ := all e new
      exact ⟨n,bytes,number,before,known,datagram⟩
  have opened : Open t := ⟨flow.known,flow.disciplined⟩
  cases event with
  | failed => simp [turn] at taken
  | timeout =>
    obtain ⟨core,polled⟩ := (turn_expiry valid taken).core valid
    have window : t.lastWin = s.lastWin := congrArg (fun u => u.lastWin) core
    have acked : t.acked = s.acked := congrArg (fun u => u.acked) core
    have sent : t.sent = s.sent := congrArg (fun u => u.sent) core
    have same : t.input = s.input := congrArg (fun u => u.input) core
    have buffer : t.sendBuf = s.sendBuf := congrArg (fun u => u.sendBuf) core
    have last : t.lastInRead = s.lastInRead := congrArg (fun u => u.lastInRead) core
    have outstanding : t.outstanding = s.outstanding := by
      rw [Sender.outstanding,acked,sent]
      rfl
    refine ⟨⟨⟨?_,?_,?_⟩,?_,?_,opened,wire (Nat.le_of_eq sent.symm)⟩,Nat.le_of_eq sent.symm⟩
    · rw [window]
      exact regular.leveled.least
    · rw [window]
      exact regular.leveled.most
    · rw [outstanding]
      exact regular.leveled.outstanding
    · rw [Eager,window,outstanding,sent,same]
      exact regular.eager
    · rw [Curious,buffer,last,polled]
      exact regular.curious
  | ready stale socket file =>
    obtain ⟨onward,eager,curious⟩ := ready_onward regular valid polls small positive polite fuel taken
    exact ⟨⟨onward.leveled,eager,curious,opened,wire onward.sent⟩,onward.sent⟩

theorem start_regular {crc32 : List UInt8 → UInt32} (positive : 1 ≤ maxWindow) (buf : Pktbuf) :
    Regular crc32 maxWindow (start buf) where
  leveled := ⟨Nat.le_refl 1,positive,Nat.zero_le _⟩
  eager := Or.inl rfl
  curious _ _ := rfl
  opened := (start_opening buf).opened
  wire e member := by simp [start] at member

end Trtp.PairFlow
