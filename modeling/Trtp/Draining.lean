import Trtp.DataStream

/-! Writing out the receive buffer. What do_empty_rbuf writes it removes from the front of
the mask and of the ring at once, so that it can stop anywhere and go on later. -/
namespace Trtp.Draining
open Lib.Circular Lib.Mask Lib.Run Packet Process Buffer Receive ReceiveBuffer DataStream

/-- The live packets are numbered consecutively, and only live ones are marked. -/
structure Drainable (s : Receiver) : Prop where
  consecutive : Consecutive s.recvBuf
  live : ∀ i, bit s.oosMask i = true → i < s.recvBuf.size

/-- The state `t` with everything that do_empty_rbuf changes as it is in `s`. -/
def Receiver.restored (t s : Receiver) : Receiver :=
  { t with
    recvBuf := s.recvBuf, oosMask := s.oosMask, drained := s.drained, output := s.output
    lastWrittenLen := s.lastWrittenLen, fileWrites := s.fileWrites }

/-- The first `j` packets have been written and removed, and nothing else was touched. -/
structure Drained (j : Nat) (s t : Receiver) : Prop where
  most : j ≤ trailingOnes s.oosMask
  live : j ≤ s.recvBuf.size
  output : t.output = s.output ++ (List.range j).flatMap (fun i => content (s.recvBuf.get i))
  buffer : t.recvBuf = s.recvBuf.drop j
  mask : t.oosMask.toNat = s.oosMask.toNat >>> j
  drained : t.drained = s.drained + j
  rest : Receiver.restored t s = s

/-- The last write that was tried between `s` and `t` would have blocked. -/
def Blocked (h : Host) (s t : Receiver) : Prop :=
  ∃ n, s.fileWrites ≤ n ∧ t.fileWrites = n + 1 ∧ h.write n = .again

variable {h : Host} {s t u : Receiver}

theorem Drained.refl (s : Receiver) : Drained 0 s s where
  most := Nat.zero_le _
  live := Nat.zero_le _
  output := by simp
  buffer := s.recvBuf.drop_zero.symm
  mask := rfl
  drained := rfl
  rest := rfl

theorem Drained.shifted {j : Nat} (drained : Drained j s t) (i : Nat) : bit t.oosMask i = bit s.oosMask (i + j) := by
  rw [bit,bit,drained.mask,Nat.testBit_shiftRight,Nat.add_comm]

theorem Drained.ones {j : Nat} (drained : Drained j s t) : trailingOnes t.oosMask + j = trailingOnes s.oosMask := by
  have most := drained.most
  have same : trailingOnes t.oosMask = trailingOnes s.oosMask - j := by
    apply trailingOnes_unique
    · intro i before
      rw [drained.shifted]
      exact bit_of_lt_trailingOnes (by omega)
    · rw [drained.shifted,Nat.sub_add_cancel most]
      exact bit_trailingOnes _
  omega

theorem Drained.size {j : Nat} (drained : Drained j s t) : t.recvBuf.size + j = s.recvBuf.size := by
  rw [drained.buffer]
  exact s.recvBuf.size_drop drained.live

theorem Drained.get {j : Nat} (drained : Drained j s t) (i : Nat) : t.recvBuf.get i = s.recvBuf.get (i + j) := by
  rw [drained.buffer]
  exact s.recvBuf.get_drop j i

theorem Drained.trans {j k : Nat} (left : Drained j s t) (right : Drained k t u) : Drained (j + k) s u where
  most := by
    have ones := left.ones
    have most := right.most
    omega
  live := by
    have size := left.size
    have live := right.live
    omega
  output := by
    have later (i : Nat) : content (t.recvBuf.get i) = content (s.recvBuf.get (j + i)) := by
      rw [left.get,Nat.add_comm]
    rw [right.output,left.output,List.range_add,List.flatMap_append,List.flatMap_map,List.append_assoc]
    simp only [later]
  buffer := by
    rw [right.buffer,left.buffer]
    simp only [CircularArray.drop,UInt32.ofNat_add,UInt32.add_assoc]
  mask := by rw [right.mask,left.mask,Nat.shiftRight_add]
  drained := by rw [right.drained,left.drained,Nat.add_assoc]
  rest := by
    have back : Receiver.restored (Receiver.restored u t) s = s := by
      rw [right.rest]
      exact left.rest
    exact back

theorem Drained.writing (s : Receiver) : Drained 0 s (Receiver.writing s) where
  most := Nat.zero_le _
  live := Nat.zero_le _
  output := by simp [Receiver.writing]
  buffer := s.recvBuf.drop_zero.symm
  mask := rfl
  drained := rfl
  rest := rfl

theorem writing_fileWrites (s : Receiver) : s.fileWrites ≤ (Receiver.writing s).fileWrites := by
  change s.fileWrites ≤ if _ then _ else _
  split
  next => exact Nat.le_succ _
  next => exact Nat.le_refl _

theorem Drained.first (live : 0 < s.recvBuf.size) (set : bit s.oosMask 0 = true) :
    Drained 1 s (Receiver.draining (Receiver.writing s)) where
  most := trailingOnes_pos set
  live := live
  output := by
    rw [List.range_one,List.flatMap_singleton]
    rfl
  buffer := rfl
  mask := UInt32.toNat_shiftRight _ _
  drained := rfl
  rest := rfl

theorem Drainable.drained (drainable : Drainable s) {j : Nat} (drained : Drained j s t) : Drainable t where
  consecutive i inside := by
    have size := drained.size
    rw [drained.get,drained.get,drainable.consecutive (i + j) (by omega),drainable.consecutive (0 + j) (by omega),
      Nat.zero_add,UInt8.ofNat_add]
    grind
  live i set := by
    have size := drained.size
    rw [drained.shifted] at set
    have inside := drainable.live _ set
    omega

theorem Blocked.mono (blocked : Blocked h t u) (later : s.fileWrites ≤ t.fileWrites) : Blocked h s u := by
  obtain ⟨n,after,last,again⟩ := blocked
  exact ⟨n,Nat.le_trans later after,last,again⟩

/-- By induction on the turns: what one turn writes and what the later ones write adds up. -/
theorem emptyLoop_drains (obliging : Obliging h) (fuel : Nat) (s : Receiver) (drainable : Drainable s) :
    ∃ j t, emptyLoop h fuel s = .ret t ∧ Drained j s t ∧ s.fileWrites ≤ t.fileWrites ∧
      (j = trailingOnes s.oosMask ∨ j = fuel ∨ Blocked h s t) := by
  induction fuel generalizing s with
  | zero => exact ⟨0,s,rfl,.refl s,Nat.le_refl _,Or.inr (Or.inl rfl)⟩
  | succ fuel ih =>
    by_cases set : bit s.oosMask 0 = true
    · have live := drainable.live 0 set
      rw [emptyLoop_turn live obliging set]
      by_cases blocks : Blocks h s
      · have writes : (Receiver.writing s).fileWrites = s.fileWrites + 1 := if_pos blocks.1
        rw [if_pos blocks]
        refine ⟨0,_,rfl,.writing s,writing_fileWrites s,?_⟩
        exact Or.inr (Or.inr ⟨s.fileWrites,Nat.le_refl _,writes,blocks.2⟩)
      · have first := Drained.first live set
        have writes := writing_fileWrites s
        obtain ⟨j,t,ended,rest,after,full⟩ := ih _ (drainable.drained first)
        have ones := first.ones
        rw [if_neg blocks]
        refine ⟨1 + j,t,ended,first.trans rest,Nat.le_trans writes after,?_⟩
        rcases full with all | limit | blocked
        · exact Or.inl (by omega)
        · exact Or.inr (Or.inl (by omega))
        · exact Or.inr (Or.inr (blocked.mono writes))
    · have clear : bit s.oosMask 0 = false := by simpa using set
      exact ⟨0,s,emptyLoop_done clear _,.refl s,Nat.le_refl _,Or.inl (trailingOnes_eq_zero clear).symm⟩

theorem emptyLoop_enough (obliging : Obliging h) (fuel more : Nat) (s : Receiver) (drainable : Drainable s)
    (enough : trailingOnes s.oosMask ≤ fuel) : emptyLoop h (fuel + more) s = emptyLoop h fuel s := by
  induction fuel generalizing s with
  | zero =>
    have clear := bit_trailingOnes s.oosMask
    rw [Nat.le_zero.mp enough] at clear
    rw [emptyLoop_done clear,emptyLoop_done clear]
  | succ fuel ih =>
    by_cases set : bit s.oosMask 0 = true
    · have live := drainable.live 0 set
      have first := Drained.first live set
      have ones := first.ones
      rw [Nat.succ_add,emptyLoop_turn live obliging set,emptyLoop_turn live obliging set,
        ih _ (drainable.drained first) (by omega)]
    · have clear : bit s.oosMask 0 = false := by simpa using set
      rw [emptyLoop_done clear,emptyLoop_done clear]

theorem doEmptyRbuf_drained (obliging : Obliging h) (drainable : Drainable s) :
    ∃ j t, doEmptyRbuf h s = .ret t ∧ Drained j s t ∧ s.fileWrites ≤ t.fileWrites ∧
      (j = trailingOnes s.oosMask ∨ Blocked h s t) := by
  obtain ⟨j,t,ended,drained,after,full⟩ := emptyLoop_drains obliging 32 s drainable
  have most := drained.most
  have bound := trailingOnes_le s.oosMask
  refine ⟨j,t,ended,drained,after,?_⟩
  rcases full with all | limit | blocked
  · exact Or.inl all
  · exact Or.inl (by omega)
  · exact Or.inr blocked

def emptyCalls (h : Host) : Nat → Receiver → Outcome Halt Receiver
  | 0, s => .ret s
  | calls + 1, s => (doEmptyRbuf h s).andThen (emptyCalls h calls)

theorem emptyCalls_drained (obliging : Obliging h) (calls : Nat) (s : Receiver) (drainable : Drainable s) :
    ∃ j t, emptyCalls h calls s = .ret t ∧ Drained j s t ∧ s.fileWrites ≤ t.fileWrites ∧
      (calls = 0 ∨ j = trailingOnes s.oosMask ∨ Blocked h s t) := by
  induction calls generalizing s with
  | zero => exact ⟨0,s,rfl,.refl s,Nat.le_refl _,Or.inl rfl⟩
  | succ calls ih =>
    obtain ⟨j,t,ended,drained,after,full⟩ := doEmptyRbuf_drained obliging drainable
    obtain ⟨k,u,later,rest,writes,last⟩ := ih t (drainable.drained drained)
    have ones := drained.ones
    have most := rest.most
    refine ⟨j + k,u,?_,drained.trans rest,Nat.le_trans after writes,Or.inr ?_⟩
    · rw [emptyCalls,ended]
      exact later
    · rcases last with rfl | all | blocked
      · obtain rfl := Outcome.ret.inj later
        rcases full with all | blocked
        · exact Or.inl (by omega)
        · exact Or.inr blocked
      · exact Or.inl (by omega)
      · exact Or.inr (blocked.mono after)

/-- Draining conserves data: each call, and any number of calls in a row, writes the
payloads of the first packets and removes just these packets from the ring and the mask,
all that are in sequence unless a write would block. -/
theorem doEmptyRbuf_drains (h : Host) (obliging : Obliging h) (s : Receiver) (drainable : Drainable s) :
    (∀ more, emptyLoop h (32 + more) s = doEmptyRbuf h s) ∧
    (∃ j t, doEmptyRbuf h s = .ret t ∧ Drained j s t ∧ (j = trailingOnes s.oosMask ∨ Blocked h s t) ∧
      t.recvBuf.size + j = s.recvBuf.size ∧ (∀ i, t.recvBuf.get i = s.recvBuf.get (i + j)) ∧
      (∀ i, bit t.oosMask i = bit s.oosMask (i + j)) ∧ Drainable t) ∧
    ∀ calls, ∃ j t, emptyCalls h calls s = .ret t ∧ Drained j s t ∧ Drainable t ∧
      (calls = 0 ∨ j = trailingOnes s.oosMask ∨ Blocked h s t) := by
  refine ⟨?_,?_,?_⟩
  · intro more
    exact emptyLoop_enough obliging 32 more s drainable (trailingOnes_le _)
  · obtain ⟨j,t,ended,drained,_,full⟩ := doEmptyRbuf_drained obliging drainable
    exact ⟨j,t,ended,drained,full,drained.size,drained.get,drained.shifted,drainable.drained drained⟩
  · intro calls
    obtain ⟨j,t,ended,drained,_,full⟩ := emptyCalls_drained obliging calls s drainable
    exact ⟨j,t,ended,drained,drainable.drained drained,full⟩

def twoInSequence : Receiver :=
  let ring (buf : Pktbuf) (i : Nat) : Pktbuf := buf.push.put (UInt32.ofNat i) (countingStream i)
  { start 31 ([0,1,2,3].foldl ring newPlaces) 0 with phase := .receiving, oosMask := 11, expectedSeq := 2 }

theorem twoInSequence_drainable : Drainable twoInSequence where
  consecutive i inside := by
    have size : twoInSequence.recvBuf.size = 4 := by decide
    have numbered : ∀ i < 4, (twoInSequence.recvBuf.get i).seq = (twoInSequence.recvBuf.get 0).seq + UInt8.ofNat i := by
      decide
    exact numbered i (by omega)
  live i set := by
    have size : twoInSequence.recvBuf.size = 4 := by decide
    have marked : ∀ i < 32, bit twoInSequence.oosMask i = true → i < 4 := by decide
    have inside := marked i (lt_of_bit set) set
    omega

theorem doEmptyRbuf_drains_twoInSequence : ∃ j t, emptyCalls balkingHost 2 twoInSequence = .ret t ∧
    Drained j twoInSequence t := by
  obtain ⟨j,t,ended,drained,_⟩ :=
    (doEmptyRbuf_drains balkingHost balkingHost_obliging twoInSequence twoInSequence_drainable).2.2 2
  exact ⟨j,t,ended,drained⟩

end Trtp.Draining
