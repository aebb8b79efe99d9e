import AcceleratorSoc.CnnCore.Bus

/-!
# The send side of the store phase

{lit}`STORE` sends sixteen writes.  Unlike the load phases, its done condition
looks at the ready wire, so the sixteenth write is presented until it is taken
and no seventeenth follows.

Main results:

- Theorem {lit}`StoreStage.step`: the stages of the send side and the number of
  writes accepted in each.
- Theorem {lit}`StoreStage.cmdWdata_step`: when the data register of the command
  channel takes a new word, and which.
-/

namespace AcceleratorSoc
namespace CnnCore

/-- Address of write {lit}`k`: the address counter moves by one for each write. -/
def storeAddr (k : Nat) : Word :=
  outAddr + BitVec.ofNat 32 k

/-- The next address is one byte on. -/
theorem storeAddr_succ (k : Nat) : storeAddr (k + 1) = storeAddr k + 1 := by
  rw [storeAddr, storeAddr, BitVec.ofNat_add, ← BitVec.add_assoc]
  rfl

/-- Stages of the send side of {lit}`STORE`, with the number of writes accepted so
far. -/
inductive StoreStage : Nat → CoreState → Prop
  | opening {s : CoreState} (valid : s.cnnIcbCmdValid = false)
      (sendCnt : s.storeDataSendCnt = 0) (addrNext : s.storeDataAddrNext = storeAddr 0)
      (nextCnt : s.storeDataSendNextCnt = 0) :
      StoreStage 0 s
  | streaming {a : Nat} {s : CoreState} (valid : s.cnnIcbCmdValid = true) (le : a ≤ 15)
      (sendCnt : s.storeDataSendCnt = BitVec.ofNat 5 a)
      (cmdAddr : s.cnnIcbCmdAddr = storeAddr a)
      (addrNext : s.storeDataAddrNext = storeAddr (a + 1))
      (nextCnt : s.storeDataSendNextCnt = BitVec.ofNat 4 (a + 1)) :
      StoreStage a s
  | drained {s : CoreState} (valid : s.cnnIcbCmdValid = false)
      (sendCnt : s.storeDataSendCnt = 16) :
      StoreStage 16 s

/-- The phase opens with its counters at zero and no command presented. -/
theorem storeStage_of_compute {s : CoreState} (hs : s.currentState = .compute)
    (i : CoreInput) : StoreStage 0 (s.step i) := by
  apply StoreStage.opening
  · simp [CoreState.step, CoreState.cnnIcbCmdValidD, CoreState.weightAddrSendStart,
      CoreState.imageAddrSendStart, CoreState.storeDataSendStart, hs]
  · simp [CoreState.step, CoreState.storeDataSendCntD, hs]
  · simp [CoreState.step, CoreState.storeDataAddrNextD, CoreState.storeDataSendStart, hs,
      storeAddr]
  · simp [CoreState.step, CoreState.storeDataSendNextCntD, CoreState.storeDataSendStart, hs]

/-- The response counter of the phase. -/
theorem storeRspRcptCnt_step {s : CoreState} (hs : s.currentState = .store) (i : CoreInput)
    (hle : s.storeRspRcptCnt.toNat ≤ 15) :
    (s.step i).storeRspRcptCnt.toNat = s.storeRspRcptCnt.toNat + i.cnnIcbRspValid.toNat := by
  cases hrsp : i.cnnIcbRspValid <;>
    simp [CoreState.step, CoreState.storeRspRcptCntD, CoreState.cnnIcbRspHsk,
      CoreState.cnnIcbRspReady, hs, hrsp]
  omega

/-- While the phase goes on, a response is still awaited. -/
theorem storeRspRcptCnt_le_fifteen {s : CoreState} {i : CoreInput}
    (hs : s.currentState = .store) (hnext : (s.step i).currentState = .store)
    (hle : s.storeRspRcptCnt.toNat ≤ 16) : s.storeRspRcptCnt.toNat ≤ 15 := by
  have hne : s.storeRspRcptCnt.toNat ≠ 16 := by
    intro heq
    have hcnt : s.storeRspRcptCnt = 16 := BitVec.eq_of_toNat_eq heq
    have hleft : (s.step i).currentState = .done :=
      CoreState.nextState_eq_done.mpr (Or.inl ⟨hs, by simp [CoreState.storeDone, hcnt]⟩)
    exact absurd (hnext.symm.trans hleft) (by simp)
  omega

namespace StoreStage

variable {a : Nat} {s : CoreState} {i : CoreInput}

/-- No more than sixteen writes are handed over. -/
theorem le_sixteen (h : StoreStage a s) : a ≤ 16 := by
  cases h <;> omega

/-- A write that is presented has the next address. -/
theorem cmdAddr_of_valid (h : StoreStage a s) (hvalid : s.cnnIcbCmdValid = true) :
    s.cnnIcbCmdAddr = storeAddr a ∧ a ≤ 15 := by
  cases h with
  | opening hv => exact absurd hvalid (by simp [hv])
  | streaming _ hle _ haddr => exact ⟨haddr, hle⟩
  | drained hv => exact absurd hvalid (by simp [hv])

/-- Different counts are different words. -/
private theorem ofNat_five_ne {k : Nat} (hle : a ≤ 16) (hk : k ≤ 16) (hne : a ≠ k) :
    BitVec.ofNat 5 a ≠ BitVec.ofNat 5 k := by
  intro heq
  have := congrArg BitVec.toNat heq
  simp at this
  omega

/-- The start wire is up until the sixteenth write is taken. -/
theorem storeDataSendStart_iff (h : StoreStage a s) (hs : s.currentState = .store) :
    s.storeDataSendStart i = true ↔
      a + (s.cnnIcbCmdValid && i.cnnIcbCmdReady).toNat ≤ 15 := by
  cases h with
  | opening hvalid hcnt =>
      simp [CoreState.storeDataSendStart, CoreState.storeDataSendDone, hs, hvalid, hcnt]
  | streaming hvalid hle hcnt =>
      have h16 : BitVec.ofNat 5 a ≠ 16#5 := ofNat_five_ne (by omega) (by omega) (by omega)
      by_cases hlast : a = 15
      · subst hlast
        cases hready : i.cnnIcbCmdReady <;>
          simp [CoreState.storeDataSendStart, CoreState.storeDataSendDone, hs, hvalid, hcnt,
            hready]
      · have h15 : BitVec.ofNat 5 a ≠ 15#5 := ofNat_five_ne (by omega) (by omega) hlast
        have hstart : s.storeDataSendStart i = true := by
          simp [CoreState.storeDataSendStart, CoreState.storeDataSendDone, hs, hcnt, h15, h16]
        rw [hstart, hvalid]
        cases i.cnnIcbCmdReady <;> simp <;> omega
  | drained hvalid hcnt =>
      simp [CoreState.storeDataSendStart, CoreState.storeDataSendDone, hs, hvalid, hcnt]

/-- What the next registers of the send side are, in terms of the start wire. -/
private theorem sendCnt_step (hs : s.currentState = .store) (hread : s.cnnIcbCmdRead = false) :
    (s.step i).storeDataSendCnt =
      if s.cnnIcbCmdValid && i.cnnIcbCmdReady then s.storeDataSendCnt + 1
      else s.storeDataSendCnt := by
  cases hvalid : s.cnnIcbCmdValid <;> cases hready : i.cnnIcbCmdReady <;>
    simp [CoreState.step, CoreState.storeDataSendCntD, CoreState.cnnIcbCmdWrHsk,
      CoreState.cnnIcbCmdHsk, hs, hread, hvalid, hready]

/-- The address register takes the next address unless the slave stalls. -/
private theorem cmdAddr_step (hs : s.currentState = .store)
    (hstart : s.storeDataSendStart i = true) :
    (s.step i).cnnIcbCmdAddr =
      if s.sendUpdateControl i then s.storeDataAddrNext else s.cnnIcbCmdAddr := by
  cases hvalid : s.cnnIcbCmdValid <;> cases hready : i.cnnIcbCmdReady <;>
    simp [CoreState.step, CoreState.cnnIcbCmdAddrD, CoreState.weightAddrSendStart,
      CoreState.imageAddrSendStart, CoreState.sendUpdateControl, hs, hstart, hvalid, hready]

/-- The next address moves on in the same cycle. -/
private theorem addrNext_step (hstart : s.storeDataSendStart i = true) :
    (s.step i).storeDataAddrNext =
      if s.sendUpdateControl i then s.storeDataAddrNext + 1 else s.storeDataAddrNext := by
  cases hvalid : s.cnnIcbCmdValid <;> cases hready : i.cnnIcbCmdReady <;>
    simp [CoreState.step, CoreState.storeDataAddrNextD, CoreState.sendUpdateControl, hstart,
      hvalid, hready]

/-- The index moves on in the same cycle too. -/
private theorem nextCnt_step (hstart : s.storeDataSendStart i = true) :
    (s.step i).storeDataSendNextCnt =
      if s.sendUpdateControl i then s.storeDataSendNextCnt + 1
      else s.storeDataSendNextCnt := by
  cases hvalid : s.cnnIcbCmdValid <;> cases hready : i.cnnIcbCmdReady <;>
    simp [CoreState.step, CoreState.storeDataSendNextCntD, CoreState.sendUpdateControl, hstart,
      hvalid, hready]

/-- One clock edge moves the send side to its next stage. -/
theorem step (h : StoreStage a s) (hs : s.currentState = .store)
    (hread : s.cnnIcbCmdRead = false) :
    StoreStage (a + (s.cnnIcbCmdValid && i.cnnIcbCmdReady).toNat) (s.step i) := by
  have hiff := h.storeDataSendStart_iff (i := i) hs
  cases h with
  | opening hvalid hcnt haddr hnext =>
      have hstart : s.storeDataSendStart i = true := by
        rw [hiff, hvalid]
        simp
      have hupdate : s.sendUpdateControl i = true := by
        simp [CoreState.sendUpdateControl, hvalid]
      rw [hvalid]
      refine streaming ((CoreState.step_valid_of_store hs).trans hstart) (by simp) ?_ ?_ ?_ ?_
      · rw [sendCnt_step hs hread, hvalid, hcnt]
        rfl
      · rw [cmdAddr_step hs hstart, if_pos hupdate, haddr]
        rfl
      · rw [addrNext_step hstart, if_pos hupdate, haddr]
        exact (storeAddr_succ 0).symm
      · rw [nextCnt_step hstart, if_pos hupdate, hnext]
        rfl
  | streaming hvalid hle hcnt haddr hnextAddr hnext =>
      rw [hvalid, Bool.true_and] at hiff ⊢
      cases hready : i.cnnIcbCmdReady
      · -- Stalled: everything is kept.
        have hstart : s.storeDataSendStart i = true := by
          rw [hiff, hready]
          exact hle
        have hupdate : s.sendUpdateControl i = false := by
          simp [CoreState.sendUpdateControl, hvalid, hready]
        rw [Bool.toNat_false, Nat.add_zero]
        refine streaming ((CoreState.step_valid_of_store hs).trans hstart) hle ?_ ?_ ?_ ?_
        · simp [sendCnt_step hs hread, hready, hcnt]
        · simp [cmdAddr_step hs hstart, hupdate, haddr]
        · simp [addrNext_step hstart, hupdate, hnextAddr]
        · simp [nextCnt_step hstart, hupdate, hnext]
      · have hcnt' : (s.step i).storeDataSendCnt = BitVec.ofNat 5 (a + 1) := by
          rw [sendCnt_step hs hread, hvalid, hready, hcnt, BitVec.ofNat_add]
          rfl
        have hupdate : s.sendUpdateControl i = true := by
          simp [CoreState.sendUpdateControl, hready]
        rw [Bool.toNat_true]
        by_cases hlast : a = 15
        · subst hlast
          have hstart : s.storeDataSendStart i = false := by
            rw [Bool.eq_false_iff, ne_eq, hiff, hready]
            simp
          exact drained ((CoreState.step_valid_of_store hs).trans hstart) hcnt'
        · have hstart : s.storeDataSendStart i = true := by
            rw [hiff, hready]
            simp
            omega
          have hvalid' := (CoreState.step_valid_of_store hs).trans hstart
          refine streaming hvalid' (by omega) hcnt' ?_ ?_ ?_
          · rw [cmdAddr_step hs hstart, if_pos hupdate, hnextAddr]
          · rw [addrNext_step hstart, if_pos hupdate, hnextAddr, ← storeAddr_succ]
          · rw [nextCnt_step hstart, if_pos hupdate, hnext, BitVec.ofNat_add (a + 1)]
            rfl
  | drained hvalid hcnt =>
      have hstart : s.storeDataSendStart i = false := by
        rw [Bool.eq_false_iff, ne_eq, hiff, hvalid]
        simp
      rw [hvalid, Bool.false_and]
      refine drained ((CoreState.step_valid_of_store hs).trans hstart) ?_
      simp [sendCnt_step hs hread, hvalid, hcnt]

/-- The data register keeps a stalled word and otherwise takes the word selected
by the number of accepted writes. -/
theorem cmdWdata_step (h : StoreStage a s) (hs : s.currentState = .store)
    (hvalid' : (s.step i).cnnIcbCmdValid = true) :
    (s.step i).cnnIcbCmdWdata =
      if s.cnnIcbCmdValid = true ∧ i.cnnIcbCmdReady = false then s.cnnIcbCmdWdata
      else s.geluAt (BitVec.ofNat 4 (a + (s.cnnIcbCmdValid && i.cnnIcbCmdReady).toNat)) := by
  have hstart : s.storeDataSendStart i = true :=
    (CoreState.step_valid_of_store hs).symm.trans hvalid'
  have hnextCnt : s.sendUpdateControl i = true → s.storeDataSendNextCnt =
      BitVec.ofNat 4 (a + (s.cnnIcbCmdValid && i.cnnIcbCmdReady).toNat) := by
    intro hupdate
    cases h with
    | opening hvalid _ _ hnext => simp [hvalid, hnext]
    | streaming hvalid _ _ _ _ hnext =>
        have hready : i.cnnIcbCmdReady = true := by
          simpa [CoreState.sendUpdateControl, hvalid] using hupdate
        simp [hvalid, hready, hnext]
    | drained hvalid hcnt =>
        simp [CoreState.storeDataSendStart, CoreState.storeDataSendDone, hcnt] at hstart
  by_cases hstall : s.cnnIcbCmdValid = true ∧ i.cnnIcbCmdReady = false
  · rw [if_pos hstall]
    simp [CoreState.step, CoreState.cnnIcbCmdWdataD, CoreState.sendUpdateControl, hstart,
      hstall.1, hstall.2]
  · have hupdate : s.sendUpdateControl i = true := by
      cases hvalid : s.cnnIcbCmdValid <;> cases hready : i.cnnIcbCmdReady <;>
        simp_all [CoreState.sendUpdateControl]
    rw [if_neg hstall, ← hnextCnt hupdate]
    simp [CoreState.step, CoreState.cnnIcbCmdWdataD, CoreState.storeDataSendNext, hstart,
      hupdate]

end StoreStage

end CnnCore
end AcceleratorSoc
