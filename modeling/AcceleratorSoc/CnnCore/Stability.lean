import AcceleratorSoc.CnnCore.Invariants

/-!
# Stability of presented commands

An ICB master must keep a presented command until it is accepted.  The core
drives {lit}`valid`, {lit}`read`, {lit}`addr` and {lit}`wdata` from four
registers; {lit}`valid` follows the start wire of the current phase, and the
load phases drop their start wire through a registered flag, one cycle after the
handshake counter reaches fifteen, whether or not the last command was accepted.

Main results:

- Theorem {lit}`holdsCommand_iff`: a stalled command is kept exactly when the
  stall does not fall on a cycle in which the start wire is already down.
- Theorem {lit}`commands_held_iff`: the same for whole runs from reset.
-/

namespace AcceleratorSoc
namespace CnnCore

open Clocked

/-- A command that is presented but not accepted in this cycle is presented
unchanged in the next. -/
def HoldsCommand (s : CoreState) (i : CoreInput) : Prop :=
  s.cnnIcbCmdValid = true → i.cnnIcbCmdReady = false →
    (s.step i).cnnIcbCmdValid = true ∧
      (s.step i).cnnIcbCmdRead = s.cnnIcbCmdRead ∧
      (s.step i).cnnIcbCmdAddr = s.cnnIcbCmdAddr ∧
      (s.step i).cnnIcbCmdWdata = s.cnnIcbCmdWdata

instance (s : CoreState) (i : CoreInput) : Decidable (HoldsCommand s i) :=
  inferInstanceAs (Decidable (_ → _ → _))

/-- The slave stalls a command in a cycle in which its phase has already raised
the send-done flag, or has already been left. -/
def StallsAfterSendDone (s : CoreState) (i : CoreInput) : Prop :=
  s.cnnIcbCmdValid = true ∧ i.cnnIcbCmdReady = false ∧
    (s.currentState = .loadWeight ∧ s.weightAddrSendDone = true ∨
      s.currentState = .loadImage ∧ s.imageAddrSendDone = true ∨
      s.currentState = .compute ∨ s.currentState = .done)

/-- A stalled load command is kept while its phase's start wire is up. -/
private theorem load_holdsCommand {s : CoreState} {i : CoreInput} (h : ChannelInv s)
    (hvalid : s.cnnIcbCmdValid = true) (hready : i.cnnIcbCmdReady = false)
    (hs : s.currentState = .loadWeight ∨ s.currentState = .loadImage)
    (hstart : s.weightAddrSendStart = true ∨ s.imageAddrSendStart = true) :
    (s.step i).cnnIcbCmdValid = true ∧
      (s.step i).cnnIcbCmdRead = s.cnnIcbCmdRead ∧
      (s.step i).cnnIcbCmdAddr = s.cnnIcbCmdAddr ∧
      (s.step i).cnnIcbCmdWdata = s.cnnIcbCmdWdata := by
  have hread := h.load_read hs hvalid
  have hwdata := h.wdata_zero (by rintro heq; simp [heq] at hs)
    (by rintro heq; simp [heq] at hs)
  have hstore : s.storeDataSendStart i = false := by
    rcases hs with hs | hs <;> simp [CoreState.storeDataSendStart, hs]
  refine ⟨CoreState.step_valid_iff.mpr (by tauto), ?_, ?_, ?_⟩
  · rcases hstart with hstart | hstart <;>
      simp [CoreState.step, CoreState.cnnIcbCmdReadD, hstart, hread]
  · rcases hstart with hstart | hstart <;>
      simp [CoreState.step, CoreState.cnnIcbCmdAddrD, CoreState.sendUpdateControl,
        hstart, hvalid, hready]
  · simp [CoreState.step, CoreState.cnnIcbCmdWdataD, hstore, hwdata]

/-- A stalled write is kept: the store phase drops its start wire only in the
cycle that accepts the sixteenth write. -/
private theorem store_holdsCommand {s : CoreState} {i : CoreInput} (h : ChannelInv s)
    (hvalid : s.cnnIcbCmdValid = true) (hready : i.cnnIcbCmdReady = false)
    (hs : s.currentState = .store) :
    (s.step i).cnnIcbCmdValid = true ∧
      (s.step i).cnnIcbCmdRead = s.cnnIcbCmdRead ∧
      (s.step i).cnnIcbCmdAddr = s.cnnIcbCmdAddr ∧
      (s.step i).cnnIcbCmdWdata = s.cnnIcbCmdWdata := by
  have hread := h.store_read hs
  have hcnt := h.store_valid hs hvalid
  have hne : s.storeDataSendCnt ≠ 16#5 := by
    intro heq
    simp [heq] at hcnt
  have hstart : s.storeDataSendStart i = true := by
    simp [CoreState.storeDataSendStart, CoreState.storeDataSendDone, hs, hready, hne]
  have hweight : s.weightAddrSendStart = false := by
    simp [CoreState.weightAddrSendStart, hs]
  have himage : s.imageAddrSendStart = false := by
    simp [CoreState.imageAddrSendStart, hs]
  refine ⟨CoreState.step_valid_iff.mpr (by tauto), ?_, ?_, ?_⟩
  · simp [CoreState.step, CoreState.cnnIcbCmdReadD, hweight, himage, hread]
  · simp [CoreState.step, CoreState.cnnIcbCmdAddrD, CoreState.sendUpdateControl,
      hweight, himage, hstart, hvalid, hready]
  · simp [CoreState.step, CoreState.cnnIcbCmdWdataD, CoreState.sendUpdateControl,
      hstart, hvalid, hready]

/-- Outside the sending part of a phase nothing is presented next. -/
private theorem withdraws_of_stallsAfterSendDone {s : CoreState} {i : CoreInput}
    (h : StallsAfterSendDone s i) : (s.step i).cnnIcbCmdValid = false := by
  obtain ⟨_, _, hwhere⟩ := h
  rcases hwhere with ⟨hs, hdone⟩ | ⟨hs, hdone⟩ | hs | hs
  · rw [CoreState.step_valid_of_loadWeight hs, CoreState.weightAddrSendStart, hdone,
      Bool.not_true, Bool.and_false]
  · rw [CoreState.step_valid_of_loadImage hs, CoreState.imageAddrSendStart, hdone,
      Bool.not_true, Bool.and_false]
  · exact CoreState.step_valid_of_quiet (Or.inr (Or.inl hs))
  · exact CoreState.step_valid_of_quiet (Or.inr (Or.inr hs))

/-- A stalled command is kept exactly when its start wire is still up. -/
theorem holdsCommand_iff {s : CoreState} (h : ChannelInv s) (i : CoreInput) :
    HoldsCommand s i ↔ ¬StallsAfterSendDone s i := by
  constructor
  · intro hholds hstall
    have hkept := (hholds hstall.1 hstall.2.1).1
    rw [withdraws_of_stallsAfterSendDone hstall] at hkept
    exact Bool.false_ne_true hkept
  · intro hno hvalid hready
    cases hs : s.currentState with
    | idle => exact absurd hvalid (by simp [h.idle_valid hs])
    | loadWeight =>
        have hdone : s.weightAddrSendDone = false := by
          rw [Bool.eq_false_iff]
          intro hdone
          exact hno ⟨hvalid, hready, Or.inl ⟨hs, hdone⟩⟩
        exact load_holdsCommand h hvalid hready (Or.inl hs)
          (Or.inl (CoreState.weightAddrSendStart_iff.mpr ⟨hs, hdone⟩))
    | loadImage =>
        have hdone : s.imageAddrSendDone = false := by
          rw [Bool.eq_false_iff]
          intro hdone
          exact hno ⟨hvalid, hready, Or.inr (Or.inl ⟨hs, hdone⟩)⟩
        exact load_holdsCommand h hvalid hready (Or.inr hs)
          (Or.inr (CoreState.imageAddrSendStart_iff.mpr ⟨hs, hdone⟩))
    | compute => exact absurd ⟨hvalid, hready, by simp [hs]⟩ hno
    | store => exact store_holdsCommand h hvalid hready hs
    | done => exact absurd ⟨hvalid, hready, by simp [hs]⟩ hno

/-- Over a run from reset every stalled command is kept if and only if no stall
falls on a cycle in which the send-done flag of the current load phase is
already up, or on a command left over in {lit}`COMPUTE` or {lit}`DONE`. -/
theorem commands_held_iff (inp : Nat → CoreInput) :
    (∀ n, HoldsCommand (coreRun inp n) (inp n)) ↔
      ∀ n, ¬StallsAfterSendDone (coreRun inp n) (inp n) :=
  forall_congr' fun n => holdsCommand_iff (channelInv_run inp n) (inp n)

/-- The slave accepts fifteen weight reads, answers each in the next cycle, and
then stalls the sixteenth. -/
def stallLastRead (n : Nat) : CoreInput where
  enable := true
  cnnIcbCmdReady := decide (n < 17)
  cnnIcbRspValid := decide (3 ≤ n ∧ n ≤ 17)
  cnnIcbRspRdata := BitVec.ofNat 32 n

/-- The sixteenth weight read, stalled for two cycles, is withdrawn. -/
theorem stalled_read_withdrawn :
    ¬∀ (inp : Nat → CoreInput) (n : Nat), HoldsCommand (coreRun inp n) (inp n) := by
  intro h
  have h18 := h stallLastRead 18
  revert h18
  decide +kernel

end CnnCore
end AcceleratorSoc
