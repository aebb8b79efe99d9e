import AcceleratorSoc.CnnCore.FirstJob

/-!
# A second job

The send-done flags of the load phases are cleared by {lit}`rst_n` only.  A core
that is back in {lit}`IDLE` after a completed job therefore differs from a core
out of reset in what it does when it is enabled again: it never presents a
weight read.

Main results:

- Theorem {lit}`weightSent_of_done`: in a conforming run the weight flag is up
  from the first {lit}`DONE` on.
- Theorem {lit}`not_indistinguishable_of_backInIdle`: no completed job leaves the
  core as reset would.
-/

namespace AcceleratorSoc
namespace CnnCore

open Clocked

/-- What the core shows on its outputs: the presented command, if any, and the
done wire. -/
structure Outputs where
  command : Option (Bool × Word × BitVec 4 × Word)
  done : Bool
deriving DecidableEq

/-- The outputs in a cycle; the command fields count only while valid is high. -/
def CoreState.outputs (s : CoreState) : Outputs where
  command :=
    if s.cnnIcbCmdValid then
      some (s.cnnIcbCmdRead, s.cnnIcbCmdAddr, cnnIcbCmdWmask, s.cnnIcbCmdWdata)
    else none
  done := s.done

/-- Two cores show the same outputs in every cycle of every input sequence. -/
def Indistinguishable (s t : CoreState) : Prop :=
  ∀ (inp : Nat → CoreInput) (n : Nat),
    (run CoreState.step s inp n).outputs = (run CoreState.step t inp n).outputs

/-- The controller is back in {lit}`IDLE` after a completed job, with no command
presented and none outstanding. -/
structure BackInIdle (inp : Nat → CoreInput) (n : Nat) : Prop where
  state : (busRun inp n).core.currentState = .idle
  completed : ∃ m < n, (busRun inp m).core.currentState = .done
  valid : (busRun inp n).core.cnnIcbCmdValid = false
  pending : (busRun inp n).ledger.pending = []

/-- In a conforming run the weight flag is up once the first weight phase is
over. -/
theorem job_or_weightSent {inp : Nat → CoreInput} (hconf : Conforming inp) (n : Nat) :
    (busRun inp n).job = 0 ∨
      (busRun inp n).job = 1 ∧ (busRun inp n).core.currentState = .loadWeight ∨
      (busRun inp n).core.weightAddrSendDone = true := by
  induction n with
  | zero => exact Or.inl rfl
  | succ n ih =>
      rcases ih with hjob | ⟨hjob, hs⟩ | hdone
      · have hs := (waiting_of_job_zero hconf hjob).state
        cases henable : (inp n).enable
        · left
          simp [busRun_succ, BusState.step, hjob, henable]
        · right
          left
          refine ⟨by simp [busRun_succ, BusState.step, hs, hjob, henable], ?_⟩
          exact CoreState.nextState_eq_loadWeight.mpr (Or.inl ⟨hs, henable⟩)
      · right
        cases hrcpt : (busRun inp n).core.weightDataRcptDone
        · left
          refine ⟨?_, CoreState.nextState_eq_loadWeight.mpr (Or.inr ⟨hs, hrcpt⟩)⟩
          rw [busRun_succ, BusState.step_job_of_ne_idle (by simp [hs]), hjob]
        · right
          obtain ⟨⟨a, htrace⟩, _⟩ := weightTrace hconf hjob hs
          have heq : (busRun inp n).core.weightDataRcptCnt = 16 := by
            simpa [CoreState.weightDataRcptDone] using hrcpt
          have h16 : (weightPhase.rcptCnt (busRun inp n).core).toNat = 16 :=
            congrArg BitVec.toNat heq
          exact sendDone_sticky weightPhase_lawful (Nat.le_succ n) (htrace.finished h16).1
      · exact Or.inr (Or.inr (sendDone_sticky weightPhase_lawful (Nat.le_succ n) hdone))

/-- From the first {lit}`DONE` on the weight flag stays up. -/
theorem weightSent_of_done {inp : Nat → CoreInput} (hconf : Conforming inp) {m n : Nat}
    (hmn : m ≤ n) (hdone : (busRun inp m).core.currentState = .done) :
    (busRun inp n).core.weightAddrSendDone = true := by
  refine sendDone_sticky weightPhase_lawful hmn ?_
  rcases job_or_weightSent hconf m with hjob | ⟨_, hs⟩ | hsent
  · have hs := (waiting_of_job_zero hconf hjob).state
    exact absurd (hs.symm.trans hdone) (by simp)
  · exact absurd (hs.symm.trans hdone) (by simp)
  · exact hsent

/-- Enabled for good, on a bus on which nothing happens. -/
def enabledInput : CoreInput where
  enable := true
  cnnIcbCmdReady := false
  cnnIcbRspValid := false
  cnnIcbRspRdata := 0

/-- An idle core with the weight flag up presents nothing two cycles after it is
enabled. -/
private theorem command_of_weightSent {s : CoreState} (hs : s.currentState = .idle)
    (hdone : s.weightAddrSendDone = true) :
    ((s.step enabledInput).step enabledInput).outputs.command = none := by
  have hnext : (s.step enabledInput).currentState = .loadWeight :=
    CoreState.nextState_eq_loadWeight.mpr (Or.inl ⟨hs, rfl⟩)
  have hdone' : (s.step enabledInput).weightAddrSendDone = true :=
    (weightPhase_lawful.sendDone_step s enabledInput).trans (by simp [weightPhase, hdone])
  have hvalid : ((s.step enabledInput).step enabledInput).cnnIcbCmdValid = false := by
    rw [CoreState.step_valid_of_loadWeight hnext, CoreState.weightAddrSendStart, hdone',
      Bool.not_true, Bool.and_false]
  simp [CoreState.outputs, hvalid]

/-- Whatever happened on the bus, a core back in {lit}`IDLE` after a completed job
can be told from a core out of reset. -/
theorem not_indistinguishable_of_backInIdle {inp : Nat → CoreInput}
    (hconf : Conforming inp) {n : Nat} (hback : BackInIdle inp n) :
    ¬Indistinguishable (busRun inp n).core CoreState.reset := by
  intro hsame
  obtain ⟨m, hmn, hdone⟩ := hback.completed
  have hsent := weightSent_of_done hconf (Nat.le_of_lt hmn) hdone
  have houtputs := congrArg Outputs.command (hsame (fun _ => enabledInput) (0 + 1 + 1))
  rw [run_succ, run_succ, run_succ, run_succ, run_zero, run_zero,
    command_of_weightSent hback.state hsent] at houtputs
  revert houtputs
  decide +kernel

/-- One job served without a stall ends in such a state. -/
private theorem backInIdle_greedySlave : BackInIdle greedySlave 66 where
  state := by decide +kernel
  completed := ⟨63, by decide, by decide +kernel⟩
  valid := by decide +kernel
  pending := by decide +kernel

/-- After the job of the greedy slave the core is not as out of reset. -/
theorem not_indistinguishable_greedySlave :
    ¬Indistinguishable (busRun greedySlave 66).core CoreState.reset :=
  not_indistinguishable_of_backInIdle greedySlave_conforming backInIdle_greedySlave

/-- The core does not isolate jobs. -/
theorem jobs_not_isolated :
    ¬∀ inp : Nat → CoreInput, Conforming inp → ∀ n, BackInIdle inp n →
      Indistinguishable (busRun inp n).core CoreState.reset := by
  intro h
  have houtputs := congrArg Outputs.command
    (h greedySlave greedySlave_conforming 66 backInIdle_greedySlave
      (fun _ => enabledInput) (0 + 1 + 1))
  revert houtputs
  decide +kernel

end CnnCore
end AcceleratorSoc
