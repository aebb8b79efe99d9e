import AcceleratorSoc.Clocked.Ledger
import AcceleratorSoc.CnnCore.Invariants

/-!
# The core on its memory bus

The core is observed together with a ledger of its command channel.  Every
accepted command is recorded with the job and the controller state in which it
was accepted, and every response is paired with the oldest unanswered command.
A job starts when the controller leaves {lit}`IDLE`.

A slave conforms when it answers every accepted command at most once, in order,
and in a cycle strictly after the accepting one: it never responds while nothing
is outstanding.  Its ready pattern and its latency are unconstrained.

Main results:

- Definition {lit}`BusState.step`: one clock edge of the core and its bookkeeping.
- Theorem {lit}`step_ledger_of_quiet`, {lit}`length_pending_step`: what a conforming cycle
  does to the ledger.
- Theorem {lit}`busRun_core`: observing the core does not change it.
- Theorem {lit}`conforming_of_prefix`: a slave that stops responding conforms if it does so
  up to its last response.
-/

namespace AcceleratorSoc
namespace CnnCore

open Clocked

/-- An accepted command, with the job number and the phase that issued it. -/
structure Command where
  job : Nat
  phase : FsmState
  read : Bool
  addr : Word
  wdata : Word
deriving DecidableEq

/-- The core with the bookkeeping of its command channel. -/
structure BusState where
  core : CoreState
  job : Nat
  ledger : Ledger Command Word

namespace BusState

/-- The core out of reset, before any job. -/
def reset : BusState where
  core := CoreState.reset
  job := 0
  ledger := Ledger.empty

/-- The command handed over in this cycle, if any. -/
def acceptedCommand (b : BusState) (i : CoreInput) : Option Command :=
  if b.core.cnnIcbCmdHsk i then
    some
      { job := b.job
        phase := b.core.currentState
        read := b.core.cnnIcbCmdRead
        addr := b.core.cnnIcbCmdAddr
        wdata := b.core.cnnIcbCmdWdata }
  else none

/-- The response taken in a cycle, if any. -/
def response (i : CoreInput) : Option Word :=
  if CoreState.cnnIcbRspHsk i then some i.cnnIcbRspRdata else none

/-- One clock edge of the core and its bookkeeping. -/
def step (b : BusState) (i : CoreInput) : BusState where
  core := b.core.step i
  job := if b.core.currentState == .idle && i.enable then b.job + 1 else b.job
  ledger := b.ledger.cycle (b.acceptedCommand i) (response i)

/-- The input of one cycle respects the slave's side of the protocol. -/
def SlaveConforms (b : BusState) (i : CoreInput) : Prop :=
  i.cnnIcbRspValid = true → b.ledger.pending ≠ []

instance (b : BusState) (i : CoreInput) : Decidable (b.SlaveConforms i) :=
  inferInstanceAs (Decidable (_ → _))

/-- The core does not see its bookkeeping. -/
@[simp]
theorem step_core (b : BusState) (i : CoreInput) : (b.step i).core = b.core.step i :=
  rfl

/-- The ledger gets the command and the response of the cycle. -/
theorem step_ledger (b : BusState) (i : CoreInput) :
    (b.step i).ledger = b.ledger.cycle (b.acceptedCommand i) (response i) :=
  rfl

/-- A job number is taken only when the controller leaves {lit}`IDLE`. -/
theorem step_job_of_ne_idle {b : BusState} (h : b.core.currentState ≠ .idle)
    (i : CoreInput) : (b.step i).job = b.job := by
  simp [step, h]

/-- A response that is given is taken. -/
theorem response_eq_some {i : CoreInput} (h : i.cnnIcbRspValid = true) :
    response i = some i.cnnIcbRspRdata := by
  simp [response, CoreState.cnnIcbRspHsk, CoreState.cnnIcbRspReady, h]

/-- Without one nothing is taken. -/
theorem response_eq_none {i : CoreInput} (h : i.cnnIcbRspValid = false) :
    response i = none := by
  simp [response, CoreState.cnnIcbRspHsk, h]

/-- Without a presented command nothing is accepted. -/
theorem acceptedCommand_eq_none {b : BusState} (h : b.core.cnnIcbCmdValid = false)
    (i : CoreInput) : b.acceptedCommand i = none := by
  simp [acceptedCommand, CoreState.cnnIcbCmdHsk, h]

/-- With no command presented and nothing outstanding, a conforming cycle leaves
the ledger alone. -/
theorem step_ledger_of_quiet {b : BusState} {i : CoreInput}
    (hvalid : b.core.cnnIcbCmdValid = false) (hpending : b.ledger.pending = [])
    (hconf : b.SlaveConforms i) : (b.step i).ledger = b.ledger := by
  have hrsp : i.cnnIcbRspValid = false := by
    rw [Bool.eq_false_iff]
    intro hrsp
    exact hconf hrsp hpending
  rw [step_ledger, acceptedCommand_eq_none hvalid, response_eq_none hrsp,
    Ledger.cycle_none_none]

/-- Outstanding commands after a conforming cycle. -/
theorem length_pending_step {b : BusState} {i : CoreInput} (hconf : b.SlaveConforms i) :
    (b.step i).ledger.pending.length + i.cnnIcbRspValid.toNat =
      b.ledger.pending.length + (b.core.cnnIcbCmdValid && i.cnnIcbCmdReady).toNat := by
  have hissue : (b.acceptedCommand i).toList.length =
      (b.core.cnnIcbCmdValid && i.cnnIcbCmdReady).toNat := by
    unfold acceptedCommand CoreState.cnnIcbCmdHsk
    cases b.core.cnnIcbCmdValid && i.cnnIcbCmdReady <;> rfl
  have hrespond : (response i).toList.length = i.cnnIcbRspValid.toNat := by
    cases hrsp : i.cnnIcbRspValid
    · rw [response_eq_none hrsp]
      rfl
    · rw [response_eq_some hrsp]
      rfl
  have hside : (response i).isSome → b.ledger.pending ≠ [] := by
    intro hsome
    apply hconf
    cases hrsp : i.cnnIcbRspValid
    · simp [response_eq_none hrsp] at hsome
    · rfl
  rw [step_ledger, ← hissue, ← hrespond]
  exact Ledger.pending_length_cycle hside

end BusState

/-- The observed core out of reset, cycle by cycle. -/
def busRun (inp : Nat → CoreInput) : Nat → BusState :=
  run BusState.step BusState.reset inp

/-- One cycle of a run. -/
theorem busRun_succ (inp : Nat → CoreInput) (n : Nat) :
    busRun inp (n + 1) = (busRun inp n).step (inp n) :=
  rfl

/-- A command presented in a cycle was started in the cycle before. -/
theorem busRun_valid_iff {inp : Nat → CoreInput} {n : Nat} :
    (busRun inp (n + 1)).core.cnnIcbCmdValid = true ↔
      (busRun inp n).core.weightAddrSendStart = true ∨
        (busRun inp n).core.imageAddrSendStart = true ∨
        (busRun inp n).core.storeDataSendStart (inp n) = true :=
  CoreState.step_valid_iff

/-- Every response of the run answers an outstanding command. -/
def Conforming (inp : Nat → CoreInput) : Prop :=
  ∀ n, (busRun inp n).SlaveConforms (inp n)

/-- Observing the core does not change it. -/
theorem busRun_core (inp : Nat → CoreInput) (n : Nat) :
    (busRun inp n).core = coreRun inp n :=
  run_simulation (g := fun _ i => i) (fun _ _ => rfl) BusState.reset inp n

/-- The invariants of the command channel hold along a run. -/
theorem channelInv_busRun (inp : Nat → CoreInput) (n : Nat) :
    ChannelInv (busRun inp n).core := by
  rw [busRun_core]
  exact channelInv_run inp n

/-- A slave that stops responding conforms if it does so up to its last
response. -/
theorem conforming_of_prefix {inp : Nat → CoreInput} {m : Nat}
    (hbefore : ∀ n < m, (busRun inp n).SlaveConforms (inp n))
    (hquiet : ∀ n, m ≤ n → (inp n).cnnIcbRspValid = false) : Conforming inp := by
  intro n
  rcases Nat.lt_or_ge n m with hlt | hge
  · exact hbefore n hlt
  · intro hrsp
    exact absurd hrsp (by simp [hquiet n hge])

/-- A slave that is always ready and answers every command in the cycle after its
acceptance, over one whole job; {lit}`enable` is dropped once the job is done. -/
def greedySlave (n : Nat) : CoreInput where
  enable := decide (n < 64)
  cnnIcbCmdReady := true
  cnnIcbRspValid := decide (3 ≤ n ∧ n ≤ 19) || decide (22 ≤ n ∧ n ≤ 38) ||
    decide (46 ≤ n ∧ n ≤ 61)
  cnnIcbRspRdata := BitVec.ofNat 32 n

/-- It conforms. -/
theorem greedySlave_conforming : Conforming greedySlave := by
  refine conforming_of_prefix (m := 62) (by decide +kernel) ?_
  intro n hn
  simp [greedySlave]
  omega

end CnnCore
end AcceleratorSoc
