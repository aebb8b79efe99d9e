import Mathlib.Data.Nat.Init

/-!
# Runs of a synchronous machine

A clocked block is a step function on its registers.  A run feeds it one input
per clock edge; the state at cycle {lit}`n` is the state after {lit}`n` edges.
Nothing in this module mentions a particular block.

Main results:

- Theorem {lit}`run_add`: a run splits at any cycle into a prefix and a run of
  the shifted input sequence.
- Theorem {lit}`run_invariant`: a predicate preserved by every step whose input
  meets a side condition holds in every cycle.
- Theorem {lit}`run_simulation`: a map that commutes with one step commutes with
  whole runs.
- Theorem {lit}`exists_entry`: a cycle inside a phase has a cycle in which the
  phase was entered.
-/

namespace AcceleratorSoc
namespace Clocked

variable {σ τ ι κ : Type*}

/-- Registers at cycle {lit}`n`, starting from {lit}`start` at cycle zero. -/
def run (step : σ → ι → σ) (start : σ) (inp : Nat → ι) : Nat → σ
  | 0 => start
  | n + 1 => step (run step start inp n) (inp n)

/-- No cycle. -/
@[simp]
theorem run_zero (step : σ → ι → σ) (start : σ) (inp : Nat → ι) :
    run step start inp 0 = start :=
  rfl

/-- One more cycle. -/
theorem run_succ (step : σ → ι → σ) (start : σ) (inp : Nat → ι) (n : Nat) :
    run step start inp (n + 1) = step (run step start inp n) (inp n) :=
  rfl

/-- The cycles after cycle {lit}`m` are a run of the inputs from {lit}`m` on. -/
theorem run_add (step : σ → ι → σ) (start : σ) (inp : Nat → ι) (m n : Nat) :
    run step start inp (m + n) =
      run step (run step start inp m) (fun k => inp (m + k)) n := by
  induction n with
  | zero => rfl
  | succ n ih =>
      rw [← Nat.add_assoc, run_succ, run_succ, ih]

/-- The run up to a cycle depends only on the inputs before it. -/
theorem run_congr (step : σ → ι → σ) (start : σ) {inp inp' : Nat → ι} {n : Nat}
    (h : ∀ k < n, inp k = inp' k) :
    run step start inp n = run step start inp' n := by
  induction n with
  | zero => rfl
  | succ n ih =>
      rw [run_succ, run_succ, ih (fun k hk => h k (Nat.lt_succ_of_lt hk)),
        h n (Nat.lt_succ_self n)]

/-- A run continued from its state at cycle {lit}`m` is one run on the spliced
input sequence. -/
theorem run_splice (step : σ → ι → σ) (start : σ) (first rest : Nat → ι) (m n : Nat) :
    run step start (fun k => if k < m then first k else rest (k - m)) (m + n) =
      run step (run step start first m) rest n := by
  have hbefore : run step start (fun k => if k < m then first k else rest (k - m)) m =
      run step start first m := by
    apply run_congr
    intro k hk
    rw [if_pos hk]
  rw [run_add, hbefore]
  apply run_congr
  intro k _
  rw [if_neg (by omega), Nat.add_sub_cancel_left]

/-- A predicate that every step keeps, under a side condition on the state and
the input of that step, holds in every cycle of a run whose steps all meet the
side condition. -/
theorem run_invariant {step : σ → ι → σ} {start : σ} {inp : Nat → ι}
    {P : σ → Prop} {C : σ → ι → Prop} (hstart : P start)
    (hstep : ∀ s i, P s → C s i → P (step s i))
    (hside : ∀ n, C (run step start inp n) (inp n)) (n : Nat) :
    P (run step start inp n) := by
  induction n with
  | zero => exact hstart
  | succ n ih => exact hstep _ _ ih (hside n)

/-- An invariant of all inputs needs no side condition. -/
theorem run_invariant_all {step : σ → ι → σ} {start : σ} {P : σ → Prop}
    (hstart : P start) (hstep : ∀ s i, P s → P (step s i)) (inp : Nat → ι) (n : Nat) :
    P (run step start inp n) :=
  run_invariant (C := fun _ _ => True) hstart (fun s i h _ => hstep s i h)
    (fun _ => trivial) n

/-- A property of one cycle that no step destroys holds in every later cycle. -/
theorem run_stable {step : σ → ι → σ} {start : σ} {inp : Nat → ι} {P : σ → Prop}
    (hstep : ∀ s i, P s → P (step s i)) {m n : Nat} (hmn : m ≤ n)
    (hm : P (run step start inp m)) : P (run step start inp n) := by
  induction n, hmn using Nat.le_induction with
  | base => exact hm
  | succ n _ ih => exact hstep _ _ ih

/-- A map between machines that commutes with one step commutes with runs. -/
theorem run_simulation {step : σ → ι → σ} {step' : τ → κ → τ} {f : σ → τ}
    {g : σ → ι → κ} (hstep : ∀ s i, f (step s i) = step' (f s) (g s i))
    (start : σ) (inp : Nat → ι) (n : Nat) :
    f (run step start inp n) =
      run step' (f start) (fun k => g (run step start inp k) (inp k)) n := by
  induction n with
  | zero => rfl
  | succ n ih => rw [run_succ, run_succ, hstep, ih]

/-- A machine that chooses its inputs itself runs on the inputs that it has chosen. -/
theorem run_closed (step : σ → ι → σ) (start : σ) (choose : σ → Nat → ι) (n : Nat) :
    run step start (fun k => choose (run (fun s k => step s (choose s k)) start id k) k) n =
      run (fun s k => step s (choose s k)) start id n :=
  (run_simulation (f := id) (g := choose) (fun _ _ => rfl) start id n).symm

/-- A cycle inside a phase belongs to a visit of the phase: it was entered at some
cycle and has not been left since. -/
theorem exists_entry {P : Nat → Prop} (hzero : ¬P 0) {n : Nat} (hn : P n) :
    ∃ f t, n = f + 1 + t ∧ ¬P f ∧ ∀ k ≤ t, P (f + 1 + k) := by
  induction n with
  | zero => exact absurd hn hzero
  | succ n ih =>
      by_cases hprev : P n
      · obtain ⟨f, t, rfl, hout, hin⟩ := ih hprev
        refine ⟨f, t + 1, rfl, hout, ?_⟩
        intro k hk
        rcases Nat.lt_or_eq_of_le hk with hlt | rfl
        · exact hin k (Nat.le_of_lt_succ hlt)
        · exact hn
      · refine ⟨n, 0, rfl, hprev, ?_⟩
        intro k hk
        rw [Nat.le_zero.mp hk]
        exact hn

end Clocked
end AcceleratorSoc
