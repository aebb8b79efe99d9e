import AcceleratorSoc.Adder.Step

/-!
# Passes of the adder

A pass runs from the edge at which stage zero samples the operands to the edge at
which stage three puts out a sum.  Disabled cycles may lie anywhere inside.

Main results:

- Theorem {lit}`Pass.out_eq`: what a pass puts out, from its operands and the
  registers it started with.
- Theorem {lit}`out_run`: what {lit}`out` shows in every cycle of a run from reset.
- Theorem {lit}`passExact_iff`: when a pass is an addition of its own operands.
- Theorem {lit}`out_run_of_quiet`: on operands that leave nothing stale behind,
  {lit}`out` shows the sum of the last pass.
- Theorem {lit}`addsEveryPass_iff`: the runs all of whose passes are exact.
-/

namespace AcceleratorSoc
namespace Adder

open Clocked

/-! ## Registers inside a pass -/

/-- The registers between the sampling edge of a pass, which found the registers
{lit}`s₀` and the inputs {lit}`i₀`, and its last edge. -/
structure InPass (s₀ : AdderState) (i₀ : AdderInput) (s : AdderState) : Prop where
  stage : s.stage = 1 ∨ s.stage = 2 ∨ s.stage = 3
  operand1Reg : s.operand1Reg = i₀.in1
  operand2Reg : s.operand2Reg = i₀.in2
  sum7_0 : s.sum7_0 = byteSum 0 s₀.operand1Reg s₀.operand2Reg 0
  sum15_8 : s.stage ≠ 1 → s.sum15_8 = Adder.sum15_8 i₀.in1 i₀.in2 s.sum7_0
  sum23_16 : s.stage = 3 → s.sum23_16 = Adder.sum23_16 i₀.in1 i₀.in2 s.sum7_0
  sum31_24 : s.sum31_24 = s₀.sum31_24

section Steps

variable {s₀ s : AdderState} {i₀ i : AdderInput}

/-- The sampling edge opens a pass. -/
theorem inPass_start (henable : i₀.enable = true) (hstage : s₀.stage = 0) :
    InPass s₀ i₀ (s₀.step i₀) := by
  constructor <;> simp [AdderState.step, AdderState.advance, henable, hstage]

/-- A pass goes on at every edge but its last one. -/
theorem inPass_step (h : InPass s₀ i₀ s) (hlast : ¬ (i.enable = true ∧ s.stage = 3)) :
    InPass s₀ i₀ (s.step i) := by
  cases henable : i.enable
  · rwa [AdderState.step_of_disabled s henable]
  · rcases h.stage with hs | hs | hs
    · constructor <;>
        simp [AdderState.step, AdderState.advance, henable, hs, h.operand1Reg, h.operand2Reg,
          h.sum7_0, h.sum31_24, Adder.sum15_8]
    · have hsum := h.sum15_8 (by simp [hs])
      constructor <;>
        simp [AdderState.step, AdderState.advance, henable, hs, h.operand1Reg, h.operand2Reg,
          h.sum7_0, h.sum31_24, hsum, Adder.sum23_16]
    · exact absurd ⟨henable, hs⟩ hlast

/-- The last edge of a pass. -/
theorem step_last (h : InPass s₀ i₀ s) (henable : i.enable = true) (hs : s.stage = 3) :
    s.step i =
      { operand1Reg := i₀.in1
        operand2Reg := i₀.in2
        sum7_0 := s.sum7_0
        sum15_8 := s.sum15_8
        sum23_16 := s.sum23_16
        sum31_24 := Adder.sum31_24 i₀.in1 i₀.in2 s.sum7_0
        out := assemble s₀.sum31_24 (Adder.sum23_16 i₀.in1 i₀.in2 s.sum7_0)
          (Adder.sum15_8 i₀.in1 i₀.in2 s.sum7_0) s.sum7_0
        stage := 0
        overflow := s.sum31_24.getLsbD 8 } := by
  have h15 := h.sum15_8 (by simp [hs])
  have h23 := h.sum23_16 hs
  simp [AdderState.step, AdderState.advance, henable, hs, h.operand1Reg, h.operand2Reg,
    h.sum31_24, h15, h23, Adder.sum31_24]

end Steps

/-! ## Passes of a run -/

/-- Cycle {lit}`m` samples the operands of a pass that is still open in cycle
{lit}`k`. -/
structure OpenPass (inp : Nat → AdderInput) (m k : Nat) : Prop where
  lt : m < k
  start_enable : (inp m).enable = true
  start_stage : (adderRun inp m).stage = 0
  same : ∀ j, m < j → j < k → (inp j).enable = true → (adderRun inp j).stage ≠ 0
  inPass : InPass (adderRun inp m) (inp m) (adderRun inp k)

/-- Cycle {lit}`n` is an enabled edge at stage three, and cycle {lit}`m` the last
enabled edge at stage zero before it. -/
structure Pass (inp : Nat → AdderInput) (m n : Nat) : Prop where
  lt : m < n
  start_enable : (inp m).enable = true
  start_stage : (adderRun inp m).stage = 0
  same : ∀ j, m < j → j < n → (inp j).enable = true → (adderRun inp j).stage ≠ 0
  last_enable : (inp n).enable = true
  last_stage : (adderRun inp n).stage = 3

section Runs

variable {inp : Nat → AdderInput} {m n k : Nat}

/-- A pass is open after its first enabled cycle. -/
theorem openPass_start (henable : (inp m).enable = true)
    (hstage : (adderRun inp m).stage = 0) : OpenPass inp m (m + 1) where
  lt := Nat.lt_succ_self m
  start_enable := henable
  start_stage := hstage
  same := by
    intro j hlow hhigh
    omega
  inPass := inPass_start henable hstage

/-- It stays open until its last enabled cycle. -/
theorem openPass_succ (h : OpenPass inp m k)
    (hlast : ¬ ((inp k).enable = true ∧ (adderRun inp k).stage = 3)) :
    OpenPass inp m (k + 1) where
  lt := Nat.lt_succ_of_lt h.lt
  start_enable := h.start_enable
  start_stage := h.start_stage
  same := by
    intro j hlow hhigh henable
    rcases Nat.lt_or_eq_of_le (Nat.le_of_lt_succ hhigh) with hlt | rfl
    · exact h.same j hlow hlt henable
    · rcases h.inPass.stage with hs | hs | hs <;> simp [hs]
  inPass := inPass_step h.inPass hlast

/-- A pass that is open at an enabled edge of stage three ends there. -/
theorem OpenPass.pass (h : OpenPass inp m n) (henable : (inp n).enable = true)
    (hstage : (adderRun inp n).stage = 3) : Pass inp m n where
  lt := h.lt
  start_enable := h.start_enable
  start_stage := h.start_stage
  same := h.same
  last_enable := henable
  last_stage := hstage

/-- A pass is open until its last edge. -/
theorem Pass.openPass (h : Pass inp m n) : OpenPass inp m n := by
  -- Were it closed earlier, stage zero would wait for the next sampling edge.
  have hopen : ∀ k, m + 1 + k ≤ n →
      OpenPass inp m (m + 1 + k) ∨ (adderRun inp (m + 1 + k)).stage = 0 := by
    intro k
    induction k with
    | zero =>
        intro _
        exact Or.inl (openPass_start h.start_enable h.start_stage)
    | succ k ih =>
        intro hk
        rcases ih (by omega) with hpass | hzero
        · by_cases hlast : (inp (m + 1 + k)).enable = true ∧
            (adderRun inp (m + 1 + k)).stage = 3
          · right
            change ((adderRun inp (m + 1 + k)).step (inp (m + 1 + k))).stage = 0
            rw [step_last hpass.inPass hlast.1 hlast.2]
          · exact Or.inl (openPass_succ hpass hlast)
        · right
          have hdisabled : (inp (m + 1 + k)).enable = false := by
            rw [Bool.eq_false_iff]
            intro henable
            exact h.same _ (by omega) (by omega) henable hzero
          change ((adderRun inp (m + 1 + k)).step (inp (m + 1 + k))).stage = 0
          rw [AdderState.step_of_disabled _ hdisabled, hzero]
  have hend : m + 1 + (n - (m + 1)) = n := by
    have hlt := h.lt
    omega
  have hlast := hopen (n - (m + 1)) (by omega)
  rw [hend] at hlast
  rcases hlast with hpass | hzero
  · exact hpass
  · rw [h.last_stage] at hzero
    exact absurd hzero (by decide)

/-- A run alternates between passes and waits at stage zero: what holds at reset, and
is kept by waiting and by whole passes, holds whenever a pass starts. -/
theorem pass_induction {P : Nat → Prop} (hzero : P 0)
    (hwait : ∀ k, (inp k).enable = false → P k → P (k + 1))
    (hpass : ∀ m n, Pass inp m n → P m → P (n + 1)) (k : Nat) :
    (adderRun inp k).stage = 0 ∧ P k ∨ ∃ m, OpenPass inp m k ∧ P m := by
  induction k with
  | zero => exact Or.inl ⟨rfl, hzero⟩
  | succ k ih =>
      rcases ih with ⟨hstage, hk⟩ | ⟨m, hopen, hm⟩
      · cases henable : (inp k).enable
        · left
          refine ⟨?_, hwait k henable hk⟩
          rw [adderRun_succ, AdderState.step_of_disabled _ henable, hstage]
        · exact Or.inr ⟨k, openPass_start henable hstage, hk⟩
      · by_cases hlast : (inp k).enable = true ∧ (adderRun inp k).stage = 3
        · left
          refine ⟨?_, hpass m k (hopen.pass hlast.1 hlast.2) hm⟩
          rw [adderRun_succ, step_last hopen.inPass hlast.1 hlast.2]
        · exact Or.inr ⟨m, openPass_succ hopen hlast, hm⟩

/-- Every enabled edge at stage three ends a pass. -/
theorem exists_pass (henable : (inp n).enable = true) (hstage : (adderRun inp n).stage = 3) :
    ∃ m, Pass inp m n := by
  rcases pass_induction (P := fun _ => True) trivial (fun _ _ _ => trivial)
    (fun _ _ _ _ => trivial) n with ⟨hzero, _⟩ | ⟨m, hopen, _⟩
  · rw [hstage] at hzero
    exact absurd hzero (by decide)
  · exact ⟨m, hopen.pass henable hstage⟩

/-- The low byte sum a pass uses is that of the operands before it. -/
def staleLow (inp : Nat → AdderInput) (m : Nat) : BitVec 9 :=
  byteSum 0 (adderRun inp m).operand1Reg (adderRun inp m).operand2Reg 0

/-- What a pass puts out: the top byte and the low byte are those of the registers it
started with. -/
theorem Pass.out_eq (h : Pass inp m n) :
    (adderRun inp (n + 1)).out =
      assemble (adderRun inp m).sum31_24 (sum23_16 (inp m).in1 (inp m).in2 (staleLow inp m))
        (sum15_8 (inp m).in1 (inp m).in2 (staleLow inp m)) (staleLow inp m) := by
  rw [adderRun_succ, step_last h.openPass.inPass h.last_enable h.last_stage,
    h.openPass.inPass.sum7_0]
  rfl

/-- The registers a pass leaves to the next one. -/
theorem Pass.step_eq (h : Pass inp m n) :
    (adderRun inp (n + 1)).operand1Reg = (inp m).in1 ∧
      (adderRun inp (n + 1)).operand2Reg = (inp m).in2 ∧
      (adderRun inp (n + 1)).sum31_24 =
        sum31_24 (inp m).in1 (inp m).in2 (staleLow inp m) ∧
      (adderRun inp (n + 1)).stage = 0 := by
  rw [adderRun_succ, step_last h.openPass.inPass h.last_enable h.last_stage,
    h.openPass.inPass.sum7_0]
  exact ⟨rfl, rfl, rfl, rfl⟩

/-! ## The output of a run -/

/-- Cycle {lit}`n` is the last edge of a pass. -/
def EndsPass (inp : Nat → AdderInput) (n : Nat) : Prop :=
  (inp n).enable = true ∧ (adderRun inp n).stage = 3

/-- The pass from cycle {lit}`m` to cycle {lit}`n` is the last one that ended before
cycle {lit}`k`. -/
structure LastPass (inp : Nat → AdderInput) (m n k : Nat) : Prop where
  pass : Pass inp m n
  lt : n < k
  last : ∀ j, n < j → j < k → ¬EndsPass inp j

/-- The output changes at the last edge of a pass only. -/
theorem out_succ (h : ¬EndsPass inp k) :
    (adderRun inp (k + 1)).out = (adderRun inp k).out := by
  rw [adderRun_succ]
  cases henable : (inp k).enable
  · rw [AdderState.step_of_disabled _ henable]
  · have hstage : (adderRun inp k).stage ≠ 3 := fun hs => h ⟨henable, hs⟩
    simp only [AdderState.step, AdderState.advance, henable, if_true, if_neg hstage]
    split_ifs <;> rfl

/-- In every cycle of a run from reset {lit}`out` is zero, no pass having ended yet, or
it is what the last pass made of its operands and of the low byte sum and the top
byte that the registers held before. -/
theorem out_run (inp : Nat → AdderInput) (k : Nat) :
    (∀ j < k, ¬EndsPass inp j) ∧ (adderRun inp k).out = 0 ∨
      ∃ m n, LastPass inp m n k ∧ (adderRun inp k).out =
        assemble (adderRun inp m).sum31_24 (sum23_16 (inp m).in1 (inp m).in2 (staleLow inp m))
          (sum15_8 (inp m).in1 (inp m).in2 (staleLow inp m)) (staleLow inp m) := by
  induction k with
  | zero => exact Or.inl ⟨fun j hj => absurd hj (Nat.not_lt_zero j), rfl⟩
  | succ k ih =>
      by_cases hends : EndsPass inp k
      · obtain ⟨m, hpass⟩ := exists_pass hends.1 hends.2
        have hlast : ∀ j, k < j → j < k + 1 → ¬EndsPass inp j := by
          intro j hlow hhigh
          omega
        exact Or.inr ⟨m, k, ⟨hpass, Nat.lt_succ_self k, hlast⟩, hpass.out_eq⟩
      · -- Nothing ends in this cycle, so the same pass is still the last one.
        rw [out_succ hends]
        rcases ih with ⟨hnone, hzero⟩ | ⟨m, n, hlast, hout⟩
        · refine Or.inl ⟨fun j hj => ?_, hzero⟩
          rcases Nat.lt_succ_iff_lt_or_eq.mp hj with hlt | rfl
          · exact hnone j hlt
          · exact hends
        · refine Or.inr ⟨m, n, ⟨hlast.pass, Nat.lt_succ_of_lt hlast.lt, ?_⟩, hout⟩
          intro j hlow hhigh
          rcases Nat.lt_succ_iff_lt_or_eq.mp hhigh with hlt | rfl
          · exact hlast.last j hlow hlt
          · exact hends

/-- Cycle {lit}`q` is the first enabled edge after cycle {lit}`n`. -/
structure NextEnabled (inp : Nat → AdderInput) (n q : Nat) : Prop where
  lt : n < q
  enable : (inp q).enable = true
  quiet : ∀ j, n < j → j < q → (inp j).enable = false

/-- Nothing moves until the next enabled edge. -/
theorem NextEnabled.run_eq {q : Nat} (h : NextEnabled inp n q) :
    adderRun inp q = adderRun inp (n + 1) := by
  rcases Nat.exists_eq_add_of_le (Nat.succ_le_of_lt h.lt) with ⟨d, rfl⟩
  have hhold : ∀ k ≤ d, adderRun inp (n + 1 + k) = adderRun inp (n + 1) := by
    intro k
    induction k with
    | zero => intro _; rfl
    | succ k ih =>
        intro hk
        rw [← Nat.add_assoc, adderRun_succ,
          AdderState.step_of_disabled _ (h.quiet _ (by omega) (by omega)), ih (by omega)]
  exact hhold d le_rfl

/-! ## Exact passes -/

/-- The pass adds the operands it sampled: the sum when it ends, the carry at the
next enabled edge. -/
def PassExact (inp : Nat → AdderInput) (m n : Nat) : Prop :=
  (adderRun inp (n + 1)).out = (inp m).in1 + (inp m).in2 ∧
    ∀ q, NextEnabled inp n q →
      (adderRun inp (q + 1)).overflow =
        decide (2 ^ 32 ≤ (inp m).in1.toNat + (inp m).in2.toNat)

/-- Bit eight of the top byte sum is the carry of the words. -/
theorem getLsbD_sum31_24 (x y : BitVec 32) :
    (sum31_24 x y (byteSum 0 x y 0)).getLsbD 8 = decide (2 ^ 32 ≤ x.toNat + y.toNat) := by
  have hexact := assemble_exact x y
  have hlt : ∀ n, n % 256 < 256 := fun n => Nat.mod_lt n (by decide)
  have h23 := hlt (sum23_16 x y (byteSum 0 x y 0)).toNat
  have h15 := hlt (sum15_8 x y (byteSum 0 x y 0)).toNat
  have h7 := hlt (byteSum 0 x y 0).toNat
  have htop := (sum31_24 x y (byteSum 0 x y 0)).isLt
  have hcarry : 2 ^ 32 ≤ x.toNat + y.toNat ↔
      256 ≤ (sum31_24 x y (byteSum 0 x y 0)).toNat := by
    rw [hexact]
    generalize (sum23_16 x y (byteSum 0 x y 0)).toNat % 256 = r at *
    generalize (sum15_8 x y (byteSum 0 x y 0)).toNat % 256 = q at *
    generalize (byteSum 0 x y 0).toNat % 256 = p at *
    omega
  rw [BitVec.getLsbD, Nat.testBit_eq_decide_div_mod_eq]
  refine decide_eq_decide.mpr ?_
  rw [hcarry]
  omega

/-- A pass is exact when the registers it starts with already hold the low byte sum
and the top byte of its own operands. -/
theorem passExact_iff (h : Pass inp m n) :
    PassExact inp m n ↔
      staleLow inp m = byteSum 0 (inp m).in1 (inp m).in2 0 ∧
        (adderRun inp m).sum31_24.toNat % 256 =
          ((inp m).in1 + (inp m).in2).toNat / 2 ^ 24 := by
  rw [← assemble_eq_add_iff, ← h.out_eq]
  constructor
  · intro hexact
    exact hexact.1
  · intro hout
    refine ⟨hout, ?_⟩
    intro q hq
    rw [h.out_eq, assemble_eq_add_iff] at hout
    rw [adderRun_succ, hq.run_eq, ← getLsbD_sum31_24, ← hout.1, ← h.step_eq.2.2.1]
    simp [AdderState.step, hq.enable]

/-! ## Exact runs -/

/-- The registers a pass starts with contribute nothing of their own. -/
def Idle (s : AdderState) : Prop :=
  byteSum 0 s.operand1Reg s.operand2Reg 0 = 0 ∧ s.sum31_24.toNat % 256 = 0

/-- Operands whose low bytes are zero and whose sum has a zero top byte. -/
def Quiet (i : AdderInput) : Prop :=
  i.in1.toNat % 256 = 0 ∧ i.in2.toNat % 256 = 0 ∧ (i.in1 + i.in2).toNat < 2 ^ 24

/-- Out of reset the adder is idle. -/
theorem idle_reset : Idle AdderState.reset :=
  ⟨by decide, rfl⟩

/-- Operands are quiet when neither the low byte nor the top byte of the sum can be stale. -/
theorem quiet_iff (i : AdderInput) :
    Quiet i ↔ byteSum 0 i.in1 i.in2 0 = 0 ∧ (i.in1 + i.in2).toNat / 2 ^ 24 = 0 := by
  have hlow := toNat_byteSum 0 i.in1 i.in2 (by decide : (0 : BitVec 9).toNat ≤ 1)
  have hzero : (0 : BitVec 9).toNat = 0 := rfl
  rw [← BitVec.toNat_inj, hlow, hzero, Quiet]
  omega

/-- After a pass of quiet operands from idle registers the registers are idle. -/
theorem Pass.idle (h : Pass inp m n) (hidle : Idle (adderRun inp m)) (hquiet : Quiet (inp m)) :
    Idle (adderRun inp (n + 1)) := by
  rcases h.step_eq with ⟨hop1, hop2, htop, _⟩
  rcases (quiet_iff (inp m)).mp hquiet with ⟨hlow, hhigh⟩
  have hstale : staleLow inp m = byteSum 0 (inp m).in1 (inp m).in2 0 := by
    rw [hlow]
    exact hidle.1
  rw [Idle, hop1, hop2, htop, hstale]
  refine ⟨hlow, ?_⟩
  have hlt : ∀ n, n % 256 < 256 := fun n => Nat.mod_lt n (by decide)
  rw [BitVec.toNat_add, assemble_exact, digits_mod _ (hlt _) (hlt _) (hlt _),
    digits_div _ (hlt _) (hlt _) (hlt _)] at hhigh
  exact hhigh

/-- If passes from idle registers have quiet operands, every pass starts from idle
registers. -/
theorem Pass.idle_start (h : Pass inp m n)
    (hquiet : ∀ m n, Pass inp m n → Idle (adderRun inp m) → Quiet (inp m)) :
    Idle (adderRun inp m) := by
  have hrun := pass_induction (P := fun k => Idle (adderRun inp k)) idle_reset
    (by
      intro k hdisabled hidle
      rwa [adderRun_succ, AdderState.step_of_disabled _ hdisabled])
    (fun m n hpass hidle => hpass.idle hidle (hquiet m n hpass hidle)) m
  rcases hrun with ⟨_, hidle⟩ | ⟨k, hopen, _⟩
  · exact hidle
  · have hstart := h.start_stage
    rcases hopen.inPass.stage with hs | hs | hs <;> simp [hs] at hstart

/-- From idle registers a pass is exact when its operands are quiet. -/
theorem passExact_of_idle (h : Pass inp m n) (hidle : Idle (adderRun inp m)) :
    PassExact inp m n ↔ Quiet (inp m) := by
  rw [passExact_iff h, quiet_iff, hidle.2, staleLow, hidle.1]
  constructor
  · rintro ⟨hlow, hhigh⟩
    exact ⟨hlow.symm, hhigh.symm⟩
  · rintro ⟨hlow, hhigh⟩
    exact ⟨hlow.symm, hhigh.symm⟩

/-- If all operands that are sampled are quiet, {lit}`out` is zero until a pass has
ended, and then in every cycle the sum of the operands of the last pass. -/
theorem out_run_of_quiet
    (hquiet : ∀ m, (inp m).enable = true → (adderRun inp m).stage = 0 → Quiet (inp m))
    (k : Nat) :
    (∀ j < k, ¬EndsPass inp j) ∧ (adderRun inp k).out = 0 ∨
      ∃ m n, LastPass inp m n k ∧ (adderRun inp k).out = (inp m).in1 + (inp m).in2 := by
  have hpasses : ∀ m n, Pass inp m n → Quiet (inp m) := fun m n hpass =>
    hquiet m hpass.start_enable hpass.start_stage
  rcases out_run inp k with hnone | ⟨m, n, hlast, hout⟩
  · exact Or.inl hnone
  · have hidle := hlast.pass.idle_start fun m n hpass _ => hpasses m n hpass
    have hexact := (passExact_of_idle hlast.pass hidle).mpr (hpasses m n hlast.pass)
    exact Or.inr ⟨m, n, hlast, by rw [hout, ← hlast.pass.out_eq, hexact.1]⟩

/-- Every pass of the run is one addition. -/
def AddsEveryPass (inp : Nat → AdderInput) : Prop :=
  ∀ m n, Pass inp m n → PassExact inp m n

/-- From reset every pass is one addition exactly when the operands of every completed
pass have zero low bytes and a sum with a zero top byte. -/
theorem addsEveryPass_iff (inp : Nat → AdderInput) :
    AddsEveryPass inp ↔ ∀ m n, Pass inp m n → Quiet (inp m) := by
  constructor
  · intro h m n hpass
    have hquiet : ∀ m n, Pass inp m n → Idle (adderRun inp m) → Quiet (inp m) :=
      fun m n hpass hidle => (passExact_of_idle hpass hidle).mp (h m n hpass)
    exact hquiet m n hpass (hpass.idle_start hquiet)
  · intro h m n hpass
    have hidle := hpass.idle_start fun m n hpass _ => h m n hpass
    exact (passExact_of_idle hpass hidle).mpr (h m n hpass)

/-- Adds one and one for ever. -/
def onePlusOne (_ : Nat) : AdderInput where
  enable := true
  in1 := 1
  in2 := 1

/-- The first pass of one plus one puts out zero. -/
theorem onePlusOne_inexact :
    (adderRun onePlusOne 4).out = 0 ∧ Pass onePlusOne 0 3 ∧ ¬ AddsEveryPass onePlusOne := by
  have hinside : ∀ j < 3, 0 < j → (adderRun onePlusOne j).stage ≠ 0 := by
    decide
  have hpass : Pass onePlusOne 0 3 :=
    { lt := by decide
      start_enable := rfl
      start_stage := rfl
      same := by
        intro j hlow hhigh _
        exact hinside j hhigh hlow
      last_enable := rfl
      last_stage := by decide }
  refine ⟨by decide, hpass, ?_⟩
  intro h
  exact absurd (h 0 3 hpass).1 (by decide)

end Runs

end Adder
end AcceleratorSoc
