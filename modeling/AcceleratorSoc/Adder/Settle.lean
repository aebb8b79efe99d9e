import AcceleratorSoc.Adder.Pass

/-!
# Settling of the adder

With its operands held the adder forgets what its registers held before.  A pass
under way may use any of the old registers; the first whole pass after it samples
the operands, the second computes all four byte sums from them and the third puts
the sum out.

Main results:

- Theorem {lit}`settled_step`: a settled adder stays settled as long as the operands
  are held, enabled or not.
- Theorem {lit}`adder_settles`: fifteen enabled edges settle the adder.
-/

namespace AcceleratorSoc
namespace Adder

open Clocked

/-- {lit}`overflow` in front of {lit}`out`. -/
def AdderState.result (s : AdderState) : BitVec 33 :=
  BitVec.ofBool s.overflow ++ s.out

/-- Every register has its final value for the operands {lit}`x` and {lit}`y`,
whatever the stage. -/
structure Settled (x y : BitVec 32) (s : AdderState) : Prop where
  operand1Reg : s.operand1Reg = x
  operand2Reg : s.operand2Reg = y
  sum7_0 : s.sum7_0 = byteSum 0 x y 0
  sum15_8 : s.sum15_8 = Adder.sum15_8 x y (byteSum 0 x y 0)
  sum23_16 : s.sum23_16 = Adder.sum23_16 x y (byteSum 0 x y 0)
  sum31_24 : s.sum31_24 = Adder.sum31_24 x y (byteSum 0 x y 0)
  out : s.out = x + y
  overflow : s.overflow = decide (2 ^ 32 ≤ x.toNat + y.toNat)

section Settled

variable {x y : BitVec 32} {s : AdderState} {i : AdderInput}

/-- Byte sums with their true carries, put together, are the sum of the words. -/
theorem assemble_exact_sums (x y : BitVec 32) :
    assemble (Adder.sum31_24 x y (byteSum 0 x y 0)) (Adder.sum23_16 x y (byteSum 0 x y 0))
      (Adder.sum15_8 x y (byteSum 0 x y 0)) (byteSum 0 x y 0) = x + y := by
  have hlt : ∀ n, n % 256 < 256 := fun n => Nat.mod_lt n (by decide)
  apply BitVec.eq_of_toNat_eq
  rw [toNat_assemble, BitVec.toNat_add, assemble_exact, digits_mod _ (hlt _) (hlt _) (hlt _)]

/-- There are four stages. -/
theorem stage_cases (stage : BitVec 2) :
    stage = 0 ∨ stage = 1 ∨ stage = 2 ∨ stage = 3 := by
  revert stage
  decide

/-- Every stage computes the value its register already has. -/
theorem Settled.advance_eq (h : Settled x y s) (hin1 : i.in1 = x) (hin2 : i.in2 = y) :
    s.advance i = { s with stage := s.stage + 1 } := by
  have h7 : byteSum 0 s.operand1Reg s.operand2Reg 0 = s.sum7_0 := by
    rw [h.operand1Reg, h.operand2Reg, h.sum7_0]
  have h15 : byteSum 8 s.operand1Reg s.operand2Reg (carryOf s.sum7_0) = s.sum15_8 := by
    rw [h.operand1Reg, h.operand2Reg, h.sum7_0, h.sum15_8, Adder.sum15_8]
  have h23 : byteSum 16 s.operand1Reg s.operand2Reg (carryOf s.sum15_8) = s.sum23_16 := by
    rw [h.operand1Reg, h.operand2Reg, h.sum15_8, h.sum23_16, Adder.sum23_16]
  have h31 : byteSum 24 s.operand1Reg s.operand2Reg (carryOf s.sum23_16) = s.sum31_24 := by
    rw [h.operand1Reg, h.operand2Reg, h.sum23_16, h.sum31_24, Adder.sum31_24]
  have hout : assemble s.sum31_24 s.sum23_16 s.sum15_8 s.sum7_0 = s.out := by
    rw [h.sum31_24, h.sum23_16, h.sum15_8, h.sum7_0, h.out]
    exact assemble_exact_sums x y
  rcases stage_cases s.stage with hs | hs | hs | hs
  · simp [AdderState.advance, hs, hin1, hin2, ← h.operand1Reg, ← h.operand2Reg]
    exact h7
  · simp [AdderState.advance, hs, h15]
  · simp [AdderState.advance, hs, h23]
  · simp [AdderState.advance, hs, h31, hout]

/-- At most the stage of a settled adder changes, enabled or not. -/
theorem settled_step (h : Settled x y s) (hin1 : i.in1 = x) (hin2 : i.in2 = y) :
    Settled x y (s.step i) := by
  cases henable : i.enable
  · rwa [AdderState.step_of_disabled s henable]
  · rw [AdderState.step, if_pos henable, h.advance_eq hin1 hin2]
    exact
      { h with
        overflow := by
          rw [h.sum31_24]
          exact getLsbD_sum31_24 x y }

/-- A settled adder puts out the exact sum. -/
theorem Settled.result_eq (h : Settled x y s) :
    s.result = x.setWidth 33 + y.setWidth 33 := by
  have hx := x.isLt
  have hy := y.isLt
  apply BitVec.eq_of_toNat_eq
  rw [AdderState.result, h.overflow, h.out, BitVec.toNat_append,
    ← Nat.shiftLeft_add_eq_or_of_lt (BitVec.isLt _), Nat.shiftLeft_eq, BitVec.toNat_ofBool]
  simp only [BitVec.toNat_add, BitVec.toNat_setWidth]
  by_cases hcarry : 2 ^ 32 ≤ x.toNat + y.toNat
  · simp only [hcarry, decide_true, Bool.toNat_true]
    omega
  · simp only [hcarry, decide_false, Bool.toNat_false]
    omega

end Settled

/-! ## Runs from any registers -/

section Runs

variable {x y : BitVec 32} {s : AdderState} {inp : Nat → AdderInput} {m n : Nat}

/-- The adder is enabled at the edges from {lit}`m` up to {lit}`n` and its operands
are held. -/
def Driven (x y : BitVec 32) (inp : Nat → AdderInput) (m n : Nat) : Prop :=
  ∀ j, m ≤ j → j < n → (inp j).enable = true ∧ (inp j).in1 = x ∧ (inp j).in2 = y

/-- An enabled cycle goes on to the next stage. -/
theorem stage_step {i : AdderInput} (henable : i.enable = true) :
    (s.step i).stage = s.stage + 1 := by
  rcases stage_cases s.stage with hs | hs | hs | hs <;>
    simp [AdderState.step, AdderState.advance, henable, hs]

/-- Every enabled edge turns the stage by one. -/
theorem stage_run (h : ∀ j < n, (inp (m + j)).enable = true) :
    (run AdderState.step s inp (m + n)).stage =
      (run AdderState.step s inp m).stage + BitVec.ofNat 2 n := by
  induction n with
  | zero => simp
  | succ n ih =>
      rw [← Nat.add_assoc, run_succ, stage_step (h n (Nat.lt_succ_self n)),
        ih fun j hj => h j (Nat.lt_succ_of_lt hj), BitVec.ofNat_add, BitVec.add_assoc]
      rfl

/-- At most three enabled edges complete the pass under way. -/
theorem exists_stage_zero (s : AdderState) (h : ∀ j < 3, (inp j).enable = true) :
    ∃ k ≤ 3, (run AdderState.step s inp k).stage = 0 := by
  have hturn : ∀ stage : BitVec 2, ∃ k ≤ 3, stage + BitVec.ofNat 2 k = 0 := by
    decide
  rcases hturn s.stage with ⟨k, hk, hzero⟩
  have hstage := @stage_run s inp 0 k fun j hj => h (0 + j) (by omega)
  rw [Nat.zero_add, run_zero, hzero] at hstage
  exact ⟨k, hk, hstage⟩

/-- What a pass from stage zero without a pause leaves in the registers. -/
def afterPass (x y : BitVec 32) (s : AdderState) : AdderState :=
  let low := byteSum 0 s.operand1Reg s.operand2Reg 0
  { operand1Reg := x
    operand2Reg := y
    sum7_0 := low
    sum15_8 := sum15_8 x y low
    sum23_16 := sum23_16 x y low
    sum31_24 := sum31_24 x y low
    out := assemble s.sum31_24 (sum23_16 x y low) (sum15_8 x y low) low
    stage := 0
    overflow := s.sum31_24.getLsbD 8 }

/-- Four driven edges from stage zero are one pass. -/
theorem run_pass (hs : (run AdderState.step s inp m).stage = 0)
    (h : Driven x y inp m (m + 4)) :
    run AdderState.step s inp (m + 4) = afterPass x y (run AdderState.step s inp m) := by
  have hturn : ∀ k ≤ 4, (run AdderState.step s inp (m + k)).stage = BitVec.ofNat 2 k := by
    intro k hk
    rw [stage_run fun j hj => (h (m + j) (by omega) (by omega)).1, hs]
    exact BitVec.zero_add _
  rcases h m le_rfl (by omega) with ⟨henable, hin1, hin2⟩
  have hfirst : InPass (run AdderState.step s inp m) (inp m)
      (run AdderState.step s inp (m + 1)) := inPass_start henable hs
  have hsecond : InPass (run AdderState.step s inp m) (inp m)
      (run AdderState.step s inp (m + 2)) := by
    refine inPass_step hfirst ?_
    rw [hturn 1 (by decide)]
    exact fun hlast => absurd hlast.2 (by decide)
  have hthird : InPass (run AdderState.step s inp m) (inp m)
      (run AdderState.step s inp (m + 3)) := by
    refine inPass_step hsecond ?_
    rw [hturn 2 (by decide)]
    exact fun hlast => absurd hlast.2 (by decide)
  have h15 := hthird.sum15_8 (by rw [hturn 3 (by decide)]; decide)
  have h23 := hthird.sum23_16 (hturn 3 (by decide))
  have hlast := step_last hthird (h (m + 3) (by omega) (by omega)).1 (hturn 3 (by decide))
  rw [run_succ, hlast, h15, h23, hthird.sum31_24, hthird.sum7_0, hin1, hin2]
  rfl

/-- Three passes settle the adder, whatever it held before. -/
theorem settled_afterPass (x y : BitVec 32) (s : AdderState) :
    Settled x y (afterPass x y (afterPass x y (afterPass x y s))) where
  operand1Reg := rfl
  operand2Reg := rfl
  sum7_0 := rfl
  sum15_8 := rfl
  sum23_16 := rfl
  sum31_24 := rfl
  out := assemble_exact_sums x y
  overflow := getLsbD_sum31_24 x y

/-- Twelve driven edges from stage zero are three passes. -/
theorem settled_of_driven (hs : (run AdderState.step s inp m).stage = 0)
    (h : Driven x y inp m (m + 12)) : Settled x y (run AdderState.step s inp (m + 12)) := by
  have hpass : ∀ k ≤ 8, (run AdderState.step s inp (m + k)).stage = 0 →
      run AdderState.step s inp (m + k + 4) =
        afterPass x y (run AdderState.step s inp (m + k)) := by
    intro k hk hstage
    exact run_pass hstage fun j hlow hhigh => h j (by omega) (by omega)
  have h4 := hpass 0 (by decide) hs
  have h8 := hpass 4 (by decide) (by rw [h4]; rfl)
  have h12 := hpass 8 (by decide) (by rw [h8]; rfl)
  rw [h12, h8, h4]
  exact settled_afterPass x y _

/-- A settled adder stays settled as long as its operands are held. -/
theorem settled_run (hsettled : Settled x y (run AdderState.step s inp m)) (hmn : m ≤ n)
    (hheld : ∀ j < n, (inp j).in1 = x ∧ (inp j).in2 = y) :
    Settled x y (run AdderState.step s inp n) := by
  induction n, hmn using Nat.le_induction with
  | base => exact hsettled
  | succ n _ ih =>
      rcases hheld n (Nat.lt_succ_self n) with ⟨hin1, hin2⟩
      exact settled_step (ih fun j hj => hheld j (Nat.lt_succ_of_lt hj)) hin1 hin2

/-- From any registers, held operands and fifteen enabled edges bring the exact sum
of the operands to the outputs, where it stays as long as the operands are held,
enabled or not. -/
theorem adder_settles (s : AdderState) (x y : BitVec 32) (inp : Nat → AdderInput) (n : Nat)
    (hn : 15 ≤ n) (henable : ∀ j < 15, (inp j).enable = true)
    (hheld : ∀ j < n, (inp j).in1 = x ∧ (inp j).in2 = y) :
    (run AdderState.step s inp n).result = x.setWidth 33 + y.setWidth 33 := by
  rcases exists_stage_zero s fun j hj => henable j (by omega) with ⟨k, hk, hstage⟩
  have hdriven : Driven x y inp k (k + 12) := fun j _ hj =>
    ⟨henable j (by omega), hheld j (by omega)⟩
  exact (settled_run (settled_of_driven hstage hdriven) (by omega) hheld).result_eq

/-- Registers in the middle of a pass, none of which belongs to the operands. -/
def staleState : AdderState where
  operand1Reg := 0xdeadbeef
  operand2Reg := 0x12345678
  sum7_0 := 0x1ff
  sum15_8 := 0x155
  sum23_16 := 0x0aa
  sum31_24 := 0x1aa
  out := 0xffffffff
  stage := 1
  overflow := true

/-- One and one, enabled for fifteen edges. -/
def fifteenEdges (j : Nat) : AdderInput where
  enable := decide (j < 15)
  in1 := 1
  in2 := 1

/-- From these registers, one plus one is two after the fifteen edges. -/
theorem adder_settles_stale :
    (run AdderState.step staleState fifteenEdges 20).result = 2 :=
  adder_settles staleState 1 1 fifteenEdges 20 (by decide) (by decide) fun _ _ => ⟨rfl, rfl⟩

end Runs

end Adder
end AcceleratorSoc
