import AcceleratorSoc.Arith.Words
import AcceleratorSoc.E203.MulDiv
import Mathlib.Tactic.LinearCombination

/-!
# What the multiply and divide instructions return

The results that the instruction set gives, the wires that an instruction drives while it
is presented, and the results of the divisions that are answered at once.

Main results:

- Theorem {lit}`specialRes_eq`: division by zero and the signed overflow return what the
  instruction set gives.
- Theorem {lit}`Pairs.special_iff`: of a pair both instructions are special or none is.
-/

namespace AcceleratorSoc
namespace E203

/-- An operand as a number. -/
def value (signed : Bool) (x : XWord) : Int :=
  if signed then x.toInt else x.toNat

/-- An operand is a number between the least signed word and the greatest unsigned one. -/
theorem value_bounds (signed : Bool) (x : XWord) :
    -2 ^ 31 ≤ value signed x ∧ value signed x < 2 ^ 32 := by
  have hlt := x.isLt
  have hcond := BitVec.toInt_eq_toNat_cond x
  unfold value
  split_ifs at hcond ⊢ <;> omega

/-- The word of an operand. -/
theorem value_emod (signed : Bool) (x : XWord) : value signed x % 2 ^ 32 = x.toNat := by
  have hlt := x.isLt
  unfold value
  split_ifs
  · exact Arith.toInt_emod_eq x
  · omega

/-- The sign of an operand, as a wire. -/
theorem value_neg_iff (signed : Bool) (x : XWord) :
    value signed x < 0 ↔ (signed && x.getLsbD 31) = true := by
  have hmsb : x.getLsbD 31 = decide (x.toInt < 0) := by
    rw [← BitVec.msb_eq_toInt, BitVec.msb_eq_getLsbD_last]
  unfold value
  cases signed
  · simp
  · rw [hmsb]
    simp

/-- It is zero exactly when its word is. -/
theorem value_eq_zero_iff (signed : Bool) (x : XWord) : value signed x = 0 ↔ x = 0 := by
  unfold value
  split_ifs
  · rw [← BitVec.toInt_inj]
    rfl
  · rw [Int.natCast_eq_zero, BitVec.toNat_eq]
    rfl

/-- The sign weighs down the word of an operand. -/
theorem value_eq (signed : Bool) (x : XWord) :
    value signed x = x.toNat - 2 ^ 32 * ((signed && x.getLsbD 31).toNat : Int) := by
  unfold value
  rw [BitVec.toInt_eq_msb_cond, BitVec.msb_eq_getLsbD_last]
  cases signed
  · simp
  · cases x.getLsbD 31 <;> simp

/-- A wire repeated over a whole word. -/
theorem toInt_mask_ones (b : Bool) {n : Nat} (hn : 0 < n) :
    (mask b (~~~(0 : BitVec n))).toInt = -(b.toNat : Int) := by
  cases b
  · simp
  · simp [hn]

/-- An operand with its sign repeated above it. -/
theorem toInt_extend (signed : Bool) (x : XWord) {n : Nat} (hn : 0 < n) :
    (mask (signed && x.getLsbD 31) (~~~(0 : BitVec n)) ++ x).toInt = value signed x := by
  rw [Arith.toInt_append_of_pos _ _ hn, toInt_mask_ones _ hn, value_eq]
  ring

namespace MulDivOp

/-- A multiplication. -/
def isMul : MulDivOp → Bool
  | .mul | .mulh | .mulhsu | .mulhu => true
  | .div | .divu | .rem | .remu => false

/-- The first operand is signed. -/
def signed1 : MulDivOp → Bool
  | .mulhu | .divu | .remu => false
  | .mul | .mulh | .mulhsu | .div | .rem => true

/-- The second operand is signed. -/
def signed2 : MulDivOp → Bool
  | .mulhsu | .mulhu | .divu | .remu => false
  | .mul | .mulh | .div | .rem => true

end MulDivOp

namespace MulDivInstr

/-- The first operand as a number. -/
def x (ins : MulDivInstr) : Int :=
  value ins.op.signed1 ins.rs1

/-- The second operand as a number. -/
def y (ins : MulDivInstr) : Int :=
  value ins.op.signed2 ins.rs2

/-- The result of an instruction.  A product is cut to its low or its high word; a quotient
is truncated towards zero and the remainder has the dividend's sign.  Division by zero
returns all ones and the dividend. -/
def result (ins : MulDivInstr) : XWord :=
  match ins.op with
  | .mul => BitVec.ofInt 32 (ins.x * ins.y)
  | .mulh | .mulhsu | .mulhu => BitVec.ofInt 32 (ins.x * ins.y / 2 ^ 32)
  | .div | .divu => if ins.rs2 = 0 then ~~~0 else BitVec.ofInt 32 (ins.x.tdiv ins.y)
  | .rem | .remu => if ins.rs2 = 0 then ins.rs1 else BitVec.ofInt 32 (ins.x.tmod ins.y)

/-- A division that is answered at once: by zero, or the signed overflow. -/
def Special (ins : MulDivInstr) : Prop :=
  ins.op.isMul = false ∧ (ins.rs2 = 0 ∨
    ins.op.signed1 = true ∧ ins.rs2 = ~~~0 ∧ ins.rs1 = BitVec.intMin 32)

instance (ins : MulDivInstr) : Decidable ins.Special :=
  inferInstanceAs (Decidable (_ ∧ _))

/-- The second instruction can be answered from the registers that the first one left. -/
def Pairs (first second : MulDivInstr) : Prop :=
  first.rs1 = second.rs1 ∧ first.rs2 = second.rs2 ∧
    match second.op with
    | .mul => first.op = .mulh ∨ first.op = .mulhsu ∨ first.op = .mulhu
    | .div => first.op = .rem
    | .rem => first.op = .div
    | .divu => first.op = .remu
    | .remu => first.op = .divu
    | .mulh | .mulhsu | .mulhu => False

end MulDivInstr

namespace MulDivInput

/-- The instruction is presented. -/
structure Presents (i : MulDivInput) (ins : MulDivInstr) : Prop where
  mdvOp : i.mdvOp = true
  valid : i.valid = true
  instr : i.instr = ins

variable {i : MulDivInput} {ins : MulDivInstr}

namespace Presents

/-- A presented instruction is valid at the unit. -/
theorem iValid (h : i.Presents ins) : i.iValid = true := by
  simp [MulDivInput.iValid, h.mdvOp, h.valid]

/-- The information bus says which instruction it is. -/
theorem info (h : i.Presents ins) (op : MulDivOp) : i.info op = (ins.op == op) := by
  simp [MulDivInput.info, h.mdvOp, h.instr]

/-- Its first operand passes the gate. -/
theorem rs1 (h : i.Presents ins) : i.rs1 = ins.rs1 := by
  simp [MulDivInput.rs1, h.mdvOp, h.instr]

/-- So does its second one. -/
theorem rs2 (h : i.Presents ins) : i.rs2 = ins.rs2 := by
  simp [MulDivInput.rs2, h.mdvOp, h.instr]

/-- The multiplier is asked for the multiplications. -/
theorem opMul (h : i.Presents ins) : i.opMul = ins.op.isMul := by
  rw [MulDivInput.opMul, h.info, h.info, h.info, h.info]
  cases ins.op <;> rfl

/-- The divider is asked for everything else. -/
theorem opDiv (h : i.Presents ins) : i.opDiv = !ins.op.isMul := by
  rw [MulDivInput.opDiv, h.info, h.info, h.info, h.info]
  cases ins.op <;> rfl

/-- A quotient is wanted by {lit}`DIV` and {lit}`DIVU`. -/
theorem wantsQuot (h : i.Presents ins) :
    i.wantsQuot = (ins.op == .div || ins.op == .divu) := by
  rw [MulDivInput.wantsQuot, h.info, h.info]

/-- The sign of a multiplier, when its instruction reads it as signed. -/
theorem mulRs1Sign (h : i.Presents ins) (hmul : ins.op.isMul = true) :
    i.mulRs1Sign = (ins.op.signed1 && ins.rs1.getLsbD 31) := by
  rw [MulDivInput.mulRs1Sign, h.info, h.rs1]
  revert hmul
  cases ins.op <;> simp [MulDivOp.isMul, MulDivOp.signed1]

/-- The sign of a multiplicand, likewise. -/
theorem mulRs2Sign (h : i.Presents ins) (hmul : ins.op.isMul = true) :
    i.mulRs2Sign = (ins.op.signed2 && ins.rs2.getLsbD 31) := by
  rw [MulDivInput.mulRs2Sign, h.info, h.info, h.rs2]
  revert hmul
  cases ins.op <;> simp [MulDivOp.isMul, MulDivOp.signed2]

/-- The sign of a dividend, likewise. -/
theorem divRs1Sign (h : i.Presents ins) (hdiv : ins.op.isMul = false) :
    i.divRs1Sign = (ins.op.signed1 && ins.rs1.getLsbD 31) := by
  rw [MulDivInput.divRs1Sign, h.info, h.info, h.rs1]
  revert hdiv
  cases ins.op <;> simp [MulDivOp.isMul, MulDivOp.signed1]

/-- The sign of a divisor, likewise. -/
theorem divRs2Sign (h : i.Presents ins) (hdiv : ins.op.isMul = false) :
    i.divRs2Sign = (ins.op.signed2 && ins.rs2.getLsbD 31) := by
  rw [MulDivInput.divRs2Sign, h.info, h.info, h.rs2]
  revert hdiv
  cases ins.op <;> simp [MulDivOp.isMul, MulDivOp.signed2]

/-! ## Divisions that are answered at once -/

/-- The wires that test for the least signed number. -/
private theorem eq_intMin_iff (a : XWord) :
    (a.getLsbD 31 = true ∧ a.setWidth 31 = 0) ↔ a = BitVec.intMin 32 := by
  have hlt := a.isLt
  have hbit := Arith.toNat_getLsbD a 31
  have hlow : a.setWidth 31 = 0 ↔ a.toNat % 2 ^ 31 = 0 := by
    rw [BitVec.toNat_eq, BitVec.toNat_setWidth]
    rfl
  have hmin : a = BitVec.intMin 32 ↔ a.toNat = 2 ^ 31 := by
    rw [BitVec.toNat_eq, BitVec.toNat_intMin_of_pos (by omega)]
  rw [hlow, hmin]
  cases h : a.getLsbD 31
  · rw [h] at hbit
    simp at hbit ⊢
    omega
  · rw [h] at hbit
    simp at hbit ⊢
    omega

/-- The unit knows the divisions that are answered at once. -/
theorem specialCases (h : i.Presents ins) : i.specialCases = decide ins.Special := by
  rw [Bool.eq_iff_iff, decide_eq_true_iff, MulDivInput.specialCases, MulDivInput.divBy0,
    MulDivInput.divOvf, h.opDiv, h.info, h.info, h.rs1, h.rs2, MulDivInstr.Special,
    ← eq_intMin_iff]
  cases ins.op <;> simp [MulDivOp.isMul, MulDivOp.signed1, and_assoc]

/-- It answers them as the instruction set says. -/
theorem specialRes (h : i.Presents ins) (hspecial : ins.Special) : i.specialRes = ins.result := by
  obtain ⟨hdiv, hcases⟩ := hspecial
  have hlow : i.dividend.setWidth 32 = ins.rs1 := by
    rw [MulDivInput.dividend, BitVec.setWidth_append, h.rs1]
    simp
  rw [MulDivInput.specialRes, MulDivInput.divBy0, h.rs2]
  by_cases hzero : ins.rs2 = 0
  · rw [hzero, if_pos (by simp), MulDivInput.divBy0Res, h.wantsQuot, hlow, MulDivInstr.result,
      hzero]
    revert hdiv
    cases ins.op <;> simp [MulDivOp.isMul]
  · obtain ⟨hsigned, hones, hmin⟩ := hcases.resolve_left hzero
    rw [if_neg (by simpa using hzero), MulDivInput.divOvfRes, h.wantsQuot, MulDivInstr.result,
      if_neg hzero, if_neg hzero, MulDivInstr.x, MulDivInstr.y, hones, hmin]
    revert hdiv hsigned
    cases ins.op <;> simp [MulDivOp.isMul, MulDivOp.signed1, MulDivOp.signed2, value]
    all_goals decide

end Presents

end MulDivInput

namespace MulDivState

variable {s : MulDivState} {k : Nat}

/-- The round that the unit is in. -/
structure InRound (s : MulDivState) (k : Nat) : Prop where
  zeroth : s.state = .zeroth → k = 0
  exec : s.state ≠ .zeroth → s.state = .exec ∧ s.execCnt.toNat = k ∧ 0 < k

/-- The unit is in its first cycle in round zero only. -/
theorem InRound.cycle0th_iff (h : s.InRound k) : s.cycle0th = decide (k = 0) := by
  rw [cycle0th]
  by_cases hzeroth : s.state = .zeroth
  · simp [hzeroth, h.zeroth hzeroth]
  · have hpos := (h.exec hzeroth).2.2
    simp [hzeroth, hpos.ne']

/-- The counter tells the round. -/
theorem InRound.execCnt_eq (h : s.InRound k) (hk : 0 < k) : s.execCnt.toNat = k := by
  have hzeroth : s.state ≠ .zeroth := by
    intro hzeroth
    exact hk.ne' (h.zeroth hzeroth)
  exact (h.exec hzeroth).2.1

/-- The last round of a division is round thirty-two. -/
theorem InRound.cycle32nd_iff (h : s.InRound k) (hk : 0 < k) : s.cycle32nd = decide (k = 32) := by
  rw [cycle32nd, Bool.eq_iff_iff, beq_iff_eq, decide_eq_true_iff, BitVec.toNat_eq, h.execCnt_eq hk]
  rfl

/-- The last round of a multiplication is round sixteen. -/
theorem InRound.cycle16th_iff (h : s.InRound k) (hk : 0 < k) : s.cycle16th = decide (k = 16) := by
  rw [cycle16th, Bool.eq_iff_iff, beq_iff_eq, decide_eq_true_iff, BitVec.toNat_eq, h.execCnt_eq hk]
  rfl

/-- The rounds take place in the first two states. -/
theorem InRound.state_eq (h : s.InRound k) : s.state = .zeroth ∨ s.state = .exec := by
  by_cases hzeroth : s.state = .zeroth
  · exact Or.inl hzeroth
  · exact Or.inr (h.exec hzeroth).1

/-- A round is not a correction. -/
theorem InRound.corrctPhase_eq (h : s.InRound k) : s.corrctPhase = false := by
  rcases h.state_eq with hstate | hstate <;> simp [corrctPhase, MulDivFsm.beq_eq, hstate]

/-- A round is not the check. -/
theorem InRound.checkPhase_eq (h : s.InRound k) : s.checkPhase = false := by
  rcases h.state_eq with hstate | hstate <;> simp [checkPhase, MulDivFsm.beq_eq, hstate]

/-- The last round of a division. -/
theorem InRound.lastDiv_eq (h : s.InRound k) :
    (s.state == .exec && s.cycle32nd) = decide (k = 32) := by
  by_cases hzeroth : s.state = .zeroth
  · simp [MulDivFsm.beq_eq, hzeroth, h.zeroth hzeroth]
  · obtain ⟨hexec, -, hpos⟩ := h.exec hzeroth
    rw [h.cycle32nd_iff hpos, hexec]
    rfl

end MulDivState

/-- Of a pair both instructions are special or none is. -/
theorem MulDivInstr.Pairs.special_iff {first second : MulDivInstr}
    (h : MulDivInstr.Pairs first second) : first.Special ↔ second.Special := by
  obtain ⟨hrs1, hrs2, hop⟩ := h
  unfold MulDivInstr.Special
  rw [hrs1, hrs2]
  revert hop
  cases second.op <;> cases first.op <;> simp [MulDivOp.isMul, MulDivOp.signed1]

end E203
end AcceleratorSoc
