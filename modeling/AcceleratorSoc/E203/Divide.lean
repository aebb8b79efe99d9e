import AcceleratorSoc.Arith.NonRestoring
import AcceleratorSoc.E203.MulDivResult

/-!
# Division in the unit

Thirty-three rounds of signed non-restoring division: round zero reads the sign of the
dividend, every other round its next bit.  The low buffer is shifted out at the top, where
the dividend is read, and filled at the bottom with the quotient's digits, a one for plus
one and a zero for minus one.  Then the remainder is checked, and if need be quotient and
remainder are corrected.

Main results:

- Theorem {lit}`Dividing.next`: one round on the buffers.
- Theorem {lit}`Dividing.last`: the last round leaves quotient and remainder.
- Theorem {lit}`divNeedCorrct_iff`: the check asks for a correction exactly when one is
  needed.
-/

namespace AcceleratorSoc
namespace E203

/-- The buffers before round {lit}`k` of a division: the partial remainder with the next
bit of the dividend; the rest of the dividend above the digits of the quotient. -/
structure Dividing (ins : MulDivInstr) (k : Nat) (op1 : BitVec 34) (lo : BitVec 33)
    (q r : Int) : Prop where
  quotient : Arith.NonRestoring.Partial (ins.x / 2 ^ (33 - k)) ins.y q r
  quot_gt : -2 ^ k < q
  quot_lt : q < 2 ^ k
  op1_eq : op1.toInt = 2 * r + ins.x / 2 ^ (32 - k) % 2
  lo_eq : (lo.toNat : Int) = q + (Arith.NonRestoring.digitBit r ins.y).toNat + (2 ^ k - 1) +
    2 ^ (k + 1) * (ins.x % 2 ^ (32 - k))
  bit_eq : lo.getLsbD 0 = Arith.NonRestoring.digitBit r ins.y

namespace Dividing

open Arith Arith.NonRestoring

variable {ins : MulDivInstr} {k : Nat} {op1 : BitVec 34} {lo : BitVec 33} {q r : Int}

/-- The operands as round zero sees them. -/
theorem start (ins : MulDivInstr) (hzero : ins.y ≠ 0) {high : BitVec 34} {lo : BitVec 33}
    (hhigh : high.toInt = ins.x / 2 ^ 32)
    (hlo : (lo.toNat : Int) =
      2 * (ins.x % 2 ^ 32) + (digitBit ins.x ins.y).toNat) :
    Dividing ins 0 high lo 0 (ins.x / 2 ^ 33) := by
  have hbounds := value_bounds ins.op.signed1 ins.rs1
  have hpos := abs_pos.mpr hzero
  have hsign : digitBit (ins.x / 2 ^ 33) ins.y = digitBit ins.x ins.y := by
    unfold digitBit
    congr 1
    rw [MulDivInstr.x, decide_eq_decide]
    omega
  refine ⟨⟨by simp, ?_, ?_⟩, by norm_num, by norm_num, ?_, ?_, ?_⟩
  · rw [MulDivInstr.x]
    omega
  · rw [MulDivInstr.x]
    omega
  · rw [hhigh]
    omega
  · rw [hlo, hsign]
    omega
  · have hbit := toNat_getLsbD lo 0
    have hle := Bool.toNat_le (digitBit ins.x ins.y)
    rw [pow_zero, Nat.div_one] at hbit
    rw [hsign]
    apply bool_eq_of_toNat
    omega

/-- A divisor fits in thirty-three bits with its sign. -/
theorem divisor_short (ins : MulDivInstr) : |ins.y| < 2 ^ 32 := by
  have hbounds := value_bounds ins.op.signed2 ins.rs2
  rw [MulDivInstr.y, abs_lt]
  omega

/-- What a round adds to quotient and remainder. -/
theorem sum_quotient (h : Dividing ins k op1 lo q r) (hk : k ≤ 32) :
    Partial (ins.x / 2 ^ (32 - k)) ins.y (2 * q + digit r ins.y)
      (op1.toInt - digit r ins.y * ins.y) := by
  have hbit := Int.emod_two_eq_zero_or_one (ins.x / 2 ^ (32 - k))
  have hhalf : ins.x / 2 ^ (33 - k) = ins.x / 2 ^ (32 - k) / 2 := by
    rw [Int.ediv_ediv_of_nonneg (by positivity), ← pow_succ]
    congr 2
    omega
  have hquot := h.quotient.step hbit
  have hsplit := Int.mul_ediv_add_emod (ins.x / 2 ^ (32 - k)) 2
  rw [hhalf, hsplit] at hquot
  rw [h.op1_eq]
  exact hquot

/-- The digits in the low buffer, the top bit, and what is left below it. -/
theorem lo_split (h : Dividing ins k op1 lo q r) (hk : k < 32) :
    (lo.toNat : Int) / 2 ^ 32 = ins.x / 2 ^ (31 - k) % 2 ∧
      (lo.toNat : Int) % 2 ^ 32 = q + (digitBit r ins.y).toNat + (2 ^ k - 1) +
        2 ^ (k + 1) * (ins.x % 2 ^ (31 - k)) := by
  have hpow : (2 : Int) ^ (32 - k) = 2 ^ (31 - k) * 2 := by
    rw [← pow_succ]
    congr 1
    omega
  have hweight : (2 : Int) ^ (k + 1) * 2 ^ (31 - k) = 2 ^ 32 := by
    rw [← pow_add]
    congr 1
    omega
  have hpos : (0 : Int) < 2 ^ (31 - k) := by positivity
  have hpos' : (0 : Int) < 2 ^ k := by positivity
  have hlo := h.lo_eq
  have hgt := h.quot_gt
  have hlt := h.quot_lt
  rw [hpow, emod_mul _ hpos (by norm_num)] at hlo
  have hbit := Int.emod_two_eq_zero_or_one (ins.x / 2 ^ (31 - k))
  have hrest := Int.emod_nonneg ins.x hpos.ne'
  have hrest' := Int.emod_lt_of_pos ins.x hpos
  have hdigit := Bool.toNat_le (digitBit r ins.y)
  have hsucc : (2 : Int) ^ (k + 1) = 2 ^ k * 2 := pow_succ 2 k
  rw [hsucc] at hlo hweight ⊢
  generalize (2 : Int) ^ (31 - k) = m at *
  generalize (2 : Int) ^ k = p at *
  -- The part below bit 32 fits there.
  have hle : p * 2 * (ins.x % m) ≤ p * 2 * (m - 1) :=
    mul_le_mul_of_nonneg_left (by omega) (by omega)
  have hnonneg : 0 ≤ p * 2 * (ins.x % m) := mul_nonneg (by omega) hrest
  have hsum : (lo.toNat : Int) = q + (digitBit r ins.y).toNat + (p - 1) + p * 2 * (ins.x % m) +
      2 ^ 32 * (ins.x / m % 2) := by
    rw [hlo]
    linear_combination (ins.x / m % 2) * hweight
  have hmax : p * 2 * (m - 1) = 2 ^ 32 - 2 * p := by linear_combination hweight
  omega

/-- One round on the buffers. -/
theorem next (h : Dividing ins k op1 lo q r) (hk : k < 32) {res : BitVec 34} {bit : Bool}
    (hres : res.toInt = op1.toInt - digit r ins.y * ins.y)
    (hbit : bit = digitBit res.toInt ins.y) :
    Dividing ins (k + 1)
      (BitVec.ofBool (res.getLsbD 32) ++ ((res ++ lo) ++ BitVec.ofBool bit).extractLsb' 33 33)
      (((res ++ lo) ++ BitVec.ofBool bit).setWidth 33) (2 * q + digit r ins.y) res.toInt := by
  have hquot := h.sum_quotient hk.le
  have hshort := divisor_short ins
  obtain ⟨htop, hlow⟩ := h.lo_split hk
  have hdigit := digit_eq r ins.y
  have hdigit' := Bool.toNat_le (digitBit r ins.y)
  have hgt := h.quot_gt
  have hlt := h.quot_lt
  have hle' := hquot.le
  have hlt' := hquot.lt
  have hlolt := lo.isLt
  have hreslt := res.isLt
  have hbitle := Bool.toNat_le bit
  have hword : ((res ++ lo) ++ BitVec.ofBool bit).toNat =
      2 * (2 ^ 33 * res.toNat + lo.toNat) + bit.toNat := by
    rw [toNat_append_eq, toNat_append_eq, BitVec.toNat_ofBool]
    ring
  rw [← hres] at hquot hle' hlt'
  refine ⟨?_, ?_, ?_, ?_, ?_, ?_⟩
  · rw [show 33 - (k + 1) = 32 - k by omega]
    exact hquot
  · rw [pow_succ]
    omega
  · rw [pow_succ]
    omega
  · have hsign := toNat_getLsbD res 32
    have hcond := BitVec.toInt_eq_toNat_cond res
    rw [toInt_append_of_pos _ _ (by omega), toInt_ofBool_eq, toNat_extract, hword,
      show 32 - (k + 1) = 31 - k by omega, ← htop, hsign]
    split_ifs at hcond <;> omega
  · have hpow : (2 : Int) ^ (k + 1 + 1) = 2 * 2 ^ (k + 1) := by ring
    have hsucc : (2 : Int) ^ (k + 1) = 2 ^ k * 2 := pow_succ 2 k
    rw [BitVec.toNat_setWidth, hword, show 32 - (k + 1) = 31 - k by omega, ← hbit, hpow, mul_assoc]
    omega
  · have hbit' := toNat_getLsbD (((res ++ lo) ++ BitVec.ofBool bit).setWidth 33) 0
    rw [BitVec.toNat_setWidth, hword, pow_zero, Nat.div_one] at hbit'
    rw [← hbit]
    apply bool_eq_of_toNat
    omega

end Dividing

/-- The buffers after the last round, and after a correction: remainder and quotient. -/
structure Divided (sbf0 sbf1 : BitVec 33) (q r : Int) : Prop where
  remd_eq : sbf0.toInt = r
  quot_eq : sbf1 = BitVec.ofInt 33 q

/-- A word of the quotient. -/
theorem Divided.quot_word {sbf0 sbf1 : BitVec 33} {q r : Int} (h : Divided sbf0 sbf1 q r) :
    sbf1.setWidth 32 = BitVec.ofInt 32 q := by
  apply Arith.eq_ofInt
  rw [BitVec.toNat_setWidth, h.quot_eq, BitVec.toNat_ofInt]
  omega

/-- A word of the remainder. -/
theorem Divided.remd_word {sbf0 sbf1 : BitVec 33} {q r : Int} (h : Divided sbf0 sbf1 q r) :
    sbf0.setWidth 32 = BitVec.ofInt 32 r := by
  have hmod := Arith.toInt_emod_eq sbf0
  apply Arith.eq_ofInt
  rw [BitVec.toNat_setWidth, ← h.remd_eq]
  omega

/-- With the truncating quotient and remainder the buffers hold the results of a division
and of its pair. -/
theorem Divided.result {ins : MulDivInstr} {sbf0 sbf1 : BitVec 33}
    (h : Divided sbf0 sbf1 (ins.x.tdiv ins.y) (ins.x.tmod ins.y)) (hdiv : ins.op.isMul = false)
    (hzero : ins.rs2 ≠ 0) :
    (if ins.op == .div || ins.op == .divu then sbf1.setWidth 32 else sbf0.setWidth 32) =
      ins.result := by
  rw [h.quot_word, h.remd_word, MulDivInstr.result, if_neg hzero, if_neg hzero]
  revert hdiv
  cases ins.op <;> simp [MulDivOp.isMul]

/-- The last round leaves quotient and remainder. -/
theorem Dividing.last {ins : MulDivInstr} {op1 : BitVec 34} {lo : BitVec 33} {q r : Int}
    (h : Dividing ins 32 op1 lo q r) {res : BitVec 34}
    (hres : res.toInt = op1.toInt - Arith.NonRestoring.digit r ins.y * ins.y) :
    Arith.NonRestoring.Partial ins.x ins.y (2 * q + Arith.NonRestoring.digit r ins.y) res.toInt ∧
      Divided ((res ++ lo).extractLsb' 33 33) ((res ++ lo).setWidth 32 ++ BitVec.ofBool true)
        (2 * q + Arith.NonRestoring.digit r ins.y) res.toInt := by
  have hquot := h.sum_quotient le_rfl
  have hshort := divisor_short ins
  rw [← hres, Nat.sub_self, pow_zero, Int.ediv_one] at hquot
  have hle := hquot.le
  have hlt := hquot.lt
  have hlolt := lo.isLt
  have hreslt := res.isLt
  refine ⟨hquot, ?_, ?_⟩
  · have hnat := Arith.toNat_extract (res ++ lo) 33 33
    rw [Arith.toNat_append_eq] at hnat
    rw [BitVec.toInt_eq_toNat_cond] at hle hlt ⊢
    rw [BitVec.toInt_eq_toNat_cond, hnat]
    split_ifs at hle hlt ⊢ <;> omega
  · have hlo := h.lo_eq
    have hdigit := Arith.NonRestoring.digit_eq r ins.y
    rw [Nat.sub_self, pow_zero, Int.emod_one, mul_zero, add_zero] at hlo
    apply Arith.eq_ofInt
    rw [Arith.toNat_append_eq, BitVec.toNat_setWidth, Arith.toNat_append_eq, BitVec.toNat_ofBool,
      Bool.toNat_true]
    omega

namespace MulDivState

open Arith Arith.NonRestoring

variable {s : MulDivState} {i : MulDivInput} {ins : MulDivInstr} {k : Nat} {q r : Int}

/-! ## Operands -/

/-- The extended divisor is the second operand. -/
theorem divisor_toInt (hi : i.Presents ins) (hdiv : ins.op.isMul = false) :
    i.divisor.toInt = ins.y := by
  rw [MulDivInput.divisor, hi.divRs2Sign hdiv, hi.rs2, toInt_extend _ _ (by omega)]
  rfl

/-- The extended dividend is the first operand. -/
theorem dividend_toInt (hi : i.Presents ins) (hdiv : ins.op.isMul = false) :
    i.dividend.toInt = ins.x := by
  rw [MulDivInput.dividend, hi.divRs1Sign hdiv, hi.rs1, toInt_extend _ _ (by omega)]
  rfl

/-- The sign of a word as a wire. -/
theorem signBit_eq {w : Nat} (x : BitVec w) : x.getLsbD (w - 1) = decide (x.toInt < 0) := by
  rw [← BitVec.msb_eq_toInt, BitVec.msb_eq_getLsbD_last]

/-- Two signs compared by a gate. -/
theorem digitBit_eq (r d : Int) : digitBit r d = !(decide (r < 0) ^^ decide (d < 0)) := by
  unfold digitBit
  cases decide (r < 0) <;> cases decide (d < 0) <;> rfl

/-- Digit zero compares the signs of the operands. -/
theorem quot0cycl_eq (hi : i.Presents ins) (hdiv : ins.op.isMul = false) :
    i.quot0cycl = digitBit ins.x ins.y := by
  rw [digitBit_eq, ← dividend_toInt hi hdiv, ← divisor_toInt hi hdiv, ← signBit_eq, ← signBit_eq]
  rfl

/-! ## The buffers as a round sees them -/

/-- The low buffer as a round sees it. -/
def divLo (s : MulDivState) (i : MulDivInput) : BitVec 33 :=
  if s.cycle0th then i.dividendLsft1.setWidth 33 else s.sbf1

/-- So the first cycle sees the operands of round zero. -/
theorem dividing_start (hzeroth : s.state = .zeroth) (hi : i.Presents ins)
    (hdiv : ins.op.isMul = false) (hy : ins.y ≠ 0) :
    Dividing ins 0 (s.divExeAluOp1 i) (s.divLo i) 0 (ins.x / 2 ^ 33) := by
  have hcycle : s.cycle0th = true := by
    rw [cycle0th, hzeroth]
    rfl
  have hx := dividend_toInt hi hdiv
  have hlt := i.dividend.isLt
  have hcond := BitVec.toInt_eq_toNat_cond i.dividend
  have hbounds := value_bounds ins.op.signed1 ins.rs1
  have hbit := Bool.toNat_le i.quot0cycl
  have hword : i.dividendLsft1.toNat = 2 * i.dividend.toNat + i.quot0cycl.toNat := by
    rw [MulDivInput.dividendLsft1, toNat_append_eq, BitVec.toNat_ofBool]
    rfl
  rw [hx, MulDivInstr.x] at hcond
  rw [divExeAluOp1, divLo, hcycle, if_pos rfl, if_pos rfl]
  apply Dividing.start _ hy
  · have hnat := toNat_extract i.dividendLsft1 33 34
    rw [BitVec.toInt_eq_toNat_cond, hnat, hword, MulDivInstr.x]
    split_ifs at hcond ⊢ <;> omega
  · rw [BitVec.toNat_setWidth, hword, ← quot0cycl_eq hi hdiv, MulDivInstr.x]
    split_ifs at hcond <;> omega

/-! ## The adder -/

/-- A division uses the adder for one pair of operands at a time. -/
theorem divAluRes_of_request (hi : i.Presents ins) (sub : Bool) {a b : BitVec 34}
    (hop1 : (s.request i).op1 = widen a) (hop2 : (s.request i).op2 = widen b)
    (hadd : (s.request i).add = !sub) (hsub : (s.request i).sub = sub) :
    s.divAluRes i = if sub then a - b else a + b := by
  have hreq : (s.request i).req = true := hi.mdvOp
  have hwiden : ∀ x : BitVec 34, (widen x).setWidth 34 = x := by
    intro x
    rw [widen, BitVec.setWidth_setWidth_of_le _ (by omega), BitVec.setWidth_eq]
  simp only [divAluRes, aluRes, DpathInput.muldivRes, DpathInput.adderRes, DpathInput.adderAdd,
    DpathInput.adderSub, hreq, if_true, hop1, hop2, hadd, hsub]
  cases sub
  · rw [Bool.not_false, adder_add, BitVec.setWidth_add _ _ (by omega), hwiden, hwiden]
    rfl
  · rw [adder_sub, BitVec.sub_eq_add_neg, BitVec.setWidth_add _ _ (by omega),
      BitVec.setWidth_neg_of_le (by omega), hwiden, hwiden, ← BitVec.sub_eq_add_neg]
    rfl

/-- In a round the divisor is subtracted by the digit. -/
theorem divAluRes_round (h : s.InRound k) (hi : i.Presents ins) (hdiv : ins.op.isMul = false) :
    s.divAluRes i = if s.prevQuot i then s.divExeAluOp1 i - i.divisor
      else s.divExeAluOp1 i + i.divisor := by
  have hopMul : i.opMul = false := by
    rw [hi.opMul, hdiv]
  have hopDiv : i.opDiv = true := by
    rw [hi.opDiv, hdiv]
    rfl
  have hstate := h.state_eq
  apply divAluRes_of_request hi
  all_goals
    rcases hstate with hstate | hstate <;>
      simp [request, reqAluSel2, reqAluSel3, reqAluSel4, reqAluSel5, hopMul, hopDiv, hstate,
        MulDivFsm.beq_eq]

/-- The last digit of the quotient stands at the bottom of the low buffer. -/
theorem prevQuot_eq (s : MulDivState) (i : MulDivInput) :
    s.prevQuot i = (s.divLo i).getLsbD 0 := by
  unfold prevQuot divLo
  cases s.cycle0th
  · rfl
  · rw [if_pos rfl, if_pos rfl, MulDivInput.dividendLsft1, BitVec.getLsbD_setWidth,
      BitVec.getLsbD_append]
    simp

/-- The adder forms the next partial remainder. -/
theorem divAluRes_toInt (h : s.InRound k) (hi : i.Presents ins) (hdiv : ins.op.isMul = false)
    (hD : Dividing ins k (s.divExeAluOp1 i) (s.divLo i) q r) (hk : k ≤ 32) :
    (s.divAluRes i).toInt = (s.divExeAluOp1 i).toInt - digit r ins.y * ins.y := by
  have hdivisor := divisor_toInt hi hdiv
  have hprev : s.prevQuot i = digitBit r ins.y := by
    rw [prevQuot_eq, hD.bit_eq]
  have hshort := Dividing.divisor_short ins
  have hquot := hD.sum_quotient hk
  have hle := hquot.le
  have hlt := hquot.lt
  have hdigit := digit_eq r ins.y
  rw [divAluRes_round h hi hdiv, hprev]
  cases hbit : digitBit r ins.y
  · have hmul : digit r ins.y * ins.y = -ins.y := by
      rw [hdigit, hbit, Bool.toNat_false]
      ring
    rw [hmul] at hle hlt ⊢
    rw [if_neg (by simp), toInt_add_of_short, hdivisor, sub_neg_eq_add] <;>
      rw [hdivisor] <;> omega
  · have hmul : digit r ins.y * ins.y = ins.y := by
      rw [hdigit, hbit, Bool.toNat_true]
      ring
    rw [hmul] at hle hlt ⊢
    rw [if_pos rfl, toInt_sub_of_short, hdivisor] <;> rw [hdivisor] <;> omega

/-! ## Next values -/

/-- The digit of a round compares the signs of remainder and divisor. -/
theorem currentQuot_eq (hi : i.Presents ins) (hdiv : ins.op.isMul = false) :
    s.currentQuot i = digitBit (s.divAluRes i).toInt ins.y := by
  rw [digitBit_eq, ← divisor_toInt hi hdiv, ← signBit_eq, ← signBit_eq]
  rfl

/-- One round of a division. -/
theorem dividing_next (h : s.InRound k) (hi : i.Presents ins) (hdiv : ins.op.isMul = false)
    (hD : Dividing ins k (s.divExeAluOp1 i) (s.divLo i) q r) (hk : k < 32) :
    ∃ q' r', Dividing ins (k + 1)
      (BitVec.ofBool ((s.divAluRes i).getLsbD 32) ++ s.partRemdNxt i) (s.partQuotNxt i) q' r' := by
  have hres := divAluRes_toInt h hi hdiv hD hk.le
  have hnext := hD.next hk hres (currentQuot_eq hi hdiv)
  rw [partRemdNxt, partQuotNxt, h.corrctPhase_eq, h.lastDiv_eq, decide_eq_false hk.ne]
  exact ⟨_, _, hnext⟩

/-- The last round of a division.  The digits make an odd number. -/
theorem dividing_last (h : s.InRound 32) (hi : i.Presents ins) (hdiv : ins.op.isMul = false)
    (hD : Dividing ins 32 (s.divExeAluOp1 i) (s.divLo i) q r) :
    ∃ q' r', q' % 2 = 1 ∧ Partial ins.x ins.y q' r' ∧
      Divided (s.partRemdNxt i) (s.partQuotNxt i) q' r' := by
  have hres := divAluRes_toInt h hi hdiv hD le_rfl
  have hlast := hD.last hres
  have hodd : (2 * q + digit r ins.y) % 2 = 1 := by
    rcases digit_cases r ins.y with hdigit | hdigit <;> omega
  rw [partRemdNxt, partQuotNxt, divRemd, divQuot, h.corrctPhase_eq, h.checkPhase_eq, h.lastDiv_eq]
  exact ⟨_, _, hodd, hlast⟩

/-! ## Check and correction -/

/-- A request outside the rounds, by its state. -/
theorem divAluRes_phase (hi : i.Presents ins) (hdiv : ins.op.isMul = false) :
    (s.state = .remdChck → s.divAluRes i = extended s.sbf0 + i.divisor) ∧
      (s.state = .quotCorr → s.divAluRes i =
        if s.remdIncQuotDec i then extended s.sbf1 - 1 else extended s.sbf1 + 1) ∧
      (s.state = .remdCorr → s.divAluRes i =
        if !s.remdIncQuotDec i then extended s.sbf0 - i.divisor
        else extended s.sbf0 + i.divisor) := by
  have hopMul : i.opMul = false := by
    rw [hi.opMul, hdiv]
  have hopDiv : i.opDiv = true := by
    rw [hi.opDiv, hdiv]
    rfl
  refine ⟨?_, ?_, ?_⟩ <;> intro hstate
  · refine (divAluRes_of_request hi false ?_ ?_ ?_ ?_).trans (if_neg (by simp))
    all_goals
      simp [request, reqAluSel2, reqAluSel3, reqAluSel4, reqAluSel5, hopMul, hopDiv, hstate,
        MulDivFsm.beq_eq]
  · apply divAluRes_of_request hi
    all_goals
      simp [request, reqAluSel2, reqAluSel3, reqAluSel4, reqAluSel5, hopMul, hopDiv, hstate,
        MulDivFsm.beq_eq]
  · apply divAluRes_of_request hi
    all_goals
      simp [request, reqAluSel2, reqAluSel3, reqAluSel4, reqAluSel5, hopMul, hopDiv, hstate,
        MulDivFsm.beq_eq]

/-- The direction of the corrections is given by the same comparison. -/
theorem remdIncQuotDec_eq (hi : i.Presents ins) (hdiv : ins.op.isMul = false)
    (hD : Divided s.sbf0 s.sbf1 q r) : s.remdIncQuotDec i = !digitBit r ins.y := by
  rw [digitBit_eq, ← divisor_toInt hi hdiv, ← hD.remd_eq, ← signBit_eq, ← signBit_eq]
  simp [remdIncQuotDec]

/-- A buffer keeps its value on the adder. -/
theorem extended_toInt (x : BitVec 33) : (extended x).toInt = x.toInt :=
  toInt_signBit_append x

/-- A remainder stays within the divisor, also on the adder. -/
theorem Divided.short (hquot : Partial ins.x ins.y q r) : -2 ^ 32 < r ∧ r < 2 ^ 32 := by
  have hle := hquot.le
  have hlt := hquot.lt
  have hshort := Dividing.divisor_short ins
  omega

/-- In the check the adder forms the sum of remainder and divisor. -/
theorem chck_toInt (hi : i.Presents ins) (hdiv : ins.op.isMul = false)
    (hstate : s.state = .remdChck) (hquot : Partial ins.x ins.y q r)
    (hD : Divided s.sbf0 s.sbf1 q r) : (s.divAluRes i).toInt = r + ins.y := by
  have hbounds := abs_lt.mp (Dividing.divisor_short ins)
  have hr := Divided.short hquot
  rw [(divAluRes_phase hi hdiv).1 hstate, toInt_add_of_short, extended_toInt, hD.remd_eq,
    divisor_toInt hi hdiv]
  all_goals
    rw [extended_toInt, hD.remd_eq, divisor_toInt hi hdiv]
    omega

/-- The check asks for a correction exactly when one is needed. -/
theorem divNeedCorrct_iff (hi : i.Presents ins) (hdiv : ins.op.isMul = false)
    (hstate : s.state = .remdChck) (hquot : Partial ins.x ins.y q r)
    (hD : Divided s.sbf0 s.sbf1 q r) :
    s.divNeedCorrct i = true ↔ Partial.NeedsCorrection ins.x ins.y r := by
  have hbounds := abs_lt.mp (Dividing.divisor_short ins)
  have hopDiv : i.opDiv = true := by
    rw [hi.opDiv, hdiv]
    rfl
  have hremd : s.sbf0.getLsbD 32 = decide (r < 0) := by
    rw [← hD.remd_eq]
    exact signBit_eq s.sbf0
  have hdvd : i.dividend.getLsbD 65 = decide (ins.x < 0) := by
    rw [← dividend_toInt hi hdiv]
    exact signBit_eq i.dividend
  have hzero : s.remdIs0 = decide (r = 0) := by
    rw [remdIs0, Bool.eq_iff_iff, beq_iff_eq, decide_eq_true_iff, ← BitVec.toInt_inj, hD.remd_eq]
    rfl
  have hneg : s.remdIsNegDivs i = decide (r = -ins.y) := by
    rw [remdIsNegDivs, Bool.eq_iff_iff, beq_iff_eq, decide_eq_true_iff, ← BitVec.toInt_inj,
      chck_toInt hi hdiv hstate hquot hD]
    exact add_eq_zero_iff_eq_neg
  have hdivs : s.remdIsDivs i = decide (r = ins.y) := by
    rw [remdIsDivs, Bool.eq_iff_iff, beq_iff_eq, decide_eq_true_iff, ← BitVec.toInt_inj,
      toInt_setWidth_of_short _ (by omega), hD.remd_eq, divisor_toInt hi hdiv]
    all_goals
      rw [divisor_toInt hi hdiv]
      omega
  rw [divNeedCorrct, hopDiv, hremd, hdvd, hzero, hneg, hdivs, Partial.NeedsCorrection]
  by_cases hr : r < 0 <;> by_cases hx : ins.x < 0 <;> simp [hr, hx, or_assoc]

/-- The quotient's correction. -/
theorem quotCorr_eq (hi : i.Presents ins) (hdiv : ins.op.isMul = false)
    (hstate : s.state = .quotCorr) (hD : Divided s.sbf0 s.sbf1 q r) :
    Divided s.sbf0 (s.partQuotNxt i) (q + digit r ins.y) r := by
  have hlow : ∀ x : BitVec 33, (extended x).setWidth 33 = x := by
    intro x
    rw [extended, BitVec.setWidth_append]
    simp
  have hcorr : s.corrctPhase = true := by
    rw [corrctPhase, hstate]
    rfl
  refine ⟨hD.remd_eq, ?_⟩
  rw [partQuotNxt, hcorr, if_pos rfl, (divAluRes_phase hi hdiv).2.1 hstate,
    remdIncQuotDec_eq hi hdiv hD, digit_eq, BitVec.ofInt_add, ← hD.quot_eq]
  cases digitBit r ins.y
  · rw [Bool.not_false, if_pos rfl, BitVec.sub_eq_add_neg,
      BitVec.setWidth_add _ _ (by omega), hlow]
    rfl
  · rw [Bool.not_true, if_neg (by simp), BitVec.setWidth_add _ _ (by omega), hlow]
    rfl

/-- The remainder's correction. -/
theorem remdCorr_eq (hi : i.Presents ins) (hdiv : ins.op.isMul = false)
    (hstate : s.state = .remdCorr) (hquot : Partial ins.x ins.y q r)
    {q' : Int} (hD : Divided s.sbf0 s.sbf1 q' r) :
    Divided ((s.divAluRes i).setWidth 33) s.sbf1 q' (r - digit r ins.y * ins.y) := by
  have habs := Dividing.divisor_short ins
  have hbounds := abs_lt.mp habs
  have hr := Divided.short hquot
  have hle := hquot.le
  have hlt := hquot.lt
  have hmul := digit_mul r ins.y
  have hmul' := digit_eq r ins.y
  have hres : (s.divAluRes i).toInt = r - digit r ins.y * ins.y := by
    rw [(divAluRes_phase hi hdiv).2.2 hstate, remdIncQuotDec_eq hi hdiv hD, Bool.not_not]
    cases hbit : digitBit r ins.y
    · have hd : digit r ins.y * ins.y = -ins.y := by
        rw [hmul', hbit, Bool.toNat_false]
        ring
      rw [if_neg (by simp), hd, toInt_add_of_short, extended_toInt, hD.remd_eq,
        divisor_toInt hi hdiv, sub_neg_eq_add]
      all_goals
        rw [extended_toInt, hD.remd_eq, divisor_toInt hi hdiv]
        omega
    · have hd : digit r ins.y * ins.y = ins.y := by
        rw [hmul', hbit, Bool.toNat_true]
        ring
      rw [if_pos rfl, hd, toInt_sub_of_short, extended_toInt, hD.remd_eq, divisor_toInt hi hdiv]
      all_goals
        rw [extended_toInt, hD.remd_eq, divisor_toInt hi hdiv]
        omega
  refine ⟨?_, hD.quot_eq⟩
  have hshort : -2 ^ 32 ≤ r - digit r ins.y * ins.y ∧ r - digit r ins.y * ins.y < 2 ^ 32 := by
    rw [hmul]
    split_ifs <;> omega
  rw [toInt_setWidth_of_short _ (by omega), hres] <;> rw [hres] <;> omega

end MulDivState

end E203
end AcceleratorSoc
