import AcceleratorSoc.Arith.Booth
import AcceleratorSoc.E203.MulDivResult

/-!
# Multiplication in the unit

Seventeen rounds of Booth's recoding: round zero reads the operands, the others the shared
buffers.  The low buffer is shifted out at the bottom, where the multiplier's digits are
read, and filled at the top with the final bits of the product.

Main results:

- Theorem {lit}`Multiplying.next`: one round on the buffers.
- Theorem {lit}`aluRes_toInt`: the adder forms the sum of the round.
- Theorem {lit}`mulRes_eq`: the result read in the last round.
- Theorem {lit}`lowWord_of_last`: the low word of the product stays in the registers for the
  second instruction of a pair.
-/

namespace AcceleratorSoc
namespace E203

/-- The buffers before round {lit}`k` of a multiplication: the high part of the partial
product; its {lit}`low` part above the rest of the multiplier; the bit below that rest. -/
structure Multiplying (ins : MulDivInstr) (k : Nat) (hi lo : BitVec 33) (sft1 : Bool)
    (low : Int) : Prop where
  product : Arith.Booth.Partial ins.x ins.y k hi.toInt low
  lo_eq : (lo.toNat : Int) = low * 2 ^ (33 - 2 * k) + ins.x / 4 ^ k % 2 ^ (33 - 2 * k)
  sft1_eq : sft1 = Arith.Booth.below ins.x k

namespace Multiplying

open Arith Arith.Booth

variable {ins : MulDivInstr} {k : Nat} {hi lo : BitVec 33} {sft1 : Bool} {low : Int}

/-- The operands as round zero sees them. -/
theorem start (ins : MulDivInstr) (sign : Bool)
    (hsign : sign = (ins.op.signed1 && ins.rs1.getLsbD 31)) :
    Multiplying ins 0 0 (BitVec.ofBool sign ++ ins.rs1) false 0 := by
  have hvalue := value_eq ins.op.signed1 ins.rs1
  have hlt := ins.rs1.isLt
  refine ⟨Booth.Partial.start _ _, ?_, rfl⟩
  rw [toNat_append_eq, BitVec.toNat_ofBool, hsign, MulDivInstr.x, hvalue]
  cases (ins.op.signed1 && ins.rs1.getLsbD 31)
  · simp
    omega
  · simp
    omega

/-- The weight of the rest of the multiplier. -/
private theorem rest_pow (hk : k ≤ 16) : (4 : Int) ^ k * 2 ^ (33 - 2 * k) = 2 ^ 33 := by
  rw [show (4 : Int) = 2 ^ 2 by norm_num, ← pow_mul, ← pow_add]
  congr 1
  omega

/-- A round takes two bits of the multiplier. -/
private theorem rest_pow_succ (hk : k < 16) :
    (2 : Int) ^ (33 - 2 * k) = 4 * 2 ^ (33 - 2 * (k + 1)) := by
  rw [show (4 : Int) = 2 ^ 2 by norm_num, ← pow_add]
  congr 1
  omega

/-- The rest of the multiplier stands at the bottom of the low buffer. -/
theorem getLsbD_eq (h : Multiplying ins k hi lo sft1 low) {j : Nat} (hj : 2 * k + j < 33) :
    lo.getLsbD j = testBit ins.x (2 * k + j) := by
  have hpow : (2 : Int) ^ (33 - 2 * k) = 2 ^ j * (2 * 2 ^ (32 - 2 * k - j)) := by
    rw [← pow_succ', ← pow_add]
    congr 1
    omega
  have hweight : (2 : Int) ^ (2 * k + j) = 4 ^ k * 2 ^ j := by
    rw [pow_add, pow_mul]
    norm_num
  have hpos : (0 : Int) < 2 ^ j := by positivity
  have hpos' : (0 : Int) < 2 * 2 ^ (32 - 2 * k - j) := by positivity
  have hlo := h.lo_eq
  rw [hpow] at hlo
  apply eq_testBit
  rw [toNat_getLsbD, hweight, ← Int.ediv_ediv_of_nonneg (by positivity)]
  push_cast
  -- Above bit `j` there are whole words and the quotient of the rest.
  rw [hlo, mul_left_comm, Int.mul_add_ediv_left _ _ hpos.ne', emod_mul_ediv _ hpos hpos',
    mul_left_comm, Int.mul_add_emod_self_left, Int.emod_emod_of_dvd _ ⟨_, rfl⟩]

/-- The bits that a round reads are its digit. -/
theorem digit_bits (h : Multiplying ins k hi lo sft1 low) (hk : k < 16) :
    lo.getLsbD 1 = testBit ins.x (2 * k + 1) ∧ lo.getLsbD 0 = testBit ins.x (2 * k) ∧
      sft1 = below ins.x k :=
  ⟨h.getLsbD_eq (by omega), h.getLsbD_eq (j := 0) (by omega), h.sft1_eq⟩

/-- One round on the buffers. -/
theorem next (h : Multiplying ins k hi lo sft1 low) (hk : k < 16) {res : BitVec 35}
    (hres : res.toInt = Booth.Partial.sum ins.x ins.y k hi.toInt) :
    Multiplying ins (k + 1) (res.extractLsb' 2 33)
      (res.extractLsb' 0 2 ++ lo.extractLsb' 2 31) (lo.getLsbD 1)
      (low + 4 ^ k * (Booth.Partial.sum ins.x ins.y k hi.toInt % 4)) := by
  have hhi : (res.extractLsb' 2 33).toInt = res.toInt / 4 := by
    have hlt := res.isLt
    have hnat := toNat_extract res 2 33
    rw [BitVec.toInt_eq_toNat_cond, BitVec.toInt_eq_toNat_cond, hnat]
    split_ifs <;> omega
  have hbits : ((res.extractLsb' 0 2).toNat : Int) = res.toInt % 4 := by
    have hnat := toNat_extract res 0 2
    rw [BitVec.toInt_eq_toNat_cond, hnat]
    split_ifs <;> omega
  have hrest : (lo.extractLsb' 2 31).toNat = lo.toNat / 4 := by
    have hlt := lo.isLt
    rw [toNat_extract]
    omega
  refine ⟨?_, ?_, (h.digit_bits hk).1⟩
  · rw [hhi, hres]
    exact h.product.step
  · have hpow := rest_pow (k := k) (by omega)
    have hlo := h.lo_eq
    have hpos : (0 : Int) < 2 ^ (33 - 2 * (k + 1)) := by positivity
    rw [toNat_append_eq, hrest]
    push_cast
    rw [hbits, hres]
    rw [rest_pow_succ hk] at hpow hlo
    rw [hlo, pow_succ, ← Int.ediv_ediv_of_nonneg (by positivity)]
    generalize (2 : Int) ^ (33 - 2 * (k + 1)) = m at *
    rw [mul_left_comm, Int.mul_add_ediv_left _ _ (by norm_num), emod_mul_ediv _ (by norm_num) hpos]
    have hweight : 4 ^ k * m = 2 ^ 31 := by linarith
    linear_combination -(Booth.Partial.sum ins.x ins.y k hi.toInt % 4) * hweight

/-- The operands are short enough for the digits of seventeen rounds. -/
theorem product_eq (h : Multiplying ins 16 hi lo sft1 low) :
    low + 2 ^ 32 * Booth.Partial.sum ins.x ins.y 16 hi.toInt = ins.x * ins.y := by
  obtain ⟨hlo, hhi⟩ := value_bounds ins.op.signed1 ins.rs1
  have hproduct := h.product.product (by rw [MulDivInstr.x]; omega) (by rw [MulDivInstr.x]; omega)
  rw [← hproduct]
  norm_num

/-- Before the last round the low buffer holds the low word of the product. -/
theorem lo_word (h : Multiplying ins 16 hi lo sft1 low) :
    (lo.toNat / 2 : Int) = ins.x * ins.y % 2 ^ 32 := by
  have hproduct := h.product_eq
  have hlo := h.lo_eq
  have hnonneg := h.product.low_nonneg
  have hlt := h.product.low_lt
  norm_num at hlo hlt
  rw [← hproduct, Int.add_mul_emod_self_left]
  omega

/-- After the last round the low word of the product stands one place up in the low
buffer. -/
theorem low_result (h : Multiplying ins 16 hi lo sft1 low) :
    lo.extractLsb' 1 32 = BitVec.ofInt 32 (ins.x * ins.y) := by
  have hlt := lo.isLt
  apply eq_ofInt
  rw [toNat_extract, ← h.lo_word]
  omega

/-- The last sum is the high word of the product. -/
theorem high_result (h : Multiplying ins 16 hi lo sft1 low) {res : BitVec 35}
    (hres : res.toInt = Booth.Partial.sum ins.x ins.y 16 hi.toInt) :
    res.extractLsb' 0 32 = BitVec.ofInt 32 (ins.x * ins.y / 2 ^ 32) := by
  have hproduct := h.product_eq
  have hnonneg := h.product.low_nonneg
  have hlt : low < 2 ^ 32 := lt_of_lt_of_eq h.product.low_lt (by norm_num)
  have hmod := toInt_emod_eq res
  apply eq_ofInt
  rw [toNat_extract, ← hproduct, Int.add_mul_ediv_left _ _ (by norm_num),
    Int.ediv_eq_zero_of_lt hnonneg hlt, zero_add, ← hres]
  omega

/-- After the last round the low word is spread over the low buffer and the bit below it. -/
theorem spread_result (h : Multiplying ins 16 hi lo sft1 low) (top : BitVec 2) :
    (top ++ lo.extractLsb' 2 31).setWidth 31 ++ BitVec.ofBool (lo.getLsbD 1) =
      BitVec.ofInt 32 (ins.x * ins.y) := by
  have hlt := lo.isLt
  have hbit := toNat_getLsbD lo 1
  have hword := h.lo_word
  apply eq_ofInt
  rw [toNat_append_eq, BitVec.toNat_setWidth, toNat_append_eq, toNat_extract, BitVec.toNat_ofBool]
  omega

end Multiplying

namespace MulDivState

open Arith Arith.Booth

variable {s : MulDivState} {i : MulDivInput} {ins : MulDivInstr} {k : Nat} {low : Int}

/-! ## The buffers as a round sees them -/

/-- The high buffer as a round sees it. -/
def mulHi (s : MulDivState) : BitVec 33 :=
  if s.cycle0th then 0 else s.sbf0

/-- The low buffer as a round sees it. -/
def mulLo (s : MulDivState) (i : MulDivInput) : BitVec 33 :=
  if s.cycle0th then BitVec.ofBool i.mulRs1Sign ++ i.rs1 else s.sbf1

/-- The bit behind the low buffer as a round sees it. -/
def mulSft1 (s : MulDivState) : Bool :=
  if s.cycle0th then false else s.partPrdtSft1

/-- The top bit of the last digit is the multiplier's sign. -/
theorem boothCode_eq_view (s : MulDivState) (i : MulDivInput) :
    s.boothCode i =
      (if !s.cycle0th && s.cycle16th then i.mulRs1Sign else (s.mulLo i).getLsbD 1,
        (s.mulLo i).getLsbD 0, s.mulSft1) := by
  unfold boothCode mulLo mulSft1
  cases s.cycle0th
  · cases s.cycle16th <;> rfl
  · rw [if_pos rfl, if_neg (by simp), if_pos rfl, if_pos rfl, BitVec.getLsbD_append,
      BitVec.getLsbD_append]
    rfl

/-- A round decides on its digit. -/
theorem boothCode_eq (h : s.InRound k) (hi : i.Presents ins) (hmul : ins.op.isMul = true)
    (hM : Multiplying ins k s.mulHi (s.mulLo i) s.mulSft1 low) (hk : k ≤ 16) :
    s.boothCode i =
      (testBit ins.x (2 * k + 1), testBit ins.x (2 * k), below ins.x k) := by
  have hlow : (s.mulLo i).getLsbD 0 = testBit ins.x (2 * k) :=
    hM.getLsbD_eq (j := 0) (by omega)
  rw [boothCode_eq_view, hlow, hM.sft1_eq, h.cycle0th_iff]
  congr 1
  by_cases hlast : k = 16
  · have hneg := value_neg_iff ins.op.signed1 ins.rs1
    have hbounds := value_bounds ins.op.signed1 ins.rs1
    rw [if_pos (by simp [hlast, h.cycle16th_iff (by omega : 0 < k)]), hi.mulRs1Sign hmul, hlast]
    apply eq_testBit
    rw [MulDivInstr.x]
    cases hsign : ins.op.signed1 && ins.rs1.getLsbD 31
    · rw [hsign] at hneg
      have hnonneg : ¬value ins.op.signed1 ins.rs1 < 0 := by
        rw [hneg]
        exact Bool.false_ne_true
      rw [Bool.toNat_false]
      omega
    · have hlt := hneg.mpr hsign
      rw [Bool.toNat_true]
      omega
  · rw [if_neg, hM.getLsbD_eq (by omega)]
    by_cases hzero : k = 0
    · simp [hzero]
    · simp [hzero, h.cycle16th_iff (by omega : 0 < k), hlast]

/-! ## The adder -/

/-- A multiplication uses the adder for its own operands. -/
theorem aluRes_of_mul (hi : i.Presents ins) (hmul : ins.op.isMul = true) :
    s.aluRes i = if boothSelSub (s.boothCode i) then s.mulExeAluOp1 - s.mulExeAluOp2 i
      else s.mulExeAluOp1 + s.mulExeAluOp2 i := by
  have hopMul : i.opMul = true := by
    rw [hi.opMul, hmul]
  have hopDiv : i.opDiv = false := by
    rw [hi.opDiv, hmul]
    rfl
  simp only [aluRes, DpathInput.muldivRes, DpathInput.adderRes, DpathInput.adderAdd,
    DpathInput.adderSub, request, reqAluSel2, reqAluSel3, reqAluSel4, reqAluSel5, hi.mdvOp, hopMul,
    hopDiv, Bool.false_and, Bool.true_and, Bool.or_false, mask_true, mask_false]
  cases boothSelSub (s.boothCode i) <;> simp

/-- The three select wires are one choice. -/
private theorem booth_select (high low below : Bool) (one two : BitVec 35) :
    mask (boothSelZero (high, low, below)) 0 ||| mask (boothSelOne (high, low, below)) one |||
        mask (boothSelTwo (high, low, below)) two =
      if low = below then if high = low then 0 else two else one := by
  have hzero : boothSelZero (high, low, below) = (high == low && low == below) := by
    cases high <;> cases low <;> cases below <;> rfl
  have htwo : boothSelTwo (high, low, below) = (high != low && low == below) := by
    cases high <;> cases low <;> cases below <;> rfl
  rw [boothSelOne, hzero, htwo]
  cases high <;> cases low <;> cases below <;> simp

/-- The multiplicand times the magnitude of the digit. -/
theorem mulExeAluOp2_toInt (hi : i.Presents ins) (hmul : ins.op.isMul = true) :
    (s.mulExeAluOp2 i).toInt =
      (if boothSelSub (s.boothCode i) then -1 else 1) *
        (digit (s.boothCode i).1 (s.boothCode i).2.1 (s.boothCode i).2.2 * ins.y) := by
  have hone := toInt_extend ins.op.signed2 ins.rs2 (by omega : 0 < 3)
  have htwo : ((mask (ins.op.signed2 && ins.rs2.getLsbD 31) (~~~(0 : BitVec 2)) ++ ins.rs2) ++
      BitVec.ofBool false).toInt = 2 * value ins.op.signed2 ins.rs2 := by
    rw [toInt_append_of_pos _ _ (by omega), toInt_extend _ _ (by omega)]
    simp
  rw [mulExeAluOp2, hi.mulRs2Sign hmul, hi.rs2, MulDivInstr.y]
  generalize (mask (ins.op.signed2 && ins.rs2.getLsbD 31) (~~~(0 : BitVec 2)) ++ ins.rs2) ++
    BitVec.ofBool false = two at *
  generalize mask (ins.op.signed2 && ins.rs2.getLsbD 31) (~~~(0 : BitVec 3)) ++ ins.rs2 = one at *
  rcases s.boothCode i with ⟨high, low, below⟩
  rw [booth_select]
  cases high <;> cases low <;> cases below <;> simp [boothSelSub, digit, bit, hone, htwo]

/-- The first operand on the adder is the high buffer. -/
theorem mulExeAluOp1_toInt (s : MulDivState) : s.mulExeAluOp1.toInt = s.mulHi.toInt := by
  unfold mulExeAluOp1 mulHi
  cases s.cycle0th
  · rw [if_neg (by simp), if_neg (by simp), toInt_append_of_pos _ _ (by omega),
      toInt_mask_ones _ (by omega), BitVec.toInt_eq_msb_cond s.sbf0, BitVec.msb_eq_getLsbD_last]
    cases s.sbf0.getLsbD 32 <;> simp
    omega
  · rfl

/-- The adder forms the sum of the round. -/
theorem aluRes_toInt (h : s.InRound k) (hi : i.Presents ins) (hmul : ins.op.isMul = true)
    (hM : Multiplying ins k s.mulHi (s.mulLo i) s.mulSft1 low) (hk : k ≤ 16) :
    (s.aluRes i).toInt = Booth.Partial.sum ins.x ins.y k s.mulHi.toInt := by
  have hcode := boothCode_eq h hi hmul hM hk
  have hop1 := mulExeAluOp1_toInt s
  have hop2 := mulExeAluOp2_toInt (s := s) hi hmul
  have hbound : |ins.y| ≤ 2 ^ 32 := by
    have hy := value_bounds ins.op.signed2 ins.rs2
    rw [MulDivInstr.y, abs_le]
    omega
  have hhi := hM.product.hi_bound hbound
  have hdigit := Booth.Partial.abs_digit_mul_le (testBit ins.x (2 * k + 1))
    (testBit ins.x (2 * k)) (below ins.x k) ins.y
  rw [abs_le] at hdigit
  rw [hcode] at hop2
  rw [aluRes_of_mul hi hmul, hcode, Booth.Partial.sum, ← hop1]
  generalize digit (testBit ins.x (2 * k + 1)) (testBit ins.x (2 * k)) (below ins.x k) * ins.y = d
    at *
  split_ifs at hop2 ⊢
  · rw [toInt_sub_of_short] <;> omega
  · rw [toInt_add_of_short] <;> omega

/-! ## Next values and results -/

/-- The low buffer is shifted by two places. -/
theorem partPrdtLoNxt_eq (s : MulDivState) (i : MulDivInput) :
    s.partPrdtLoNxt i = (s.aluRes i).extractLsb' 0 2 ++ (s.mulLo i).extractLsb' 2 31 := by
  unfold partPrdtLoNxt mulLo
  congr 1
  cases s.cycle0th
  · rfl
  · have hlt := i.rs1.isLt
    apply BitVec.eq_of_toNat_eq
    rw [if_pos rfl, if_pos rfl, toNat_extract, toNat_append_eq, toNat_append_eq, toNat_extract,
      BitVec.toNat_ofBool]
    cases i.mulRs1Sign <;> simp <;> omega

/-- The bit behind it is the higher one of those that go out. -/
theorem partPrdtSft1Nxt_eq (s : MulDivState) (i : MulDivInput) :
    s.partPrdtSft1Nxt i = (s.mulLo i).getLsbD 1 := by
  unfold partPrdtSft1Nxt mulLo
  cases s.cycle0th
  · rfl
  · rw [if_pos rfl, if_pos rfl, BitVec.getLsbD_append]
    rfl

/-- One round of a multiplication. -/
theorem multiplying_next (h : s.InRound k) (hi : i.Presents ins) (hmul : ins.op.isMul = true)
    (hM : Multiplying ins k s.mulHi (s.mulLo i) s.mulSft1 low) (hk : k < 16) :
    ∃ low', Multiplying ins (k + 1) (s.partPrdtHiNxt i) (s.partPrdtLoNxt i)
      (s.partPrdtSft1Nxt i) low' := by
  have hres := aluRes_toInt h hi hmul hM hk.le
  rw [partPrdtLoNxt_eq, partPrdtSft1Nxt_eq]
  exact ⟨_, hM.next hk hres⟩

/-- The result that is read in the last round. -/
theorem mulRes_eq (h : s.InRound 16) (hi : i.Presents ins) (hmul : ins.op.isMul = true)
    (hM : Multiplying ins 16 s.mulHi (s.mulLo i) s.mulSft1 low) : s.mulRes i = ins.result := by
  have hres := aluRes_toInt h hi hmul hM le_rfl
  have hhigh := hM.high_result hres
  have hlow := hM.low_result
  rw [mulLo, h.cycle0th_iff, if_neg (by simp)] at hlow
  rw [mulRes, hi.info, hlow, hhigh, MulDivInstr.result]
  revert hmul
  cases ins.op <;> simp [MulDivOp.isMul]

/-- After the last round the low word of the product is spread over the registers. -/
theorem lowWord_of_last (hM : Multiplying ins 16 s.mulHi (s.mulLo i) s.mulSft1 low) :
    (s.partPrdtLoNxt i).setWidth 31 ++ BitVec.ofBool (s.partPrdtSft1Nxt i) =
      BitVec.ofInt 32 (ins.x * ins.y) := by
  rw [partPrdtLoNxt_eq, partPrdtSft1Nxt_eq]
  exact hM.spread_result _

end MulDivState

end E203
end AcceleratorSoc
