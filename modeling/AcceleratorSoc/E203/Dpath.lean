import AcceleratorSoc.Arith.Words
import Mathlib.Tactic.NormNum

/-!
# The shared datapath of the execution unit

{lit}`e203_exu_alu_dpath` has one adder, one left shifter and one row of logic gates for
the regular instructions, the branches, the load/store unit and the multiplier.  The
requestors' operands and operation bits are merged by masks, and so are the results.
Right shifts go through the left shifter bit-reversed, and comparisons through the adder
as subtractions.

Main results:

- Theorem {lit}`alu_res_eq`: a regular request gets its operation on the two operands.
- Theorem {lit}`bjp_res_eq`, {lit}`bjp_link_eq`: a branch gets its comparison and a jump its
  link address.
- Theorem {lit}`agu_res_eq`: the load/store unit gets its address sum and the updates of
  the atomic instructions.
- Theorem {lit}`dpath_results`: all of them together.
-/

namespace AcceleratorSoc
namespace E203

/-- A data word of the core. -/
abbrev XWord :=
  BitVec 32

/-- Gate a bus with a select wire: {lit}`({W{sel}} & x)`. -/
def mask {w : Nat} (sel : Bool) (x : BitVec w) : BitVec w :=
  if sel then x else 0

/-- A selected bus passes. -/
@[simp]
theorem mask_true {w : Nat} (x : BitVec w) : mask true x = x :=
  rfl

/-- A bus that is not selected is zero. -/
@[simp]
theorem mask_false {w : Nat} (x : BitVec w) : mask false x = 0 :=
  rfl

/-- The adder with its input gates.  A subtraction inverts the second operand and feeds
a carry. -/
def adder (op1 op2 : BitVec 35) (add sub : Bool) : BitVec 35 :=
  let adderAddsub := add || sub
  let adderIn1 := mask adderAddsub op1
  let adderIn2 := mask adderAddsub (if sub then ~~~op2 else op2)
  let adderCin := mask (adderAddsub && sub) (1 : BitVec 35)
  adderIn1 + adderIn2 + adderCin

/-- Without inversion and carry the adder adds. -/
@[simp]
theorem adder_add (op1 op2 : BitVec 35) : adder op1 op2 true false = op1 + op2 := by
  simp [adder]

/-- With both it subtracts. -/
@[simp]
theorem adder_sub (op1 op2 : BitVec 35) (add : Bool) :
    adder op1 op2 add true = op1 - op2 := by
  simp only [adder, Bool.or_true, Bool.true_and, mask_true, if_true]
  rw [BitVec.sub_eq_add_neg, BitVec.neg_eq_not_add, BitVec.add_assoc]
  rfl

/-! ## Requests -/

/-- Request of the regular instructions. -/
structure AluReq where
  req : Bool
  add : Bool
  sub : Bool
  xor : Bool
  sll : Bool
  srl : Bool
  sra : Bool
  or : Bool
  and : Bool
  slt : Bool
  sltu : Bool
  lui : Bool
  op1 : XWord
  op2 : XWord

/-- Request of the branch and jump instructions. -/
structure BjpReq where
  req : Bool
  op1 : XWord
  op2 : XWord
  cmpEq : Bool
  cmpNe : Bool
  cmpLt : Bool
  cmpGt : Bool
  cmpLtu : Bool
  cmpGtu : Bool
  add : Bool

/-- Request of the load/store unit. -/
structure AguReq where
  req : Bool
  op1 : XWord
  op2 : XWord
  swap : Bool
  add : Bool
  and : Bool
  or : Bool
  xor : Bool
  max : Bool
  min : Bool
  maxu : Bool
  minu : Bool

/-- Request of the multiplier and divider, with operands as wide as the adder. -/
structure MuldivReq where
  req : Bool
  op1 : BitVec 35
  op2 : BitVec 35
  add : Bool
  sub : Bool

/-- The four requestors in one cycle. -/
structure DpathInput where
  alu : AluReq
  bjp : BjpReq
  agu : AguReq
  muldiv : MuldivReq

namespace DpathInput

/-! ## Merged operands and operation bits -/

/-- {lit}`mux_op1`: first operand of the requestors other than the multiplier. -/
def muxOp1 (i : DpathInput) : XWord :=
  mask i.alu.req i.alu.op1 ||| mask i.bjp.req i.bjp.op1 ||| mask i.agu.req i.agu.op1

/-- {lit}`mux_op2`: their second operand. -/
def muxOp2 (i : DpathInput) : XWord :=
  mask i.alu.req i.alu.op2 ||| mask i.bjp.req i.bjp.op2 ||| mask i.agu.req i.agu.op2

/-- Signed maximum, for the load/store unit. -/
def opMax (i : DpathInput) : Bool :=
  i.agu.req && i.agu.max

/-- Signed minimum, likewise. -/
def opMin (i : DpathInput) : Bool :=
  i.agu.req && i.agu.min

/-- Unsigned maximum, likewise. -/
def opMaxu (i : DpathInput) : Bool :=
  i.agu.req && i.agu.maxu

/-- Unsigned minimum, likewise. -/
def opMinu (i : DpathInput) : Bool :=
  i.agu.req && i.agu.minu

/-- Sums: of the regular instructions, of a link address, of an address. -/
def opAdd (i : DpathInput) : Bool :=
  i.alu.req && i.alu.add || i.bjp.req && i.bjp.add || i.agu.req && i.agu.add

/-- Only the regular instructions subtract. -/
def opSub (i : DpathInput) : Bool :=
  i.alu.req && i.alu.sub

/-- Or, of two requestors. -/
def opOr (i : DpathInput) : Bool :=
  i.alu.req && i.alu.or || i.agu.req && i.agu.or

/-- Exclusive or, of two requestors. -/
def opXor (i : DpathInput) : Bool :=
  i.alu.req && i.alu.xor || i.agu.req && i.agu.xor

/-- And, of two requestors. -/
def opAnd (i : DpathInput) : Bool :=
  i.alu.req && i.alu.and || i.agu.req && i.agu.and

/-- Left shift. -/
def opSll (i : DpathInput) : Bool :=
  i.alu.req && i.alu.sll

/-- Logical right shift. -/
def opSrl (i : DpathInput) : Bool :=
  i.alu.req && i.alu.srl

/-- Arithmetic right shift. -/
def opSra (i : DpathInput) : Bool :=
  i.alu.req && i.alu.sra

/-- Signed comparison into a register. -/
def opSlt (i : DpathInput) : Bool :=
  i.alu.req && i.alu.slt

/-- Unsigned comparison into a register. -/
def opSltu (i : DpathInput) : Bool :=
  i.alu.req && i.alu.sltu

/-- The second operand passes unchanged: an upper immediate, or an atomic swap. -/
def opMvop2 (i : DpathInput) : Bool :=
  i.alu.req && i.alu.lui || i.agu.req && i.agu.swap

/-- {lit}`BEQ`. -/
def opCmpEq (i : DpathInput) : Bool :=
  i.bjp.req && i.bjp.cmpEq

/-- {lit}`BNE`. -/
def opCmpNe (i : DpathInput) : Bool :=
  i.bjp.req && i.bjp.cmpNe

/-- {lit}`BLT`. -/
def opCmpLt (i : DpathInput) : Bool :=
  i.bjp.req && i.bjp.cmpLt

/-- {lit}`BGE`. -/
def opCmpGt (i : DpathInput) : Bool :=
  i.bjp.req && i.bjp.cmpGt

/-- {lit}`BLTU`. -/
def opCmpLtu (i : DpathInput) : Bool :=
  i.bjp.req && i.bjp.cmpLtu

/-- {lit}`BGEU`. -/
def opCmpGtu (i : DpathInput) : Bool :=
  i.bjp.req && i.bjp.cmpGtu

/-! ## Shifter -/

/-- One of the three shifts. -/
def opShift (i : DpathInput) : Bool :=
  i.opSra || i.opSll || i.opSrl

/-- Only the regular instructions use the shifter; a right shift is reversed. -/
def shifterIn1 (i : DpathInput) : XWord :=
  mask i.opShift (if i.opSra || i.opSrl then i.alu.op1.reverse else i.alu.op1)

/-- The amount is taken modulo thirty-two. -/
def shifterIn2 (i : DpathInput) : BitVec 5 :=
  mask i.opShift (i.alu.op2.setWidth 5)

/-- The shifter shifts to the left. -/
def shifterRes (i : DpathInput) : XWord :=
  i.shifterIn1 <<< i.shifterIn2

/-- A right shift is reversed back. -/
def srlRes (i : DpathInput) : XWord :=
  i.shifterRes.reverse

/-- The places that an arithmetic shift keeps. -/
def effMask (i : DpathInput) : XWord :=
  ~~~(0 : XWord) >>> i.shifterIn2

/-- The places that it vacates get the sign. -/
def sraRes (i : DpathInput) : XWord :=
  (i.srlRes &&& i.effMask) ||| (mask (i.alu.op1.getLsbD 31) (~~~(0 : XWord)) &&& ~~~i.effMask)

/-! ## Adder -/

/-- {lit}`op_unsigned`: the operands are extended by zeros. -/
def opUnsigned (i : DpathInput) : Bool :=
  i.opSltu || i.opCmpLtu || i.opCmpGtu || i.opMaxu || i.opMinu

/-- An operand of a unit other than the multiplier, extended to the adder's width. -/
def miscAdderOp (i : DpathInput) (op : XWord) : BitVec 35 :=
  mask (!i.opUnsigned && op.getLsbD 31) (~~~(0 : BitVec 3)) ++ op

/-- The adder adds. -/
def adderAdd (i : DpathInput) : Bool :=
  if i.muldiv.req then i.muldiv.add else i.opAdd

/-- The adder subtracts: every comparison but for equality is a subtraction. -/
def adderSub (i : DpathInput) : Bool :=
  if i.muldiv.req then i.muldiv.sub
  else i.opSub || i.opCmpLt || i.opCmpGt || i.opCmpLtu || i.opCmpGtu || i.opMax || i.opMaxu ||
    i.opMin || i.opMinu || i.opSlt || i.opSltu

/-- What the adder returns. -/
def adderRes (i : DpathInput) : BitVec 35 :=
  adder (if i.muldiv.req then i.muldiv.op1 else i.miscAdderOp i.muxOp1)
    (if i.muldiv.req then i.muldiv.op2 else i.miscAdderOp i.muxOp2) i.adderAdd i.adderSub

/-! ## Logic and comparisons -/

/-- The gates for exclusive or, which compare for equality as well. -/
def xorerRes (i : DpathInput) : XWord :=
  mask (i.opXor || i.opCmpEq || i.opCmpNe) i.muxOp1 ^^^
    mask (i.opXor || i.opCmpEq || i.opCmpNe) i.muxOp2

/-- The operands differ. -/
def neq (i : DpathInput) : Bool :=
  i.xorerRes != 0

/-- Named after the strict comparison; it is up for equal operands as well. -/
def op1GtOp2 (i : DpathInput) : Bool :=
  !i.adderRes.getLsbD 32

/-- Whether the condition of the branch holds. -/
def cmpRes (i : DpathInput) : Bool :=
  i.opCmpEq && !i.neq || i.opCmpNe && i.neq || i.opCmpLt && i.adderRes.getLsbD 32 ||
    i.opCmpGt && i.op1GtOp2 || i.opCmpLtu && i.adderRes.getLsbD 32 ||
    i.opCmpGtu && i.op1GtOp2

/-- The result of a comparison into a register. -/
def slttuRes (i : DpathInput) : XWord :=
  if (i.opSlt || i.opSltu) && i.adderRes.getLsbD 32 then 1 else 0

/-- The operand that a maximum or minimum selects. -/
def maxminRes (i : DpathInput) : XWord :=
  if (i.opMax || i.opMaxu) && i.op1GtOp2 || (i.opMin || i.opMinu) && !i.op1GtOp2 then i.muxOp1
  else i.muxOp2

/-! ## Results -/

/-- The results of all units, of which one is selected. -/
def dpathRes (i : DpathInput) : XWord :=
  mask i.opOr (i.muxOp1 ||| i.muxOp2) ||| mask i.opAnd (i.muxOp1 &&& i.muxOp2) |||
    mask i.opXor i.xorerRes ||| mask (i.opAdd || i.opSub) (i.adderRes.setWidth 32) |||
    mask i.opSrl i.srlRes ||| mask i.opSll i.shifterRes ||| mask i.opSra i.sraRes |||
    mask i.opMvop2 i.muxOp2 ||| mask (i.opSlt || i.opSltu) i.slttuRes |||
    mask (i.opMax || i.opMaxu || i.opMin || i.opMinu) i.maxminRes

/-- {lit}`alu_req_alu_res`. -/
def aluRes (i : DpathInput) : XWord :=
  i.dpathRes

/-- {lit}`agu_req_alu_res`. -/
def aguRes (i : DpathInput) : XWord :=
  i.dpathRes

/-- {lit}`bjp_req_alu_add_res`. -/
def bjpAddRes (i : DpathInput) : XWord :=
  i.dpathRes

/-- {lit}`bjp_req_alu_cmp_res`. -/
def bjpCmpRes (i : DpathInput) : Bool :=
  i.cmpRes

/-- {lit}`muldiv_req_alu_res`. -/
def muldivRes (i : DpathInput) : BitVec 35 :=
  i.adderRes

end DpathInput

/-! ## The adder on extended operands -/

/-- An operand extended to the adder's width keeps its value. -/
theorem extend_toInt (signed : Bool) (x : XWord) :
    (mask (signed && x.getLsbD 31) (~~~(0 : BitVec 3)) ++ x).toInt =
      if signed then x.toInt else x.toNat := by
  rw [BitVec.toInt_append, BitVec.toInt_eq_msb_cond, BitVec.msb_eq_getLsbD_last]
  cases signed <;> cases x.getLsbD 31 <;> simp
  omega

/-- A short value has its sign in bit 32. -/
theorem getLsbD_of_short {z : BitVec 35} (hlo : -2 ^ 32 ≤ z.toInt) (hhi : z.toInt < 2 ^ 32) :
    z.getLsbD 32 = decide (z.toInt < 0) := by
  have hcond := BitVec.toInt_eq_toNat_cond z
  have hlt := z.isLt
  rw [BitVec.getLsbD, Nat.testBit_eq_decide_div_mod_eq, decide_eq_decide]
  split_ifs at hcond <;> omega

/-- The difference of two extended operands shows their order in bit 32. -/
theorem extend_sub_getLsbD (signed : Bool) (a b : XWord) :
    ((mask (signed && a.getLsbD 31) (~~~(0 : BitVec 3)) ++ a) -
        (mask (signed && b.getLsbD 31) (~~~(0 : BitVec 3)) ++ b)).getLsbD 32 =
      if signed then a.slt b else a.ult b := by
  have ha := extend_toInt signed a
  have hb := extend_toInt signed b
  have hbounds : -2 ^ 32 < (if signed then a.toInt else a.toNat) -
      (if signed then b.toInt else b.toNat) ∧
      (if signed then a.toInt else a.toNat) - (if signed then b.toInt else b.toNat) < 2 ^ 32 := by
    have hale := BitVec.le_two_mul_toInt (x := a)
    have halt := BitVec.two_mul_toInt_lt (x := a)
    have hble := BitVec.le_two_mul_toInt (x := b)
    have hblt := BitVec.two_mul_toInt_lt (x := b)
    have hau := a.isLt
    have hbu := b.isLt
    cases signed <;> simp <;> omega
  have hsub := Arith.toInt_sub_of_short
    (x := mask (signed && a.getLsbD 31) (~~~(0 : BitVec 3)) ++ a)
    (y := mask (signed && b.getLsbD 31) (~~~(0 : BitVec 3)) ++ b)
    (by rw [ha, hb]; omega) (by rw [ha, hb]; omega)
  rw [getLsbD_of_short (by rw [hsub, ha, hb]; omega) (by rw [hsub, ha, hb]; omega), hsub, ha, hb]
  cases signed
  · simp [BitVec.ult]
  · simp [BitVec.slt]

/-- The low word of a sum or difference does not depend on the extension. -/
theorem setWidth_extend_add (x y : BitVec 3) (a b : XWord) :
    ((x ++ a) + (y ++ b)).setWidth 32 = a + b := by
  rw [BitVec.setWidth_add _ _ (by omega), BitVec.setWidth_append, BitVec.setWidth_append]
  simp

/-- The same for a difference. -/
theorem setWidth_extend_sub (x y : BitVec 3) (a b : XWord) :
    ((x ++ a) - (y ++ b)).setWidth 32 = a - b := by
  rw [BitVec.sub_eq_add_neg, BitVec.setWidth_add _ _ (by omega), BitVec.setWidth_neg_of_le (by omega),
    BitVec.setWidth_append, BitVec.setWidth_append, BitVec.sub_eq_add_neg]
  simp

/-! ## The shifter -/

/-- A right shift through the left shifter. -/
theorem reverse_shiftLeft_reverse (x : XWord) (n : Nat) :
    (x.reverse <<< n).reverse = x >>> n := by
  apply BitVec.eq_of_getLsbD_eq
  intro k hk
  rw [BitVec.getLsbD_reverse, BitVec.getMsbD_eq_getLsbD, BitVec.getLsbD_shiftLeft,
    BitVec.getLsbD_reverse, BitVec.getMsbD_eq_getLsbD, BitVec.getLsbD_ushiftRight]
  grind

/-- An arithmetic shift is a logical one with the vacated places filled by the sign. -/
theorem sra_of_srl (x : XWord) (n : Nat) :
    (x >>> n &&& (~~~(0 : XWord)) >>> n) |||
        (mask (x.getLsbD 31) (~~~(0 : XWord)) &&& ~~~((~~~(0 : XWord)) >>> n)) =
      x.sshiftRight n := by
  apply BitVec.eq_of_getLsbD_eq
  intro k hk
  have hmsb : x.msb = x.getLsbD 31 := BitVec.msb_eq_getLsbD_last x
  have hones : ∀ j, (~~~(0 : XWord)).getLsbD j = decide (j < 32) := by
    intro j
    exact BitVec.getLsbD_allOnes
  have hzero : (0 : XWord).getLsbD k = false := BitVec.getLsbD_zero
  rw [BitVec.getLsbD_sshiftRight, hmsb, BitVec.getLsbD_or, BitVec.getLsbD_and,
    BitVec.getLsbD_and, BitVec.getLsbD_not, BitVec.getLsbD_ushiftRight,
    BitVec.getLsbD_ushiftRight, hones]
  cases x.getLsbD 31
  · rw [mask_false, hzero]
    grind
  · rw [mask_true, hones]
    grind

/-! ## What the requestors get -/

/-- Operations of the regular instructions. -/
inductive AluOp where
  | add
  | sub
  | xor
  | sll
  | srl
  | sra
  | or
  | and
  | slt
  | sltu
  | lui
deriving DecidableEq

namespace AluOp

/-- The request wires of an operation. -/
def request (op : AluOp) (a b : XWord) : AluReq where
  req := true
  add := decide (op = .add)
  sub := decide (op = .sub)
  xor := decide (op = .xor)
  sll := decide (op = .sll)
  srl := decide (op = .srl)
  sra := decide (op = .sra)
  or := decide (op = .or)
  and := decide (op = .and)
  slt := decide (op = .slt)
  sltu := decide (op = .sltu)
  lui := decide (op = .lui)
  op1 := a
  op2 := b

/-- What the instruction set says about the operation.  Shift amounts are taken modulo
thirty-two. -/
def eval (op : AluOp) (a b : XWord) : XWord :=
  match op with
  | .add => a + b
  | .sub => a - b
  | .xor => a ^^^ b
  | .sll => a <<< (b.toNat % 32)
  | .srl => a >>> (b.toNat % 32)
  | .sra => a.sshiftRight (b.toNat % 32)
  | .or => a ||| b
  | .and => a &&& b
  | .slt => if a.slt b then 1 else 0
  | .sltu => if a.ult b then 1 else 0
  | .lui => b

end AluOp

/-- Conditions of the branches.  The two {lit}`gt` wires carry "greater or equal". -/
inductive BjpCmp where
  | eq
  | ne
  | lt
  | gt
  | ltu
  | gtu
deriving DecidableEq

namespace BjpCmp

/-- The request wires of a branch. -/
def request (op : BjpCmp) (a b : XWord) : BjpReq where
  req := true
  op1 := a
  op2 := b
  cmpEq := decide (op = .eq)
  cmpNe := decide (op = .ne)
  cmpLt := decide (op = .lt)
  cmpGt := decide (op = .gt)
  cmpLtu := decide (op = .ltu)
  cmpGtu := decide (op = .gtu)
  add := false

/-- Whether the branch is taken. -/
def eval (op : BjpCmp) (a b : XWord) : Bool :=
  match op with
  | .eq => a == b
  | .ne => a != b
  | .lt => a.slt b
  | .gt => !a.slt b
  | .ltu => a.ult b
  | .gtu => !a.ult b

end BjpCmp

/-- The request wires of a jump: {lit}`e203_exu_alu_bjp` asks for the address of the next
instruction, which is two or four bytes on. -/
def linkRequest (pc : XWord) (rv32 : Bool) : BjpReq where
  req := true
  op1 := pc
  op2 := if rv32 then 4 else 2
  cmpEq := false
  cmpNe := false
  cmpLt := false
  cmpGt := false
  cmpLtu := false
  cmpGtu := false
  add := true

/-- Operations of the load/store unit: the address sum and the atomic updates. -/
inductive AguOp where
  | swap
  | add
  | and
  | or
  | xor
  | max
  | min
  | maxu
  | minu
deriving DecidableEq

namespace AguOp

/-- The request wires of an operation. -/
def request (op : AguOp) (a b : XWord) : AguReq where
  req := true
  op1 := a
  op2 := b
  swap := decide (op = .swap)
  add := decide (op = .add)
  and := decide (op = .and)
  or := decide (op = .or)
  xor := decide (op = .xor)
  max := decide (op = .max)
  min := decide (op = .min)
  maxu := decide (op = .maxu)
  minu := decide (op = .minu)

/-- What the instruction set says about the operation. -/
def eval (op : AguOp) (a b : XWord) : XWord :=
  match op with
  | .swap => b
  | .add => a + b
  | .and => a &&& b
  | .or => a ||| b
  | .xor => a ^^^ b
  | .max => if a.slt b then b else a
  | .min => if a.slt b then a else b
  | .maxu => if a.ult b then b else a
  | .minu => if a.ult b then a else b

end AguOp

namespace DpathInput

/-- Only the regular instructions use the datapath. -/
structure OnlyAlu (i : DpathInput) : Prop where
  bjp : i.bjp.req = false
  agu : i.agu.req = false
  muldiv : i.muldiv.req = false

/-- Only a branch uses the datapath. -/
structure OnlyBjp (i : DpathInput) : Prop where
  alu : i.alu.req = false
  agu : i.agu.req = false
  muldiv : i.muldiv.req = false

/-- Only the load/store unit uses the datapath. -/
structure OnlyAgu (i : DpathInput) : Prop where
  alu : i.alu.req = false
  bjp : i.bjp.req = false
  muldiv : i.muldiv.req = false

variable {i : DpathInput} {a b : XWord}

/-- The adder of a unit other than the multiplier. -/
private theorem adderRes_misc (hmuldiv : i.muldiv.req = false) :
    i.adderRes = adder (i.miscAdderOp i.muxOp1) (i.miscAdderOp i.muxOp2) i.opAdd i.adderSub := by
  simp [adderRes, adderAdd, hmuldiv]

/-- The operands of a regular request pass the merge. -/
theorem alu_mux (h : i.OnlyAlu) {op : AluOp} (halu : i.alu = op.request a b) :
    i.muxOp1 = a ∧ i.muxOp2 = b := by
  simp [muxOp1, muxOp2, h.bjp, h.agu, halu, AluOp.request]

/-- So do those of a branch. -/
theorem bjp_mux (h : i.OnlyBjp) {op : BjpCmp} (hbjp : i.bjp = op.request a b) :
    i.muxOp1 = a ∧ i.muxOp2 = b := by
  simp [muxOp1, muxOp2, h.alu, h.agu, hbjp, BjpCmp.request]

/-- So do those of the load/store unit. -/
theorem agu_mux (h : i.OnlyAgu) {op : AguOp} (hagu : i.agu = op.request a b) :
    i.muxOp1 = a ∧ i.muxOp2 = b := by
  simp [muxOp1, muxOp2, h.alu, h.bjp, hagu, AguOp.request]

/-- The adder's low word in an addition. -/
private theorem adderRes_add (hmuldiv : i.muldiv.req = false) (hadd : i.opAdd = true)
    (hsub : i.adderSub = false) : i.adderRes.setWidth 32 = i.muxOp1 + i.muxOp2 := by
  rw [adderRes_misc hmuldiv, hadd, hsub, adder_add, miscAdderOp, miscAdderOp,
    setWidth_extend_add]

/-- The adder's low word in a subtraction. -/
private theorem adderRes_sub (hmuldiv : i.muldiv.req = false) (hsub : i.adderSub = true) :
    i.adderRes.setWidth 32 = i.muxOp1 - i.muxOp2 := by
  rw [adderRes_misc hmuldiv, hsub, adder_sub, miscAdderOp, miscAdderOp, setWidth_extend_sub]

/-- Bit 32 of the adder in a subtraction compares the operands. -/
private theorem adderRes_lt (hmuldiv : i.muldiv.req = false) (hsub : i.adderSub = true) :
    i.adderRes[32] =
      if i.opUnsigned then i.muxOp1.ult i.muxOp2 else i.muxOp1.slt i.muxOp2 := by
  rw [← BitVec.getLsbD_eq_getElem, adderRes_misc hmuldiv, hsub, adder_sub, miscAdderOp,
    miscAdderOp, extend_sub_getLsbD]
  cases i.opUnsigned <;> rfl

/-- The shifter moves by the low five bits of the second operand. -/
private theorem shifterRes_eq (hshift : i.opShift = true) :
    i.shifterRes = (if i.opSra || i.opSrl then i.alu.op1.reverse else i.alu.op1) <<<
      (i.alu.op2.toNat % 32) := by
  rw [shifterRes, shifterIn1, shifterIn2, hshift, mask_true, mask_true, BitVec.shiftLeft_eq',
    BitVec.toNat_setWidth]

/-- The mask of the places that are kept, likewise. -/
private theorem effMask_eq (hshift : i.opShift = true) :
    i.effMask = ~~~(0 : XWord) >>> (i.alu.op2.toNat % 32) := by
  rw [effMask, shifterIn2, hshift, mask_true, BitVec.ushiftRight_eq', BitVec.toNat_setWidth]

/-- A regular request gets its operation. -/
theorem alu_res_eq (h : i.OnlyAlu) {op : AluOp} (halu : i.alu = op.request a b) :
    i.aluRes = op.eval a b := by
  obtain ⟨hop1, hop2⟩ := alu_mux h halu
  have hbjp := h.bjp
  have hagu := h.agu
  have hmuldiv := h.muldiv
  have hshift : i.alu.op1 = a ∧ i.alu.op2 = b := by
    simp [halu, AluOp.request]
  cases op
  -- The masks leave the result of one unit; then that unit is evaluated.
  all_goals
    simp [aluRes, dpathRes, opOr, opAnd, opXor, opAdd, opSub, opSrl, opSll, opSra, opMvop2, opSlt,
      opSltu, opMax, opMaxu, opMin, opMinu, halu, AluOp.request, hbjp, hagu, AluOp.eval, hop1,
      hop2]
  case add =>
    rw [adderRes_add hmuldiv (by simp [opAdd, halu, AluOp.request])
      (by simp [adderSub, opSub, opCmpLt, opCmpGt, opCmpLtu, opCmpGtu, opMax, opMaxu, opMin, opMinu,
        opSlt, opSltu, halu, AluOp.request, hbjp, hagu, hmuldiv]), hop1, hop2]
  case sub =>
    rw [adderRes_sub hmuldiv (by simp [adderSub, opSub, halu, AluOp.request, hmuldiv]), hop1, hop2]
  case xor =>
    simp [xorerRes, opXor, halu, AluOp.request, hop1, hop2]
  case sll =>
    rw [shifterRes_eq (by simp [opShift, opSll, halu, AluOp.request]), hshift.1, hshift.2,
      if_neg (by simp [opSra, opSrl, halu, AluOp.request])]
  case srl =>
    rw [srlRes, shifterRes_eq (by simp [opShift, opSrl, halu, AluOp.request]), hshift.1, hshift.2,
      if_pos (by simp [opSrl, halu, AluOp.request]), reverse_shiftLeft_reverse]
  case sra =>
    have hsel : i.opShift = true := by
      simp [opShift, opSra, halu, AluOp.request]
    rw [sraRes, effMask_eq hsel, srlRes, shifterRes_eq hsel, hshift.1, hshift.2,
      if_pos (by simp [opSra, halu, AluOp.request]), reverse_shiftLeft_reverse, sra_of_srl]
  case slt =>
    have hlt : i.adderRes[32] = a.slt b := by
      rw [adderRes_lt hmuldiv (by simp [adderSub, opSlt, halu, AluOp.request, hmuldiv]),
        if_neg (by simp [opUnsigned, opSltu, opCmpLtu, opCmpGtu, opMaxu, opMinu, halu,
          AluOp.request, hbjp, hagu]), hop1, hop2]
    simp [slttuRes, opSlt, halu, AluOp.request, hlt]
  case sltu =>
    have hlt : i.adderRes[32] = a.ult b := by
      rw [adderRes_lt hmuldiv (by simp [adderSub, opSltu, halu, AluOp.request, hmuldiv]),
        if_pos (by simp [opUnsigned, opSltu, halu, AluOp.request]), hop1, hop2]
    simp [slttuRes, opSltu, halu, AluOp.request, hlt]

/-- The exclusive or of the operands is zero when they are equal. -/
private theorem neq_eq (hcmp : i.opCmpEq = true ∨ i.opCmpNe = true) :
    i.neq = (i.muxOp1 != i.muxOp2) := by
  have hsel : (i.opXor || i.opCmpEq || i.opCmpNe) = true := by
    rcases hcmp with hcmp | hcmp <;> simp [hcmp]
  rw [neq, xorerRes, hsel, mask_true, mask_true, Bool.eq_iff_iff, bne_iff_ne, bne_iff_ne]
  exact not_congr BitVec.xor_eq_zero_iff

/-- A branch gets its comparison. -/
theorem bjp_res_eq (h : i.OnlyBjp) {op : BjpCmp} (hbjp : i.bjp = op.request a b) :
    i.bjpCmpRes = op.eval a b := by
  obtain ⟨hop1, hop2⟩ := bjp_mux h hbjp
  have halu := h.alu
  have hmuldiv := h.muldiv
  have hagu := h.agu
  have heq : op = .eq ∨ op = .ne → i.neq = (a != b) := by
    rintro (rfl | rfl)
    · rw [neq_eq (Or.inl (by simp [opCmpEq, hbjp, BjpCmp.request])), hop1, hop2]
    · rw [neq_eq (Or.inr (by simp [opCmpNe, hbjp, BjpCmp.request])), hop1, hop2]
  have hlt : op ≠ .eq → op ≠ .ne → i.adderRes[32] =
      if op = .ltu ∨ op = .gtu then a.ult b else a.slt b := by
    intro hne hne'
    rw [adderRes_lt hmuldiv, hop1, hop2]
    · cases op <;> simp_all [opUnsigned, opSltu, opCmpLtu, opCmpGtu, opMaxu, opMinu,
        BjpCmp.request]
    · cases op <;> simp_all [adderSub, opCmpLt, opCmpGt, opCmpLtu, opCmpGtu, BjpCmp.request]
  cases op <;>
    simp_all [bjpCmpRes, cmpRes, op1GtOp2, opCmpEq, opCmpNe, opCmpLt, opCmpGt, opCmpLtu,
      opCmpGtu, BjpCmp.request, BjpCmp.eval, bne]

/-- A jump gets its link address. -/
theorem bjp_link_eq (h : i.OnlyBjp) {rv32 : Bool} (hbjp : i.bjp = linkRequest a rv32) :
    i.bjpAddRes = a + if rv32 then 4 else 2 := by
  have halu := h.alu
  have hagu := h.agu
  have hop1 : i.muxOp1 = a := by
    simp [muxOp1, halu, hagu, hbjp, linkRequest]
  have hop2 : i.muxOp2 = if rv32 then 4 else 2 := by
    simp [muxOp2, halu, hagu, hbjp, linkRequest]
  have hres : i.bjpAddRes = i.adderRes.setWidth 32 := by
    simp [bjpAddRes, dpathRes, opOr, opAnd, opXor, opAdd, opSub, opSrl, opSll, opSra, opMvop2,
      opSlt, opSltu, opMax, opMaxu, opMin, opMinu, halu, hagu, hbjp, linkRequest]
  rw [hres, adderRes_add h.muldiv (by simp [opAdd, hbjp, linkRequest])
    (by simp [adderSub, opSub, opCmpLt, opCmpGt, opCmpLtu, opCmpGtu, opMax, opMaxu, opMin, opMinu,
      opSlt, opSltu, hbjp, linkRequest, halu, hagu, h.muldiv]), hop1, hop2]

/-- The load/store unit gets its operation. -/
theorem agu_res_eq (h : i.OnlyAgu) {op : AguOp} (hagu : i.agu = op.request a b) :
    i.aguRes = op.eval a b := by
  obtain ⟨hop1, hop2⟩ := agu_mux h hagu
  have halu := h.alu
  have hbjp := h.bjp
  have hmuldiv := h.muldiv
  have hlt : op = .max ∨ op = .min ∨ op = .maxu ∨ op = .minu → i.adderRes[32] =
      if op = .maxu ∨ op = .minu then a.ult b else a.slt b := by
    intro hop
    rw [adderRes_lt hmuldiv, hop1, hop2]
    · cases op <;> simp_all [opUnsigned, opSltu, opCmpLtu, opCmpGtu, opMaxu, opMinu,
        AguOp.request]
    · rcases hop with rfl | rfl | rfl | rfl <;>
        simp [adderSub, opMax, opMin, opMaxu, opMinu, hagu, AguOp.request, hmuldiv]
  cases op
  -- The masks leave the result of one unit; then that unit is evaluated.
  all_goals
    simp [aguRes, dpathRes, opOr, opAnd, opXor, opAdd, opSub, opSrl, opSll, opSra, opMvop2, opSlt,
      opSltu, opMax, opMaxu, opMin, opMinu, hagu, AguOp.request, halu, hbjp, AguOp.eval, hop1,
      hop2]
  case add =>
    rw [adderRes_add hmuldiv (by simp [opAdd, hagu, AguOp.request])
      (by simp [adderSub, opSub, opCmpLt, opCmpGt, opCmpLtu, opCmpGtu, opMax, opMaxu, opMin, opMinu,
        opSlt, opSltu, hagu, AguOp.request, halu, hbjp, hmuldiv]), hop1, hop2]
  case xor =>
    simp [xorerRes, opXor, hagu, AguOp.request, hop1, hop2]
  case max =>
    cases hcmp : a.slt b <;>
      simp [maxminRes, op1GtOp2, opMax, opMin, opMinu, hagu, AguOp.request, hop1, hop2, hlt, hcmp]
  case maxu =>
    cases hcmp : a.ult b <;>
      simp [maxminRes, op1GtOp2, opMaxu, opMin, opMinu, hagu, AguOp.request, hop1, hop2, hlt, hcmp]
  all_goals
    simp [maxminRes, op1GtOp2, opMax, opMaxu, opMin, opMinu, hagu, AguOp.request, hop1, hop2, hlt]

end DpathInput

/-- Whichever unit uses the datapath alone, it gets what the instruction set says about
its operation on its operands, and a jump its link address. -/
theorem dpath_results (i : DpathInput) (a b : XWord) :
    (i.OnlyAlu → ∀ op : AluOp, i.alu = op.request a b → i.aluRes = op.eval a b) ∧
      (i.OnlyBjp → ∀ op : BjpCmp, i.bjp = op.request a b → i.bjpCmpRes = op.eval a b) ∧
      (i.OnlyAgu → ∀ op : AguOp, i.agu = op.request a b → i.aguRes = op.eval a b) ∧
      (i.OnlyBjp → ∀ rv32 : Bool, i.bjp = linkRequest a rv32 →
        i.bjpAddRes = a + if rv32 then 4 else 2) :=
  ⟨fun h _ halu => DpathInput.alu_res_eq h halu, fun h _ hbjp => DpathInput.bjp_res_eq h hbjp,
    fun h _ hagu => DpathInput.agu_res_eq h hagu,
    fun h _ hbjp => DpathInput.bjp_link_eq h hbjp⟩

/-- A regular request beside silent units. -/
def aluAlone (op : AluOp) (a b : XWord) : DpathInput where
  alu := op.request a b
  bjp := { BjpCmp.eq.request a b with req := false }
  agu := { AguOp.add.request a b with req := false }
  muldiv := { req := false, op1 := 0, op2 := 0, add := false, sub := false }

/-- The datapath shifts minus sixteen right by two. -/
theorem dpath_results_sra : (aluAlone .sra (-16) 2).aluRes = -4 :=
  ((dpath_results (aluAlone .sra (-16) 2) (-16) 2).1 ⟨rfl, rfl, rfl⟩ .sra rfl).trans
    (by decide)

end E203
end AcceleratorSoc
