import AcceleratorSoc.E203.Dpath

/-!
# The multiply and divide unit

{lit}`e203_exu_alu_muldiv` multiplies in seventeen cycles by radix-four Booth recoding and
divides in thirty-three by signed non-restoring division, with up to three more for the
check and the correction of the remainder.  It has no adder and no wide registers of its
own: it uses the adder and the two shared buffers of the datapath.

An instruction is presented until it is taken or flushed.  The fetch unit marks the second
instruction of a pair such as {lit}`MULH` and {lit}`MUL` on the same operands; its result is
then read off the registers that the first one left.  Division by zero and the overflow of
the signed division are answered at once as well.

Main results:

- Definition {lit}`MulDivState.request`: what the unit asks of the adder in a cycle.
- Definition {lit}`MulDivState.oValid`, {lit}`MulDivState.wbckWdat`: when there is a result,
  and which.
- Definition {lit}`MulDivState.step`: one clock edge of the unit and the shared buffers.
-/

namespace AcceleratorSoc
namespace E203

/-- The eight instructions of the unit; the information bus has one bit for each. -/
inductive MulDivOp where
  | mul
  | mulh
  | mulhsu
  | mulhu
  | div
  | divu
  | rem
  | remu
deriving DecidableEq

/-- The comparison of two instructions is that of their names. -/
theorem MulDivOp.beq_eq (a b : MulDivOp) : (a == b) = decide (a = b) :=
  rfl

/-- States of the unit. -/
inductive MulDivFsm where
  | zeroth
  | exec
  | remdChck
  | quotCorr
  | remdCorr
deriving DecidableEq

/-- The comparison of two states, likewise. -/
theorem MulDivFsm.beq_eq (a b : MulDivFsm) : (a == b) = decide (a = b) :=
  rfl

/-- An instruction with its operands.  {lit}`b2b` is the fetch unit's mark for the second
instruction of a pair, {lit}`nob2b` the configuration bit that disables pairs. -/
structure MulDivInstr where
  op : MulDivOp
  rs1 : XWord
  rs2 : XWord
  b2b : Bool
  nob2b : Bool
deriving DecidableEq

/-- Inputs of one cycle.  {lit}`mdvOp` says that the instruction in the execution stage is
one of the unit's; otherwise the other units may use the datapath, and the load/store unit
may write the shared buffers. -/
structure MulDivInput where
  mdvOp : Bool
  valid : Bool
  instr : MulDivInstr
  flush : Bool
  oReady : Bool
  alu : AluReq
  bjp : BjpReq
  agu : AguReq
  aguSbf0Ena : Bool
  aguSbf0Nxt : XWord
  aguSbf1Ena : Bool
  aguSbf1Nxt : XWord

/-- Registers of the unit, with the shared buffers. -/
structure MulDivState where
  state : MulDivFsm
  execCnt : BitVec 6
  flushed : Bool
  partPrdtSft1 : Bool
  partRemdSft1 : Bool
  sbf0 : BitVec 33
  sbf1 : BitVec 33
deriving DecidableEq

/-! ## Decoded inputs -/

namespace MulDivInput

/-- {lit}`muldiv_i_valid`: an instruction of the unit is presented. -/
def iValid (i : MulDivInput) : Bool :=
  i.mdvOp && i.valid

/-- A bit of the information bus, which is gated by {lit}`mdv_op`. -/
def info (i : MulDivInput) (op : MulDivOp) : Bool :=
  i.mdvOp && i.instr.op == op

/-- First operand, gated as well. -/
def rs1 (i : MulDivInput) : XWord :=
  mask i.mdvOp i.instr.rs1

/-- Second operand, gated as well. -/
def rs2 (i : MulDivInput) : XWord :=
  mask i.mdvOp i.instr.rs2

/-- {lit}`i_op_mul`: one of the four multiplications. -/
def opMul (i : MulDivInput) : Bool :=
  i.info .mul || i.info .mulh || i.info .mulhsu || i.info .mulhu

/-- {lit}`i_op_div`: one of the four divisions. -/
def opDiv (i : MulDivInput) : Bool :=
  i.info .div || i.info .divu || i.info .rem || i.info .remu

/-- The instruction wants a quotient. -/
def wantsQuot (i : MulDivInput) : Bool :=
  i.info .div || i.info .divu

/-- Sign of the multiplier; {lit}`MULHU` takes it without one. -/
def mulRs1Sign (i : MulDivInput) : Bool :=
  if i.info .mulhu then false else i.rs1.getLsbD 31

/-- Sign of the multiplicand; {lit}`MULHSU` and {lit}`MULHU` take it without one. -/
def mulRs2Sign (i : MulDivInput) : Bool :=
  if i.info .mulhsu || i.info .mulhu then false else i.rs2.getLsbD 31

/-- Sign of the dividend; {lit}`DIVU` and {lit}`REMU` take it without one. -/
def divRs1Sign (i : MulDivInput) : Bool :=
  if i.info .divu || i.info .remu then false else i.rs1.getLsbD 31

/-- Sign of the divisor, in the same way. -/
def divRs2Sign (i : MulDivInput) : Bool :=
  if i.info .divu || i.info .remu then false else i.rs2.getLsbD 31

/-- The dividend, extended by its sign to sixty-six bits. -/
def dividend (i : MulDivInput) : BitVec 66 :=
  mask i.divRs1Sign (~~~(0 : BitVec 34)) ++ i.rs1

/-- The divisor, extended by its sign to thirty-four bits. -/
def divisor (i : MulDivInput) : BitVec 34 :=
  mask i.divRs2Sign (~~~(0 : BitVec 2)) ++ i.rs2

/-- First quotient digit: the signs of dividend and divisor agree. -/
def quot0cycl (i : MulDivInput) : Bool :=
  !(i.dividend.getLsbD 65 ^^ i.divisor.getLsbD 33)

/-- The dividend with the first quotient digit shifted in below it. -/
def dividendLsft1 (i : MulDivInput) : BitVec 67 :=
  i.dividend ++ BitVec.ofBool i.quot0cycl

/-! ## Special cases -/

/-- {lit}`div_by_0`: the divisor is zero. -/
def divBy0 (i : MulDivInput) : Bool :=
  i.rs2 == 0

/-- {lit}`div_ovf`: the least integer is divided by minus one, with sign. -/
def divOvf (i : MulDivInput) : Bool :=
  (i.info .div || i.info .rem) && i.rs2 == ~~~(0 : XWord) && i.rs1.getLsbD 31 &&
    i.rs1.setWidth 31 == 0

/-- A division by zero has all ones as quotient and the dividend as remainder. -/
def divBy0Res (i : MulDivInput) : XWord :=
  if i.wantsQuot then ~~~(0 : XWord) else i.dividend.setWidth 32

/-- On an overflow the quotient is the dividend and the remainder zero. -/
def divOvfRes (i : MulDivInput) : XWord :=
  if i.wantsQuot then BitVec.ofBool true ++ (0 : BitVec 31) else 0

/-- {lit}`div_special_cases`: the division needs no cycles of its own. -/
def specialCases (i : MulDivInput) : Bool :=
  i.opDiv && (i.divBy0 || i.divOvf)

/-- Its result. -/
def specialRes (i : MulDivInput) : XWord :=
  if i.divBy0 then i.divBy0Res else i.divOvfRes

end MulDivInput

namespace MulDivState

/-! ## Cycle counting -/

/-- Last cycle of a multiplication. -/
def cycle16th (s : MulDivState) : Bool :=
  s.execCnt == 16

/-- Last cycle of a division before the check. -/
def cycle32nd (s : MulDivState) : Bool :=
  s.execCnt == 32

/-- First cycle of an instruction. -/
def cycle0th (s : MulDivState) : Bool :=
  s.state == .zeroth

/-- Last cycle in {lit}`EXEC`. -/
def execLastCycle (s : MulDivState) (i : MulDivInput) : Bool :=
  if i.opMul then s.cycle16th else s.cycle32nd

/-- The mark of a pair does not count after a flush. -/
def backToBackSeq (s : MulDivState) (i : MulDivInput) : Bool :=
  i.mdvOp && i.instr.b2b && !s.flushed && !i.instr.nob2b

/-! ## Booth multiplication -/

/-- Bits of {lit}`booth_code`, the highest first. -/
def boothCode (s : MulDivState) (i : MulDivInput) : Bool × Bool × Bool :=
  if s.cycle0th then (i.rs1.getLsbD 1, i.rs1.getLsbD 0, false)
  else if s.cycle16th then (i.mulRs1Sign, s.sbf1.getLsbD 0, s.partPrdtSft1)
  else (s.sbf1.getLsbD 1, s.sbf1.getLsbD 0, s.partPrdtSft1)

/-- The digit is zero. -/
def boothSelZero (code : Bool × Bool × Bool) : Bool :=
  code == (false, false, false) || code == (true, true, true)

/-- The digit is two or minus two. -/
def boothSelTwo (code : Bool × Bool × Bool) : Bool :=
  code == (false, true, true) || code == (true, false, false)

/-- The digit is one or minus one. -/
def boothSelOne (code : Bool × Bool × Bool) : Bool :=
  !boothSelZero code && !boothSelTwo code

/-- The digit is negative, or minus zero. -/
def boothSelSub (code : Bool × Bool × Bool) : Bool :=
  code.1

/-- The multiplicand times the digit's magnitude. -/
def mulExeAluOp2 (s : MulDivState) (i : MulDivInput) : BitVec 35 :=
  mask (boothSelZero (s.boothCode i)) 0 |||
    mask (boothSelOne (s.boothCode i)) (mask i.mulRs2Sign (~~~(0 : BitVec 3)) ++ i.rs2) |||
    mask (boothSelTwo (s.boothCode i))
      (mask i.mulRs2Sign (~~~(0 : BitVec 2)) ++ i.rs2 ++ BitVec.ofBool false)

/-- The partial product, extended by its sign. -/
def mulExeAluOp1 (s : MulDivState) : BitVec 35 :=
  if s.cycle0th then 0 else mask (s.sbf0.getLsbD 32) (~~~(0 : BitVec 2)) ++ s.sbf0

/-! ## Non-restoring division -/

/-- The quotient digit of the cycle before. -/
def prevQuot (s : MulDivState) (i : MulDivInput) : Bool :=
  if s.cycle0th then i.quot0cycl else s.sbf1.getLsbD 0

/-- The partial remainder, shifted by one. -/
def divExeAluOp1 (s : MulDivState) (i : MulDivInput) : BitVec 34 :=
  if s.cycle0th then i.dividendLsft1.extractLsb' 33 34
  else BitVec.ofBool s.partRemdSft1 ++ s.sbf0

/-- The remainder has to be decremented by the divisor and the quotient incremented,
or the other way round. -/
def remdIncQuotDec (s : MulDivState) (i : MulDivInput) : Bool :=
  s.sbf0.getLsbD 32 ^^ i.divisor.getLsbD 33

/-- A sign-extended buffer, as an operand of the check and the corrections. -/
def extended (x : BitVec 33) : BitVec 34 :=
  BitVec.ofBool (x.getLsbD 32) ++ x

/-! ## Use of the adder -/

/-- The adder does a division round. -/
def reqAluSel2 (s : MulDivState) (i : MulDivInput) : Bool :=
  i.opDiv && (s.state == .zeroth || s.state == .exec)

/-- The adder corrects the quotient. -/
def reqAluSel3 (s : MulDivState) (i : MulDivInput) : Bool :=
  i.opDiv && s.state == .quotCorr

/-- The adder corrects the remainder. -/
def reqAluSel4 (s : MulDivState) (i : MulDivInput) : Bool :=
  i.opDiv && s.state == .remdCorr

/-- The adder checks the remainder. -/
def reqAluSel5 (s : MulDivState) (i : MulDivInput) : Bool :=
  i.opDiv && s.state == .remdChck

/-- An operand of the divider on the adder. -/
def widen (x : BitVec 34) : BitVec 35 :=
  x.setWidth 35

/-- The request to the datapath. -/
def request (s : MulDivState) (i : MulDivInput) : MuldivReq where
  req := i.mdvOp
  op1 := mask i.opMul s.mulExeAluOp1 ||| mask (s.reqAluSel2 i) (widen (s.divExeAluOp1 i)) |||
    mask (s.reqAluSel3 i) (widen (extended s.sbf1)) |||
    mask (s.reqAluSel4 i) (widen (extended s.sbf0)) |||
    mask (s.reqAluSel5 i) (widen (extended s.sbf0))
  op2 := mask i.opMul (s.mulExeAluOp2 i) ||| mask (s.reqAluSel2 i) (widen i.divisor) |||
    mask (s.reqAluSel3 i) (widen 1) ||| mask (s.reqAluSel4 i) (widen i.divisor) |||
    mask (s.reqAluSel5 i) (widen i.divisor)
  add := i.opMul && !boothSelSub (s.boothCode i) || s.reqAluSel2 i && !s.prevQuot i ||
    s.reqAluSel3 i && !s.remdIncQuotDec i || s.reqAluSel4 i && s.remdIncQuotDec i ||
    s.reqAluSel5 i
  sub := i.opMul && boothSelSub (s.boothCode i) || s.reqAluSel2 i && s.prevQuot i ||
    s.reqAluSel3 i && s.remdIncQuotDec i || s.reqAluSel4 i && !s.remdIncQuotDec i

/-- What the datapath returns to the unit. -/
def aluRes (s : MulDivState) (i : MulDivInput) : BitVec 35 :=
  DpathInput.muldivRes { alu := i.alu, bjp := i.bjp, agu := i.agu, muldiv := s.request i }

/-- The divider uses the low bits of the result. -/
def divAluRes (s : MulDivState) (i : MulDivInput) : BitVec 34 :=
  (s.aluRes i).setWidth 34

/-! ## Next values of the buffers -/

/-- High part of the next partial product: the sum without its two low bits. -/
def partPrdtHiNxt (s : MulDivState) (i : MulDivInput) : BitVec 33 :=
  (s.aluRes i).extractLsb' 2 33

/-- Low part of the next partial product: the two low bits of the sum go in at the top, and
two bits of the multiplier out at the bottom. -/
def partPrdtLoNxt (s : MulDivState) (i : MulDivInput) : BitVec 33 :=
  (s.aluRes i).extractLsb' 0 2 ++
    (if s.cycle0th then BitVec.ofBool i.mulRs1Sign ++ i.rs1.extractLsb' 2 30
    else s.sbf1.extractLsb' 2 31)

/-- The higher one of the two bits that go out. -/
def partPrdtSft1Nxt (s : MulDivState) (i : MulDivInput) : Bool :=
  if s.cycle0th then i.rs1.getLsbD 1 else s.sbf1.getLsbD 1

/-- The product word that the instruction asks for: {lit}`MUL` reads the low part of the
partial product, the others read the last sum. -/
def mulRes (s : MulDivState) (i : MulDivInput) : XWord :=
  if i.info .mul then s.sbf1.extractLsb' 1 32 else (s.aluRes i).extractLsb' 0 32

/-- The quotient digit of this cycle: one while remainder and divisor have the same sign. -/
def currentQuot (s : MulDivState) (i : MulDivInput) : Bool :=
  !((s.divAluRes i).getLsbD 33 ^^ i.divisor.getLsbD 33)

/-- Remainder and quotient after this cycle, side by side. -/
def divExePartRemd (s : MulDivState) (i : MulDivInput) : BitVec 67 :=
  s.divAluRes i ++ (if s.cycle0th then i.dividendLsft1.setWidth 33 else s.sbf1)

/-- The same, with the digit of this cycle shifted in. -/
def divExePartRemdLsft1 (s : MulDivState) (i : MulDivInput) : BitVec 68 :=
  s.divExePartRemd i ++ BitVec.ofBool (s.currentQuot i)

/-- {lit}`div_corrct_phase`: one of the two corrections. -/
def corrctPhase (s : MulDivState) : Bool :=
  s.state == .remdCorr || s.state == .quotCorr

/-- {lit}`div_check_phase`: the check of the remainder. -/
def checkPhase (s : MulDivState) : Bool :=
  s.state == .remdChck

/-- In the last cycle the remainder is not shifted. -/
def divRemd (s : MulDivState) (i : MulDivInput) : BitVec 33 :=
  if s.checkPhase then s.sbf0
  else if s.corrctPhase then (s.divAluRes i).setWidth 33
  else (s.divExePartRemd i).extractLsb' 33 33

/-- In the last cycle the quotient is shifted, with a one behind. -/
def divQuot (s : MulDivState) (i : MulDivInput) : BitVec 33 :=
  if s.checkPhase then s.sbf1
  else if s.corrctPhase then s.sbf1
  else (s.divExePartRemd i).setWidth 32 ++ BitVec.ofBool true

/-- Next value of the remainder buffer. -/
def partRemdNxt (s : MulDivState) (i : MulDivInput) : BitVec 33 :=
  if s.corrctPhase then (s.divAluRes i).setWidth 33
  else if s.state == .exec && s.cycle32nd then s.divRemd i
  else (s.divExePartRemdLsft1 i).extractLsb' 33 33

/-- Next value of the quotient buffer. -/
def partQuotNxt (s : MulDivState) (i : MulDivInput) : BitVec 33 :=
  if s.corrctPhase then (s.divAluRes i).setWidth 33
  else if s.state == .exec && s.cycle32nd then s.divQuot i
  else (s.divExePartRemdLsft1 i).setWidth 33

/-! ## Check of the remainder -/

/-- The remainder is zero. -/
def remdIs0 (s : MulDivState) : Bool :=
  s.sbf0 == 0

/-- The remainder is minus the divisor: their sum, which the adder forms in the check, is
zero. -/
def remdIsNegDivs (s : MulDivState) (i : MulDivInput) : Bool :=
  s.divAluRes i == 0

/-- The remainder is the divisor. -/
def remdIsDivs (s : MulDivState) (i : MulDivInput) : Bool :=
  s.sbf0 == i.divisor.setWidth 33

/-- The remainder has the wrong sign or is as large as the divisor. -/
def divNeedCorrct (s : MulDivState) (i : MulDivInput) : Bool :=
  i.opDiv && ((s.sbf0.getLsbD 32 ^^ i.dividend.getLsbD 65) && !s.remdIs0 || s.remdIsNegDivs i ||
    s.remdIsDivs i)

/-- Quotient or remainder, as the instruction wants. -/
def divRes (s : MulDivState) (i : MulDivInput) : XWord :=
  if i.wantsQuot then (s.divQuot i).setWidth 32 else (s.divRemd i).setWidth 32

/-! ## Outputs -/

/-- The result of the second instruction of a pair, out of the registers. -/
def back2backRes (s : MulDivState) (i : MulDivInput) : XWord :=
  mask (i.info .mul) (s.sbf1.setWidth 31 ++ BitVec.ofBool s.partPrdtSft1) |||
    mask (i.info .rem || i.info .remu) (s.sbf0.setWidth 32) |||
    mask (i.info .div || i.info .divu) (s.sbf1.setWidth 32)

/-- {lit}`wbck_condi`: there is a result in this cycle. -/
def wbckCondi (s : MulDivState) (i : MulDivInput) : Bool :=
  if s.backToBackSeq i || i.specialCases then true
  else s.state == .exec && s.execLastCycle i && !i.opDiv ||
    s.state == .remdChck && !s.divNeedCorrct i || s.state == .remdCorr

/-- {lit}`muldiv_o_valid`. -/
def oValid (s : MulDivState) (i : MulDivInput) : Bool :=
  s.wbckCondi i && i.iValid

/-- {lit}`muldiv_i_ready`. -/
def iReady (s : MulDivState) (i : MulDivInput) : Bool :=
  s.wbckCondi i && i.oReady

/-- The result is taken. -/
def oHsked (s : MulDivState) (i : MulDivInput) : Bool :=
  s.oValid i && i.oReady

/-- {lit}`muldiv_o_wbck_wdat`: result of a pair, of a special case, of a division or of a
multiplication. -/
def wbckWdat (s : MulDivState) (i : MulDivInput) : XWord :=
  mask (s.backToBackSeq i && !i.specialCases) (s.back2backRes i) |||
    mask i.specialCases i.specialRes |||
    mask (!s.backToBackSeq i && !i.specialCases && i.opDiv) (s.divRes i) |||
    mask (!s.backToBackSeq i && !i.specialCases && i.opMul) (s.mulRes i)

/-! ## State machine -/

/-- An instruction that takes time is presented. -/
def state0thExitEna (s : MulDivState) (i : MulDivInput) : Bool :=
  s.state == .zeroth && (i.iValid && !s.backToBackSeq i && !i.specialCases) && !i.flush

/-- The rounds are over, or the unit is flushed; a multiplication waits for its result to be
taken. -/
def stateExecExitEna (s : MulDivState) (i : MulDivInput) : Bool :=
  s.state == .exec &&
    (s.execLastCycle i && (if i.opDiv then true else s.oHsked i) || i.flush)

/-- The remainder needs a correction, or the result is taken. -/
def stateRemdChckExitEna (s : MulDivState) (i : MulDivInput) : Bool :=
  s.state == .remdChck && ((if s.divNeedCorrct i then true else s.oHsked i) || i.flush)

/-- The correction of the quotient takes one cycle. -/
def stateQuotCorrExitEna (s : MulDivState) : Bool :=
  s.state == .quotCorr

/-- The corrected result is taken. -/
def stateRemdCorrExitEna (s : MulDivState) (i : MulDivInput) : Bool :=
  s.state == .remdCorr && (i.flush || s.oHsked i)

/-- The next state is kept unless the current one exits; only one of the exits can be
enabled. -/
def stateD (s : MulDivState) (i : MulDivInput) : MulDivFsm :=
  if s.state0thExitEna i then .exec
  else if s.stateExecExitEna i then
    if i.flush then .zeroth else if i.opDiv then .remdChck else .zeroth
  else if s.stateRemdChckExitEna i then
    if i.flush then .zeroth else if s.divNeedCorrct i then .quotCorr else .zeroth
  else if s.stateQuotCorrExitEna then if i.flush then .zeroth else .remdCorr
  else if s.stateRemdCorrExitEna i then .zeroth
  else s.state

/-- {lit}`exec_cnt_set`: the counter starts at one. -/
def execCntSet (s : MulDivState) (i : MulDivInput) : Bool :=
  s.state0thExitEna i

/-- {lit}`exec_cnt_inc`: the counter goes on. -/
def execCntInc (s : MulDivState) (i : MulDivInput) : Bool :=
  s.state == .exec && !s.execLastCycle i

/-- Next value of the counter. -/
def execCntD (s : MulDivState) (i : MulDivInput) : BitVec 6 :=
  if s.execCntSet i then 1 else if s.execCntInc i then s.execCnt + 1 else s.execCnt

/-- A flush is remembered until a result is taken. -/
def flushedD (s : MulDivState) (i : MulDivInput) : Bool :=
  if i.flush then true else if s.oHsked i then false else s.flushed

/-- The partial product is written. -/
def partPrdtEna (s : MulDivState) (i : MulDivInput) : Bool :=
  s.execCntSet i && i.opMul || s.execCntInc i && i.opMul || s.stateExecExitEna i

/-- The remainder is written. -/
def partRemdEna (s : MulDivState) (i : MulDivInput) : Bool :=
  s.execCntSet i && i.opDiv || s.execCntInc i && i.opDiv || s.stateExecExitEna i ||
    s.stateRemdCorrExitEna i

/-- The quotient is written. -/
def partQuotEna (s : MulDivState) (i : MulDivInput) : Bool :=
  s.execCntSet i && i.opDiv || s.execCntInc i && i.opDiv || s.stateExecExitEna i ||
    s.stateQuotCorrExitEna

/-- The datapath gives the buffers to the unit whose instruction is executing. -/
def sbf0D (s : MulDivState) (i : MulDivInput) : BitVec 33 :=
  if i.mdvOp then
    if s.partRemdEna i || s.partPrdtEna i then
      if i.opMul then s.partPrdtHiNxt i else s.partRemdNxt i
    else s.sbf0
  else if i.aguSbf0Ena then BitVec.ofBool false ++ i.aguSbf0Nxt else s.sbf0

/-- The second buffer, in the same way. -/
def sbf1D (s : MulDivState) (i : MulDivInput) : BitVec 33 :=
  if i.mdvOp then
    if s.partQuotEna i || s.partPrdtEna i then
      if i.opMul then s.partPrdtLoNxt i else s.partQuotNxt i
    else s.sbf1
  else if i.aguSbf1Ena then BitVec.ofBool false ++ i.aguSbf1Nxt else s.sbf1

/-- One rising clock edge. -/
def step (s : MulDivState) (i : MulDivInput) : MulDivState where
  state := s.stateD i
  execCnt := s.execCntD i
  flushed := s.flushedD i
  partPrdtSft1 := if s.partPrdtEna i then s.partPrdtSft1Nxt i else s.partPrdtSft1
  partRemdSft1 := if s.partRemdEna i then (s.divAluRes i).getLsbD 32 else s.partRemdSft1
  sbf0 := s.sbf0D i
  sbf1 := s.sbf1D i

/-- Registers out of reset.  The shared buffers have no reset. -/
def reset (sbf0 sbf1 : BitVec 33) : MulDivState where
  state := .zeroth
  execCnt := 0
  flushed := false
  partPrdtSft1 := false
  partRemdSft1 := false
  sbf0 := sbf0
  sbf1 := sbf1

end MulDivState

end E203
end AcceleratorSoc
