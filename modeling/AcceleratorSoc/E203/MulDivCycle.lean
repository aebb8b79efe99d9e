import AcceleratorSoc.E203.Divide
import AcceleratorSoc.E203.Multiply

/-!
# One cycle of the multiply and divide unit

What the unit knows while it works on an instruction, and what one clock edge makes of it:
the next round, the check, a correction, a cycle of waiting for the taker, or the return to
the first state with the results of the pair in the registers.

Main results:

- Theorem {lit}`Working.oValid_eq`: the result is there in one cycle, which depends on the
  operation and on the parity of the quotient.
- Theorem {lit}`Working.wbckWdat_eq`: it is what the instruction set gives.
- Theorems {lit}`Working.step_wait`, {lit}`Working.step_stall`, {lit}`Working.step_done`:
  one clock edge.
-/

namespace AcceleratorSoc
namespace E203

open Arith

/-- The cycle in which the result is there, counted from the first one in which the unit
sees the instruction.  The quotient's digits make an odd number, so that an even quotient
is always a corrected one. -/
def MulDivInstr.latency (ins : MulDivInstr) : Nat :=
  if ins.op.isMul then 16 else if ins.x.tdiv ins.y % 2 = 0 then 35 else 33

/-- An instruction that is not answered at once takes at least one cycle. -/
theorem MulDivInstr.latency_pos (ins : MulDivInstr) : 0 < ins.latency := by
  unfold latency
  split_ifs <;> omega

/-- The unit {lit}`j` cycles after it saw the instruction. -/
inductive Busy (s : MulDivState) (ins : MulDivInstr) (j : Nat) : Prop
  | multiply {low : Int} (hstate : s.state = .exec) (hcnt : s.execCnt.toNat = j) (hpos : 0 < j)
      (hle : j ≤ 16) (hop : ins.op.isMul = true)
      (hM : Multiplying ins j s.sbf0 s.sbf1 s.partPrdtSft1 low)
  | divide {q r : Int} (hstate : s.state = .exec) (hcnt : s.execCnt.toNat = j) (hpos : 0 < j)
      (hle : j ≤ 32) (hop : ins.op.isMul = false)
      (hD : Dividing ins j (BitVec.ofBool s.partRemdSft1 ++ s.sbf0) s.sbf1 q r)
  | check {q r : Int} (hstate : s.state = .remdChck) (hj : j = 33) (hop : ins.op.isMul = false)
      (hodd : q % 2 = 1) (hquot : NonRestoring.Partial ins.x ins.y q r)
      (hD : Divided s.sbf0 s.sbf1 q r)
  | quotient {q r : Int} (hstate : s.state = .quotCorr) (hj : j = 34)
      (hop : ins.op.isMul = false) (hodd : q % 2 = 1)
      (hquot : NonRestoring.Partial ins.x ins.y q r)
      (hneed : NonRestoring.Partial.NeedsCorrection ins.x ins.y r)
      (hD : Divided s.sbf0 s.sbf1 q r)
  | remainder {q r : Int} (hstate : s.state = .remdCorr) (hj : j = 35)
      (hop : ins.op.isMul = false) (hodd : q % 2 = 1)
      (hquot : NonRestoring.Partial ins.x ins.y q r)
      (hneed : NonRestoring.Partial.NeedsCorrection ins.x ins.y r)
      (hD : Divided s.sbf0 s.sbf1 (q + NonRestoring.digit r ins.y) r)

/-- The unit works on an instruction that it cannot answer at once. -/
structure Working (s : MulDivState) (ins : MulDivInstr) (j : Nat) : Prop where
  special : ¬ins.Special
  pair : (ins.b2b && !s.flushed && !ins.nob2b) = false
  busy : Busy s ins j

/-- The registers still hold what the second instruction of a pair is answered from. -/
def Kept (s : MulDivState) (ins : MulDivInstr) : Prop :=
  ¬ins.Special →
    (ins.op.isMul = true →
      s.sbf1.setWidth 31 ++ BitVec.ofBool s.partPrdtSft1 = BitVec.ofInt 32 (ins.x * ins.y)) ∧
    (ins.op.isMul = false → Divided s.sbf0 s.sbf1 (ins.x.tdiv ins.y) (ins.x.tmod ins.y))

variable {s : MulDivState} {i : MulDivInput} {ins : MulDivInstr} {j : Nat}

/-- A unit at work has left its first state. -/
theorem Working.state_ne (h : Working s ins j) : s.state ≠ .zeroth := by
  cases h.busy <;> simp_all

/-- A division that takes rounds has a divisor other than zero. -/
theorem MulDivInstr.rs2_ne_zero (hdiv : ins.op.isMul = false) (hspecial : ¬ins.Special) :
    ins.rs2 ≠ 0 := by
  intro hzero
  exact hspecial ⟨hdiv, Or.inl hzero⟩

/-- The divisor is not zero as a number either. -/
theorem MulDivInstr.y_ne_zero (hdiv : ins.op.isMul = false) (hspecial : ¬ins.Special) :
    ins.y ≠ 0 := by
  intro hzero
  exact MulDivInstr.rs2_ne_zero hdiv hspecial ((value_eq_zero_iff _ _).mp hzero)

/-- A remainder needs a correction exactly when the quotient is even. -/
theorem needsCorrection_iff {q r : Int} (hquot : NonRestoring.Partial ins.x ins.y q r)
    (hodd : q % 2 = 1) (hzero : ins.y ≠ 0) :
    NonRestoring.Partial.NeedsCorrection ins.x ins.y r ↔ ins.x.tdiv ins.y % 2 = 0 := by
  by_cases hneed : NonRestoring.Partial.NeedsCorrection ins.x ins.y r
  · have htdiv := (hquot.corrected hzero hneed).1
    rcases NonRestoring.digit_cases r ins.y with hdigit | hdigit
    · simp only [hneed, true_iff]
      omega
    · simp only [hneed, true_iff]
      omega
  · have htdiv := (hquot.tdiv_tmod hzero hneed).1
    simp only [hneed, false_iff]
    omega

/-- The mark of a pair counts unless there was a flush or pairs are disabled. -/
theorem backToBackSeq_eq (hi : i.Presents ins) :
    s.backToBackSeq i = (ins.b2b && !s.flushed && !ins.nob2b) := by
  rw [MulDivState.backToBackSeq, hi.mdvOp, hi.instr, Bool.true_and]

/-- Whether the result is there, without the cases that are answered at once. -/
theorem Working.oValid_of (h : Working s ins j) (hi : i.Presents ins) :
    s.oValid i =
      (s.state == .exec && s.execLastCycle i && ins.op.isMul ||
        s.state == .remdChck && !s.divNeedCorrct i || s.state == .remdCorr) := by
  rw [MulDivState.oValid, MulDivState.wbckCondi, backToBackSeq_eq hi, h.pair, hi.specialCases,
    decide_eq_false h.special, hi.iValid, hi.opDiv, Bool.and_true, Bool.not_not]
  rfl

/-- The last cycle of {lit}`EXEC` depends on the operation. -/
theorem execLastCycle_eq (hi : i.Presents ins) :
    s.execLastCycle i = if ins.op.isMul then s.cycle16th else s.cycle32nd := by
  rw [MulDivState.execLastCycle, hi.opMul]

/-- In {lit}`EXEC` the counter tells the round. -/
theorem inRound_of_exec (hstate : s.state = .exec) (hcnt : s.execCnt.toNat = j) (hpos : 0 < j) :
    s.InRound j :=
  ⟨fun hzeroth => by simp [hstate] at hzeroth, fun _ => ⟨hstate, hcnt, hpos⟩⟩

/-- The result is there in one cycle. -/
theorem Working.oValid_eq (h : Working s ins j) (hi : i.Presents ins) :
    s.oValid i = decide (j = ins.latency) := by
  rw [h.oValid_of hi, execLastCycle_eq hi, MulDivInstr.latency]
  cases h.busy with
  | multiply hstate hcnt hpos hle hop hM =>
      have hround := inRound_of_exec hstate hcnt hpos
      rw [hstate, hop, hround.cycle16th_iff hpos]
      simp [MulDivFsm.beq_eq]
  | divide hstate hcnt hpos hle hop hD =>
      rw [hstate, hop]
      simp [MulDivFsm.beq_eq]
      split_ifs <;> omega
  | check hstate hj hop hodd hquot hD =>
      have hzero := MulDivInstr.y_ne_zero hop h.special
      have hneed := MulDivState.divNeedCorrct_iff hi hop hstate hquot hD
      rw [needsCorrection_iff hquot hodd hzero] at hneed
      rw [hstate, hop, hj]
      cases hcorr : s.divNeedCorrct i <;> simp_all [MulDivFsm.beq_eq]
  | quotient hstate hj hop hodd hquot hneed hD =>
      rw [hstate, hop, hj]
      simp [MulDivFsm.beq_eq]
      split_ifs <;> omega
  | remainder hstate hj hop hodd hquot hneed hD =>
      have hzero := MulDivInstr.y_ne_zero hop h.special
      rw [needsCorrection_iff hquot hodd hzero] at hneed
      rw [hstate, hop, hj]
      simp [MulDivFsm.beq_eq, hneed]

/-! ## The result -/

/-- In {lit}`EXEC` the multiplier sees the buffers. -/
theorem mul_view (hstate : s.state = .exec) (i : MulDivInput) :
    s.mulHi = s.sbf0 ∧ s.mulLo i = s.sbf1 ∧ s.mulSft1 = s.partPrdtSft1 := by
  simp [MulDivState.mulHi, MulDivState.mulLo, MulDivState.mulSft1, MulDivState.cycle0th, hstate,
    MulDivFsm.beq_eq]

/-- In {lit}`EXEC` the divider sees them too. -/
theorem div_view (hstate : s.state = .exec) (i : MulDivInput) :
    s.divExeAluOp1 i = BitVec.ofBool s.partRemdSft1 ++ s.sbf0 ∧ s.divLo i = s.sbf1 := by
  simp [MulDivState.divExeAluOp1, MulDivState.divLo, MulDivState.cycle0th, hstate,
    MulDivFsm.beq_eq]

/-- A unit at work shows the result of its operation. -/
theorem Working.wbckWdat_of (h : Working s ins j) (hi : i.Presents ins) :
    s.wbckWdat i = if ins.op.isMul then s.mulRes i else s.divRes i := by
  rw [MulDivState.wbckWdat, backToBackSeq_eq hi, h.pair, hi.specialCases,
    decide_eq_false h.special, hi.opDiv, hi.opMul]
  cases ins.op.isMul <;> simp

/-- The result is what the instruction set gives. -/
theorem Working.wbckWdat_eq (h : Working s ins ins.latency) (hi : i.Presents ins) :
    s.wbckWdat i = ins.result := by
  have hvalid := h.oValid_eq hi
  rw [decide_eq_true rfl, h.oValid_of hi, execLastCycle_eq hi] at hvalid
  rw [h.wbckWdat_of hi]
  cases h.busy with
  | multiply hstate hcnt hpos hle hop hM =>
      have hround := inRound_of_exec hstate hcnt hpos
      have hlast : ins.latency = 16 := by
        rw [MulDivInstr.latency, if_pos hop]
      obtain ⟨hhi, hlo, hsft1⟩ := mul_view hstate i
      rw [hlast] at hround hM
      rw [if_pos hop]
      exact MulDivState.mulRes_eq hround hi hop (by rw [hhi, hlo, hsft1]; exact hM)
  | divide hstate hcnt hpos hle hop hD =>
      rw [hstate, hop] at hvalid
      simp [MulDivFsm.beq_eq] at hvalid
  | check hstate hj hop hodd hquot hD =>
      have hzero := MulDivInstr.y_ne_zero hop h.special
      have hparity : ¬ins.x.tdiv ins.y % 2 = 0 := by
        intro heven
        rw [MulDivInstr.latency, hop, if_neg (by simp), if_pos heven] at hj
        omega
      have hok := mt (needsCorrection_iff hquot hodd hzero).mp hparity
      obtain ⟨hq, hr⟩ := hquot.tdiv_tmod hzero hok
      rw [← hq, ← hr] at hD
      rw [if_neg (by simp [hop]), ← hD.result hop (MulDivInstr.rs2_ne_zero hop h.special),
        MulDivState.divRes, hi.wantsQuot, MulDivState.divQuot, MulDivState.divRemd,
        MulDivState.checkPhase, hstate]
      rfl
  | quotient hstate hj hop hodd hquot hneed hD =>
      rw [hstate, hop] at hvalid
      simp [MulDivFsm.beq_eq] at hvalid
  | remainder hstate hj hop hodd hquot hneed hD =>
      have hzero := MulDivInstr.y_ne_zero hop h.special
      obtain ⟨hq, hr⟩ := hquot.corrected hzero hneed
      have hlast := MulDivState.remdCorr_eq hi hop hstate hquot hD
      rw [← hq, ← hr] at hlast
      rw [if_neg (by simp [hop]), ← hlast.result hop (MulDivInstr.rs2_ne_zero hop h.special),
        MulDivState.divRes, hi.wantsQuot, MulDivState.divQuot, MulDivState.divRemd,
        MulDivState.checkPhase, MulDivState.corrctPhase, hstate]
      rfl

/-! ## One clock edge -/

namespace MulDivState

/-- In a round the unit loads the buffers from its adder. -/
theorem step_mul_buffers (hi : i.Presents ins) (hop : ins.op.isMul = true)
    (hload : s.execCntSet i = true ∨ s.execCntInc i = true ∨ s.stateExecExitEna i = true) :
    (s.step i).sbf0 = s.partPrdtHiNxt i ∧ (s.step i).sbf1 = s.partPrdtLoNxt i ∧
      (s.step i).partPrdtSft1 = s.partPrdtSft1Nxt i := by
  have hopMul : i.opMul = true := by
    rw [hi.opMul, hop]
  have hena : s.partPrdtEna i = true := by
    rcases hload with h | h | h <;> simp [partPrdtEna, h, hopMul]
  simp [step, sbf0D, sbf1D, hi.mdvOp, hena, hopMul]

/-- What a clock edge of a division loads into the buffers. -/
theorem step_div_buffers (hi : i.Presents ins) (hop : ins.op.isMul = false)
    (hload : s.execCntSet i = true ∨ s.execCntInc i = true ∨ s.stateExecExitEna i = true) :
    (s.step i).sbf0 = s.partRemdNxt i ∧ (s.step i).sbf1 = s.partQuotNxt i ∧
      (s.step i).partRemdSft1 = (s.divAluRes i).getLsbD 32 := by
  have hopMul : i.opMul = false := by
    rw [hi.opMul, hop]
  have hopDiv : i.opDiv = true := by
    rw [hi.opDiv, hop]
    rfl
  have hremd : s.partRemdEna i = true := by
    rcases hload with h | h | h <;> simp [partRemdEna, h, hopDiv]
  have hquot : s.partQuotEna i = true := by
    rcases hload with h | h | h <;> simp [partQuotEna, h, hopDiv]
  simp [step, sbf0D, sbf1D, hi.mdvOp, hremd, hquot, hopMul]

/-- The mark of a flush stays while nothing is taken. -/
theorem step_flushed (hflush : i.flush = false) (hsked : s.oHsked i = false) :
    (s.step i).flushed = s.flushed := by
  simp [step, flushedD, hflush, hsked]

/-- A flush takes the unit back from any state. -/
theorem step_flush (hflush : i.flush = true) : (s.step i).state = .zeroth := by
  cases hstate : s.state <;>
    simp [step, stateD, state0thExitEna, stateExecExitEna, stateRemdChckExitEna,
      stateQuotCorrExitEna, stateRemdCorrExitEna, hstate, hflush, MulDivFsm.beq_eq]

/-- Where no state is left and no round counted, only the mark of a flush can change. -/
theorem step_hold (hi : i.Presents ins) (hzeroth : s.state ≠ .zeroth)
    (hinc : s.execCntInc i = false) (hexit : s.stateD i = s.state)
    (hexec : s.stateExecExitEna i = false) (hquot : s.stateQuotCorrExitEna = false)
    (hremd : s.stateRemdCorrExitEna i = false) :
    s.step i = { s with flushed := s.flushedD i } := by
  have hset : s.execCntSet i = false := by
    simp [execCntSet, state0thExitEna, MulDivFsm.beq_eq, hzeroth]
  simp [step, execCntD, sbf0D, sbf1D, partPrdtEna, partRemdEna, partQuotEna, hi.mdvOp, hset, hinc,
    hexit, hexec, hquot, hremd]

/-- Another round. -/
theorem step_exec (hstate : s.state = .exec) (hflush : i.flush = false)
    (hlast : s.execLastCycle i = false) :
    (s.step i).state = .exec ∧ (s.step i).execCnt = s.execCnt + 1 ∧ s.execCntInc i = true := by
  simp [step, stateD, execCntD, execCntSet, execCntInc, state0thExitEna, stateExecExitEna,
    stateRemdChckExitEna, stateQuotCorrExitEna, stateRemdCorrExitEna, hstate, hflush, hlast,
    MulDivFsm.beq_eq]

/-- The last round of a division goes on to the check. -/
theorem step_exec_last (hi : i.Presents ins) (hop : ins.op.isMul = false) (hstate : s.state = .exec)
    (hflush : i.flush = false) (hlast : s.execLastCycle i = true) :
    (s.step i).state = .remdChck ∧ s.stateExecExitEna i = true := by
  have hopDiv : i.opDiv = true := by
    rw [hi.opDiv, hop]
    rfl
  simp [step, stateD, state0thExitEna, stateExecExitEna, hstate, hflush, hlast, hopDiv,
    MulDivFsm.beq_eq]

/-- A correction starts with the quotient. -/
theorem step_check (hi : i.Presents ins) (hstate : s.state = .remdChck) (hflush : i.flush = false)
    (hneed : s.divNeedCorrct i = true) :
    (s.step i).state = .quotCorr ∧ (s.step i).sbf0 = s.sbf0 ∧ (s.step i).sbf1 = s.sbf1 := by
  simp [step, stateD, sbf0D, sbf1D, partPrdtEna, partRemdEna, partQuotEna, execCntSet, execCntInc,
    state0thExitEna, stateExecExitEna, stateRemdChckExitEna, stateQuotCorrExitEna,
    stateRemdCorrExitEna, hi.mdvOp, hstate, hflush, hneed, MulDivFsm.beq_eq]

/-- The correction of the quotient takes one cycle. -/
theorem step_quotCorr (hi : i.Presents ins) (hop : ins.op.isMul = false)
    (hstate : s.state = .quotCorr) (hflush : i.flush = false) :
    (s.step i).state = .remdCorr ∧ (s.step i).sbf0 = s.sbf0 ∧
      (s.step i).sbf1 = s.partQuotNxt i := by
  have hopMul : i.opMul = false := by
    rw [hi.opMul, hop]
  simp [step, stateD, sbf0D, sbf1D, partPrdtEna, partRemdEna, partQuotEna, execCntSet, execCntInc,
    state0thExitEna, stateExecExitEna, stateRemdChckExitEna, stateQuotCorrExitEna,
    stateRemdCorrExitEna, hi.mdvOp, hstate, hflush, hopMul, MulDivFsm.beq_eq]

/-- A multiplication is taken in its last round. -/
theorem step_mul_done (hi : i.Presents ins) (hop : ins.op.isMul = true) (hstate : s.state = .exec)
    (hflush : i.flush = false) (hlast : s.execLastCycle i = true) (hsked : s.oHsked i = true) :
    (s.step i).state = .zeroth ∧ s.stateExecExitEna i = true := by
  have hopDiv : i.opDiv = false := by
    rw [hi.opDiv, hop]
    rfl
  simp [step, stateD, state0thExitEna, stateExecExitEna, hstate, hflush, hlast, hopDiv, hsked,
    MulDivFsm.beq_eq]

/-- A division without correction is taken in the check. -/
theorem step_check_done (hi : i.Presents ins) (hstate : s.state = .remdChck)
    (hflush : i.flush = false) (hneed : s.divNeedCorrct i = false) (hsked : s.oHsked i = true) :
    (s.step i).state = .zeroth ∧ (s.step i).sbf0 = s.sbf0 ∧ (s.step i).sbf1 = s.sbf1 := by
  simp [step, stateD, sbf0D, sbf1D, partPrdtEna, partRemdEna, partQuotEna, execCntSet, execCntInc,
    state0thExitEna, stateExecExitEna, stateRemdChckExitEna, stateQuotCorrExitEna,
    stateRemdCorrExitEna, hi.mdvOp, hstate, hflush, hneed, hsked, MulDivFsm.beq_eq]

/-- A corrected division is taken with the correction of the remainder. -/
theorem step_remdCorr_done (hi : i.Presents ins) (hop : ins.op.isMul = false)
    (hstate : s.state = .remdCorr) (hsked : s.oHsked i = true) :
    (s.step i).state = .zeroth ∧ (s.step i).sbf0 = (s.divAluRes i).setWidth 33 ∧
      (s.step i).sbf1 = s.sbf1 := by
  have hopMul : i.opMul = false := by
    rw [hi.opMul, hop]
  simp [step, stateD, sbf0D, sbf1D, partPrdtEna, partRemdEna, partQuotEna, partRemdNxt,
    corrctPhase, execCntSet, execCntInc, state0thExitEna, stateExecExitEna, stateRemdChckExitEna,
    stateQuotCorrExitEna, stateRemdCorrExitEna, hi.mdvOp, hstate, hsked, hopMul, MulDivFsm.beq_eq]

end MulDivState

/-- The counter does not overflow before the last round. -/
theorem execCnt_succ (hcnt : s.execCnt.toNat = j) (hj : j < 33) :
    (s.execCnt + 1).toNat = j + 1 := by
  have hone : (1 : BitVec 6).toNat = 1 := rfl
  rw [BitVec.toNat_add, hcnt, hone]
  omega

/-- While the result is not there, the unit goes on. -/
theorem Working.step_wait (h : Working s ins j) (hi : i.Presents ins) (hflush : i.flush = false)
    (hvalid : s.oValid i = false) : Working (s.step i) ins (j + 1) := by
  have hsked : s.oHsked i = false := by
    rw [MulDivState.oHsked, hvalid, Bool.false_and]
  refine ⟨h.special, ?_, ?_⟩
  · rw [MulDivState.step_flushed hflush hsked]
    exact h.pair
  rw [h.oValid_of hi, execLastCycle_eq hi] at hvalid
  cases h.busy with
  | multiply hstate hcnt hpos hle hop hM =>
      have hround := inRound_of_exec hstate hcnt hpos
      have hlast : s.execLastCycle i = false := by
        rw [execLastCycle_eq hi, if_pos hop]
        rw [hstate, hop] at hvalid
        simpa [MulDivFsm.beq_eq] using hvalid
      have hlt : j < 16 := by
        rw [execLastCycle_eq hi, if_pos hop, hround.cycle16th_iff hpos,
          decide_eq_false_iff_not] at hlast
        omega
      obtain ⟨hstate', hcnt', hinc⟩ := MulDivState.step_exec hstate hflush hlast
      obtain ⟨hsbf0, hsbf1, hsft1⟩ := MulDivState.step_mul_buffers hi hop (Or.inr (Or.inl hinc))
      obtain ⟨hhi, hlo, hlow⟩ := mul_view hstate i
      rw [← hhi, ← hlo, ← hlow] at hM
      obtain ⟨low', hM'⟩ := MulDivState.multiplying_next hround hi hop hM hlt
      rw [← hsbf0, ← hsbf1, ← hsft1] at hM'
      exact .multiply hstate' (by rw [hcnt', execCnt_succ hcnt (by omega)]) (by omega) (by omega)
        hop hM'
  | divide hstate hcnt hpos hle hop hD =>
      have hround := inRound_of_exec hstate hcnt hpos
      obtain ⟨hop1, hlo⟩ := div_view hstate i
      rw [← hop1, ← hlo] at hD
      have hlast : s.execLastCycle i = decide (j = 32) := by
        rw [execLastCycle_eq hi, if_neg (by simp [hop]), hround.cycle32nd_iff hpos]
      by_cases hend : j = 32
      · rw [hend] at hround hD hlast
        obtain ⟨hstate', hexit⟩ := MulDivState.step_exec_last hi hop hstate hflush hlast
        obtain ⟨hsbf0, hsbf1, -⟩ :=
          MulDivState.step_div_buffers hi hop (Or.inr (Or.inr hexit))
        obtain ⟨q', r', hodd, hquot, hD'⟩ := MulDivState.dividing_last hround hi hop hD
        rw [← hsbf0, ← hsbf1] at hD'
        exact .check hstate' (by omega) hop hodd hquot hD'
      · rw [decide_eq_false hend] at hlast
        obtain ⟨hstate', hcnt', hinc⟩ := MulDivState.step_exec hstate hflush hlast
        obtain ⟨hsbf0, hsbf1, hsft1⟩ :=
          MulDivState.step_div_buffers hi hop (Or.inr (Or.inl hinc))
        obtain ⟨q', r', hD'⟩ := MulDivState.dividing_next hround hi hop hD (by omega)
        rw [← hsbf0, ← hsbf1, ← hsft1] at hD'
        exact .divide hstate' (by rw [hcnt', execCnt_succ hcnt (by omega)]) (by omega) (by omega)
          hop hD'
  | check hstate hj hop hodd hquot hD =>
      have hneed : s.divNeedCorrct i = true := by
        rw [hstate] at hvalid
        simpa [MulDivFsm.beq_eq] using hvalid
      have hneeds := (MulDivState.divNeedCorrct_iff hi hop hstate hquot hD).mp hneed
      obtain ⟨hstate', hsbf0, hsbf1⟩ := MulDivState.step_check hi hstate hflush hneed
      rw [← hsbf0, ← hsbf1] at hD
      exact .quotient hstate' (by omega) hop hodd hquot hneeds hD
  | quotient hstate hj hop hodd hquot hneed hD =>
      obtain ⟨hstate', hsbf0, hsbf1⟩ := MulDivState.step_quotCorr hi hop hstate hflush
      have hD' := MulDivState.quotCorr_eq hi hop hstate hD
      rw [← hsbf0, ← hsbf1] at hD'
      exact .remainder hstate' (by omega) hop hodd hquot hneed hD'
  | remainder hstate hj hop hodd hquot hneed hD =>
      rw [hstate] at hvalid
      simp [MulDivFsm.beq_eq] at hvalid

/-- While the taker is not ready, the unit keeps its state. -/
theorem Working.step_stall (h : Working s ins j) (hi : i.Presents ins) (hflush : i.flush = false)
    (hvalid : s.oValid i = true) (hready : i.oReady = false) : Working (s.step i) ins j := by
  have hsked : s.oHsked i = false := by
    rw [MulDivState.oHsked, hready, Bool.and_false]
  have hflushed : s.flushedD i = s.flushed := by
    simp [MulDivState.flushedD, hflush, hsked]
  have hvalid' := hvalid
  rw [h.oValid_of hi] at hvalid'
  have hhold : s.step i = s := by
    cases h.busy with
    | multiply hstate hcnt hpos hle hop hM =>
        have hlast : s.execLastCycle i = true := by
          rw [hstate, hop] at hvalid'
          simpa [MulDivFsm.beq_eq] using hvalid'
        have hopDiv : i.opDiv = false := by
          rw [hi.opDiv, hop]
          rfl
        rw [MulDivState.step_hold hi (by simp [hstate]), hflushed]
        all_goals
          simp [MulDivState.execCntInc, MulDivState.stateD, MulDivState.state0thExitEna,
            MulDivState.stateExecExitEna, MulDivState.stateRemdChckExitEna,
            MulDivState.stateQuotCorrExitEna, MulDivState.stateRemdCorrExitEna, hstate, hlast,
            hopDiv, hsked, hflush, MulDivFsm.beq_eq]
    | divide hstate hcnt hpos hle hop hD =>
        rw [hstate, hop] at hvalid'
        simp [MulDivFsm.beq_eq] at hvalid'
    | check hstate hj hop hodd hquot hD =>
        have hneed : s.divNeedCorrct i = false := by
          rw [hstate] at hvalid'
          simpa [MulDivFsm.beq_eq] using hvalid'
        rw [MulDivState.step_hold hi (by simp [hstate]), hflushed]
        all_goals
          simp [MulDivState.execCntInc, MulDivState.stateD, MulDivState.state0thExitEna,
            MulDivState.stateExecExitEna, MulDivState.stateRemdChckExitEna,
            MulDivState.stateQuotCorrExitEna, MulDivState.stateRemdCorrExitEna, hstate, hneed,
            hsked, hflush, MulDivFsm.beq_eq]
    | quotient hstate hj hop hodd hquot hneed hD =>
        rw [hstate] at hvalid'
        simp [MulDivFsm.beq_eq] at hvalid'
    | remainder hstate hj hop hodd hquot hneed hD =>
        rw [MulDivState.step_hold hi (by simp [hstate]), hflushed]
        all_goals
          simp [MulDivState.execCntInc, MulDivState.stateD, MulDivState.state0thExitEna,
            MulDivState.stateExecExitEna, MulDivState.stateRemdChckExitEna,
            MulDivState.stateQuotCorrExitEna, MulDivState.stateRemdCorrExitEna, hstate, hsked,
            hflush, MulDivFsm.beq_eq]
  rw [hhold]
  exact h

/-- When the result is taken, the unit is back in its first state, with the results of the
pair in its registers. -/
theorem Working.step_done (h : Working s ins j) (hi : i.Presents ins) (hflush : i.flush = false)
    (hsked : s.oHsked i = true) : (s.step i).state = .zeroth ∧ Kept (s.step i) ins := by
  have hvalid : s.oValid i = true := by
    rw [MulDivState.oHsked, Bool.and_eq_true] at hsked
    exact hsked.1
  have hj := h.oValid_eq hi
  rw [hvalid, eq_comm, decide_eq_true_iff] at hj
  rw [h.oValid_of hi] at hvalid
  cases h.busy with
  | multiply hstate hcnt hpos hle hop hM =>
      have hlast : s.execLastCycle i = true := by
        rw [hstate, hop] at hvalid
        simpa [MulDivFsm.beq_eq] using hvalid
      have hend : j = 16 := by
        rw [hj, MulDivInstr.latency, if_pos hop]
      obtain ⟨hstate', hexit⟩ := MulDivState.step_mul_done hi hop hstate hflush hlast hsked
      obtain ⟨-, hsbf1, hsft1⟩ := MulDivState.step_mul_buffers hi hop (Or.inr (Or.inr hexit))
      obtain ⟨hhi, hlo, hlow⟩ := mul_view hstate i
      rw [hend, ← hhi, ← hlo, ← hlow] at hM
      refine ⟨hstate', fun _ => ⟨fun _ => ?_, fun hdiv => ?_⟩⟩
      · rw [hsbf1, hsft1]
        exact MulDivState.lowWord_of_last hM
      · simp [hop] at hdiv
  | divide hstate hcnt hpos hle hop hD =>
      rw [hstate, hop] at hvalid
      simp [MulDivFsm.beq_eq] at hvalid
  | check hstate hj' hop hodd hquot hD =>
      have hzero := MulDivInstr.y_ne_zero hop h.special
      have hneed : s.divNeedCorrct i = false := by
        rw [hstate] at hvalid
        simpa [MulDivFsm.beq_eq] using hvalid
      have hok := mt (MulDivState.divNeedCorrct_iff hi hop hstate hquot hD).mpr (by simp [hneed])
      obtain ⟨hq, hr⟩ := hquot.tdiv_tmod hzero hok
      obtain ⟨hstate', hsbf0, hsbf1⟩ := MulDivState.step_check_done hi hstate hflush hneed hsked
      rw [← hq, ← hr, ← hsbf0, ← hsbf1] at hD
      exact ⟨hstate', fun _ => ⟨fun hmul => by simp [hop] at hmul, fun _ => hD⟩⟩
  | quotient hstate hj' hop hodd hquot hneed hD =>
      rw [hstate] at hvalid
      simp [MulDivFsm.beq_eq] at hvalid
  | remainder hstate hj' hop hodd hquot hneed hD =>
      have hzero := MulDivInstr.y_ne_zero hop h.special
      obtain ⟨hq, hr⟩ := hquot.corrected hzero hneed
      have hlast := MulDivState.remdCorr_eq hi hop hstate hquot hD
      obtain ⟨hstate', hsbf0, hsbf1⟩ := MulDivState.step_remdCorr_done hi hop hstate hsked
      rw [← hq, ← hr, ← hsbf0, ← hsbf1] at hlast
      exact ⟨hstate', fun _ => ⟨fun hmul => by simp [hop] at hmul, fun _ => hlast⟩⟩

/-! ## The first state -/

/-- An instruction that is answered in the cycle in which it is presented. -/
def AtOnce (s : MulDivState) (ins : MulDivInstr) : Prop :=
  ins.Special ∨ (ins.b2b && !s.flushed && !ins.nob2b) = true

instance (s : MulDivState) (ins : MulDivInstr) : Decidable (AtOnce s ins) :=
  inferInstanceAs (Decidable (_ ∨ _))

/-- The first state is round zero. -/
theorem inRound_of_zeroth (hstate : s.state = .zeroth) : s.InRound 0 :=
  ⟨fun _ => rfl, fun hne => absurd hstate hne⟩

/-- Any other instruction is started. -/
theorem step_start (hstate : s.state = .zeroth) (hi : i.Presents ins) (hflush : i.flush = false)
    (hlong : ¬AtOnce s ins) : Working (s.step i) ins 1 := by
  rw [AtOnce, not_or, Bool.not_eq_true] at hlong
  obtain ⟨hspecial, hpair⟩ := hlong
  have hround := inRound_of_zeroth hstate
  have hset : s.execCntSet i = true := by
    rw [MulDivState.execCntSet, MulDivState.state0thExitEna, hi.iValid, backToBackSeq_eq hi, hpair,
      hi.specialCases, decide_eq_false hspecial, hstate, hflush]
    rfl
  have hsked : s.oHsked i = false := by
    rw [MulDivState.oHsked, MulDivState.oValid, MulDivState.wbckCondi, backToBackSeq_eq hi, hpair,
      hi.specialCases, decide_eq_false hspecial, hstate]
    simp [MulDivFsm.beq_eq]
  have hstate' : (s.step i).state = .exec := by
    rw [MulDivState.execCntSet] at hset
    simp [MulDivState.step, MulDivState.stateD, hset]
  have hcnt' : (s.step i).execCnt.toNat = 1 := by
    simp [MulDivState.step, MulDivState.execCntD, hset]
  refine ⟨hspecial, ?_, ?_⟩
  · rw [MulDivState.step_flushed hflush hsked]
    exact hpair
  · cases hop : ins.op.isMul
    · have hD := MulDivState.dividing_start hstate hi hop (MulDivInstr.y_ne_zero hop hspecial)
      obtain ⟨hsbf0, hsbf1, hsft1⟩ := MulDivState.step_div_buffers hi hop (Or.inl hset)
      obtain ⟨q', r', hD'⟩ := MulDivState.dividing_next hround hi hop hD (by omega)
      rw [← hsbf0, ← hsbf1, ← hsft1] at hD'
      exact .divide hstate' hcnt' one_pos (by omega) hop hD'
    · have hM := Multiplying.start ins i.mulRs1Sign (hi.mulRs1Sign hop)
      obtain ⟨hsbf0, hsbf1, hsft1⟩ := MulDivState.step_mul_buffers hi hop (Or.inl hset)
      have hview : s.mulHi = 0 ∧ s.mulLo i = BitVec.ofBool i.mulRs1Sign ++ ins.rs1 ∧
          s.mulSft1 = false := by
        simp [MulDivState.mulHi, MulDivState.mulLo, MulDivState.mulSft1, MulDivState.cycle0th,
          hstate, hi.rs1]
      rw [← hview.1, ← hview.2.1, ← hview.2.2] at hM
      obtain ⟨low', hM'⟩ := MulDivState.multiplying_next hround hi hop hM (by omega)
      rw [← hsbf0, ← hsbf1, ← hsft1] at hM'
      exact .multiply hstate' hcnt' one_pos (by omega) hop hM'

/-- In the first state a result is there only for an instruction that is answered at once. -/
theorem oValid_zeroth (hstate : s.state = .zeroth) (hi : i.Presents ins) :
    s.oValid i = true ↔ AtOnce s ins := by
  rw [MulDivState.oValid, MulDivState.wbckCondi, backToBackSeq_eq hi, hi.specialCases, hi.iValid,
    hstate, AtOnce, or_comm]
  by_cases hspecial : ins.Special
  · simp [hspecial]
  · cases hpair : ins.b2b && !s.flushed && !ins.nob2b <;> simp [hspecial, MulDivFsm.beq_eq]

/-- The low word of a product does not depend on the signs of the operands. -/
theorem low_word_congr {prev : MulDivInstr} (hrs1 : prev.rs1 = ins.rs1)
    (hrs2 : prev.rs2 = ins.rs2) :
    BitVec.ofInt 32 (prev.x * prev.y) = BitVec.ofInt 32 (ins.x * ins.y) := by
  have hx : prev.x % 2 ^ 32 = ins.x % 2 ^ 32 := by
    rw [MulDivInstr.x, MulDivInstr.x, value_emod, value_emod, hrs1]
  have hy : prev.y % 2 ^ 32 = ins.y % 2 ^ 32 := by
    rw [MulDivInstr.y, MulDivInstr.y, value_emod, value_emod, hrs2]
  apply eq_ofInt
  rw [BitVec.toNat_ofInt, Int.mul_emod ins.x, ← hx, ← hy, ← Int.mul_emod]
  push_cast
  exact Int.toNat_of_nonneg (Int.emod_nonneg _ (by norm_num))

/-- A pair of divisions reads its operands alike. -/
theorem MulDivInstr.Pairs.operands {prev : MulDivInstr} (h : prev.Pairs ins)
    (hdiv : ins.op.isMul = false) : prev.op.isMul = false ∧ prev.x = ins.x ∧ prev.y = ins.y := by
  obtain ⟨hrs1, hrs2, hop⟩ := h
  rw [MulDivInstr.x, MulDivInstr.y, MulDivInstr.x, MulDivInstr.y, hrs1, hrs2]
  revert hop hdiv
  cases ins.op <;> cases prev.op <;> simp [MulDivOp.isMul, MulDivOp.signed1, MulDivOp.signed2]

/-- A multiplication that is the second of a pair wants the low word. -/
theorem MulDivInstr.Pairs.multiplication {prev : MulDivInstr} (h : prev.Pairs ins)
    (hmul : ins.op.isMul = true) : ins.op = .mul ∧ prev.op.isMul = true := by
  obtain ⟨-, -, hop⟩ := h
  revert hop hmul
  cases ins.op <;> cases prev.op <;> simp [MulDivOp.isMul]

/-- The second instruction of a pair is answered from what the first one left. -/
theorem back2backRes_eq (hi : i.Presents ins) (hspecial : ¬ins.Special) {prev : MulDivInstr}
    (hpairs : prev.Pairs ins) (hkept : Kept s prev) : s.back2backRes i = ins.result := by
  have hprev : ¬prev.Special := fun h => hspecial (hpairs.special_iff.mp h)
  obtain ⟨hmul, hdiv⟩ := hkept hprev
  rw [MulDivState.back2backRes, hi.info, hi.info, hi.info, hi.info, hi.info]
  cases hop : ins.op.isMul
  · obtain ⟨hprevOp, hx, hy⟩ := hpairs.operands hop
    have hD := hdiv hprevOp
    rw [hx, hy] at hD
    rw [← hD.result hop (MulDivInstr.rs2_ne_zero hop hspecial)]
    revert hop
    cases ins.op <;> simp [MulDivOp.isMul, MulDivOp.beq_eq]
  · obtain ⟨hlow, hprevOp⟩ := hpairs.multiplication hop
    rw [hmul hprevOp, low_word_congr hpairs.1 hpairs.2.1, MulDivInstr.result, hlow]
    simp [MulDivOp.beq_eq]

/-- The registers serve the second instruction of a pair as they served the first. -/
theorem Kept.second {prev : MulDivInstr} (h : Kept s prev) (hpairs : prev.Pairs ins) :
    Kept s ins := by
  intro hspecial
  obtain ⟨hmul, hdiv⟩ := h (fun hprev => hspecial (hpairs.special_iff.mp hprev))
  refine ⟨fun hop => ?_, fun hop => ?_⟩
  · rw [hmul (hpairs.multiplication hop).2, low_word_congr hpairs.1 hpairs.2.1]
  · obtain ⟨hprevOp, hx, hy⟩ := hpairs.operands hop
    rw [← hx, ← hy]
    exact hdiv hprevOp

/-- What is kept depends on the three registers only. -/
theorem Kept.congr {s' : MulDivState} (h : Kept s ins) (hsbf0 : s'.sbf0 = s.sbf0)
    (hsbf1 : s'.sbf1 = s.sbf1) (hsft1 : s'.partPrdtSft1 = s.partPrdtSft1) : Kept s' ins := by
  unfold Kept
  rw [hsbf0, hsbf1, hsft1]
  exact h

/-- What is returned at once is what the instruction set gives. -/
theorem wbckWdat_zeroth (hi : i.Presents ins) (honce : AtOnce s ins)
    (hpair : (ins.b2b && !s.flushed && !ins.nob2b) = true →
      ∃ prev : MulDivInstr, prev.Pairs ins ∧ Kept s prev) : s.wbckWdat i = ins.result := by
  rw [MulDivState.wbckWdat, backToBackSeq_eq hi, hi.specialCases]
  by_cases hspecial : ins.Special
  · rw [decide_eq_true hspecial, hi.specialRes hspecial]
    simp
  · have hb2b := honce.resolve_left hspecial
    obtain ⟨prev, hpairs, hkept⟩ := hpair hb2b
    rw [hb2b, decide_eq_false hspecial, back2backRes_eq hi hspecial hpairs hkept]
    simp

/-- The load/store unit writes a shared buffer. -/
def MulDivInput.writesBuffers (i : MulDivInput) : Bool :=
  !i.mdvOp && (i.aguSbf0Ena || i.aguSbf1Ena)

/-- Nothing is started without an instruction, and none that is answered at once. -/
theorem step_stay (hstate : s.state = .zeroth)
    (hnone : i.iValid = false ∨ i.Presents ins ∧ AtOnce s ins) : (s.step i).state = .zeroth := by
  have hexit : s.state0thExitEna i = false := by
    rcases hnone with hvalid | ⟨hi, honce⟩
    · simp [MulDivState.state0thExitEna, hvalid]
    · rw [MulDivState.state0thExitEna, backToBackSeq_eq hi, hi.specialCases]
      rcases honce with hspecial | hpair
      · simp [hspecial]
      · simp [hpair]
  simp [MulDivState.step, MulDivState.stateD, MulDivState.stateExecExitEna,
    MulDivState.stateRemdChckExitEna, MulDivState.stateQuotCorrExitEna,
    MulDivState.stateRemdCorrExitEna, hstate, hexit, MulDivFsm.beq_eq]

/-- Outside a start the first state keeps everything but the mark of a flush. -/
theorem step_zeroth (hstate : s.state = .zeroth) (hstay : (s.step i).state = .zeroth)
    (hwrites : i.writesBuffers = false) :
    (s.step i).sbf0 = s.sbf0 ∧ (s.step i).sbf1 = s.sbf1 ∧
      (s.step i).partPrdtSft1 = s.partPrdtSft1 := by
  have hset : s.execCntSet i = false := by
    by_contra hset
    rw [Bool.not_eq_false, MulDivState.execCntSet] at hset
    simp [MulDivState.step, MulDivState.stateD, hset] at hstay
  rw [MulDivInput.writesBuffers] at hwrites
  have hena : s.partPrdtEna i = false ∧ s.partRemdEna i = false ∧ s.partQuotEna i = false := by
    simp [MulDivState.partPrdtEna, MulDivState.partRemdEna, MulDivState.partQuotEna,
      MulDivState.execCntInc, MulDivState.stateExecExitEna, MulDivState.stateQuotCorrExitEna,
      MulDivState.stateRemdCorrExitEna, hset, hstate, MulDivFsm.beq_eq]
  obtain ⟨hprdt, hremd, hquot⟩ := hena
  cases hmdv : i.mdvOp
  · simp [hmdv] at hwrites
    simp [MulDivState.step, MulDivState.sbf0D, MulDivState.sbf1D, hmdv, hwrites, hprdt]
  · simp [MulDivState.step, MulDivState.sbf0D, MulDivState.sbf1D, hmdv, hprdt, hremd, hquot]

end E203
end AcceleratorSoc
