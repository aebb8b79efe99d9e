import AcceleratorSoc.CnnCore.Bus

/-!
# Load phases

{lit}`LOAD_WEIGHT` and {lit}`LOAD_IMAGE` fetch sixteen words each with the same
machinery: a send side (done flag, handshake counter, next address, command
registers) and a receive side (response counter, buffer).  A {lit}`LoadPhase`
names these registers, and its laws say what one clock edge does to them while
the controller is in the phase.

Main results:

- Theorems {lit}`weightPhase_lawful` and {lit}`imagePhase_lawful`: both phases
  of the core obey the laws.
- Theorem {lit}`LoadStage.step`: the four stages of the send side and the number
  of commands accepted in each.
- Theorem {lit}`LoadInv.step`: while the phase lasts, the ledger of a conforming
  slave records exactly the commands sent and the words buffered.
-/

namespace AcceleratorSoc
namespace CnnCore

open Clocked

/-! ## The send side -/

/-- Registers of the send side of a load phase. -/
structure SendView where
  sendDone : Bool
  valid : Bool
  sendCnt : BitVec 4
  cmdAddr : Word
  addrNext : Word

/-- One clock edge of the send side while its phase lasts.  The done flag follows
the counter one cycle late; at count fifteen the two phases treat the counter
differently, and nothing depends on it any more. -/
structure SendView.Steps (ready : Bool) (v v' : SendView) : Prop where
  sendDone : v'.sendDone = (v.sendCnt == 15 || v.sendDone)
  valid : v'.valid = !v.sendDone
  cmdAddr : v.sendDone = false →
    v'.cmdAddr = if !v.valid || ready then v.addrNext else v.cmdAddr
  addrNext : v.sendDone = false →
    v'.addrNext = if !v.valid || ready then v.addrNext + 4 else v.addrNext
  sendCnt : v.sendCnt ≠ 15 →
    v'.sendCnt = if v.valid && ready then v.sendCnt + 1 else v.sendCnt

/-- Address of word {lit}`k` of a block. -/
def wordAddr (base : Word) (k : Nat) : Word :=
  base + BitVec.ofNat 32 (4 * k)

/-- The block begins at its base. -/
theorem wordAddr_zero (base : Word) : wordAddr base 0 = base := by
  simp [wordAddr]

/-- The next word is four bytes on. -/
theorem wordAddr_succ (base : Word) (k : Nat) :
    wordAddr base (k + 1) = wordAddr base k + 4 := by
  rw [wordAddr, wordAddr, BitVec.add_assoc, Nat.mul_succ, BitVec.ofNat_add]
  rfl

/-- Stages of the send side, with the number of commands accepted so far.  In the
stage {lit}`lastBeat` the done flag is already up while one more command is
presented; it is the sixteenth or the seventeenth of the phase. -/
inductive LoadStage (base : Word) : Nat → SendView → Prop
  | opening {v : SendView} (sendDone : v.sendDone = false) (valid : v.valid = false)
      (sendCnt : v.sendCnt = 0) (addrNext : v.addrNext = wordAddr base 0) :
      LoadStage base 0 v
  | streaming {a : Nat} {v : SendView} (sendDone : v.sendDone = false)
      (valid : v.valid = true) (le : a ≤ 15) (sendCnt : v.sendCnt = BitVec.ofNat 4 a)
      (cmdAddr : v.cmdAddr = wordAddr base a)
      (addrNext : v.addrNext = wordAddr base (a + 1)) :
      LoadStage base a v
  | lastBeat {a : Nat} {v : SendView} (sendDone : v.sendDone = true)
      (valid : v.valid = true) (le : 15 ≤ a ∧ a ≤ 16)
      (cmdAddr : v.cmdAddr = wordAddr base a) :
      LoadStage base a v
  | drained {a : Nat} {v : SendView} (sendDone : v.sendDone = true)
      (valid : v.valid = false) (le : 15 ≤ a ∧ a ≤ 17) :
      LoadStage base a v

namespace LoadStage

variable {base : Word} {a : Nat} {v v' : SendView} {ready : Bool}

/-- A presented command carries the address of the next word. -/
theorem cmdAddr_of_valid (h : LoadStage base a v) (hvalid : v.valid = true) :
    v.cmdAddr = wordAddr base a := by
  cases h with
  | opening _ hv => exact absurd hvalid (by simp [hv])
  | streaming _ _ _ _ haddr _ => exact haddr
  | lastBeat _ _ _ haddr => exact haddr
  | drained _ hv => exact absurd hvalid (by simp [hv])

/-- Before the done flag rises at most fifteen commands have been accepted, and
the counter shows how many. -/
theorem of_not_sendDone (h : LoadStage base a v) (hdone : v.sendDone = false) :
    a ≤ 15 ∧ v.sendCnt = BitVec.ofNat 4 a := by
  cases h with
  | opening _ _ hcnt => exact ⟨by omega, hcnt⟩
  | streaming _ _ hle hcnt => exact ⟨hle, hcnt⟩
  | lastBeat hd => exact absurd hd (by simp [hdone])
  | drained hd => exact absurd hd (by simp [hdone])

/-- Once the flag is up, at least fifteen commands have been accepted. -/
theorem fifteen_le (h : LoadStage base a v) (hdone : v.sendDone = true) : 15 ≤ a := by
  cases h with
  | opening hd => exact absurd hdone (by simp [hd])
  | streaming hd => exact absurd hdone (by simp [hd])
  | lastBeat _ _ hle => exact hle.1
  | drained _ _ hle => exact hle.1

/-- A smaller count is not fifteen. -/
private theorem ofNat_ne_fifteen (h : a < 15) : BitVec.ofNat 4 a ≠ 15#4 := by
  intro heq
  have := congrArg BitVec.toNat heq
  simp at this
  omega

/-- With the counter at fifteen and the flag still down, the sixteenth read is
presented. -/
theorem at_fifteen (h : LoadStage base a v) (hdone : v.sendDone = false)
    (hcnt : v.sendCnt = 15) : a = 15 ∧ v.valid = true := by
  cases h with
  | opening _ _ hzero => exact absurd (hzero.symm.trans hcnt) (by decide)
  | streaming _ hvalid hle hcnt' =>
      refine ⟨?_, hvalid⟩
      by_contra hne
      exact ofNat_ne_fifteen (a := a) (by omega) (hcnt'.symm.trans hcnt)
  | lastBeat hd => exact absurd hd (by simp [hdone])
  | drained hd => exact absurd hd (by simp [hdone])

/-- One clock edge moves the send side to its next stage. -/
theorem step (h : LoadStage base a v) (hstep : v.Steps ready v') :
    LoadStage base (a + (v.valid && ready).toNat) v' := by
  cases h with
  | opening hdone hvalid hcnt hnext =>
      have hne : v.sendCnt ≠ 15 := by simp [hcnt]
      rw [hvalid]
      refine streaming ?_ ?_ (by simp) ?_ ?_ ?_
      · rw [hstep.sendDone, hdone, hcnt]
        rfl
      · rw [hstep.valid, hdone]
        rfl
      · rw [hstep.sendCnt hne, hvalid, hcnt]
        rfl
      · rw [hstep.cmdAddr hdone, hvalid, hnext]
        rfl
      · rw [hstep.addrNext hdone, hvalid, hnext]
        exact (wordAddr_succ base 0).symm
  | streaming hdone hvalid hle hcnt haddr hnext =>
      rw [hvalid, Bool.true_and]
      by_cases hlast : a = 15
      · -- The fifteenth handshake has been counted: the flag rises regardless.
        subst hlast
        refine lastBeat ?_ ?_ ?_ ?_
        · rw [hstep.sendDone, hcnt]
          rfl
        · rw [hstep.valid, hdone]
          rfl
        · cases ready <;> simp
        · rw [hstep.cmdAddr hdone, hvalid, hnext, haddr]
          cases ready <;> rfl
      · have hne := ofNat_ne_fifteen (a := a) (by omega)
        refine streaming ?_ ?_ ?_ ?_ ?_ ?_
        · rw [hstep.sendDone, hcnt, hdone]
          simpa using hne
        · rw [hstep.valid, hdone]
          rfl
        · cases ready <;> simp <;> omega
        · rw [hstep.sendCnt (by rw [hcnt]; exact hne), hvalid, hcnt]
          cases ready
          · rfl
          · simp [BitVec.ofNat_add]
        · rw [hstep.cmdAddr hdone, hvalid, hnext, haddr]
          cases ready <;> rfl
        · rw [hstep.addrNext hdone, hvalid, hnext]
          cases ready
          · rfl
          · exact (wordAddr_succ base (a + 1)).symm
  | lastBeat hdone hvalid hle haddr =>
      rw [hvalid, Bool.true_and]
      refine drained ?_ ?_ ?_
      · rw [hstep.sendDone, hdone, Bool.or_true]
      · rw [hstep.valid, hdone]
        rfl
      · cases ready <;> simp <;> omega
  | drained hdone hvalid hle =>
      rw [hvalid, Bool.false_and]
      refine drained ?_ ?_ hle
      · rw [hstep.sendDone, hdone, Bool.or_true]
      · rw [hstep.valid, hdone]
        rfl

end LoadStage

/-! ## The two phases -/

/-- A load phase of the core: its controller state, the base address of its
block, and its registers. -/
structure LoadPhase where
  state : FsmState
  base : Word
  view : CoreState → SendView
  rcptCnt : CoreState → BitVec 5
  buffer : CoreState → Bank (Bank Word)

/-- {lit}`LOAD_WEIGHT`. -/
def weightPhase : LoadPhase where
  state := .loadWeight
  base := weightAddr
  view s :=
    { sendDone := s.weightAddrSendDone
      valid := s.cnnIcbCmdValid
      sendCnt := s.weightAddrSendCnt
      cmdAddr := s.cnnIcbCmdAddr
      addrNext := s.weightAddrNext }
  rcptCnt s := s.weightDataRcptCnt
  buffer s := s.curWeight

/-- {lit}`LOAD_IMAGE`. -/
def imagePhase : LoadPhase where
  state := .loadImage
  base := imageAddr
  view s :=
    { sendDone := s.imageAddrSendDone
      valid := s.cnnIcbCmdValid
      sendCnt := s.imageAddrSendCnt
      cmdAddr := s.cnnIcbCmdAddr
      addrNext := s.imageAddrNext }
  rcptCnt s := s.imageDataRcptCnt
  buffer s := s.imageData

/-- The phase has not begun: its registers hold their reset values. -/
structure Untouched (p : LoadPhase) (s : CoreState) : Prop where
  sendDone : (p.view s).sendDone = false
  sendCnt : (p.view s).sendCnt = 0
  addrNext : (p.view s).addrNext = p.base
  rcptCnt : p.rcptCnt s = 0

/-- What one clock edge does to the registers of a load phase.  Most laws hold
while the controller is in the phase and still waits for a response. -/
structure LoadPhase.Lawful (p : LoadPhase) : Prop where
  loads : p.state = .loadWeight ∨ p.state = .loadImage
  view_valid : ∀ s, (p.view s).valid = s.cnnIcbCmdValid
  view_cmdAddr : ∀ s, (p.view s).cmdAddr = s.cnnIcbCmdAddr
  sendDone_step : ∀ s i, (p.view (s.step i)).sendDone =
    ((p.view s).sendCnt == 15 || (p.view s).sendDone)
  untouched_step : ∀ {s} i, s.currentState ≠ p.state → Untouched p s →
    Untouched p (s.step i)
  view_step : ∀ {s} i, s.currentState = p.state →
    (s.cnnIcbCmdValid = true → s.cnnIcbCmdRead = true) →
    (p.view s).Steps i.cnnIcbCmdReady (p.view (s.step i))
  rcptCnt_step : ∀ {s} i, s.currentState = p.state → (p.rcptCnt s).toNat ≤ 15 →
    (p.rcptCnt (s.step i)).toNat = (p.rcptCnt s).toNat + i.cnnIcbRspValid.toNat
  buffer_step : ∀ {s} i r c, s.currentState = p.state →
    p.buffer (s.step i) r c =
      if i.cnnIcbRspValid = true ∧ (p.rcptCnt s).toNat = 4 * r.val + c.val then
        i.cnnIcbRspRdata
      else p.buffer s r c
  stays : ∀ {s} i, s.currentState = p.state → (p.rcptCnt s).toNat ≤ 15 →
    (s.step i).currentState = p.state

/-- The receipt counter selects the register of the next word. -/
private theorem rcpt_beq_index (cnt : BitVec 5) (r c : Fin 4) :
    (cnt == BitVec.ofNat 5 (4 * r.val + c.val)) = decide (cnt.toNat = 4 * r.val + c.val) := by
  rw [Bool.eq_iff_iff, beq_iff_eq, decide_eq_true_iff, ← BitVec.toNat_inj,
    BitVec.toNat_ofNat, Nat.mod_eq_of_lt (by omega)]

/-- It does not overflow. -/
private theorem rcpt_add_one (cnt : BitVec 5) (h : cnt.toNat ≤ 15) :
    (cnt + 1).toNat = cnt.toNat + 1 := by
  rw [BitVec.toNat_add]
  exact Nat.mod_eq_of_lt (by simp; omega)

/-- It is not sixteen before the last word. -/
private theorem rcpt_ne_sixteen (cnt : BitVec 5) (h : cnt.toNat ≤ 15) : cnt ≠ 16#5 := by
  intro heq
  simp [heq] at h

/-- The send-done flag of the weights is sticky. -/
private theorem weightAddrSendDoneD_eq (s : CoreState) :
    s.weightAddrSendDoneD = (s.weightAddrSendCnt == 15 || s.weightAddrSendDone) := by
  unfold CoreState.weightAddrSendDoneD
  cases s.weightAddrSendCnt == 15 <;> simp

/-- So is that of the image. -/
private theorem imageAddrSendDoneD_eq (s : CoreState) :
    s.imageAddrSendDoneD = (s.imageAddrSendCnt == 15 || s.imageAddrSendDone) := by
  unfold CoreState.imageAddrSendDoneD
  cases s.imageAddrSendCnt == 15 <;> simp

/-- {lit}`LOAD_WEIGHT` is a load phase of this kind. -/
theorem weightPhase_lawful : weightPhase.Lawful where
  loads := Or.inl rfl
  view_valid _ := rfl
  view_cmdAddr _ := rfl
  sendDone_step s _ := weightAddrSendDoneD_eq s
  untouched_step {s} i hs h := by
    replace hs : s.currentState ≠ .loadWeight := hs
    have hdone : s.weightAddrSendDone = false := h.sendDone
    have hcnt : s.weightAddrSendCnt = 0 := h.sendCnt
    have hnext : s.weightAddrNext = weightAddr := h.addrNext
    have hrcpt : s.weightDataRcptCnt = 0 := h.rcptCnt
    constructor
    · simp [weightPhase, CoreState.step, CoreState.weightAddrSendDoneD, hcnt, hdone]
    · simp [weightPhase, CoreState.step, CoreState.weightAddrSendCntD, hcnt, hs]
    · simp [weightPhase, CoreState.step, CoreState.weightAddrNextD,
        CoreState.weightAddrSendStart, hs, hnext]
    · simp [weightPhase, CoreState.step, CoreState.weightDataRcptCntD, hrcpt, hs]
  view_step {s} i hs hread := by
    replace hs : s.currentState = .loadWeight := hs
    constructor
    · exact weightAddrSendDoneD_eq s
    · simp [weightPhase, CoreState.step, CoreState.cnnIcbCmdValidD,
        CoreState.weightAddrSendStart, CoreState.imageAddrSendStart,
        CoreState.storeDataSendStart, hs]
    · intro hdone
      replace hdone : s.weightAddrSendDone = false := hdone
      simp only [weightPhase, CoreState.step, CoreState.cnnIcbCmdAddrD,
        CoreState.weightAddrSendStart, CoreState.imageAddrSendStart,
        CoreState.storeDataSendStart, CoreState.sendUpdateControl, hs, hdone]
      cases s.cnnIcbCmdValid <;> cases i.cnnIcbCmdReady <;> rfl
    · intro hdone
      replace hdone : s.weightAddrSendDone = false := hdone
      simp [weightPhase, CoreState.step, CoreState.weightAddrNextD,
        CoreState.weightAddrSendStart, CoreState.sendUpdateControl, hs, hdone]
    · intro hcnt
      replace hcnt : s.weightAddrSendCnt ≠ 15#4 := hcnt
      simp only [weightPhase, CoreState.step, CoreState.weightAddrSendCntD,
        CoreState.cnnIcbCmdRdHsk, CoreState.cnnIcbCmdHsk]
      by_cases hvalid : s.cnnIcbCmdValid = true
      · simp [hs, hvalid, hread hvalid, hcnt]
      · simp [hvalid]
  rcptCnt_step {s} i hs hle := by
    replace hs : s.currentState = .loadWeight := hs
    have hne := rcpt_ne_sixteen s.weightDataRcptCnt hle
    have hadd := rcpt_add_one s.weightDataRcptCnt hle
    simp only [weightPhase, CoreState.step, CoreState.weightDataRcptCntD,
      CoreState.cnnIcbRspHsk, CoreState.cnnIcbRspReady]
    by_cases hrsp : i.cnnIcbRspValid = true
    · simpa [hs, hrsp, hne] using hadd
    · simp [hs, hrsp, hne]
  buffer_step {s} i r c hs := by
    replace hs : s.currentState = .loadWeight := hs
    simp only [weightPhase, CoreState.step, Bank.table_get, CoreState.curWeightD,
      CoreState.cnnIcbRspHsk, CoreState.cnnIcbRspReady, rcpt_beq_index]
    grind
  stays {s} i hs hle := by
    replace hs : s.currentState = .loadWeight := hs
    have hne := rcpt_ne_sixteen s.weightDataRcptCnt hle
    exact CoreState.nextState_eq_loadWeight.mpr
      (Or.inr ⟨hs, by simp [CoreState.weightDataRcptDone, hne]⟩)

/-- {lit}`LOAD_IMAGE` is another. -/
theorem imagePhase_lawful : imagePhase.Lawful where
  loads := Or.inr rfl
  view_valid _ := rfl
  view_cmdAddr _ := rfl
  sendDone_step s _ := imageAddrSendDoneD_eq s
  untouched_step {s} i hs h := by
    replace hs : s.currentState ≠ .loadImage := hs
    have hdone : s.imageAddrSendDone = false := h.sendDone
    have hcnt : s.imageAddrSendCnt = 0 := h.sendCnt
    have hnext : s.imageAddrNext = imageAddr := h.addrNext
    constructor
    · simp [imagePhase, CoreState.step, CoreState.imageAddrSendDoneD, hcnt, hdone]
    · simp [imagePhase, CoreState.step, CoreState.imageAddrSendCntD, hcnt, hs]
    · simp [imagePhase, CoreState.step, CoreState.imageAddrNextD,
        CoreState.imageAddrSendStart, hs, hnext]
    · simp [imagePhase, CoreState.step, CoreState.imageDataRcptCntD, hs]
  view_step {s} i hs hread := by
    replace hs : s.currentState = .loadImage := hs
    constructor
    · exact imageAddrSendDoneD_eq s
    · simp [imagePhase, CoreState.step, CoreState.cnnIcbCmdValidD,
        CoreState.weightAddrSendStart, CoreState.imageAddrSendStart,
        CoreState.storeDataSendStart, hs]
    · intro hdone
      replace hdone : s.imageAddrSendDone = false := hdone
      simp only [imagePhase, CoreState.step, CoreState.cnnIcbCmdAddrD,
        CoreState.weightAddrSendStart, CoreState.imageAddrSendStart,
        CoreState.storeDataSendStart, CoreState.sendUpdateControl, hs, hdone]
      cases s.cnnIcbCmdValid <;> cases i.cnnIcbCmdReady <;> rfl
    · intro hdone
      replace hdone : s.imageAddrSendDone = false := hdone
      simp [imagePhase, CoreState.step, CoreState.imageAddrNextD,
        CoreState.imageAddrSendStart, CoreState.sendUpdateControl, hs, hdone]
    · intro _
      simp only [imagePhase, CoreState.step, CoreState.imageAddrSendCntD,
        CoreState.cnnIcbCmdRdHsk, CoreState.cnnIcbCmdHsk]
      by_cases hvalid : s.cnnIcbCmdValid = true
      · simp [hs, hvalid, hread hvalid]
      · simp [hvalid]
  rcptCnt_step {s} i hs hle := by
    replace hs : s.currentState = .loadImage := hs
    have hadd := rcpt_add_one s.imageDataRcptCnt hle
    simp only [imagePhase, CoreState.step, CoreState.imageDataRcptCntD,
      CoreState.cnnIcbRspHsk, CoreState.cnnIcbRspReady]
    by_cases hrsp : i.cnnIcbRspValid = true
    · simpa [hs, hrsp] using hadd
    · simp [hs, hrsp]
  buffer_step {s} i r c hs := by
    replace hs : s.currentState = .loadImage := hs
    simp only [imagePhase, CoreState.step, Bank.table_get, CoreState.imageDataD,
      CoreState.cnnIcbRspHsk, CoreState.cnnIcbRspReady, rcpt_beq_index]
    grind
  stays {s} i hs hle := by
    replace hs : s.currentState = .loadImage := hs
    have hne := rcpt_ne_sixteen s.imageDataRcptCnt hle
    exact CoreState.nextState_eq_loadImage.mpr
      (Or.inr ⟨hs, by simp [CoreState.imageDataRcptDone, hne]⟩)

/-! ## The ledger during a phase -/

/-- Read {lit}`k` of a load phase. -/
def LoadPhase.command (p : LoadPhase) (job k : Nat) : Command where
  job := job
  phase := p.state
  read := true
  addr := wordAddr p.base k
  wdata := 0

/-- Word {lit}`k` of a buffer, row by row. -/
def bufferWord (buffer : Bank (Bank Word)) (k : Nat) : Word :=
  buffer (Fin.ofNat 4 (k / 4)) (Fin.ofNat 4 k)

/-- Read {lit}`k` of a phase with the word its buffer holds. -/
def LoadPhase.answer (p : LoadPhase) (b : BusState) (k : Nat) : Command × Word :=
  (p.command b.job k, bufferWord (p.buffer b.core) k)

/-- During a load phase that started after the answers {lit}`earlier`, with
{lit}`a` commands accepted: the commands are the first {lit}`a` reads of the
block, and the answered ones are in the buffer. -/
structure LoadInv (p : LoadPhase) (earlier : List (Command × Word)) (a : Nat)
    (b : BusState) : Prop where
  state : b.core.currentState = p.state
  stage : LoadStage p.base a (p.view b.core)
  rcpt_le : (p.rcptCnt b.core).toNat ≤ 16
  lastBeat : (p.view b.core).sendDone = true → (p.view b.core).valid = true →
    (p.rcptCnt b.core).toNat ≤ 15
  accepted : b.ledger.accepted =
    earlier.map Prod.fst ++ (List.range a).map (p.command b.job)
  answered : b.ledger.answered =
    earlier ++ (List.range (p.rcptCnt b.core).toNat).map (p.answer b)

namespace LoadInv

variable {p : LoadPhase} {earlier : List (Command × Word)} {a : Nat} {b : BusState}
  {i : CoreInput}

/-- The receive counter never runs ahead of the accepted commands; the rest is
outstanding. -/
theorem length_pending (h : LoadInv p earlier a b) :
    b.ledger.pending.length + (p.rcptCnt b.core).toNat = a := by
  have hlength := b.ledger.length_accepted
  rw [h.accepted, h.answered] at hlength
  simp at hlength
  omega

/-- A response of a conforming slave answers a read of this phase. -/
theorem rcpt_lt (h : LoadInv p earlier a b) (hpending : b.ledger.pending ≠ []) :
    (p.rcptCnt b.core).toNat < a := by
  have hlength := h.length_pending
  have hpos := List.length_pos_iff.mpr hpending
  omega

/-- The read whose response is due next. -/
theorem accepted_getElem (h : LoadInv p earlier a b)
    (hlt : (p.rcptCnt b.core).toNat < a) :
    b.ledger.accepted[b.ledger.answered.length]? =
      some (p.command b.job (p.rcptCnt b.core).toNat) := by
  rw [h.accepted, h.answered]
  simp [hlt]

/-- No job starts during a load phase. -/
theorem step_job (h : LoadInv p earlier a b) (hp : p.Lawful) : (b.step i).job = b.job := by
  apply BusState.step_job_of_ne_idle
  have hload := hp.loads
  rw [← h.state] at hload
  rcases hload with hs | hs <;> simp [hs]

/-- The command handed over in a cycle of the phase is its next read. -/
theorem acceptedCommand (h : LoadInv p earlier a b) (hp : p.Lawful)
    (hchannel : ChannelInv b.core) :
    b.acceptedCommand i =
      if (p.view b.core).valid && i.cnnIcbCmdReady then some (p.command b.job a)
      else none := by
  have hvalid := hp.view_valid b.core
  have hload := hp.loads
  rw [← h.state] at hload
  unfold BusState.acceptedCommand CoreState.cnnIcbCmdHsk
  rw [hvalid]
  by_cases hhsk : (b.core.cnnIcbCmdValid && i.cnnIcbCmdReady) = true
  · have hv : b.core.cnnIcbCmdValid = true := by
      simp_all
    have hread := hchannel.load_read hload hv
    have hwdata := hchannel.wdata_zero (by rcases hload with hs | hs <;> simp [hs])
      (by rcases hload with hs | hs <;> simp [hs])
    have haddr := h.stage.cmdAddr_of_valid (hvalid.trans hv)
    rw [hp.view_cmdAddr] at haddr
    rw [if_pos hhsk, if_pos hhsk, hread, hwdata, haddr, h.state]
    rfl
  · rw [if_neg hhsk, if_neg hhsk]

/-- The words already in the buffer stay; a response adds the next one. -/
theorem bufferWord_step (h : LoadInv p earlier a b) (hp : p.Lawful) {k : Nat}
    (hk : k < 16) :
    bufferWord (p.buffer (b.core.step i)) k =
      if i.cnnIcbRspValid = true ∧ (p.rcptCnt b.core).toNat = k then i.cnnIcbRspRdata
      else bufferWord (p.buffer b.core) k := by
  have hindex : 4 * (Fin.ofNat 4 (k / 4)).val + (Fin.ofNat 4 k).val = k := by
    simp
    omega
  unfold bufferWord
  rw [hp.buffer_step i _ _ h.state, hindex]

/-- The answers recorded so far, after one more cycle of the phase. -/
private theorem answers_step (h : LoadInv p earlier a b) (hp : p.Lawful)
    (hrcpt : (p.rcptCnt b.core).toNat ≤ 15) (hconf : b.SlaveConforms i) :
    (b.step i).ledger.answered =
      earlier ++ (List.range (p.rcptCnt (b.core.step i)).toNat).map (p.answer (b.step i)) := by
  have hjob := h.step_job hp (i := i)
  have hold : ∀ k < (p.rcptCnt b.core).toNat, p.answer (b.step i) k = p.answer b k := by
    intro k hk
    unfold LoadPhase.answer
    rw [hjob]
    change (_, bufferWord (p.buffer (b.core.step i)) k) = _
    rw [h.bufferWord_step hp (by omega), if_neg (by omega)]
  have hbefore : (List.range (p.rcptCnt b.core).toNat).map (p.answer (b.step i)) =
      (List.range (p.rcptCnt b.core).toNat).map (p.answer b) := by
    apply List.map_congr_left
    intro k hk
    exact hold k (List.mem_range.mp hk)
  rw [hp.rcptCnt_step i h.state hrcpt]
  by_cases hrsp : i.cnnIcbRspValid = true
  · have hnew : p.answer (b.step i) (p.rcptCnt b.core).toNat =
        (p.command b.job (p.rcptCnt b.core).toNat, i.cnnIcbRspRdata) := by
      unfold LoadPhase.answer
      rw [hjob]
      change (_, bufferWord (p.buffer (b.core.step i)) _) = _
      rw [h.bufferWord_step hp (by omega), if_pos ⟨hrsp, rfl⟩]
    have hdue := h.accepted_getElem (h.rcpt_lt (hconf hrsp))
    rw [BusState.step_ledger, BusState.response_eq_some hrsp,
      Ledger.answered_cycle_some hdue, h.answered, hrsp, Bool.toNat_true,
      List.range_succ, List.map_append, hbefore, List.map_singleton, hnew,
      List.append_assoc]
  · rw [Bool.not_eq_true] at hrsp
    rw [BusState.step_ledger, BusState.response_eq_none hrsp, Ledger.answered_cycle_none,
      h.answered, hrsp, Bool.toNat_false, Nat.add_zero, hbefore]

/-- One clock edge of a load phase that still waits for a response. -/
theorem step (h : LoadInv p earlier a b) (hp : p.Lawful) (hchannel : ChannelInv b.core)
    (hrcpt : (p.rcptCnt b.core).toNat ≤ 15) (hconf : b.SlaveConforms i) :
    LoadInv p earlier (a + ((p.view b.core).valid && i.cnnIcbCmdReady).toNat) (b.step i) := by
  have hload := hp.loads
  rw [← h.state] at hload
  have hsteps := hp.view_step i h.state fun hv => hchannel.load_read hload hv
  have hcount := hp.rcptCnt_step i h.state hrcpt
  have hjob := h.step_job hp (i := i)
  refine
    { state := hp.stays i h.state hrcpt
      stage := h.stage.step hsteps
      rcpt_le := ?_
      lastBeat := ?_
      accepted := ?_
      answered := h.answers_step hp hrcpt hconf }
  · change (p.rcptCnt (b.core.step i)).toNat ≤ 16
    rw [hcount]
    cases i.cnnIcbRspValid <;> simp <;> omega
  · -- At most fifteen reads were accepted before this cycle, so at most fifteen
    -- responses have come by its end.
    intro _ hvalid
    have hdone : (p.view b.core).sendDone = false := by
      have := hsteps.valid
      change (p.view (b.core.step i)).valid = true at hvalid
      simp_all
    have hle := (h.stage.of_not_sendDone hdone).1
    change (p.rcptCnt (b.core.step i)).toNat ≤ 15
    rw [hcount]
    by_cases hrsp : i.cnnIcbRspValid = true
    · have := h.rcpt_lt (hconf hrsp)
      simp [hrsp]
      omega
    · simp [hrsp, hrcpt]
  · rw [BusState.step_ledger, Ledger.accepted_cycle, h.accepted,
      h.acceptedCommand hp hchannel, hjob, List.append_assoc, Ledger.map_range_accept]

end LoadInv

end CnnCore
end AcceleratorSoc
