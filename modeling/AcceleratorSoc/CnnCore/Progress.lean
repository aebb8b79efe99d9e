import AcceleratorSoc.CnnCore.LoadPhase
import AcceleratorSoc.CnnCore.Stability
import AcceleratorSoc.CnnCore.StorePhase

/-!
# No stuck phase

A phase is left when sixteen responses have been counted.  It is stuck when it
still waits for a response, presents and starts no command, and nothing is
outstanding.  Two steps lead there: a load phase withdraws its sixteenth read
before the slave takes it, and a second job starts with the sticky flags of the
first.

Main results:

- Theorem {lit}`LoadProgress.step`: the counts of a load phase over one cycle.
- Theorem {lit}`progressInv_step`: every other step keeps enough commands under
  way for the responses that are still awaited.
- Theorem {lit}`no_stuck_phase`: a run from reset without such a step is never
  stuck, whatever the ready pattern and the latency.
-/

namespace AcceleratorSoc
namespace CnnCore

open Clocked

/-- A phase that still waits for responses has a command started, presented or
outstanding. -/
structure Progresses (b : BusState) (i : CoreInput) : Prop where
  loadWeight : b.core.currentState = .loadWeight → b.core.weightDataRcptDone = false →
    b.core.weightAddrSendStart = true ∨ b.core.cnnIcbCmdValid = true ∨
      b.ledger.pending ≠ []
  loadImage : b.core.currentState = .loadImage → b.core.imageDataRcptDone = false →
    b.core.imageAddrSendStart = true ∨ b.core.cnnIcbCmdValid = true ∨
      b.ledger.pending ≠ []
  store : b.core.currentState = .store → b.core.storeDone = false →
    b.core.storeDataSendStart i = true ∨ b.core.cnnIcbCmdValid = true ∨
      b.ledger.pending ≠ []

/-- The step takes back a presented read although fewer than sixteen responses
have come or are due. -/
def WithdrawsRead (p : LoadPhase) (b : BusState) (i : CoreInput) : Prop :=
  b.core.currentState = p.state ∧ (p.view b.core).sendDone = true ∧
    b.core.cnnIcbCmdValid = true ∧ i.cnnIcbCmdReady = false ∧
    b.ledger.pending.length + (p.rcptCnt b.core).toNat < 16

/-- The step starts a job although the weight phase has already been through. -/
def RestartsJob (b : BusState) (i : CoreInput) : Prop :=
  b.core.currentState = .idle ∧ i.enable = true ∧ b.core.weightAddrSendDone = true

/-- The steps on which a run can get stuck. -/
def Misstep (b : BusState) (i : CoreInput) : Prop :=
  WithdrawsRead weightPhase b i ∨ WithdrawsRead imagePhase b i ∨ RestartsJob b i

/-! ## Counts of a load phase -/

/-- In a load phase that began with {lit}`stale` commands outstanding and has
accepted {lit}`a` more: every one of them is counted or still outstanding, and
once the send side is drained there are sixteen. -/
structure LoadProgress (p : LoadPhase) (stale a : Nat) (b : BusState) : Prop where
  state : b.core.currentState = p.state
  stage : LoadStage p.base a (p.view b.core)
  rcpt_le : (p.rcptCnt b.core).toNat ≤ 16
  count : b.ledger.pending.length + (p.rcptCnt b.core).toNat = stale + a
  drained : (p.view b.core).sendDone = true → (p.view b.core).valid = false →
    16 ≤ stale + a

namespace LoadProgress

variable {p : LoadPhase} {stale a : Nat} {b : BusState} {i : CoreInput}

/-- A phase begins with no command presented. -/
theorem start (hstate : b.core.currentState = p.state) (huntouched : Untouched p b.core)
    (hvalid : (p.view b.core).valid = false) :
    LoadProgress p b.ledger.pending.length 0 b where
  state := hstate
  stage := LoadStage.opening huntouched.sendDone hvalid huntouched.sendCnt
    (by rw [huntouched.addrNext, wordAddr_zero])
  rcpt_le := by simp [huntouched.rcptCnt]
  count := by simp [huntouched.rcptCnt]
  drained := by simp [huntouched.sendDone]

/-- One cycle of a load phase that does not take back a needed read. -/
theorem step (h : LoadProgress p stale a b) (hp : p.Lawful) (hchannel : ChannelInv b.core)
    (hrcpt : (p.rcptCnt b.core).toNat ≤ 15) (hconf : b.SlaveConforms i)
    (hkept : ¬WithdrawsRead p b i) :
    LoadProgress p stale (a + ((p.view b.core).valid && i.cnnIcbCmdReady).toNat)
      (b.step i) := by
  have hload := hp.loads
  rw [← h.state] at hload
  have hsteps := hp.view_step i h.state fun hv => hchannel.load_read hload hv
  have hcount := hp.rcptCnt_step i h.state hrcpt
  have hpending := BusState.length_pending_step hconf
  have hview := hp.view_valid b.core
  have hold := h.count
  refine
    { state := hp.stays i h.state hrcpt
      stage := h.stage.step hsteps
      rcpt_le := ?_
      count := ?_
      drained := ?_ }
  · rw [BusState.step_core, hcount]
    cases i.cnnIcbRspValid <;> simp <;> omega
  · rw [BusState.step_core, hcount, hview]
    omega
  · intro _ hvalid'
    rw [BusState.step_core, hsteps.valid, Bool.not_eq_false'] at hvalid'
    cases hvalid : (p.view b.core).valid
    · have := h.drained hvalid' hvalid
      omega
    · -- The last beat: it is accepted now, or sixteen were under way before it.
      cases hready : i.cnnIcbCmdReady
      · have hle : ¬b.ledger.pending.length + (p.rcptCnt b.core).toNat < 16 := fun hlt =>
          hkept ⟨h.state, hvalid', hview.symm.trans hvalid, hready, hlt⟩
        simp
        omega
      · have := h.stage.fifteen_le hvalid'
        simp
        omega

/-- A load phase that waits for a response has a command under way. -/
theorem progresses (h : LoadProgress p stale a b) (hrcpt : (p.rcptCnt b.core).toNat ≤ 15) :
    (p.view b.core).sendDone = false ∨ (p.view b.core).valid = true ∨
      b.ledger.pending ≠ [] := by
  cases hdone : (p.view b.core).sendDone
  · exact Or.inl rfl
  · right
    cases hvalid : (p.view b.core).valid
    · right
      intro hnil
      have hcount := h.count
      have := h.drained hdone hvalid
      rw [hnil, List.length_nil] at hcount
      omega
    · exact Or.inl rfl

end LoadProgress

/-! ## The invariant -/

/-- What a run without missteps keeps in each controller state.  Outside
{lit}`IDLE` and {lit}`LOAD_WEIGHT` the weight phase has been through; in
{lit}`IDLE` the flag tells whether it has. -/
structure ProgressInv (b : BusState) : Prop where
  fresh : b.core.currentState = .idle → b.core.weightAddrSendDone = false →
    Untouched weightPhase b.core ∧ Untouched imagePhase b.core ∧ b.ledger.pending = []
  sent : b.core.currentState ≠ .idle → b.core.currentState ≠ .loadWeight →
    b.core.weightAddrSendDone = true
  weight : b.core.currentState = .loadWeight →
    (∃ a, LoadProgress weightPhase 0 a b) ∧ Untouched imagePhase b.core
  image : b.core.currentState = .loadImage → ∃ stale a, LoadProgress imagePhase stale a b
  store : b.core.currentState = .store → ∃ a, StoreStage a b.core ∧
    a ≤ b.ledger.pending.length + b.core.storeRspRcptCnt.toNat ∧
    b.core.storeRspRcptCnt.toNat ≤ 16

/-- It holds out of reset. -/
theorem progressInv_reset : ProgressInv BusState.reset where
  fresh _ _ := ⟨⟨rfl, rfl, rfl, rfl⟩, ⟨rfl, rfl, rfl, rfl⟩, rfl⟩
  sent h := absurd rfl h
  weight h := by simp [BusState.reset, CoreState.reset] at h
  image h := by simp [BusState.reset, CoreState.reset] at h
  store h := by simp [BusState.reset, CoreState.reset] at h

/-- A count that is not sixteen is at most fifteen. -/
private theorem toNat_le_fifteen {cnt : BitVec 5} (hle : cnt.toNat ≤ 16)
    (hne : (cnt == 16) = false) : cnt.toNat ≤ 15 := by
  have : cnt.toNat ≠ 16 := by
    intro heq
    have : cnt = 16 := BitVec.eq_of_toNat_eq heq
    simp [this] at hne
  omega

/-- The weight flag is up once sixteen weight responses have been counted. -/
private theorem weightSent_of_rcptDone {b : BusState} {a : Nat}
    (h : LoadProgress weightPhase 0 a b) (hrcpt : b.core.weightDataRcptDone = true) :
    b.core.weightAddrSendDone = true := by
  have h16 : (weightPhase.rcptCnt b.core).toNat = 16 := by
    have heq : b.core.weightDataRcptCnt = 16 := by
      simpa [CoreState.weightDataRcptDone] using hrcpt
    change b.core.weightDataRcptCnt.toNat = 16
    rw [heq]
    rfl
  rw [← Bool.not_eq_false]
  intro hdone
  have hle := (h.stage.of_not_sendDone hdone).1
  have hcount := h.count
  omega

section Step

variable {b : BusState} {i : CoreInput}

/-- The flag stays set. -/
private theorem weightSent_step (hdone : b.core.weightAddrSendDone = true) :
    (b.step i).core.weightAddrSendDone = true :=
  (weightPhase_lawful.sendDone_step b.core i).trans (by simp [weightPhase, hdone])

/-- Before the first job no read has been sent and nothing is outstanding. -/
private theorem fresh_step (h : ProgressInv b) (hchannel : ChannelInv b.core)
    (hconf : b.SlaveConforms i) (hnext : (b.step i).core.currentState = .idle)
    (hdone' : (b.step i).core.weightAddrSendDone = false) :
    Untouched weightPhase (b.step i).core ∧ Untouched imagePhase (b.step i).core ∧
      (b.step i).ledger.pending = [] := by
  have hdone : b.core.weightAddrSendDone = false := by
    rw [Bool.eq_false_iff]
    intro hdone
    exact Bool.false_ne_true (hdone'.symm.trans (weightSent_step hdone))
  have hs : b.core.currentState = .idle := by
    rcases (CoreState.nextState_eq_idle.mp hnext).1 with hs | hs
    · exact hs
    · exact absurd (h.sent (by simp [hs]) (by simp [hs])) (by simp [hdone])
  obtain ⟨hweight, himage, hpending⟩ := h.fresh hs hdone
  refine ⟨weightPhase_lawful.untouched_step i (by simp [weightPhase, hs]) hweight,
    imagePhase_lawful.untouched_step i (by simp [imagePhase, hs]) himage, ?_⟩
  rw [BusState.step_ledger_of_quiet (hchannel.idle_valid hs) hpending hconf, hpending]

/-- Behind {lit}`LOAD_WEIGHT` the send-done flag is set. -/
private theorem sent_step (h : ProgressInv b) (hidle : b.core.nextState i ≠ .idle)
    (hload : b.core.nextState i ≠ .loadWeight) :
    (b.step i).core.weightAddrSendDone = true := by
  apply weightSent_step
  by_cases hs : b.core.currentState = .loadWeight
  · obtain ⟨⟨a, hweight⟩, _⟩ := h.weight hs
    apply weightSent_of_rcptDone hweight
    rw [← Bool.not_eq_false]
    intro hrcpt
    exact hload (CoreState.nextState_eq_loadWeight.mpr (Or.inr ⟨hs, hrcpt⟩))
  · refine h.sent ?_ hs
    intro hs'
    cases henable : i.enable
    · exact hidle (CoreState.nextState_eq_idle.mpr ⟨Or.inl hs', henable⟩)
    · exact hload (CoreState.nextState_eq_loadWeight.mpr (Or.inl ⟨hs', henable⟩))

/-- One cycle into or inside {lit}`LOAD_WEIGHT`. -/
private theorem weight_step (h : ProgressInv b) (hchannel : ChannelInv b.core)
    (hconf : b.SlaveConforms i) (hkept : ¬WithdrawsRead weightPhase b i)
    (hrestart : ¬RestartsJob b i) (hnext : (b.step i).core.currentState = .loadWeight) :
    (∃ a, LoadProgress weightPhase 0 a (b.step i)) ∧
      Untouched imagePhase (b.step i).core := by
  rcases CoreState.nextState_eq_loadWeight.mp hnext with ⟨hs, henable⟩ | ⟨hs, hrcpt⟩
  · have hdone : b.core.weightAddrSendDone = false := by
      rw [Bool.eq_false_iff]
      intro hdone
      exact hrestart ⟨hs, henable, hdone⟩
    obtain ⟨hweight, himage, hpending⟩ := h.fresh hs hdone
    have hvalid' : (weightPhase.view (b.step i).core).valid = false :=
      CoreState.step_valid_of_quiet (Or.inl hs)
    have hpending' : (b.step i).ledger.pending.length = 0 := by
      rw [BusState.step_ledger_of_quiet (hchannel.idle_valid hs) hpending hconf, hpending,
        List.length_nil]
    have hstart := LoadProgress.start (p := weightPhase) (b := b.step i) hnext
      (weightPhase_lawful.untouched_step i (by simp [weightPhase, hs]) hweight) hvalid'
    rw [hpending'] at hstart
    exact ⟨⟨0, hstart⟩,
      imagePhase_lawful.untouched_step i (by simp [imagePhase, hs]) himage⟩
  · obtain ⟨⟨a, hweight⟩, himage⟩ := h.weight hs
    have hle : (weightPhase.rcptCnt b.core).toNat ≤ 15 :=
      toNat_le_fifteen hweight.rcpt_le hrcpt
    exact ⟨⟨_, hweight.step weightPhase_lawful hchannel hle hconf hkept⟩,
      imagePhase_lawful.untouched_step i (by simp [imagePhase, hs]) himage⟩

/-- One cycle into or inside {lit}`LOAD_IMAGE`. -/
private theorem image_step (h : ProgressInv b) (hchannel : ChannelInv b.core)
    (hconf : b.SlaveConforms i) (hkept : ¬WithdrawsRead imagePhase b i)
    (hnext : (b.step i).core.currentState = .loadImage) :
    ∃ stale a, LoadProgress imagePhase stale a (b.step i) := by
  rcases CoreState.nextState_eq_loadImage.mp hnext with ⟨hs, hrcpt⟩ | ⟨hs, hrcpt⟩
  · obtain ⟨⟨a, hweight⟩, himage⟩ := h.weight hs
    have hvalid' : (imagePhase.view (b.step i).core).valid = false := by
      change (b.core.step i).cnnIcbCmdValid = false
      rw [CoreState.step_valid_of_loadWeight hs, CoreState.weightAddrSendStart,
        weightSent_of_rcptDone hweight hrcpt, Bool.not_true, Bool.and_false]
    exact ⟨_, 0, LoadProgress.start (p := imagePhase) (b := b.step i) hnext
      (imagePhase_lawful.untouched_step i (by simp [imagePhase, hs]) himage) hvalid'⟩
  · obtain ⟨stale, a, himage⟩ := h.image hs
    have hle : (imagePhase.rcptCnt b.core).toNat ≤ 15 :=
      toNat_le_fifteen himage.rcpt_le hrcpt
    exact ⟨stale, _, himage.step imagePhase_lawful hchannel hle hconf hkept⟩

/-- One cycle into or inside {lit}`STORE`. -/
private theorem store_step (h : ProgressInv b) (hchannel : ChannelInv b.core)
    (hconf : b.SlaveConforms i) (hnext : (b.step i).core.currentState = .store) :
    ∃ a, StoreStage a (b.step i).core ∧
      a ≤ (b.step i).ledger.pending.length + (b.step i).core.storeRspRcptCnt.toNat ∧
      (b.step i).core.storeRspRcptCnt.toNat ≤ 16 := by
  rcases CoreState.nextState_eq_store.mp hnext with ⟨hs, _⟩ | ⟨hs, hrsp⟩
  · refine ⟨0, storeStage_of_compute hs i, by simp, ?_⟩
    simp [CoreState.step, CoreState.storeRspRcptCntD, hs]
  · obtain ⟨a, hstage, hle, hrspLe⟩ := h.store hs
    have hrspLt := toNat_le_fifteen hrspLe hrsp
    have hrcpt := storeRspRcptCnt_step hs i hrspLt
    have hpending := BusState.length_pending_step hconf
    refine ⟨_, hstage.step hs (hchannel.store_read hs), ?_, ?_⟩
    · rw [BusState.step_core, hrcpt]
      omega
    · rw [BusState.step_core, hrcpt]
      cases i.cnnIcbRspValid <;> simp <;> omega

/-- A step that is no misstep keeps enough commands under way. -/
theorem progressInv_step (h : ProgressInv b) (hchannel : ChannelInv b.core)
    (hconf : b.SlaveConforms i) (hok : ¬Misstep b i) : ProgressInv (b.step i) := by
  obtain ⟨hweightKept, himageKept, hrestart⟩ := not_or.mp hok |>.imp id not_or.mp
  exact
    { fresh := fresh_step h hchannel hconf
      sent := sent_step h
      weight := weight_step h hchannel hconf hweightKept hrestart
      image := image_step h hchannel hconf himageKept
      store := store_step h hchannel hconf }

end Step

/-- The invariant rules out a stuck phase. -/
theorem ProgressInv.progresses {b : BusState} (h : ProgressInv b) (i : CoreInput) :
    Progresses b i where
  loadWeight hs hrcpt := by
    obtain ⟨⟨a, hweight⟩, _⟩ := h.weight hs
    rcases hweight.progresses (toNat_le_fifteen hweight.rcpt_le hrcpt) with hdone | hrest
    · exact Or.inl (CoreState.weightAddrSendStart_iff.mpr ⟨hs, hdone⟩)
    · exact Or.inr hrest
  loadImage hs hrcpt := by
    obtain ⟨stale, a, himage⟩ := h.image hs
    rcases himage.progresses (toNat_le_fifteen himage.rcpt_le hrcpt) with hdone | hrest
    · exact Or.inl (CoreState.imageAddrSendStart_iff.mpr ⟨hs, hdone⟩)
    · exact Or.inr hrest
  store hs hrsp := by
    obtain ⟨a, hstage, hle, hrspLe⟩ := h.store hs
    have hrspLt := toNat_le_fifteen hrspLe hrsp
    by_cases hstart : b.core.storeDataSendStart i = true
    · exact Or.inl hstart
    · right
      rw [hstage.storeDataSendStart_iff hs] at hstart
      cases hvalid : b.core.cnnIcbCmdValid
      · right
        intro hnil
        rw [hvalid] at hstart
        rw [hnil, List.length_nil] at hle
        simp at hstart
        omega
      · exact Or.inl rfl

/-- A run from reset with a conforming slave and without missteps is never stuck,
over any number of jobs. -/
theorem no_stuck_phase {inp : Nat → CoreInput} (hconf : Conforming inp)
    (hok : ∀ n, ¬Misstep (busRun inp n) (inp n)) (n : Nat) :
    Progresses (busRun inp n) (inp n) := by
  have hinv : ProgressInv (busRun inp n) := by
    induction n with
    | zero => exact progressInv_reset
    | succ n ih => exact progressInv_step ih (channelInv_busRun inp n) (hconf n) (hok n)
  exact hinv.progresses (inp n)

/-- A slave that never stalls and serves one job keeps the core going. -/
theorem no_stuck_phase_greedySlave :
    (busRun greedySlave 10).core.currentState = .loadWeight ∧
      ∀ n, Progresses (busRun greedySlave n) (greedySlave n) := by
  have hidle : ∀ n < 64, ¬((busRun greedySlave n).core.currentState = .idle ∧
      (busRun greedySlave n).core.weightAddrSendDone = true) := by
    decide +kernel
  refine ⟨by decide +kernel, no_stuck_phase greedySlave_conforming ?_⟩
  rintro n (⟨_, _, _, hready, _⟩ | ⟨_, _, _, hready, _⟩ | ⟨hs, henable, hdone⟩)
  · simp [greedySlave] at hready
  · simp [greedySlave] at hready
  · exact hidle n (by simpa [greedySlave] using henable) ⟨hs, hdone⟩

/-- When the slave stalls the sixteenth weight read, the core waits forever for a
response that no command will bring. -/
theorem stallLastRead_stuck :
    ¬∀ inp : Nat → CoreInput, Conforming inp →
      ∀ n, Progresses (busRun inp n) (inp n) := by
  intro h
  have hconf : Conforming stallLastRead := by
    refine conforming_of_prefix (m := 18) (by decide +kernel) ?_
    intro n hn
    simp [stallLastRead]
    omega
  have hstuck := (h stallLastRead hconf 19).loadWeight (by decide +kernel) (by decide +kernel)
  revert hstuck
  decide +kernel

end CnnCore
end AcceleratorSoc
