import AcceleratorSoc.CnnCore.FirstJob

/-!
# The cycles before the deciding ones

When the handshake counter of a load phase stands at fifteen for the first time, the
core has presented a read in this cycle and in the two before, and the slave has taken
the one in the middle.  Whatever sits between the core and its slave has therefore been
offered three commands in a row.

Main results:

- Theorem {lit}`entry_valid_weight`, {lit}`entry_valid_image`: a load phase of the first
  job opens without a command.
- Theorem {lit}`FirstLastBeat.before`: the two cycles before the first deciding one.
- Theorem {lit}`LoadTrace.job_of_beat`: the deciding cycles of a phase that has sent its
  reads belong to the first job.
-/

namespace AcceleratorSoc
namespace CnnCore

open Clocked

variable {inp : Nat → CoreInput} {p : LoadPhase}

/-- {lit}`LOAD_WEIGHT` opens without a command. -/
theorem entry_valid_weight {n : Nat}
    (hs : (busRun inp (n + 1)).core.currentState = .loadWeight)
    (hout : (busRun inp n).core.currentState ≠ .loadWeight) :
    (busRun inp (n + 1)).core.cnnIcbCmdValid = false := by
  rcases CoreState.nextState_eq_loadWeight.mp hs with ⟨hidle, _⟩ | ⟨hload, _⟩
  · exact CoreState.step_valid_of_quiet (Or.inl hidle)
  · exact absurd hload hout

/-- {lit}`LOAD_IMAGE` of the first job opens without a command: all weight reads have
been sent. -/
theorem entry_valid_image (hconf : Conforming inp) {n : Nat}
    (hjob : (busRun inp (n + 1)).job = 1)
    (hs : (busRun inp (n + 1)).core.currentState = .loadImage)
    (hout : (busRun inp n).core.currentState ≠ .loadImage) :
    (busRun inp (n + 1)).core.cnnIcbCmdValid = false := by
  have hnext : (busRun inp n).core.nextState (inp n) = .loadImage := hs
  rcases CoreState.nextState_eq_loadImage.mp hnext with ⟨hload, _⟩ | ⟨hload, _⟩
  · have hjob' : (busRun inp n).job = 1 :=
      (BusState.step_job_of_ne_idle (by simp [hload]) (inp n)).symm.trans hjob
    have hleaves : Leaves weightPhase inp n := by
      refine ⟨hjob', hload, ?_⟩
      rw [hs]
      simp [weightPhase]
    obtain ⟨⟨a, h⟩, _⟩ := weightTrace hconf hjob' hload
    obtain ⟨hdone, _, _⟩ := h.finished (h.rcpt_of_leaves weightPhase_lawful hleaves)
    have hsent : (busRun inp n).core.weightAddrSendDone = true := hdone
    rw [busRun_succ, BusState.step_core, CoreState.step_valid_of_loadWeight hload]
    simp [CoreState.weightAddrSendStart, hsent]
  · exact absurd hload hout

/-- What makes a phase of the first job predictable: it follows its trace, and it opens
without a command. -/
structure Traced (p : LoadPhase) (inp : Nat → CoreInput) : Prop where
  trace : ∀ n, (busRun inp n).job = 1 → (busRun inp n).core.currentState = p.state →
    ∃ earlier a, LoadTrace p earlier inp n a
  entry_valid : ∀ n, (busRun inp (n + 1)).job = 1 →
    (busRun inp (n + 1)).core.currentState = p.state →
    (busRun inp n).core.currentState ≠ p.state →
    (busRun inp (n + 1)).core.cnnIcbCmdValid = false

/-- Every cycle of {lit}`LOAD_WEIGHT` has a trace. -/
theorem weight_traced (hconf : Conforming inp) : Traced weightPhase inp where
  trace _ hjob hs := by
    obtain ⟨⟨a, h⟩, _⟩ := weightTrace hconf hjob hs
    exact ⟨_, a, h⟩
  entry_valid _ _ hs hout := entry_valid_weight hs hout

/-- Behind a weight phase that accepts once, so has every cycle of {lit}`LOAD_IMAGE`. -/
theorem image_traced (hconf : Conforming inp) (honce : AcceptsOnce weightPhase inp) :
    Traced imagePhase inp where
  trace _ hjob hs := imageTrace hconf honce hjob hs
  entry_valid _ hjob hs hout := entry_valid_image hconf hjob hs hout

/-- The send side takes a step in every cycle of a phase. -/
theorem LoadTrace.steps {earlier : List (Command × Word)} {n a : Nat}
    (h : LoadTrace p earlier inp n a) (hp : p.Lawful) :
    (p.view (busRun inp n).core).Steps (inp n).cnnIcbCmdReady
      (p.view (busRun inp (n + 1)).core) := by
  have hload := hp.loads
  rw [← h.state] at hload
  exact hp.view_step (inp n) h.state fun hv => (channelInv_busRun inp n).load_read hload hv

/-- A cycle of the first job in which a phase presents a command has a cycle of the phase
before it. -/
theorem Traced.previous (h : Traced p inp) (hp : p.Lawful) {n : Nat}
    (hjob : (busRun inp n).job = 1) (hs : (busRun inp n).core.currentState = p.state)
    (hvalid : (busRun inp n).core.cnnIcbCmdValid = true) :
    ∃ k, n = k + 1 ∧ (busRun inp k).job = 1 ∧
      (busRun inp k).core.currentState = p.state := by
  cases n with
  | zero => exact absurd hjob Nat.zero_ne_one
  | succ k =>
      have hin : (busRun inp k).core.currentState = p.state := by
        by_contra hout
        rw [h.entry_valid k hjob hs hout] at hvalid
        exact Bool.false_ne_true hvalid
      have hactive : (busRun inp k).core.currentState ≠ .idle := by
        rw [hin]
        rcases hp.loads with hload | hload <;> simp [hload]
      exact ⟨k, rfl, (BusState.step_job_of_ne_idle hactive (inp k)).symm.trans hjob, hin⟩

/-- In the first deciding cycle and in the two cycles before it a read is presented, and
the slave takes the one before. -/
theorem FirstLastBeat.before {j : Nat} (hj : FirstLastBeat p inp j) (h : Traced p inp)
    (hp : p.Lawful) (hjob : (busRun inp j).job = 1) :
    ∃ k, j = k + 1 + 1 ∧ (busRun inp (k + 1)).job = 1 ∧
      (busRun inp (k + 1)).core.currentState = p.state ∧
      (busRun inp k).core.cnnIcbCmdValid = true ∧
      ((busRun inp (k + 1)).core.cnnIcbCmdValid && (inp (k + 1)).cnnIcbCmdReady) = true ∧
      (busRun inp (k + 1 + 1)).core.cnnIcbCmdValid = true := by
  obtain ⟨hs, hcnt, hdone⟩ := hj
  obtain ⟨earlier, a, htrace⟩ := h.trace j hjob hs
  have hvalid := (htrace.stage.at_fifteen hdone hcnt).2
  rw [hp.view_valid] at hvalid
  obtain ⟨m, rfl, hjob₁, hs₁⟩ := h.previous hp hjob hs hvalid
  obtain ⟨earlier₁, a₁, htrace₁⟩ := h.trace m hjob₁ hs₁
  have hsteps₁ := htrace₁.steps hp
  have hbefore := hsteps₁.sendDone
  rw [hdone, eq_comm, Bool.or_eq_false_iff, beq_eq_false_iff_ne] at hbefore
  have hcount₁ := hsteps₁.sendCnt hbefore.1
  -- the counter has just reached fifteen, so a read was taken in the cycle before
  have htaken : ((p.view (busRun inp m).core).valid && (inp m).cnnIcbCmdReady) = true := by
    by_contra hnot
    rw [if_neg hnot, hcnt] at hcount₁
    exact hbefore.1 hcount₁.symm
  rw [if_pos htaken, hcnt] at hcount₁
  rw [hp.view_valid] at htaken
  obtain ⟨k, rfl, hjob₂, hs₂⟩ := h.previous hp hjob₁ hs₁ (Bool.and_eq_true _ _ ▸ htaken).1
  obtain ⟨earlier₂, a₂, htrace₂⟩ := h.trace k hjob₂ hs₂
  have hsteps₂ := htrace₂.steps hp
  have hbefore₂ := hsteps₂.sendDone
  rw [hbefore.2, eq_comm, Bool.or_eq_false_iff, beq_eq_false_iff_ne] at hbefore₂
  have hcount₂ := hsteps₂.sendCnt hbefore₂.1
  refine ⟨k, rfl, hjob₁, hs₁, ?_, htaken, hvalid⟩
  rw [← hp.view_valid, ← Bool.not_eq_false]
  intro hidle
  rw [hidle, Bool.false_and, if_neg Bool.false_ne_true] at hcount₂
  -- without a command the phase would only be opening, with its counter at zero
  have hzero : (p.view (busRun inp k).core).sendCnt = 0 := by
    cases htrace₂.stage with
    | opening _ _ hzero => exact hzero
    | streaming _ hv => exact absurd (hv.symm.trans hidle) (by simp)
    | lastBeat hd => exact absurd (hd.symm.trans hbefore₂.2) (by simp)
    | drained hd => exact absurd (hd.symm.trans hbefore₂.2) (by simp)
  rw [hcount₂, hzero] at hcount₁
  exact absurd hcount₁ (by decide)

/-- What is outstanding in a load phase are reads of its block. -/
theorem LoadTrace.mem_pending {earlier : List (Command × Word)} {n a : Nat}
    (h : LoadTrace p earlier inp n a) {c : Command}
    (hc : c ∈ (busRun inp n).ledger.pending) :
    ∃ k < 17, c.addr = wordAddr p.base k := by
  have hle : a ≤ 17 := by
    cases h.stage <;> omega
  have haccepted := h.accepted
  rw [Ledger.accepted, h.answered, List.map_append, List.append_assoc,
    List.append_cancel_left_eq] at haccepted
  have hmem := haccepted ▸ List.mem_append_right _ hc
  rcases List.mem_map.mp hmem with ⟨k, hk, rfl⟩
  exact ⟨k, by have := List.mem_range.mp hk; omega, rfl⟩

/-- The job number never decreases. -/
theorem job_mono (inp : Nat → CoreInput) {m n : Nat} (hmn : m ≤ n) :
    (busRun inp m).job ≤ (busRun inp n).job := by
  induction n, hmn using Nat.le_induction with
  | base => exact le_refl _
  | succ n _ ih =>
      refine ih.trans ?_
      rw [busRun_succ]
      simp only [BusState.step]
      split_ifs <;> omega

/-- The deciding cycles of a phase that has sent its reads belong to the first job. -/
theorem LoadTrace.job_of_beat {earlier : List (Command × Word)} {n a j : Nat}
    (h : LoadTrace p earlier inp n a) (hp : p.Lawful) (hconf : Conforming inp)
    (hdone : (p.view (busRun inp n).core).sendDone = true) (hj : FirstLastBeat p inp j) :
    (busRun inp j).job = 1 := by
  have hle : j ≤ n := by
    by_contra hlt
    have hlater := sendDone_sticky hp (show n ≤ j by omega) hdone
    rw [hj.2.2] at hlater
    exact Bool.false_ne_true hlater
  have hmono := job_mono inp hle
  rw [h.job] at hmono
  rcases Nat.le_one_iff_eq_zero_or_eq_one.mp hmono with hzero | hone
  · have hidle := (waiting_of_job_zero hconf hzero).state
    have hs := hj.1
    rw [hidle] at hs
    rcases hp.loads with hload | hload <;> simp [hload] at hs
  · exact hone

end CnnCore
end AcceleratorSoc
