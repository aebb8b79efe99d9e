import AcceleratorSoc.CnnCore.StoreStream
import AcceleratorSoc.CnnTop.Control

/-!
# What the status register promises

The done wire is a delayed copy of the controller state {lit}`DONE`, which is
reached by counting sixteen responses in {lit}`STORE`, whatever commands they
belong to.  If {lit}`STORE` is entered with nothing outstanding, the sixteen
responses are those of the job's sixteen writes.

Main results:

- Theorem {lit}`readsOnly_of_running`: before {lit}`STORE` a job has accepted reads
  only.
- Theorem {lit}`jobComplete_of_done`: in {lit}`DONE` the job is complete.
- Theorem {lit}`status_read_sound`: a status read that samples one finds the most
  recently started job complete and the memory channel at rest.
-/

namespace AcceleratorSoc
namespace CnnTop

open Clocked CnnCore

/-! ## Jobs in the ledger -/

/-- The current job has accepted reads only. -/
def ReadsOnly (b : BusState) : Prop :=
  ∀ c ∈ b.ledger.accepted, c.job = b.job → c.read = true

/-- The current job is complete: its sixteen writes are accepted and answered, and
the core has no command presented or outstanding. -/
structure JobComplete (b : BusState) : Prop where
  accepted : ∃ s₀, b.ledger.acceptedBy (fun c => c.job == b.job && !c.read) =
    (List.range 16).map (writeCommand b.job s₀)
  acknowledged : (b.ledger.answeredBy fun c => c.job == b.job && !c.read).length = 16
  valid : b.core.cnnIcbCmdValid = false
  pending : b.ledger.pending = []

/-- Accepted commands after one more cycle. -/
theorem accepted_busRun_succ (inp : Nat → CoreInput) (n : Nat) :
    (busRun inp (n + 1)).ledger.accepted =
      (busRun inp n).ledger.accepted ++
        ((busRun inp n).acceptedCommand (inp n)).toList := by
  rw [busRun_succ, BusState.step_ledger, Ledger.accepted_cycle]

/-- An accepted command carries the current job number and the command registers. -/
private theorem acceptedCommand_mem {b : BusState} {i : CoreInput} {c : Command}
    (h : c ∈ (b.acceptedCommand i).toList) :
    c.job = b.job ∧ c.read = b.core.cnnIcbCmdRead ∧ b.core.cnnIcbCmdValid = true := by
  unfold BusState.acceptedCommand at h
  split_ifs at h with hhsk
  · simp only [Option.toList_some, List.mem_singleton] at h
    subst h
    refine ⟨rfl, rfl, ?_⟩
    simp only [CoreState.cnnIcbCmdHsk, Bool.and_eq_true] at hhsk
    exact hhsk.1
  · simp at h

/-- No command is of a later job. -/
theorem job_le_of_mem (inp : Nat → CoreInput) (n : Nat) :
    ∀ c ∈ (busRun inp n).ledger.accepted, c.job ≤ (busRun inp n).job := by
  induction n with
  | zero => simp [busRun, BusState.reset]
  | succ n ih =>
      have hmono : (busRun inp n).job ≤ (busRun inp (n + 1)).job := by
        rw [busRun_succ, BusState.step]
        dsimp only
        split_ifs <;> omega
      intro c hc
      rw [accepted_busRun_succ, List.mem_append] at hc
      rcases hc with hc | hc
      · exact (ih c hc).trans hmono
      · rw [(acceptedCommand_mem hc).1]
        exact hmono

/-- A command presented outside {lit}`STORE` and {lit}`DONE` is a read. -/
theorem read_of_valid {inp : Nat → CoreInput} {n : Nat}
    (hvalid : (busRun inp n).core.cnnIcbCmdValid = true)
    (hstore : (busRun inp n).core.currentState ≠ .store)
    (hdone : (busRun inp n).core.currentState ≠ .done) :
    (busRun inp n).core.cnnIcbCmdRead = true := by
  cases n with
  | zero => exact absurd hvalid Bool.false_ne_true
  | succ n =>
      have hread : (busRun inp (n + 1)).core.cnnIcbCmdRead =
        ((busRun inp n).core.weightAddrSendStart ||
          (busRun inp n).core.imageAddrSendStart) := rfl
      rw [hread]
      rcases busRun_valid_iff.mp hvalid with hs | hs | hs
      · rw [hs, Bool.true_or]
      · rw [hs, Bool.or_true]
      · exfalso
        have hstate := (CoreState.storeDataSendStart_iff.mp hs).1
        rcases CoreState.nextState_of_store (i := inp n) hstate with hnext | hnext
        · exact hstore hnext
        · exact hdone hnext

/-- The controller is past {lit}`IDLE` and before {lit}`STORE`. -/
def Loading (s : CoreState) : Prop :=
  s.currentState = .loadWeight ∨ s.currentState = .loadImage ∨ s.currentState = .compute

/-- A cycle before {lit}`STORE` adds reads only. -/
private theorem readsOnly_succ {inp : Nat → CoreInput} {n : Nat}
    (hloading : Loading (busRun inp n).core) (h : ReadsOnly (busRun inp n)) :
    ReadsOnly (busRun inp (n + 1)) := by
  have hne : (busRun inp n).core.currentState ≠ .idle ∧
      (busRun inp n).core.currentState ≠ .store ∧
      (busRun inp n).core.currentState ≠ .done := by
    rcases hloading with hs | hs | hs <;> simp [hs]
  intro c hc hjob
  rw [busRun_succ, BusState.step_job_of_ne_idle hne.1] at hjob
  rw [accepted_busRun_succ, List.mem_append] at hc
  rcases hc with hc | hc
  · exact h c hc hjob
  · obtain ⟨_, hread, hvalid⟩ := acceptedCommand_mem hc
    rw [hread]
    exact read_of_valid hvalid hne.2.1 hne.2.2

/-- Before {lit}`STORE` a job has accepted reads only. -/
theorem readsOnly_of_running {inp : Nat → CoreInput} {n : Nat}
    (hloading : Loading (busRun inp n).core) : ReadsOnly (busRun inp n) := by
  induction n with
  | zero => simp [Loading, busRun, BusState.reset, CoreState.reset] at hloading
  | succ n ih =>
      by_cases hprev : Loading (busRun inp n).core
      · exact readsOnly_succ hprev (ih hprev)
      · -- The job has just started: nothing recorded carries its number.
        have hidle : (busRun inp n).core.currentState = .idle ∧ (inp n).enable = true := by
          rcases hloading with hs | hs | hs
          · rcases CoreState.nextState_eq_loadWeight.mp hs with hstart | ⟨hload, _⟩
            · exact hstart
            · exact absurd (Or.inl hload) hprev
          · rcases CoreState.nextState_eq_loadImage.mp hs with ⟨hload, _⟩ | ⟨hload, _⟩
            · exact absurd (Or.inl hload) hprev
            · exact absurd (Or.inr (Or.inl hload)) hprev
          · rcases CoreState.nextState_eq_compute.mp hs with ⟨hload, _⟩ | ⟨hload, _⟩
            · exact absurd (Or.inr (Or.inl hload)) hprev
            · exact absurd (Or.inr (Or.inr hload)) hprev
        have hjobs : (busRun inp (n + 1)).job = (busRun inp n).job + 1 := by
          rw [busRun_succ]
          simp [BusState.step, hidle.1, hidle.2]
        have hvalid := (channelInv_busRun inp n).idle_valid hidle.1
        intro c hc hjob
        rw [accepted_busRun_succ, BusState.acceptedCommand_eq_none hvalid] at hc
        simp only [Option.toList_none, List.append_nil] at hc
        have := job_le_of_mem inp n c hc
        omega

/-! ## The end of a job -/

/-- What the condition on a run asks: {lit}`STORE` is entered with nothing
outstanding, and the slave conforms. -/
structure OrderlyStores (inp : Nat → CoreInput) : Prop where
  conforming : Conforming inp
  entry : ∀ f, EntersStore inp f → (busRun inp (f + 1)).ledger.pending = []

/-- The cycle in which {lit}`DONE` is entered finds the job complete. -/
private theorem jobComplete_of_left {inp : Nat → CoreInput} (h : OrderlyStores inp) {n : Nat}
    (hs : (busRun inp n).core.currentState = .store)
    (hnext : (busRun inp (n + 1)).core.currentState = .done) :
    JobComplete (busRun inp (n + 1)) := by
  obtain ⟨f, t, rfl, hout, hin⟩ := exists_entry
    (P := fun n => (busRun inp n).core.currentState = .store)
    (by simp [busRun, BusState.reset, CoreState.reset]) hs
  have henters : EntersStore inp f := ⟨hout, hin 0 (Nat.zero_le t)⟩
  have hstream := storeStream_of_enters (fun n _ => h.conforming n) henters
    (h.entry f henters)
  obtain ⟨haccepted, hpending⟩ := hstream.complete t hin (by simp [hnext])
  have hreads : ReadsOnly (busRun inp (f + 1)) :=
    readsOnly_succ (Or.inr (Or.inr henters.compute))
      (readsOnly_of_running (Or.inr (Or.inr henters.compute)))
  have hjob : (busRun inp (f + 1 + t + 1)).job = (busRun inp (f + 1)).job := by
    rw [busRun_succ, BusState.step_job_of_ne_idle (by simp [hs])]
    exact job_of_inStore hin
  have hwrites : (busRun inp (f + 1 + t + 1)).ledger.acceptedBy
      (fun c => c.job == (busRun inp (f + 1 + t + 1)).job && !c.read) =
        (List.range 16).map
          (writeCommand (busRun inp (f + 1 + t + 1)).job (computeEntry inp f)) := by
    have hearlier : ((busRun inp (f + 1)).ledger.accepted.filter
        fun c => c.job == (busRun inp (f + 1)).job && !c.read) = [] := by
      rw [List.filter_eq_nil_iff]
      intro c hc
      simpa using hreads c hc
    rw [Ledger.acceptedBy, haccepted, hjob, List.filter_append, hearlier, List.nil_append,
      List.filter_eq_self.mpr (by simp [writeCommand])]
  have hidle : (busRun inp (f + 1 + t + 1)).core.cnnIcbCmdValid = false := by
    obtain ⟨a, hinv⟩ := storeInv_of_inStore (fun n _ => h.conforming n) henters hin
    have hdone : (busRun inp (f + 1 + t)).core.storeDone = true := by
      apply CoreState.storeDone_of_leaves (i := inp (f + 1 + t)) hs
      rw [← BusState.step_core, ← busRun_succ, hnext]
      simp
    obtain ⟨rfl, hvalid, _⟩ := hinv.finished (h.entry f henters) hdone
    rw [busRun_succ, BusState.step_core, CoreState.step_valid_of_store hs, Bool.eq_false_iff]
    intro hstart
    rw [hinv.stage.storeDataSendStart_iff hs, hvalid] at hstart
    simp at hstart
  refine ⟨⟨_, hwrites⟩, ?_, hidle, hpending⟩
  have hanswered := congrArg List.length
    ((Ledger.acceptedBy_of_pending_nil hpending _).symm.trans hwrites)
  simpa using hanswered

/-- A complete job stays complete over a cycle of {lit}`DONE`. -/
private theorem jobComplete_succ {inp : Nat → CoreInput} (h : OrderlyStores inp) {n : Nat}
    (hs : (busRun inp n).core.currentState = .done) (hjob : JobComplete (busRun inp n)) :
    JobComplete (busRun inp (n + 1)) := by
  have hledger := BusState.step_ledger_of_quiet hjob.valid hjob.pending (h.conforming n)
  rw [← busRun_succ] at hledger
  have hnumber : (busRun inp (n + 1)).job = (busRun inp n).job := by
    rw [busRun_succ]
    exact BusState.step_job_of_ne_idle (by simp [hs]) _
  have hvalid : (busRun inp (n + 1)).core.cnnIcbCmdValid = false := by
    rw [busRun_succ, BusState.step_core]
    exact CoreState.step_valid_of_quiet (Or.inr (Or.inr hs))
  exact
    { accepted := by
        rw [hledger, hnumber]
        exact hjob.accepted
      acknowledged := by
        rw [hledger, hnumber]
        exact hjob.acknowledged
      valid := hvalid
      pending := hledger ▸ hjob.pending }

/-- In {lit}`DONE` the job is complete. -/
theorem jobComplete_of_done {inp : Nat → CoreInput} (h : OrderlyStores inp) {n : Nat}
    (hs : (busRun inp n).core.currentState = .done) : JobComplete (busRun inp n) := by
  induction n with
  | zero => simp [busRun, BusState.reset, CoreState.reset] at hs
  | succ n ih =>
      rcases CoreState.nextState_eq_done.mp hs with ⟨hstore, _⟩ | ⟨hdone, _⟩
      · exact jobComplete_of_left h hstore hs
      · exact jobComplete_succ h hdone (ih hdone)

/-- While the done wire is up the most recently started job is complete. -/
theorem jobComplete_of_doneWire {inp : Nat → CoreInput} (h : OrderlyStores inp) {n : Nat}
    (hwire : (busRun inp n).core.done = true) : JobComplete (busRun inp n) := by
  cases n with
  | zero => exact absurd hwire Bool.false_ne_true
  | succ n =>
      have hs : (busRun inp n).core.currentState = .done := by
        have hwireD : (busRun inp n).core.doneD = true := hwire
        simpa [CoreState.doneD] using hwireD
      exact jobComplete_succ h hs (jobComplete_of_done h hs)

/-- In a run of {lit}`cnn_top` with a conforming memory slave in which {lit}`STORE`
is always entered with nothing outstanding, a status read that samples one finds
the most recently started job complete. -/
theorem status_read_sound {inp : Nat → TopInput} (hconf : Conforming (coreInputs inp))
    (hentry : ∀ f, EntersStore (coreInputs inp) f →
      (busRun (coreInputs inp) (f + 1)).ledger.pending = [])
    {n : Nat} (hread : ControlState.ReadsStatus (inp n).cfg)
    (hsample : (topRun inp (n + 1)).control.cfgIcbRspRdata = 1) :
    JobComplete (topRun inp n).bus := by
  have hdone : (topRun inp n).bus.core.done = true :=
    (ControlState.samples_iff hread).mp hsample
  rw [topRun_bus] at hdone ⊢
  exact jobComplete_of_doneWire ⟨hconf, hentry⟩ hdone

/-- The processor enables the core in cycle 0 and reads the status register in
cycle 65; the slave is always ready and responds in the given cycles. -/
def enableAndPoll (responds : Nat → Bool) (n : Nat) : TopInput where
  cfg :=
    { cfgIcbCmdValid := n == 0 || n == 65
      cfgIcbCmdAddr := if n = 0 then 0x10042000 else 0x10042004
      cfgIcbCmdRead := n != 0
      cfgIcbCmdWdata := 1
      cfgIcbCmdWmask := 0b1111
      cfgIcbRspReady := true }
  cnnIcbCmdReady := true
  cnnIcbRspValid := responds n
  cnnIcbRspRdata := BitVec.ofNat 32 n

/-- Every command is answered in the next cycle. -/
def answersAtOnce (n : Nat) : Bool :=
  decide (4 ≤ n ∧ n ≤ 20) || decide (23 ≤ n ∧ n ≤ 39) || decide (47 ≤ n ∧ n ≤ 62)

/-- The answer to the seventeenth image read is held back until the store phase,
and the answer to the last write until cycle 70. -/
def answersLate (n : Nat) : Bool :=
  decide (4 ≤ n ∧ n ≤ 20) || decide (23 ≤ n ∧ n ≤ 38) || decide (46 ≤ n ∧ n ≤ 61) ||
    n == 70

/-- A slave that stops responding conforms if it does so up to its last
response. -/
private theorem conforming_enableAndPoll {responds : Nat → Bool}
    (hbefore : ∀ n < 71, (busRun (coreInputs (enableAndPoll responds)) n).SlaveConforms
      (coreInputs (enableAndPoll responds) n))
    (hquiet : ∀ n, 71 ≤ n → responds n = false) :
    Conforming (coreInputs (enableAndPoll responds)) :=
  conforming_of_prefix hbefore hquiet

/-- A job whose commands are all answered at once is reported correctly. -/
theorem status_read_answersAtOnce :
    JobComplete (topRun (enableAndPoll answersAtOnce) 65).bus := by
  have hconf : Conforming (coreInputs (enableAndPoll answersAtOnce)) := by
    refine conforming_enableAndPoll (by decide +kernel) ?_
    intro n hn
    simp [answersAtOnce]
    omega
  -- From cycle 65 on the core stays in DONE.
  have hdone : ∀ n, 65 ≤ n → (topRun (enableAndPoll answersAtOnce) n).control.cnnctr = 1 ∧
      (topRun (enableAndPoll answersAtOnce) n).bus.core.currentState = .done := by
    intro n hn
    induction n, hn using Nat.le_induction with
    | base => decide +kernel
    | succ n hn ih =>
        have henable : (topRun (enableAndPoll answersAtOnce) n).control.enable = true := by
          simp [ControlState.enable, ih.1]
        refine ⟨?_, CoreState.nextState_eq_done.mpr (Or.inr ⟨ih.2, henable⟩)⟩
        have hread : (enableAndPoll answersAtOnce n).cfg.cfgIcbCmdWrHsk = false := by
          simp [enableAndPoll, ControlInput.cfgIcbCmdWrHsk, ControlInput.cfgIcbCmdHsk]
          omega
        change (topRun (enableAndPoll answersAtOnce) n).control.cnnctrD _ = 1
        rw [ControlState.cnnctrD, hread, Bool.false_and, if_neg (by simp), ih.1]
  have hearly : ∀ f < 65,
      (busRun (coreInputs (enableAndPoll answersAtOnce)) (f + 1)).core.currentState = .store →
      (busRun (coreInputs (enableAndPoll answersAtOnce)) f).core.currentState ≠ .store →
      (busRun (coreInputs (enableAndPoll answersAtOnce)) (f + 1)).ledger.pending = [] := by
    decide +kernel
  refine status_read_sound hconf ?_ (n := 65) (by decide) (by decide +kernel)
  intro f h
  rcases Nat.lt_or_ge f 65 with hlt | hge
  · exact hearly f hlt h.2 h.1
  · have hs := (hdone (f + 1) (by omega)).2
    rw [topRun_bus] at hs
    exact absurd (hs.symm.trans h.2) (by simp)

/-- A response that is left over from the image phase is counted in the store
phase: the status register reports completion with a write still outstanding. -/
theorem status_read_early :
    ¬∀ inp : Nat → TopInput, Conforming (coreInputs inp) → ∀ n,
      ControlState.ReadsStatus (inp n).cfg →
      (topRun inp (n + 1)).control.cfgIcbRspRdata = 1 → JobComplete (topRun inp n).bus := by
  intro h
  have hconf : Conforming (coreInputs (enableAndPoll answersLate)) := by
    refine conforming_enableAndPoll (by decide +kernel) ?_
    intro n hn
    simp [answersLate]
    omega
  have hpending := (h _ hconf 65 (by decide) (by decide +kernel)).pending
  revert hpending
  decide +kernel

end CnnTop
end AcceleratorSoc
