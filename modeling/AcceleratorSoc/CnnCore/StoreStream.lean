import AcceleratorSoc.CnnCore.Compute
import AcceleratorSoc.CnnCore.StorePhase

/-!
# The stream of result writes

{lit}`STORE` begins draining while the array still accumulates.  Write {lit}`k` is
captured no earlier than cycle {lit}`k` of the phase, and accumulator
{lit}`rc` with {lit}`k = 4r + c` is final from cycle {lit}`r + c` on, so every
write carries a final value, on the fastest ready pattern as well.

Main results:

- Theorem {lit}`result_in_store`: accumulator {lit}`rc` is final from cycle
  {lit}`r + c` of {lit}`STORE` on.
- Theorem {lit}`StoreInv.step`: the ledger of the phase records the final results
  in order.
- Theorem {lit}`storeStream_of_enters`: a visit that begins with nothing outstanding
  writes the sixteen results once each, whatever the other visits found.
- Theorem {lit}`store_stream`: over whole runs, every such visit does, and if all are
  of this kind no other state presents a write.
-/

namespace AcceleratorSoc
namespace CnnCore

open Clocked

/-! ## The accumulators during the phase -/

/-- From a clean start {lit}`STORE` begins after five cycles.  While it lasts,
accumulator {lit}`rc` is final from its cycle {lit}`r + c` on. -/
theorem result_in_store {s₀ : CoreState} (h : CleanStart s₀) (inp : Nat → CoreInput)
    {t : Nat} (hstore : ∀ k ≤ t, (run CoreState.step s₀ inp (5 + k)).currentState = .store)
    {r c : Fin 4} (hrc : r.val + c.val ≤ t) :
    (run CoreState.step s₀ inp (5 + t)).result r c = innerProduct s₀ r c := by
  by_cases hsweep : 5 + t ≤ 11
  · exact result_of_sweep h inp (by omega) hsweep
  · obtain ⟨k, hk⟩ : ∃ k, 5 + t = 10 + 1 + k := ⟨t - 6, by omega⟩
    rw [hk, run_add]
    refine result_held (drained_of_sweep h inp) _ k ?_ r c
    intro m hm hclear
    rw [← run_add] at hclear
    -- A clearing pulse in this cycle would mean that the phase has been left.
    obtain ⟨j, hj⟩ : ∃ j, 10 + 1 + m = 5 + (j + 1) := ⟨m + 5, by omega⟩
    have hnow := hstore (j + 1) (by omega)
    have hprev := hstore j (by omega)
    rw [hj] at hclear
    have hdone : (run CoreState.step s₀ inp (5 + j)).storeDone = true :=
      storeDone_of_clear hclear
    have hleft : (run CoreState.step s₀ inp (5 + (j + 1))).currentState = .done :=
      CoreState.nextState_eq_done.mpr (Or.inl ⟨hprev, hdone⟩)
    exact absurd (hnow.symm.trans hleft) (by simp)

/-- The word that write {lit}`k` should carry: {lit}`GELU` of the final value of
accumulator {lit}`k / 4`, {lit}`k mod 4`. -/
def finalWord (s₀ : CoreState) (k : Nat) : Word :=
  gelu (innerProduct s₀ (Fin.ofNat 4 (k / 4)) (Fin.ofNat 4 k))

/-- The store multiplexer selects a final result when it comes to it. -/
theorem geluAt_eq_finalWord {s₀ s : CoreState} {t k : Nat}
    (hresult : ∀ r c : Fin 4, r.val + c.val ≤ t → s.result r c = innerProduct s₀ r c)
    (hkt : k ≤ t) (hk : k < 16) : s.geluAt (BitVec.ofNat 4 k) = finalWord s₀ k := by
  have hrow : (⟨(BitVec.ofNat 4 k).toNat / 4, by omega⟩ : Fin 4) = Fin.ofNat 4 (k / 4) := by
    apply Fin.ext
    simp
    omega
  have hcol : (⟨(BitVec.ofNat 4 k).toNat % 4, by omega⟩ : Fin 4) = Fin.ofNat 4 k := by
    apply Fin.ext
    simp
  unfold CoreState.geluAt CoreState.geluWire finalWord
  rw [hrow, hcol, hresult]
  simp
  omega

/-! ## The ledger during the phase -/

/-- Write {lit}`k` of a job. -/
def writeCommand (job : Nat) (s₀ : CoreState) (k : Nat) : Command where
  job := job
  phase := .store
  read := false
  addr := storeAddr k
  wdata := finalWord s₀ k

/-- Cycle {lit}`t` of a visit to {lit}`STORE` that began with the ledger
{lit}`start`, with {lit}`a` writes accepted. -/
structure StoreInv (s₀ : CoreState) (start : Ledger Command Word) (t a : Nat)
    (b : BusState) : Prop where
  state : b.core.currentState = .store
  read : b.core.cnnIcbCmdRead = false
  stage : StoreStage a b.core
  le_time : a ≤ t
  time : b.core.cnnIcbCmdValid = true → a + 1 ≤ t
  wdata : b.core.cnnIcbCmdValid = true → b.core.cnnIcbCmdWdata = finalWord s₀ a
  accepted : b.ledger.accepted =
    start.accepted ++ (List.range a).map (writeCommand b.job s₀)
  answered : b.ledger.answered.length =
    start.answered.length + b.core.storeRspRcptCnt.toNat
  rsp_le : b.core.storeRspRcptCnt.toNat ≤ 16

/-- The first cycle of a visit, right after a cycle of {lit}`COMPUTE`. -/
theorem storeInv_start {s₀ c : CoreState} {i : CoreInput} {b : BusState}
    (hcompute : c.currentState = .compute) (hcore : b.core = c.step i)
    (hs : b.core.currentState = .store) : StoreInv s₀ b.ledger 0 0 b := by
  have hvalid : b.core.cnnIcbCmdValid = false := by
    rw [hcore]
    exact CoreState.step_valid_of_quiet (Or.inr (Or.inl hcompute))
  have hrsp : b.core.storeRspRcptCnt = 0 := by
    rw [hcore]
    simp [CoreState.step, CoreState.storeRspRcptCntD, hcompute]
  exact
    { state := hs
      read := by
        rw [hcore]
        simp [CoreState.step, CoreState.cnnIcbCmdReadD, CoreState.weightAddrSendStart,
          CoreState.imageAddrSendStart, hcompute]
      stage := hcore ▸ storeStage_of_compute hcompute i
      le_time := le_refl 0
      time := by simp [hvalid]
      wdata := by simp [hvalid]
      accepted := by simp
      answered := by simp [hrsp]
      rsp_le := by simp [hrsp] }

namespace StoreInv

variable {s₀ : CoreState} {start : Ledger Command Word} {t a : Nat} {b : BusState}
  {i : CoreInput}

/-- The command handed over in a cycle of the phase is its next write. -/
theorem acceptedCommand (h : StoreInv s₀ start t a b) :
    b.acceptedCommand i =
      if b.core.cnnIcbCmdValid && i.cnnIcbCmdReady then some (writeCommand b.job s₀ a)
      else none := by
  unfold BusState.acceptedCommand CoreState.cnnIcbCmdHsk
  by_cases hhsk : (b.core.cnnIcbCmdValid && i.cnnIcbCmdReady) = true
  · have hvalid : b.core.cnnIcbCmdValid = true := by
      simp_all
    rw [if_pos hhsk, if_pos hhsk, h.state, h.read, h.wdata hvalid,
      (h.stage.cmdAddr_of_valid hvalid).1]
    rfl
  · rw [if_neg hhsk, if_neg hhsk]

/-- One clock edge of the phase before its last response is counted. -/
theorem step (h : StoreInv s₀ start t a b) (hconf : b.SlaveConforms i)
    (hrsp : b.core.storeRspRcptCnt.toNat ≤ 15)
    (hresult : ∀ r c : Fin 4, r.val + c.val ≤ t →
      b.core.result r c = innerProduct s₀ r c) :
    StoreInv s₀ start (t + 1) (a + (b.core.cnnIcbCmdValid && i.cnnIcbCmdReady).toNat)
      (b.step i) := by
  have hcount := storeRspRcptCnt_step h.state i hrsp
  have hstage := h.stage.step (i := i) h.state h.read
  have hjob : (b.step i).job = b.job :=
    BusState.step_job_of_ne_idle (by simp [h.state]) i
  have hdone := CoreState.storeDone_eq_false hrsp
  -- A command presented next was not presented before, or was accepted or kept now.
  have htime : (b.step i).core.cnnIcbCmdValid = true →
      a + (b.core.cnnIcbCmdValid && i.cnnIcbCmdReady).toNat ≤ t := by
    intro hvalid'
    cases hvalid : b.core.cnnIcbCmdValid
    · cases h.stage with
      | opening => simp
      | streaming hv => exact absurd hvalid (by simp [hv])
      | drained _ _ =>
          have hle := (hstage.cmdAddr_of_valid hvalid').2
          omega
    · have := h.time hvalid
      cases i.cnnIcbCmdReady <;> simp <;> omega
  refine
    { state := CoreState.nextState_eq_store.mpr (Or.inr ⟨h.state, hdone⟩)
      read := by
        simp [CoreState.step, CoreState.cnnIcbCmdReadD, CoreState.weightAddrSendStart,
          CoreState.imageAddrSendStart, h.state]
      stage := hstage
      le_time := ?_
      time := fun hvalid' => by
        have := htime hvalid'
        omega
      wdata := ?_
      accepted := ?_
      answered := ?_
      rsp_le := ?_ }
  · have hle := h.le_time
    have hlt := h.time
    cases hvalid : b.core.cnnIcbCmdValid
    · simp
      omega
    · have := hlt hvalid
      cases i.cnnIcbCmdReady <;> simp <;> omega
  · intro hvalid'
    have hle := (hstage.cmdAddr_of_valid hvalid').2
    rw [BusState.step_core, h.stage.cmdWdata_step h.state hvalid']
    by_cases hstall : b.core.cnnIcbCmdValid = true ∧ i.cnnIcbCmdReady = false
    · rw [if_pos hstall, h.wdata hstall.1, hstall.2, Bool.and_false, Bool.toNat_false,
        Nat.add_zero]
    · rw [if_neg hstall]
      exact geluAt_eq_finalWord hresult (htime hvalid') (by omega)
  · rw [BusState.step_ledger, Ledger.accepted_cycle, h.accepted, h.acceptedCommand, hjob,
      List.append_assoc, Ledger.map_range_accept]
  · rw [BusState.step_core, hcount, BusState.step_ledger]
    cases hvalid : i.cnnIcbRspValid
    · rw [BusState.response_eq_none hvalid, Ledger.answered_cycle_none, h.answered]
      rfl
    · rw [BusState.response_eq_some hvalid,
        Ledger.length_answered_cycle_some (hconf hvalid), h.answered]
      rfl
  · rw [BusState.step_core, hcount]
    cases i.cnnIcbRspValid <;> simp <;> omega

/-- When sixteen responses have come and nothing was outstanding at the start,
all sixteen writes are accepted and answered. -/
theorem finished (h : StoreInv s₀ start t a b) (hstart : start.pending = [])
    (hdone : b.core.storeDone = true) :
    a = 16 ∧ b.core.cnnIcbCmdValid = false ∧ b.ledger.pending = [] := by
  have hrsp := CoreState.storeDone_iff.mp hdone
  have hlength := b.ledger.length_accepted
  have hstartLength := start.length_accepted
  have hanswered := h.answered
  rw [hrsp] at hanswered
  rw [h.accepted, hanswered, List.length_append, hstartLength, hstart] at hlength
  simp at hlength
  have hle := h.stage.le_sixteen
  have ha : a = 16 := by
    omega
  subst ha
  refine ⟨rfl, ?_, List.length_eq_zero_iff.mp (by omega)⟩
  cases hvalid : b.core.cnnIcbCmdValid
  · rfl
  · have := (h.stage.cmdAddr_of_valid hvalid).2
    omega

end StoreInv

/-! ## Visits to the phase -/

/-- The controller enters {lit}`COMPUTE` with this clock edge. -/
def EntersCompute (inp : Nat → CoreInput) (e : Nat) : Prop :=
  (busRun inp e).core.currentState ≠ .compute ∧
    (busRun inp (e + 1)).core.currentState = .compute

/-- The controller enters {lit}`STORE` with this clock edge. -/
def EntersStore (inp : Nat → CoreInput) (f : Nat) : Prop :=
  (busRun inp f).core.currentState ≠ .store ∧
    (busRun inp (f + 1)).core.currentState = .store

/-- A clean entry is a start of the pipeline. -/
theorem EntersCompute.cleanStart {inp : Nat → CoreInput} {e : Nat}
    (h : EntersCompute inp e) : CleanStart (busRun inp (e + 1)).core := by
  have hinv := pipelineInv_run inp e
  rw [← busRun_core] at hinv
  exact cleanStart_of_enters hinv h.1 h.2

/-- The core after a visit to {lit}`COMPUTE` has begun, as a run of its own. -/
theorem core_eq_run (inp : Nat → CoreInput) (m k : Nat) :
    (busRun inp (m + k)).core =
      run CoreState.step (busRun inp m).core (fun j => inp (m + j)) k := by
  rw [busRun_core, busRun_core]
  exact run_add CoreState.step CoreState.reset inp m k

/-- {lit}`STORE` is entered from {lit}`COMPUTE` only. -/
theorem EntersStore.compute {inp : Nat → CoreInput} {f : Nat} (h : EntersStore inp f) :
    (busRun inp f).core.currentState = .compute := by
  rcases CoreState.nextState_eq_store.mp h.2 with ⟨hs, _⟩ | ⟨hs, _⟩
  · exact hs
  · exact absurd hs h.1

/-- {lit}`STORE` is entered five cycles after {lit}`COMPUTE`. -/
theorem EntersStore.entersCompute {inp : Nat → CoreInput} {f : Nat}
    (h : EntersStore inp f) : ∃ e, f = e + 5 ∧ EntersCompute inp e := by
  have hcompute := h.compute
  obtain ⟨e, t, rfl, hout, hin⟩ := exists_entry
    (P := fun n => (busRun inp n).core.currentState = .compute) (by simp [busRun, BusState.reset,
      CoreState.reset]) hcompute
  have hentry : EntersCompute inp e := ⟨hout, hin 0 (Nat.zero_le t)⟩
  have hstate : ∀ k ≤ 5, (busRun inp (e + 1 + k)).core.currentState =
      if k ≤ 4 then .compute else .store := by
    intro k hk
    rw [core_eq_run]
    exact (sweep_run hentry.cleanStart _ (by omega)).currentState
  have hle : t ≤ 4 := by
    by_contra hgt
    have h5 := (hin 5 (by omega)).symm.trans (hstate 5 (le_refl 5))
    simp at h5
  have hge : 4 ≤ t := by
    by_contra hlt
    have hnext := h.2.symm.trans (hstate (t + 1) (by omega))
    rw [if_pos (by omega)] at hnext
    simp at hnext
  exact ⟨e, by omega, hentry⟩

/-- The core as it entered {lit}`COMPUTE`, five cycles before {lit}`STORE`. -/
def computeEntry (inp : Nat → CoreInput) (f : Nat) : CoreState :=
  (busRun inp (f - 4)).core

/-- The visit that began at {lit}`f` lasts at least up to its cycle {lit}`t`. -/
def InStore (inp : Nat → CoreInput) (f t : Nat) : Prop :=
  ∀ k ≤ t, (busRun inp (f + 1 + k)).core.currentState = .store

/-- The accumulators during a visit to {lit}`STORE`. -/
theorem result_of_inStore {inp : Nat → CoreInput} {f t : Nat} (h : EntersStore inp f)
    (hin : InStore inp f t) {r c : Fin 4} (hrc : r.val + c.val ≤ t) :
    (busRun inp (f + 1 + t)).core.result r c = innerProduct (computeEntry inp f) r c := by
  obtain ⟨e, rfl, hentry⟩ := h.entersCompute
  have hcycle : ∀ k, e + 5 + 1 + k = e + 1 + (5 + k) := by
    intro k
    omega
  have hstore : ∀ k ≤ t, (run CoreState.step (busRun inp (e + 1)).core
      (fun j => inp (e + 1 + j)) (5 + k)).currentState = .store := by
    intro k hk
    rw [← core_eq_run, ← hcycle]
    exact hin k hk
  rw [hcycle, core_eq_run]
  exact result_in_store hentry.cleanStart _ hstore hrc

/-- The ledger invariant holds in every cycle of a visit that began with nothing
outstanding. -/
theorem storeInv_of_inStore {inp : Nat → CoreInput}
    (hconf : ∀ n, (busRun inp n).core.currentState = .store →
      (busRun inp n).SlaveConforms (inp n))
    {f t : Nat} (h : EntersStore inp f) (hin : InStore inp f t) :
    ∃ a, StoreInv (computeEntry inp f) (busRun inp (f + 1)).ledger t a
      (busRun inp (f + 1 + t)) := by
  induction t with
  | zero =>
      exact ⟨0, storeInv_start (c := (busRun inp f).core) (i := inp f) h.compute rfl h.2⟩
  | succ t ih =>
      have hin' : InStore inp f t := fun k hk => hin k (Nat.le_succ_of_le hk)
      obtain ⟨a, hinv⟩ := ih hin'
      have hrsp := storeRspRcptCnt_le_fifteen (i := inp (f + 1 + t)) hinv.state
        (hin (t + 1) (le_refl _)) hinv.rsp_le
      exact ⟨_, hinv.step (hconf _ hinv.state) hrsp
        fun r c hrc => result_of_inStore h hin' hrc⟩

/-! ## Whole runs -/

/-- One visit to {lit}`STORE`.  While it lasts at most sixteen writes are accepted,
write {lit}`k` carrying {lit}`GELU` of the final value of its accumulator; when it
is left, all sixteen are accepted and answered.  Final is the value that the
accumulators hold from cycle six of the visit on. -/
structure StoreStream (inp : Nat → CoreInput) (f : Nat) : Prop where
  final : ∀ t, InStore inp f t → 6 ≤ t → ∀ r c,
    (busRun inp (f + 1 + t)).core.result r c = innerProduct (computeEntry inp f) r c
  writes : ∀ t, InStore inp f t → ∃ a ≤ 16,
    (busRun inp (f + 1 + t)).ledger.accepted = (busRun inp (f + 1)).ledger.accepted ++
      (List.range a).map (writeCommand (busRun inp (f + 1)).job (computeEntry inp f))
  complete : ∀ t, InStore inp f t → (busRun inp (f + 1 + t + 1)).core.currentState ≠ .store →
    (busRun inp (f + 1 + t + 1)).ledger.accepted = (busRun inp (f + 1)).ledger.accepted ++
      (List.range 16).map (writeCommand (busRun inp (f + 1)).job (computeEntry inp f)) ∧
      (busRun inp (f + 1 + t + 1)).ledger.pending = []

/-- No job starts during a visit. -/
theorem job_of_inStore {inp : Nat → CoreInput} {f t : Nat} (hin : InStore inp f t) :
    (busRun inp (f + 1 + t)).job = (busRun inp (f + 1)).job := by
  induction t with
  | zero => rfl
  | succ t ih =>
      have hs := hin t (Nat.le_succ t)
      have hkept : (busRun inp (f + 1 + t + 1)).job = (busRun inp (f + 1 + t)).job := by
        rw [busRun_succ]
        exact BusState.step_job_of_ne_idle (by simp [hs]) _
      exact hkept.trans (ih fun k hk => hin k (Nat.le_succ_of_le hk))

/-- A visit that begins with nothing outstanding writes the sixteen final results in
order, once each; nothing is asked of the other visits but a conforming slave. -/
theorem storeStream_of_enters {inp : Nat → CoreInput}
    (hconf : ∀ n, (busRun inp n).core.currentState = .store →
      (busRun inp n).SlaveConforms (inp n))
    {f : Nat} (h : EntersStore inp f) (hpending : (busRun inp (f + 1)).ledger.pending = []) :
    StoreStream inp f where
  final t hin ht r c := result_of_inStore h hin (by omega)
  writes t hin := by
    obtain ⟨a, hinv⟩ := storeInv_of_inStore hconf h hin
    exact ⟨a, hinv.stage.le_sixteen, by rw [hinv.accepted, job_of_inStore hin]⟩
  complete t hin hleft := by
    obtain ⟨a, hinv⟩ := storeInv_of_inStore hconf h hin
    have hdone := CoreState.storeDone_of_leaves (i := inp (f + 1 + t)) hinv.state hleft
    obtain ⟨rfl, hvalid, hnone⟩ := hinv.finished hpending hdone
    have hledger := BusState.step_ledger_of_quiet hvalid hnone (hconf _ hinv.state)
    rw [← busRun_succ] at hledger
    exact ⟨by rw [hledger, hinv.accepted, job_of_inStore hin], by rw [hledger, hnone]⟩

/-- In a run in which the slave conforms in {lit}`STORE`, every visit that begins with
nothing outstanding writes its sixteen final results in order, once each.  If every
visit begins so, a write is presented in no other state. -/
theorem store_stream {inp : Nat → CoreInput}
    (hconf : ∀ n, (busRun inp n).core.currentState = .store →
      (busRun inp n).SlaveConforms (inp n)) :
    (∀ f, EntersStore inp f → (busRun inp (f + 1)).ledger.pending = [] →
      StoreStream inp f) ∧
      ((∀ f, EntersStore inp f → (busRun inp (f + 1)).ledger.pending = []) →
        ∀ n, (busRun inp n).core.cnnIcbCmdValid = true →
          (busRun inp n).core.cnnIcbCmdRead = false →
          (busRun inp n).core.currentState = .store) := by
  refine ⟨fun f h hpending => storeStream_of_enters hconf h hpending, ?_⟩
  intro hentry n hvalid hread
  cases n with
  | zero => exact absurd hvalid Bool.false_ne_true
  | succ n =>
      have hreadD : (busRun inp n).core.cnnIcbCmdReadD = false := hread
      have hstart : (busRun inp n).core.storeDataSendStart (inp n) = true := by
        rcases busRun_valid_iff.mp hvalid with hs | hs | hs
        · simp [CoreState.cnnIcbCmdReadD, hs] at hreadD
        · simp [CoreState.cnnIcbCmdReadD, hs] at hreadD
        · exact hs
      have hs := (CoreState.storeDataSendStart_iff.mp hstart).1
      by_contra hleft
      obtain ⟨f, t, rfl, hout, hin⟩ := exists_entry
        (P := fun n => (busRun inp n).core.currentState = .store)
        (by simp [busRun, BusState.reset, CoreState.reset]) hs
      have h : EntersStore inp f := ⟨hout, hin 0 (Nat.zero_le t)⟩
      obtain ⟨a, hinv⟩ := storeInv_of_inStore hconf h hin
      have hdone := CoreState.storeDone_of_leaves (i := inp (f + 1 + t)) hs hleft
      obtain ⟨rfl, hidle, _⟩ := hinv.finished (hentry f h) hdone
      rw [hinv.stage.storeDataSendStart_iff hs, hidle] at hstart
      simp at hstart

/-- After its job the core of the greedy slave stays in {lit}`IDLE`. -/
private theorem greedySlave_idle {n : Nat} (hn : 65 ≤ n) :
    (busRun greedySlave n).core.currentState = .idle := by
  induction n, hn using Nat.le_induction with
  | base => decide +kernel
  | succ n hn ih =>
      have henable : (greedySlave n).enable = false := by
        simp [greedySlave]
        omega
      exact CoreState.nextState_eq_idle.mpr ⟨Or.inl ih, henable⟩

/-- On the fastest slave the sixteen results are written from cycle 44 on, and no
other state presents a write. -/
theorem store_stream_greedySlave :
    StoreStream greedySlave 43 ∧
      ∀ n, (busRun greedySlave n).core.cnnIcbCmdValid = true →
        (busRun greedySlave n).core.cnnIcbCmdRead = false →
        (busRun greedySlave n).core.currentState = .store := by
  have hearly : ∀ f < 64, (busRun greedySlave (f + 1)).core.currentState = .store →
      (busRun greedySlave f).core.currentState ≠ .store →
      (busRun greedySlave (f + 1)).ledger.pending = [] := by
    decide +kernel
  have hentry : ∀ f, EntersStore greedySlave f →
      (busRun greedySlave (f + 1)).ledger.pending = [] := by
    intro f h
    rcases Nat.lt_or_ge f 64 with hlt | hge
    · exact hearly f hlt h.2 h.1
    · have hidle := greedySlave_idle (n := f + 1) (by omega)
      exact absurd (hidle.symm.trans h.2) (by simp)
  have hstream := store_stream fun n _ => greedySlave_conforming n
  have hvisit : EntersStore greedySlave 43 := ⟨by decide +kernel, by decide +kernel⟩
  exact ⟨hstream.1 43 hvisit (hentry 43 hvisit), hstream.2 hentry⟩

end CnnCore
end AcceleratorSoc
