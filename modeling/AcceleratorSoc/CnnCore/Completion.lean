import AcceleratorSoc.Clocked.Liveness
import AcceleratorSoc.CnnCore.LastBeat
import AcceleratorSoc.CnnCore.WholeJob

/-!
# Completion of the first job

On a slave that takes every command which stays presented and answers every
outstanding one, a phase of the job can only hang if it takes back a command that it
still needs.  The load phases do so when the slave stalls in both cycles in which the
sixteenth read is presented, and they read too much when it stalls in neither.

Main results:

- Theorem {lit}`LoadTrace.exists_leaves`: a load phase whose slave takes exactly one read
  in the two deciding cycles receives its sixteen words.
- Theorem {lit}`EntersStore.exists_left`: every visit to {lit}`STORE` ends.
- Theorem {lit}`job_completes_iff`: on a fair slave over a memory the first job completes
  with exactly its commands if and only if it is enabled and each load phase gets exactly
  one read taken in its two deciding cycles.
-/

namespace AcceleratorSoc
namespace CnnCore

open Clocked

/-! ## The channel of a run -/

/-- The command channel of the core along a run. -/
def busChannel (inp : Nat → CoreInput) : Channel where
  valid n := (busRun inp n).core.cnnIcbCmdValid = true
  ready n := (inp n).cnnIcbCmdReady = true
  respond n := (inp n).cnnIcbRspValid = true
  busy n := (busRun inp n).ledger.pending ≠ []

/-- Of the two cycles of the phase with the handshake counter at fifteen, the slave is ready
in exactly one. -/
def TakesOne (p : LoadPhase) (inp : Nat → CoreInput) : Prop :=
  ∀ j, FirstLastBeat p inp j → (inp j).cnnIcbCmdReady ≠ (inp (j + 1)).cnnIcbCmdReady

/-- A slave that is ready in one of the two is not ready in both. -/
theorem TakesOne.acceptsOnce {p : LoadPhase} {inp : Nat → CoreInput} (h : TakesOne p inp) :
    AcceptsOnce p inp := by
  rintro _ j ⟨hj, hready, hready'⟩
  exact h j hj (hready.trans hready'.symm)

/-- The same, for these two cycles of the first job. -/
def TakesOneInJob (p : LoadPhase) (inp : Nat → CoreInput) : Prop :=
  ∀ j, (busRun inp j).job = 1 → FirstLastBeat p inp j →
    (inp j).cnnIcbCmdReady ≠ (inp (j + 1)).cnnIcbCmdReady

/-- What is outstanding stays outstanding until a response comes. -/
theorem busy_succ {inp : Nat → CoreInput} (hconf : Conforming inp) {n : Nat}
    (hbusy : (busChannel inp).busy n) (hrsp : ¬(busChannel inp).respond n) :
    (busChannel inp).busy (n + 1) := by
  have hlength := BusState.length_pending_step (hconf n)
  have hnone : (inp n).cnnIcbRspValid = false := by
    simpa [busChannel] using hrsp
  have hpos := List.length_pos_iff.mpr hbusy
  rw [hnone, Bool.toNat_false] at hlength
  apply List.length_pos_iff.mp
  rw [busRun_succ]
  omega

/-- A command that is taken is outstanding in the next cycle, unless a response comes
in this one. -/
theorem busy_of_taken {inp : Nat → CoreInput} (hconf : Conforming inp) {n : Nat}
    (hvalid : (busChannel inp).valid n) (hready : (busChannel inp).ready n) :
    (busChannel inp).busy (n + 1) ∨ (busChannel inp).respond n := by
  cases hrsp : (inp n).cnnIcbRspValid
  · left
    have hlength := BusState.length_pending_step (hconf n)
    have hvalid' : (busRun inp n).core.cnnIcbCmdValid = true := hvalid
    have hready' : (inp n).cnnIcbCmdReady = true := hready
    rw [hrsp, hvalid', hready', Bool.toNat_false, Bool.and_true, Bool.toNat_true] at hlength
    apply List.length_pos_iff.mp
    rw [busRun_succ]
    omega
  · exact Or.inr hrsp

/-! ## Load phases -/

namespace LoadTrace

variable {p : LoadPhase} {earlier : List (Command × Word)} {inp : Nat → CoreInput}
  {n a : Nat}

/-- With nothing outstanding a needed read is presented in the next cycle, or has just
been taken. -/
theorem presents (h : LoadTrace p earlier inp n a) (hp : p.Lawful)
    (hone : TakesOneInJob p inp)
    (hconf : Conforming inp) (hrcpt : (p.rcptCnt (busRun inp n).core).toNat ≤ 15)
    (hidle : (busRun inp n).ledger.pending = []) :
    (busRun inp (n + 1)).ledger.pending ≠ [] ∨
      (busRun inp (n + 1)).core.cnnIcbCmdValid = true := by
  have hsteps := h.steps hp
  have hview := hp.view_valid (busRun inp n).core
  have hlength := h.length_pending
  rw [hidle, List.length_nil, Nat.zero_add] at hlength
  cases hdone : (p.view (busRun inp n).core).sendDone
  · right
    have hnext := hsteps.valid
    rw [hdone, hp.view_valid] at hnext
    exact hnext
  · left
    cases hvalid : (p.view (busRun inp n).core).valid
    · -- The two deciding cycles are over: sixteen reads have been taken.
      obtain ⟨j, hj, ha⟩ := h.drained hdone hvalid
      have hne := hone j (h.job_of_beat hp hconf hdone hj) hj
      cases hr : (inp j).cnnIcbCmdReady <;> cases hr' : (inp (j + 1)).cnnIcbCmdReady <;>
        simp [hr, hr'] at hne ha <;> omega
    · -- This is the second deciding cycle, and the first one took nothing.
      obtain ⟨j, rfl, hj, ha⟩ := h.beat hdone hvalid
      have hne := hone j (h.job_of_beat hp hconf hdone hj) hj
      have hr : (inp j).cnnIcbCmdReady = false := by
        rw [Bool.eq_false_iff]
        intro hr
        rw [hr, Bool.toNat_true] at ha
        omega
      have hready : (inp (j + 1)).cnnIcbCmdReady = true := by
        simpa [hr] using hne.symm
      rcases busy_of_taken hconf (n := j + 1) (hview.symm.trans hvalid) hready with
        hbusy | hrsp
      · exact hbusy
      · exact absurd hidle (hconf (j + 1) hrsp)

/-- The phase waits for its response {lit}`r + 1`. -/
def Receives (p : LoadPhase) (earlier : List (Command × Word)) (inp : Nat → CoreInput)
    (r n : Nat) : Prop :=
  ∃ a, LoadTrace p earlier inp n a ∧ (p.rcptCnt (busRun inp n).core).toNat = r

/-- One cycle of receiving. -/
theorem Receives.step {r : Nat} (h : Receives p earlier inp r n) (hp : p.Lawful)
    (hconf : Conforming inp) (hr : r < 16) :
    Receives p earlier inp (r + (inp n).cnnIcbRspValid.toNat) (n + 1) := by
  obtain ⟨a, htrace, rfl⟩ := h
  have hle : (p.rcptCnt (busRun inp n).core).toNat ≤ 15 := by
    omega
  exact ⟨_, htrace.step hp hle (hconf n), hp.rcptCnt_step (inp n) htrace.state hle⟩

/-- Until sixteen words have come, a command is presented or outstanding. -/
theorem Receives.waiting (hp : p.Lawful) (hone : TakesOneInJob p inp) (hconf : Conforming inp)
    {r : Nat} (hr : r < 16) : (busChannel inp).Waiting (Receives p earlier inp r) where
  stays n h hrsp := by
    have hnone : (inp n).cnnIcbRspValid = false := by
      simpa [busChannel] using hrsp
    have hnext := h.step hp hconf hr
    rwa [hnone, Bool.toNat_false, Nat.add_zero] at hnext
  busy_stays n _ := busy_succ hconf
  presents n h hidle := by
    obtain ⟨a, htrace, rfl⟩ := h
    exact htrace.presents hp hone hconf (by omega) (not_not.mp hidle)
  taken n _ := busy_of_taken hconf

/-- On a fair slave that takes one read in the deciding cycles the phase gets all its
words. -/
theorem exists_received (h : LoadTrace p earlier inp n a) (hp : p.Lawful)
    (hone : TakesOneInJob p inp) (hconf : Conforming inp) (hfair : (busChannel inp).Fair) :
    ∃ m, n ≤ m ∧ Receives p earlier inp 16 m := by
  refine hfair.exists_count (fun r hr => Receives.waiting hp hone hconf hr) ?_ h.rcpt_le
    ⟨a, h, rfl⟩
  intro r hr m hm hrsp
  have hvalid : (inp m).cnnIcbRspValid = true := hrsp
  have hnext := hm.step hp hconf hr
  rwa [hvalid, Bool.toNat_true] at hnext

end LoadTrace

/-- {lit}`LOAD_WEIGHT` is left once it has been entered. -/
theorem exists_leaves_weight {inp : Nat → CoreInput} (hconf : Conforming inp)
    (hfair : (busChannel inp).Fair) (hone : TakesOneInJob weightPhase inp) {n : Nat}
    (hjob : (busRun inp n).job = 1) (hs : (busRun inp n).core.currentState = .loadWeight) :
    ∃ m, Leaves weightPhase inp m ∧
      (busRun inp (m + 1)).core.currentState = .loadImage := by
  obtain ⟨⟨a, h⟩, _⟩ := weightTrace hconf hjob hs
  obtain ⟨m, _, b, htrace, hrcpt⟩ := h.exists_received weightPhase_lawful hone hconf hfair
  have hstate : (busRun inp m).core.currentState = .loadWeight := htrace.state
  have hcnt : (busRun inp m).core.weightDataRcptCnt = 16 := BitVec.eq_of_toNat_eq hrcpt
  have hdone : (busRun inp m).core.weightDataRcptDone = true := by
    simp [CoreState.weightDataRcptDone, hcnt]
  have hnext : (busRun inp (m + 1)).core.currentState = .loadImage :=
    CoreState.nextState_eq_loadImage.mpr (Or.inl ⟨hstate, hdone⟩)
  exact ⟨m, ⟨htrace.job, hstate, by rw [hnext]; simp [weightPhase]⟩, hnext⟩

/-- {lit}`LOAD_IMAGE` is left once it has been entered. -/
theorem exists_leaves_image {inp : Nat → CoreInput} (hconf : Conforming inp)
    (hfair : (busChannel inp).Fair) (honce : AcceptsOnce weightPhase inp)
    (hone : TakesOneInJob imagePhase inp) {n : Nat} (hjob : (busRun inp n).job = 1)
    (hs : (busRun inp n).core.currentState = .loadImage) :
    ∃ e, Leaves imagePhase inp e ∧ EntersCompute inp e := by
  obtain ⟨earlier, a, h⟩ := imageTrace hconf honce hjob hs
  obtain ⟨e, _, b, htrace, hrcpt⟩ := h.exists_received imagePhase_lawful hone hconf hfair
  have hstate : (busRun inp e).core.currentState = .loadImage := htrace.state
  have hcnt : (busRun inp e).core.imageDataRcptCnt = 16 := BitVec.eq_of_toNat_eq hrcpt
  have hdone : (busRun inp e).core.imageDataRcptDone = true := by
    simp [CoreState.imageDataRcptDone, hcnt]
  have hnext : (busRun inp (e + 1)).core.currentState = .compute :=
    CoreState.nextState_eq_compute.mpr (Or.inl ⟨hstate, hdone⟩)
  refine ⟨e, ⟨htrace.job, hstate, ?_⟩, ?_, hnext⟩
  · rw [hnext]
    simp [imagePhase]
  · rw [hstate]
    simp

/-! ## The store phase -/

/-- The visit to {lit}`STORE` that began at {lit}`f` waits for its response
{lit}`r + 1`. -/
def Awaits (inp : Nat → CoreInput) (f r n : Nat) : Prop :=
  ∃ t, n = f + 1 + t ∧ InStore inp f t ∧ (busRun inp n).core.storeRspRcptCnt.toNat = r

/-- A visit that does not end waits for its responses. -/
theorem awaits_waiting {inp : Nat → CoreInput} {f r : Nat} (hconf : Conforming inp)
    (h : EntersStore inp f) (hstays : ∀ t, InStore inp f t) :
    (busChannel inp).Waiting (Awaits inp f r) where
  stays n hn hrsp := by
    obtain ⟨t, rfl, hin, rfl⟩ := hn
    obtain ⟨a, hinv⟩ := storeInv_of_inStore (fun n _ => hconf n) h hin
    have hle := storeRspRcptCnt_le_fifteen (i := inp (f + 1 + t)) hinv.state
      (hstays (t + 1) (t + 1) (le_refl _)) hinv.rsp_le
    have hnone : (inp (f + 1 + t)).cnnIcbRspValid = false := by
      simpa [busChannel] using hrsp
    refine ⟨t + 1, rfl, hstays (t + 1), ?_⟩
    rw [busRun_succ, BusState.step_core, storeRspRcptCnt_step hinv.state _ hle, hnone,
      Bool.toNat_false, Nat.add_zero]
  busy_stays n _ := busy_succ hconf
  presents n hn hidle := by
    obtain ⟨t, rfl, hin, rfl⟩ := hn
    obtain ⟨a, hinv⟩ := storeInv_of_inStore (fun n _ => hconf n) h hin
    have hle := storeRspRcptCnt_le_fifteen (i := inp (f + 1 + t)) hinv.state
      (hstays (t + 1) (t + 1) (le_refl _)) hinv.rsp_le
    by_cases hstart : (busRun inp (f + 1 + t)).core.storeDataSendStart (inp (f + 1 + t)) = true
    · right
      change ((busRun inp (f + 1 + t)).core.step (inp (f + 1 + t))).cnnIcbCmdValid = true
      rw [CoreState.step_valid_of_store hinv.state, hstart]
    · -- Sixteen writes are taken and fewer answered, so one is outstanding next.
      left
      rw [hinv.stage.storeDataSendStart_iff hinv.state] at hstart
      have hlength := (busRun inp (f + 1 + t)).ledger.length_accepted
      rw [hinv.accepted, List.length_append, Ledger.length_accepted, not_not.mp hidle,
        hinv.answered, List.length_map, List.length_range, List.length_nil] at hlength
      have htaken : (busRun inp (f + 1 + t)).core.cnnIcbCmdValid = true ∧
          (inp (f + 1 + t)).cnnIcbCmdReady = true := by
        cases hv : (busRun inp (f + 1 + t)).core.cnnIcbCmdValid <;>
          cases hr : (inp (f + 1 + t)).cnnIcbCmdReady <;>
            simp [hv, hr] at hstart ⊢ <;> omega
      rcases busy_of_taken hconf htaken.1 htaken.2 with hbusy | hrsp
      · exact hbusy
      · exact absurd (not_not.mp hidle) (hconf _ hrsp)
  taken n _ := busy_of_taken hconf

/-- On a fair slave a visit to {lit}`STORE` ends. -/
theorem EntersStore.exists_left {inp : Nat → CoreInput} {f : Nat} (h : EntersStore inp f)
    (hconf : Conforming inp) (hfair : (busChannel inp).Fair) :
    ∃ t, InStore inp f t ∧ (busRun inp (f + 1 + t + 1)).core.currentState ≠ .store := by
  by_contra hnever
  have hstays : ∀ t, InStore inp f t := by
    intro t
    induction t with
    | zero =>
        intro k hk
        rw [Nat.le_zero.mp hk]
        exact h.2
    | succ t ih =>
        intro k hk
        rcases Nat.lt_or_eq_of_le hk with hlt | rfl
        · exact ih k (Nat.le_of_lt_succ hlt)
        · by_contra hleft
          exact hnever ⟨t, ih, hleft⟩
  obtain ⟨a, hinv⟩ := storeInv_of_inStore (fun n _ => hconf n) h (hstays 0)
  have hfirst : Awaits inp f (busRun inp (f + 1)).core.storeRspRcptCnt.toNat (f + 1) :=
    ⟨0, rfl, hstays 0, rfl⟩
  obtain ⟨m, _, t, rfl, _, hall⟩ := hfair.exists_count (N := 16)
    (fun r _ => awaits_waiting (r := r) hconf h hstays) (fun r _ m hm hrsp => by
      obtain ⟨t, rfl, hin, rfl⟩ := hm
      obtain ⟨a, hinv⟩ := storeInv_of_inStore (fun n _ => hconf n) h hin
      have hle := storeRspRcptCnt_le_fifteen (i := inp (f + 1 + t)) hinv.state
        (hstays (t + 1) (t + 1) (le_refl _)) hinv.rsp_le
      have hvalid : (inp (f + 1 + t)).cnnIcbRspValid = true := hrsp
      refine ⟨t + 1, rfl, hstays (t + 1), ?_⟩
      rw [busRun_succ, BusState.step_core, storeRspRcptCnt_step hinv.state _ hle, hvalid,
        Bool.toNat_true]) hinv.rsp_le hfirst
  obtain ⟨b, hlast⟩ := storeInv_of_inStore (fun n _ => hconf n) h (hstays t)
  have hle := storeRspRcptCnt_le_fifteen (i := inp (f + 1 + t)) hlast.state
    (hstays (t + 1) (t + 1) (le_refl _)) hlast.rsp_le
  omega

/-! ## The whole job -/

/-- Until it is enabled the core waits. -/
theorem job_zero_of_disabled (inp : Nat → CoreInput) {n : Nat}
    (h : ∀ k < n, (inp k).enable = false) : (busRun inp n).job = 0 := by
  induction n with
  | zero => rfl
  | succ n ih =>
      have hstep : (busRun inp (n + 1)).job = (busRun inp n).job := by
        simp [busRun_succ, BusState.step, h n (Nat.lt_succ_self n)]
      exact hstep.trans (ih fun k hk => h k (Nat.lt_succ_of_lt hk))

/-- The first cycle with enable starts the first job. -/
theorem exists_job_start {inp : Nat → CoreInput} (hconf : Conforming inp)
    (henable : ∃ n, (inp n).enable = true) :
    ∃ n, (busRun inp n).job = 1 ∧ (busRun inp n).core.currentState = .loadWeight := by
  classical
  have hfirst := Nat.find_spec henable
  have hjob : (busRun inp (Nat.find henable)).job = 0 :=
    job_zero_of_disabled inp fun k hk => by simpa using Nat.find_min henable hk
  have hidle := (waiting_of_job_zero hconf hjob).state
  refine ⟨Nat.find henable + 1, ?_, CoreState.nextState_eq_loadWeight.mpr
    (Or.inl ⟨hidle, hfirst⟩)⟩
  simp [busRun_succ, BusState.step, hidle, hfirst, hjob]

/-- A phase that was left with sixteen reads got one of them in its deciding cycles. -/
theorem LoadTrace.takesOne {p : LoadPhase} {earlier : List (Command × Word)}
    {inp : Nat → CoreInput} {n a : Nat} (h : LoadTrace p earlier inp n a) (hp : p.Lawful)
    (hleaves : Leaves p inp n) (honce : AcceptsOnce p inp) : TakesOne p inp := by
  obtain rfl := (h.sixteen_iff hp hleaves).mpr honce
  obtain ⟨hdone, hvalid, _⟩ := h.finished (h.rcpt_of_leaves hp hleaves)
  obtain ⟨j, hj, ha⟩ := h.drained hdone hvalid
  intro k hk heq
  obtain rfl := hj.unique hp hk
  rw [heq] at ha
  cases hready : (inp (j + 1)).cnnIcbCmdReady <;> simp [hready] at ha

/-- The first job ends when it is enabled and each load phase gets one read taken in its
deciding cycles. -/
theorem exists_finishes {inp : Nat → CoreInput} (hconf : Conforming inp)
    (hfair : (busChannel inp).Fair) (henable : ∃ n, (inp n).enable = true)
    (honce : AcceptsOnce weightPhase inp) (hweight : TakesOneInJob weightPhase inp)
    (himage : TakesOneInJob imagePhase inp) : ∃ n, FinishesJob inp n := by
  obtain ⟨n, hjob, hs⟩ := exists_job_start hconf henable
  obtain ⟨m, hm, himage₀⟩ := exists_leaves_weight hconf hfair hweight hjob hs
  have hjob' : (busRun inp (m + 1)).job = 1 := by
    have hactive : (busRun inp m).core.currentState ≠ .idle := by
      rw [hm.2.1]
      simp [weightPhase]
    exact (BusState.step_job_of_ne_idle hactive _).trans hm.1
  obtain ⟨e, he, henters⟩ := exists_leaves_image hconf hfair honce himage hjob' himage₀
  obtain ⟨t, hin, hleft⟩ := henters.entersStore.exists_left hconf hfair
  refine ⟨e + 5 + 1 + t, ?_, hin t (le_refl t), hleft⟩
  rw [job_of_inStore hin]
  exact henters.job_atStore.trans he.1

/-- On a fair slave over a memory the first job runs to its end, with exactly its
commands on the bus and nothing outstanding, if and only if it is enabled and in each
load phase the slave takes exactly one read in the two cycles after the counter has
reached fifteen. -/
theorem job_completes_iff {mem : Word → Word} {inp : Nat → CoreInput}
    (hconf : Conforming inp) (hserves : ServesMemory mem inp)
    (hfair : (busChannel inp).Fair) :
    (∃ n, FinishesJob inp n ∧ (busRun inp (n + 1)).ledger.accepted = jobCommands mem ∧
        (busRun inp (n + 1)).ledger.pending = []) ↔
      (∃ n, (inp n).enable = true) ∧ TakesOne weightPhase inp ∧ TakesOne imagePhase inp := by
  constructor
  · rintro ⟨n, hfin, hcommands, _⟩
    obtain ⟨m, e, t, rfl, h⟩ := exists_timeline hfin
    obtain ⟨hweight, himage⟩ := h.acceptsOnce hconf hcommands
    obtain ⟨⟨a, hw⟩, _⟩ := weightTrace hconf h.weight.1 h.weight.2.1
    obtain ⟨earlier, b, hi⟩ := imageTrace hconf hweight h.image.1 h.image.2.1
    refine ⟨?_, hw.takesOne weightPhase_lawful h.weight hweight,
      hi.takesOne imagePhase_lawful h.image himage⟩
    by_contra hnever
    have hjob := job_zero_of_disabled inp (n := e + 5 + 1 + t) fun k _ => by
      rw [Bool.eq_false_iff]
      exact fun hk => hnever ⟨k, hk⟩
    exact Nat.zero_ne_one (hjob.symm.trans hfin.1)
  · rintro ⟨henable, hweight, himage⟩
    obtain ⟨n, hfin⟩ := exists_finishes hconf hfair henable hweight.acceptsOnce
      (fun j _ => hweight j) fun j _ => himage j
    obtain ⟨m', e', t', heq, h⟩ := exists_timeline hfin
    have hcommands := h.commands hconf hserves.answersFrom hweight.acceptsOnce himage.acceptsOnce
    rw [← heq] at hcommands
    exact ⟨_, hfin, hcommands⟩

/-- After its job the steady slave's core stays in {lit}`DONE` and asks for nothing. -/
private theorem steadySlave_done {n : Nat} (hn : 110 ≤ n) :
    (busRun steadySlave n).core.currentState = .done ∧
      (busRun steadySlave n).core.cnnIcbCmdValid = false ∧
      (busRun steadySlave n).ledger.pending = [] := by
  induction n, hn using Nat.le_induction with
  | base => refine ⟨?_, ?_, ?_⟩ <;> decide +kernel
  | succ n hn ih =>
      obtain ⟨hs, hvalid, hpending⟩ := ih
      have hledger := BusState.step_ledger_of_quiet hvalid hpending (steadySlave_conforming n)
      exact ⟨CoreState.nextState_eq_done.mpr (Or.inr ⟨hs, rfl⟩),
        CoreState.step_valid_of_quiet (Or.inr (Or.inr hs)),
        (congrArg Ledger.pending hledger).trans hpending⟩

/-- It is fair. -/
private theorem steadySlave_fair : (busChannel steadySlave).Fair where
  takes n _ := by
    refine ⟨2 * n, by omega, ?_⟩
    simp [busChannel, steadySlave]
  answers n hbusy := by
    have hearly : ∀ n < 110, (busRun steadySlave n).ledger.pending ≠ [] →
        (steadySlave n).cnnIcbRspValid = true := by
      decide +kernel
    rcases Nat.lt_or_ge n 110 with hlt | hge
    · exact ⟨n, le_refl n, hearly n hlt hbusy⟩
    · exact absurd (steadySlave_done hge).2.2 hbusy

/-- The steady slave completes its job. -/
theorem job_completes_steadySlave :
    ∃ n, FinishesJob steadySlave n ∧
      (busRun steadySlave (n + 1)).ledger.accepted = jobCommands blockMemory ∧
      (busRun steadySlave (n + 1)).ledger.pending = [] := by
  have hone : ∀ p, TakesOne p steadySlave := by
    intro p j _
    simp [steadySlave]
    omega
  exact (job_completes_iff steadySlave_conforming steadySlave_serves steadySlave_fair).mpr
    ⟨⟨0, rfl⟩, hone _, hone _⟩

end CnnCore
end AcceleratorSoc
