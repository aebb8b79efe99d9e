import AcceleratorSoc.CnnCore.FirstJob
import AcceleratorSoc.CnnCore.StoreStream

/-!
# The first job as a whole

The first job reads the weight block and the image block, multiplies them and
writes {lit}`GELU` of the product back.  Over a memory that does not change under
its reads the commands of the job are therefore determined: sixteen weight reads,
sixteen image reads and sixteen writes whose data are a function of the two blocks.

Main results:

- Theorem {lit}`exists_timeline`: the cycles in which a finished job changed from one
  phase to the next.
- Theorem {lit}`job_commands_iff`: a finished job has issued exactly its forty-eight
  commands, with the right data and nothing outstanding, if and only if neither load
  phase accepted a read in both of its deciding cycles.
-/

namespace AcceleratorSoc
namespace CnnCore

open Clocked

/-! ## The commands of a job -/

/-- Every response to a read brings the word of the memory at its address. -/
def ServesMemory (mem : Word → Word) (inp : Nat → CoreInput) : Prop :=
  ∀ n c, (busRun inp n).ledger.pending.head? = some c → c.read = true →
    (inp n).cnnIcbRspValid = true → (inp n).cnnIcbRspRdata = mem c.addr

/-- Result {lit}`k` of the job: {lit}`GELU` of image row {lit}`k / 4` times weight row
{lit}`k mod 4`, both as they stand in memory. -/
def jobResult (mem : Word → Word) (k : Nat) : Word :=
  gelu (∑ j : Fin 4, product (mem (wordAddr imageAddr (4 * (k / 4) + j.val)))
    (mem (wordAddr weightAddr (4 * (k % 4) + j.val))))

/-- Write {lit}`k` of the job. -/
def resultCommand (mem : Word → Word) (k : Nat) : Command where
  job := 1
  phase := .store
  read := false
  addr := storeAddr k
  wdata := jobResult mem k

/-- Everything the first job should put on the bus. -/
def jobCommands (mem : Word → Word) : List Command :=
  (List.range 16).map (weightPhase.command 1) ++
    (List.range 16).map (imagePhase.command 1) ++
      (List.range 16).map (resultCommand mem)

/-- The first job leaves {lit}`STORE` with this clock edge. -/
def FinishesJob (inp : Nat → CoreInput) (n : Nat) : Prop :=
  (busRun inp n).job = 1 ∧ (busRun inp n).core.currentState = .store ∧
    (busRun inp (n + 1)).core.currentState ≠ .store

/-! ## The phases of a finished job -/

/-- The job number does not change while the controller is out of {lit}`IDLE`. -/
theorem job_const (inp : Nat → CoreInput) {m t : Nat}
    (hout : ∀ k < t, (busRun inp (m + k)).core.currentState ≠ .idle) :
    (busRun inp (m + t)).job = (busRun inp m).job := by
  induction t with
  | zero => rfl
  | succ t ih =>
      have hstep : (busRun inp (m + t + 1)).job = (busRun inp (m + t)).job :=
        BusState.step_job_of_ne_idle (hout t (Nat.lt_succ_self t)) _
      exact hstep.trans (ih fun k hk => hout k (Nat.lt_succ_of_lt hk))

/-- While the phases in which the test holds are not visited, no command that passes
it is accepted. -/
theorem acceptedBy_const (inp : Nat → CoreInput) (test : FsmState → Bool) {m t : Nat}
    (hout : ∀ k < t, test (busRun inp (m + k)).core.currentState = false) :
    (busRun inp (m + t)).ledger.acceptedBy (fun c => test c.phase) =
      (busRun inp m).ledger.acceptedBy (fun c => test c.phase) := by
  induction t with
  | zero => rfl
  | succ t ih =>
      have hnone : ((busRun inp (m + t)).acceptedCommand (inp (m + t))).toList.filter
          (fun c => test c.phase) = [] := by
        have htest := hout t (Nat.lt_succ_self t)
        unfold BusState.acceptedCommand
        split_ifs
        · simp [htest]
        · rfl
      rw [← Nat.add_assoc, busRun_succ, BusState.step_ledger, Ledger.acceptedBy_cycle, hnone,
        List.append_nil, ih fun k hk => hout k (Nat.lt_succ_of_lt hk)]

/-- {lit}`COMPUTE` is entered from {lit}`LOAD_IMAGE` only. -/
theorem EntersCompute.loadImage {inp : Nat → CoreInput} {e : Nat} (h : EntersCompute inp e) :
    (busRun inp e).core.currentState = .loadImage := by
  rcases CoreState.nextState_eq_compute.mp h.2 with ⟨hs, _⟩ | ⟨hs, _⟩
  · exact hs
  · exact absurd hs h.1

/-- {lit}`COMPUTE` takes five cycles. -/
theorem EntersCompute.state {inp : Nat → CoreInput} {e k : Nat} (h : EntersCompute inp e)
    (hk : k ≤ 5) : (busRun inp (e + 1 + k)).core.currentState =
      if k ≤ 4 then .compute else .store := by
  rw [core_eq_run]
  exact (sweep_run h.cleanStart _ (by omega)).currentState

/-- {lit}`COMPUTE` takes five cycles. -/
theorem EntersCompute.entersStore {inp : Nat → CoreInput} {e : Nat}
    (h : EntersCompute inp e) : EntersStore inp (e + 5) := by
  have hlast := h.state (k := 4) (by omega)
  have hnext := h.state (k := 5) (by omega)
  rw [if_pos (by omega), show e + 1 + 4 = e + 5 by omega] at hlast
  rw [if_neg (by omega), show e + 1 + 5 = e + 5 + 1 by omega] at hnext
  exact ⟨by simp [hlast], hnext⟩

/-- No job starts between {lit}`LOAD_IMAGE` and {lit}`STORE`. -/
theorem EntersCompute.job_atStore {inp : Nat → CoreInput} {e : Nat}
    (h : EntersCompute inp e) : (busRun inp (e + 5 + 1)).job = (busRun inp e).job := by
  refine job_const inp (m := e) (t := 6) fun k hk => ?_
  rcases Nat.eq_zero_or_pos k with rfl | hpos
  · rw [Nat.add_zero, h.loadImage]
    simp
  · have hs := h.state (k := k - 1) (by omega)
    rw [if_pos (by omega), show e + 1 + (k - 1) = e + k by omega] at hs
    simp [hs]

/-- The reads of a phase that was left and not entered again are all in the ledger when
it is left. -/
theorem acceptedBy_of_left {inp : Nat → CoreInput} {p : LoadPhase} {d n : Nat} (hd : d ≤ n)
    (hlater : ∀ k, d < k → k ≤ n → (busRun inp k).core.currentState ≠ p.state) :
    (busRun inp (n + 1)).ledger.acceptedBy (fun c => c.phase == p.state) =
      (busRun inp (d + 1)).ledger.acceptedBy (fun c => c.phase == p.state) := by
  have hconst := acceptedBy_const inp (fun q => q == p.state) (m := d + 1)
    (t := n - d) fun k hk => by
      simpa using hlater (d + 1 + k) (by omega) (by omega)
  rwa [show d + 1 + (n - d) = n + 1 by omega] at hconst

/-- The edges of a finished first job: {lit}`LOAD_WEIGHT` is left after cycle {lit}`m`,
{lit}`LOAD_IMAGE` after cycle {lit}`e`; {lit}`COMPUTE` takes five cycles and the visit
to {lit}`STORE` lasts up to its cycle {lit}`t`. -/
structure Timeline (inp : Nat → CoreInput) (m e t : Nat) : Prop where
  weight : Leaves weightPhase inp m
  image : Leaves imagePhase inp e
  lt : m < e
  inImage : ∀ k, m < k → k ≤ e → (busRun inp k).core.currentState = .loadImage
  afterImage : ∀ k, e < k → k ≤ e + 5 + 1 + t →
    (busRun inp k).core.currentState = if k ≤ e + 5 then .compute else .store
  enters : EntersStore inp (e + 5)
  inStore : InStore inp (e + 5) t
  leaves : (busRun inp (e + 5 + 1 + t + 1)).core.currentState ≠ .store

/-- A job that leaves {lit}`STORE` has been through all phases before it. -/
theorem exists_timeline {inp : Nat → CoreInput} {n : Nat} (hfin : FinishesJob inp n) :
    ∃ m e t, n = e + 5 + 1 + t ∧ Timeline inp m e t := by
  obtain ⟨hjob, hstore, hleft⟩ := hfin
  obtain ⟨f, t, rfl, hout, hin⟩ := exists_entry
    (P := fun n => (busRun inp n).core.currentState = .store)
    (by simp [busRun, BusState.reset, CoreState.reset]) hstore
  have henters : EntersStore inp f := ⟨hout, hin 0 (Nat.zero_le t)⟩
  obtain ⟨e, rfl, hentry⟩ := henters.entersCompute
  have hafter : ∀ k, e < k → k ≤ e + 5 + 1 + t →
      (busRun inp k).core.currentState = if k ≤ e + 5 then .compute else .store := by
    intro k hek hkn
    by_cases hke : k ≤ e + 5
    · have hk := hentry.state (k := k - (e + 1)) (by omega)
      rw [if_pos (by omega), Nat.add_sub_cancel' (by omega)] at hk
      rw [if_pos hke, hk]
    · have hk := hin (k - (e + 5 + 1)) (by omega)
      rw [Nat.add_sub_cancel' (by omega)] at hk
      rw [if_neg hke, hk]
  have himage := hentry.loadImage
  obtain ⟨m, d, hme, hbefore, hload⟩ := exists_entry
    (P := fun n => (busRun inp n).core.currentState = .loadImage)
    (by simp [busRun, BusState.reset, CoreState.reset]) himage
  have hinImage : ∀ k, m < k → k ≤ e → (busRun inp k).core.currentState = .loadImage := by
    intro k hmk hke
    have hk := hload (k - (m + 1)) (by omega)
    rwa [Nat.add_sub_cancel' (by omega)] at hk
  have hweight : (busRun inp m).core.currentState = .loadWeight := by
    rcases CoreState.nextState_eq_loadImage.mp (hload 0 (Nat.zero_le d)) with
      ⟨hs, _⟩ | ⟨hs, _⟩
    · exact hs
    · exact absurd hs hbefore
  -- The job number is carried backwards from the end to the two load phases.
  have hactive : ∀ k, m ≤ k → k ≤ e + 5 + 1 + t →
      (busRun inp k).core.currentState ≠ .idle := by
    intro k hmk hkn
    rcases Nat.eq_or_lt_of_le hmk with rfl | hlt
    · simp [hweight]
    rcases Nat.lt_or_ge e k with hek | hke
    · rw [hafter k hek hkn]
      split_ifs <;> simp
    · simp [hinImage k hlt hke]
  have hjobs : ∀ k, m ≤ k → k ≤ e + 5 + 1 + t → (busRun inp k).job = 1 := by
    intro k hmk hkn
    have hconst := job_const inp (m := k) (t := e + 5 + 1 + t - k)
      fun j hj => hactive (k + j) (by omega) (by omega)
    rw [Nat.add_sub_cancel' hkn] at hconst
    exact hconst.symm.trans hjob
  refine ⟨m, e, t, rfl, ?_⟩
  refine
    { weight := ⟨hjobs m (le_refl m) (by omega), hweight, ?_⟩
      image := ⟨hjobs e (by omega) (by omega), himage, ?_⟩
      lt := by omega
      inImage := hinImage
      afterImage := hafter
      enters := henters
      inStore := hin
      leaves := hleft }
  · rw [hinImage (m + 1) (by omega) (by omega)]
    simp [weightPhase]
  · rw [hafter (e + 1) (by omega) (by omega), if_pos (by omega)]
    simp [imagePhase]

/-! ## What the load phases leave behind -/

/-- The reads of a phase are all in its state. -/
theorem LoadPhase.filter_commands (p : LoadPhase) (test : FsmState → Bool) (job a : Nat) :
    ((List.range a).map (p.command job)).filter (fun c => test c.phase) =
      if test p.state then (List.range a).map (p.command job) else [] := by
  cases htest : test p.state <;> simp [LoadPhase.command, htest]

/-- A phase that is left has put its accepted reads into the ledger. -/
theorem LoadTrace.acceptedBy_of_leaves {p : LoadPhase} {earlier : List (Command × Word)}
    {inp : Nat → CoreInput} {n a : Nat} (h : LoadTrace p earlier inp n a) (hp : p.Lawful)
    (hleaves : Leaves p inp n) :
    (busRun inp (n + 1)).ledger.acceptedBy (fun c => c.phase == p.state) =
      (List.range a).map (p.command 1) := by
  obtain ⟨_, hvalid, _⟩ := h.finished (h.rcpt_of_leaves hp hleaves)
  rw [hp.view_valid] at hvalid
  have hnone : (earlier.map Prod.fst).filter (fun c => c.phase == p.state) = [] := by
    simpa using fun c w hmem => h.earlier_phase (c, w) hmem
  rw [busRun_succ, BusState.step_ledger, BusState.acceptedCommand_eq_none hvalid,
    Ledger.acceptedBy_cycle, Ledger.acceptedBy, h.accepted, List.filter_append, hnone, h.job,
    p.filter_commands (fun q => q == p.state)]
  simp

/-- A phase that is left has accepted sixteen reads exactly when it accepts once. -/
theorem LoadTrace.sixteen_iff {p : LoadPhase} {earlier : List (Command × Word)}
    {inp : Nat → CoreInput} {n a : Nat} (h : LoadTrace p earlier inp n a) (hp : p.Lawful)
    (hleaves : Leaves p inp n) : a = 16 ↔ AcceptsOnce p inp := by
  rw [h.accepts_sixteen_iff hp (h.rcpt_of_leaves hp hleaves)]
  exact ⟨fun honce _ => honce, fun honce => honce ⟨n, hleaves⟩⟩

/-- The words that a job reads. -/
def JobRead (addr : Word) : Prop :=
  ∃ k < 16, addr = wordAddr weightAddr k ∨ addr = wordAddr imageAddr k

/-- The results depend on these words only. -/
theorem jobResult_congr {mem mem' : Word → Word} (h : ∀ a, JobRead a → mem a = mem' a) {k : Nat}
    (hk : k < 16) : jobResult mem k = jobResult mem' k := by
  unfold jobResult
  congr 1
  refine Finset.sum_congr rfl fun j _ => ?_
  rw [h _ ⟨_, by omega, Or.inr rfl⟩, h _ ⟨_, by omega, Or.inl rfl⟩]

/-- The answered reads of the two blocks have brought the words of the memory. -/
def AnswersFrom (mem : Word → Word) (b : BusState) : Prop :=
  ∀ e ∈ b.ledger.answered, e.1.read = true → JobRead e.1.addr → e.2 = mem e.1.addr

/-- A slave that serves a memory answers from it. -/
theorem ServesMemory.answersFrom {mem : Word → Word} {inp : Nat → CoreInput}
    (h : ServesMemory mem inp) (n : Nat) : AnswersFrom mem (busRun inp n) := by
  induction n with
  | zero => simp [AnswersFrom, busRun, BusState.reset]
  | succ n ih =>
      intro e hmem hread hblock
      rw [busRun_succ, BusState.step_ledger] at hmem
      rcases Ledger.mem_answered_cycle hmem with hold | ⟨hhead, hrsp⟩
      · exact ih e hold hread hblock
      · cases hvalid : (inp n).cnnIcbRspValid
        · simp [BusState.response_eq_none hvalid] at hrsp
        · rw [BusState.response_eq_some hvalid, Option.some_inj] at hrsp
          exact hrsp.symm.trans (h n e.1 hhead hread hvalid)

/-- With answers from a memory a loaded buffer is a copy of its block. -/
theorem PhaseLoaded.bufferWord {p : LoadPhase} {mem : Word → Word} {b : BusState}
    (h : PhaseLoaded p b) (hanswers : AnswersFrom mem b) {k : Nat} (hk : k < 16)
    (hblock : JobRead (wordAddr p.base k)) :
    CnnCore.bufferWord (p.buffer b.core) k = mem (wordAddr p.base k) := by
  have hmem : p.answer b k ∈ b.ledger.answered := by
    have hin : p.answer b k ∈ b.ledger.answeredBy (fun c => c.phase == p.state) := by
      rw [h.answered]
      exact List.mem_map_of_mem (List.mem_range.mpr hk)
    exact List.mem_of_mem_filter hin
  exact hanswers _ hmem rfl hblock

namespace Timeline

variable {inp : Nat → CoreInput} {mem : Word → Word} {m e t : Nat}

/-- A job computes after its loads. -/
theorem entersCompute (h : Timeline inp m e t) : EntersCompute inp e := by
  have hnext := h.afterImage (e + 1) (by omega) (by omega)
  rw [if_pos (by omega)] at hnext
  exact ⟨by simp [h.inImage e h.lt (le_refl e)], hnext⟩

/-- After {lit}`LOAD_IMAGE` nothing but writes can be accepted. -/
theorem ne_loadImage (h : Timeline inp m e t) {k : Nat} (hek : e < k)
    (hkn : k ≤ e + 5 + 1 + t) : (busRun inp k).core.currentState ≠ .loadImage := by
  rw [h.afterImage k hek hkn]
  split_ifs <;> simp

/-- After {lit}`LOAD_WEIGHT` the controller does not return to it. -/
theorem ne_loadWeight (h : Timeline inp m e t) {k : Nat} (hmk : m < k)
    (hkn : k ≤ e + 5 + 1 + t) : (busRun inp k).core.currentState ≠ .loadWeight := by
  rcases Nat.lt_or_ge e k with hek | hke
  · rw [h.afterImage k hek hkn]
    split_ifs <;> simp
  · simp [h.inImage k hmk hke]

/-- With sixteen reads in each load phase, {lit}`LOAD_IMAGE` ends with both blocks read
and nothing outstanding. -/
theorem ledger_afterImage (h : Timeline inp m e t) (hconf : Conforming inp)
    (hweight : AcceptsOnce weightPhase inp) (himage : AcceptsOnce imagePhase inp) :
    (busRun inp (e + 1)).ledger.accepted =
        (List.range 16).map (weightPhase.command 1) ++
          (List.range 16).map (imagePhase.command 1) ∧
      (busRun inp (e + 1)).ledger.pending = [] ∧
      (busRun inp (e + 1)).core.cnnIcbCmdValid = false := by
  obtain ⟨⟨a, hw⟩, _⟩ := weightTrace hconf h.weight.1 h.weight.2.1
  obtain rfl := (hw.sixteen_iff weightPhase_lawful h.weight).mpr hweight
  have hwRcpt := hw.rcpt_of_leaves weightPhase_lawful h.weight
  obtain ⟨_, hwIdle⟩ := hw.ledger_of_settled weightPhase_lawful (hw.finished hwRcpt).2.1 hwRcpt
    (hconf m)
  obtain ⟨earlier, a, hi⟩ := imageTrace hconf hweight h.image.1 h.image.2.1
  obtain rfl := (hi.sixteen_iff imagePhase_lawful h.image).mpr himage
  have hiRcpt := hi.rcpt_of_leaves imagePhase_lawful h.image
  obtain ⟨hsent, hvalid, _⟩ := hi.finished hiRcpt
  obtain ⟨hpending, hiIdle⟩ := hi.ledger_of_settled imagePhase_lawful hvalid hiRcpt (hconf e)
  -- What the image phase found in the ledger is what the weight phase left there.
  have hearlier : earlier.map Prod.fst = (List.range 16).map (weightPhase.command 1) := by
    have hconst := acceptedBy_const inp (fun q => q != .loadImage) (m := m + 1)
      (t := e - (m + 1)) fun k hk => by
        simp [h.inImage (m + 1 + k) (by omega) (by omega)]
    have hlt := h.lt
    have hkeep : (earlier.map Prod.fst).filter (fun c => c.phase != .loadImage) =
        earlier.map Prod.fst := by
      rw [List.filter_eq_self]
      intro c hc
      obtain ⟨a, ha, rfl⟩ := List.mem_map.mp hc
      simpa [imagePhase] using hi.earlier_phase a ha
    rw [Nat.add_sub_cancel' (by omega), Ledger.acceptedBy, Ledger.acceptedBy, hi.accepted,
      hwIdle, hw.accepted, List.filter_append, hkeep, hw.job,
      imagePhase.filter_commands (fun q => q != .loadImage), List.map_nil, List.nil_append,
      weightPhase.filter_commands (fun q => q != .loadImage)] at hconst
    exact (List.append_nil _).symm.trans hconst
  refine ⟨?_, by rw [hiIdle, hpending], ?_⟩
  · rw [hiIdle, hi.accepted, hearlier, hi.job]
  · have hs : (busRun inp e).core.currentState = .loadImage := h.image.2.1
    have hsent' : (busRun inp e).core.imageAddrSendDone = true := hsent
    rw [busRun_succ, BusState.step_core, CoreState.step_valid_of_loadImage hs]
    simp [CoreState.imageAddrSendStart, hsent']

/-- {lit}`COMPUTE` leaves the bus alone. -/
theorem ledger_atStore (h : Timeline inp m e t) (hconf : Conforming inp)
    (hpending : (busRun inp (e + 1)).ledger.pending = [])
    (hvalid : (busRun inp (e + 1)).core.cnnIcbCmdValid = false) :
    (busRun inp (e + 5 + 1)).ledger = (busRun inp (e + 1)).ledger := by
  have hquiet : ∀ k ≤ 5, (busRun inp (e + 1 + k)).ledger = (busRun inp (e + 1)).ledger ∧
      (busRun inp (e + 1 + k)).core.cnnIcbCmdValid = false := by
    intro k hk
    induction k with
    | zero => exact ⟨rfl, hvalid⟩
    | succ k ih =>
        obtain ⟨hledger, hidle⟩ := ih (by omega)
        have hs : (busRun inp (e + 1 + k)).core.currentState = .compute := by
          rw [h.afterImage _ (by omega) (by omega), if_pos (by omega)]
        have hstep := BusState.step_ledger_of_quiet hidle (by rw [hledger, hpending])
          (hconf (e + 1 + k))
        exact ⟨hstep.trans hledger,
          CoreState.step_valid_of_quiet (Or.inr (Or.inl hs))⟩
  exact (hquiet 5 (le_refl 5)).1

/-- {lit}`LOAD_IMAGE` does not touch the weight buffer. -/
theorem curWeight_afterImage (h : Timeline inp m e t) :
    (busRun inp (e + 1)).core.curWeight = (busRun inp (m + 1)).core.curWeight := by
  have hkept : ∀ k ≤ e - m,
      (busRun inp (m + 1 + k)).core.curWeight = (busRun inp (m + 1)).core.curWeight := by
    intro k hk
    induction k with
    | zero => rfl
    | succ k ih =>
        rw [← ih (by omega)]
        apply Bank.ext_table
        intro r c
        change Bank.table ((busRun inp (m + 1 + k)).core.curWeightD (inp (m + 1 + k))) r c = _
        simp [CoreState.curWeightD, h.inImage (m + 1 + k) (by omega) (by omega)]
  have hlt := h.lt
  have hlast := hkept (e - m) (le_refl _)
  rwa [show m + 1 + (e - m) = e + 1 by omega] at hlast

end Timeline

/-! ## The job as a whole -/

/-- On a copy of the blocks the store multiplexer selects the results of the job. -/
theorem finalWord_eq_jobResult {mem : Word → Word} {s : CoreState}
    (hweight : ∀ k < 16, bufferWord s.curWeight k = mem (wordAddr weightAddr k))
    (himage : ∀ k < 16, bufferWord s.imageData k = mem (wordAddr imageAddr k)) {k : Nat}
    (hk : k < 16) : finalWord s k = jobResult mem k := by
  have hentry : ∀ (buffer : Bank (Bank Word)) (r : Nat) (j : Fin 4), r < 4 →
      buffer (Fin.ofNat 4 r) j = bufferWord buffer (4 * r + j.val) := by
    intro buffer r j hr
    have hrow : (4 * r + j.val) / 4 = r := by omega
    have hcol : Fin.ofNat 4 (4 * r + j.val) = j := by
      apply Fin.ext
      simp
    rw [bufferWord, hrow, hcol]
  have hrow : Fin.ofNat 4 k = Fin.ofNat 4 (k % 4) := by
    apply Fin.ext
    simp
  unfold finalWord jobResult innerProduct
  congr 1
  apply Finset.sum_congr rfl
  intro j _
  rw [hrow, hentry s.imageData (k / 4) j (by omega), hentry s.curWeight (k % 4) j (by omega),
    himage _ (by omega), hweight _ (by omega)]

namespace Timeline

variable {inp : Nat → CoreInput} {mem : Word → Word} {m e t : Nat}

/-- With sixteen reads in each load phase the array starts on copies of both blocks. -/
theorem buffers_atCompute (h : Timeline inp m e t) (hconf : Conforming inp)
    (hanswers : ∀ n, AnswersFrom mem (busRun inp n)) (hweight : AcceptsOnce weightPhase inp)
    (himage : AcceptsOnce imagePhase inp) {k : Nat} (hk : k < 16) :
    bufferWord (busRun inp (e + 1)).core.curWeight k = mem (wordAddr weightAddr k) ∧
      bufferWord (busRun inp (e + 1)).core.imageData k = mem (wordAddr imageAddr k) := by
  obtain ⟨⟨a, hw⟩, _⟩ := weightTrace hconf h.weight.1 h.weight.2.1
  obtain ⟨earlier, b, hi⟩ := imageTrace hconf hweight h.image.1 h.image.2.1
  have hwLoaded := (hw.phaseLoaded_iff weightPhase_lawful hconf h.weight).mpr
    ((hw.sixteen_iff weightPhase_lawful h.weight).mpr hweight)
  have hiLoaded := (hi.phaseLoaded_iff imagePhase_lawful hconf h.image).mpr
    ((hi.sixteen_iff imagePhase_lawful h.image).mpr himage)
  constructor
  · rw [h.curWeight_afterImage]
    exact hwLoaded.bufferWord (hanswers _) hk ⟨k, hk, Or.inl rfl⟩
  · exact hiLoaded.bufferWord (hanswers _) hk ⟨k, hk, Or.inr rfl⟩

/-- With sixteen reads in each load phase the job issues its commands. -/
theorem commands (h : Timeline inp m e t) (hconf : Conforming inp)
    (hanswers : ∀ n, AnswersFrom mem (busRun inp n)) (hweight : AcceptsOnce weightPhase inp)
    (himage : AcceptsOnce imagePhase inp) :
    (busRun inp (e + 5 + 1 + t + 1)).ledger.accepted = jobCommands mem ∧
      (busRun inp (e + 5 + 1 + t + 1)).ledger.pending = [] := by
  obtain ⟨haccepted, hpending, hvalid⟩ := h.ledger_afterImage hconf hweight himage
  have hledger := h.ledger_atStore hconf hpending hvalid
  have hstream := storeStream_of_enters (fun n _ => hconf n) h.enters
    (by rw [hledger, hpending])
  obtain ⟨hwrites, hnone⟩ := hstream.complete t h.inStore h.leaves
  have hjob : (busRun inp (e + 5 + 1)).job = 1 :=
    h.entersCompute.job_atStore.trans h.image.1
  refine ⟨?_, hnone⟩
  rw [hwrites, hledger, haccepted, jobCommands]
  congr 1
  apply List.map_congr_left
  intro k hk
  have hfinal := finalWord_eq_jobResult (s := computeEntry inp (e + 5))
    (fun k hk => (h.buffers_atCompute hconf hanswers hweight himage hk).1)
    (fun k hk => (h.buffers_atCompute hconf hanswers hweight himage hk).2)
    (List.mem_range.mp hk)
  rw [writeCommand, resultCommand, hjob, hfinal]

/-- A job that has issued just its commands has sixteen reads in each load phase. -/
theorem acceptsOnce (h : Timeline inp m e t) (hconf : Conforming inp)
    (hcommands : (busRun inp (e + 5 + 1 + t + 1)).ledger.accepted = jobCommands mem) :
    AcceptsOnce weightPhase inp ∧ AcceptsOnce imagePhase inp := by
  have hlt := h.lt
  have hreads : ∀ p : LoadPhase, (p = weightPhase ∨ p = imagePhase) →
      ((busRun inp (e + 5 + 1 + t + 1)).ledger.acceptedBy
        (fun c => c.phase == p.state)).length = 16 := by
    rintro p hp
    rw [Ledger.acceptedBy, hcommands, jobCommands]
    rcases hp with rfl | rfl <;> rfl
  have hweight : AcceptsOnce weightPhase inp := by
    obtain ⟨⟨a, hw⟩, _⟩ := weightTrace hconf h.weight.1 h.weight.2.1
    have hend := hreads weightPhase (Or.inl rfl)
    rw [acceptedBy_of_left (by omega) fun k hmk hkn => h.ne_loadWeight hmk hkn,
      hw.acceptedBy_of_leaves weightPhase_lawful h.weight] at hend
    exact (hw.sixteen_iff weightPhase_lawful h.weight).mp (by simpa using hend)
  obtain ⟨earlier, a, hi⟩ := imageTrace hconf hweight h.image.1 h.image.2.1
  have hend := hreads imagePhase (Or.inr rfl)
  rw [acceptedBy_of_left (by omega) fun k hek hkn => h.ne_loadImage hek hkn,
    hi.acceptedBy_of_leaves imagePhase_lawful h.image] at hend
  exact ⟨hweight, (hi.sixteen_iff imagePhase_lawful h.image).mp (by simpa using hend)⟩

end Timeline

/-- When the first job over a memory leaves {lit}`STORE`, the bus has seen exactly its
forty-eight commands, the writes with the right data, and nothing is outstanding, if and
only if neither load phase accepted a read in both of its deciding cycles. -/
theorem job_commands_iff {mem : Word → Word} {inp : Nat → CoreInput}
    (hconf : Conforming inp) (hserves : ServesMemory mem inp) {n : Nat}
    (hfin : FinishesJob inp n) :
    ((busRun inp (n + 1)).ledger.accepted = jobCommands mem ∧
        (busRun inp (n + 1)).ledger.pending = []) ↔
      AcceptsOnce weightPhase inp ∧ AcceptsOnce imagePhase inp := by
  obtain ⟨m, e, t, rfl, h⟩ := exists_timeline hfin
  constructor
  · rintro ⟨hcommands, _⟩
    exact h.acceptsOnce hconf hcommands
  · rintro ⟨hweight, himage⟩
    exact h.commands hconf hserves.answersFrom hweight himage

/-- A memory that holds two in every weight word and three in every image word. -/
def blockMemory (addr : Word) : Word :=
  if addr < imageAddr then 2 else 3

/-- Ready in even cycles only; every command of the first job is answered from
{lit}`blockMemory` in the cycle after its acceptance. -/
def steadySlave (n : Nat) : CoreInput where
  enable := true
  cnnIcbCmdReady := n % 2 == 0
  cnnIcbRspValid := n % 2 == 1 &&
    (decide (3 ≤ n ∧ n ≤ 67) && n != 35 || decide (77 ≤ n ∧ n ≤ 107))
  cnnIcbRspRdata := if n < 36 then 2 else 3

/-- This slave conforms. -/
theorem steadySlave_conforming : Conforming steadySlave := by
  refine conforming_of_prefix (m := 108) (by decide +kernel) ?_
  intro n hn
  simp [steadySlave]
  omega

/-- It serves the memory. -/
theorem steadySlave_serves : ServesMemory blockMemory steadySlave := by
  intro n c hhead hread hvalid
  rcases Nat.lt_or_ge n 108 with hlt | hge
  · have hall : ∀ n < 108, ∀ c ∈ (busRun steadySlave n).ledger.pending.head?,
        c.read = true → (steadySlave n).cnnIcbRspValid = true →
          (steadySlave n).cnnIcbRspRdata = blockMemory c.addr := by
      decide +kernel
    exact hall n hlt c hhead hread hvalid
  · simp [steadySlave] at hvalid
    omega

/-- Over this memory the job ends with all its commands on the bus. -/
theorem job_commands_steadySlave :
    (busRun steadySlave 109).ledger.accepted = jobCommands blockMemory ∧
      (busRun steadySlave 109).ledger.pending = [] := by
  have honce : ∀ p, AcceptsOnce p steadySlave := by
    rintro p _ j ⟨_, hready, hready'⟩
    simp [steadySlave] at hready hready'
    omega
  have hfin : FinishesJob steadySlave 108 := by
    refine ⟨?_, ?_, ?_⟩ <;> decide +kernel
  exact (job_commands_iff steadySlave_conforming steadySlave_serves hfin).mpr
    ⟨honce _, honce _⟩

end CnnCore
end AcceleratorSoc
