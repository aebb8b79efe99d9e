import AcceleratorSoc.CnnCore.LoadPhase

/-!
# The load phases of the first job

From reset the controller runs through {lit}`LOAD_WEIGHT` and {lit}`LOAD_IMAGE`
once.  The send-done flag of a phase rises one cycle after the handshake counter
reaches fifteen, and a command is still presented in the cycle in which it rises.
Hence the phase accepts fifteen reads plus one for each of these two cycles in
which the slave is ready: fifteen, sixteen or seventeen in all.

Main results:

- Theorem {lit}`LoadTrace.accepts_sixteen_iff`: a finished phase has accepted
  sixteen reads exactly when the slave was not ready in both cycles.
- Theorem {lit}`loads_exact_iff`: the phases of the first job load their blocks
  word for word, with nothing outstanding, exactly under that condition.
-/

namespace AcceleratorSoc
namespace CnnCore

open Clocked

/-! ## The two deciding cycles -/

/-- First cycle of the phase with the handshake counter at fifteen: the send-done flag is
still down.  The last read is presented in this cycle and in the next. -/
def FirstLastBeat (p : LoadPhase) (inp : Nat → CoreInput) (j : Nat) : Prop :=
  (busRun inp j).core.currentState = p.state ∧
    (p.view (busRun inp j).core).sendCnt = 15 ∧
    (p.view (busRun inp j).core).sendDone = false

/-- The slave is ready in both of these cycles, so that the sixteenth read is followed by a
seventeenth. -/
def AcceptsTwice (p : LoadPhase) (inp : Nat → CoreInput) (j : Nat) : Prop :=
  FirstLastBeat p inp j ∧ (inp j).cnnIcbCmdReady = true ∧
    (inp (j + 1)).cnnIcbCmdReady = true

/-- The send-done flag is cleared by reset only. -/
theorem sendDone_sticky {p : LoadPhase} (hp : p.Lawful) {inp : Nat → CoreInput} {m n : Nat}
    (hmn : m ≤ n) (h : (p.view (busRun inp m).core).sendDone = true) :
    (p.view (busRun inp n).core).sendDone = true := by
  refine run_stable (P := fun b : BusState => (p.view b.core).sendDone = true) ?_ hmn h
  intro b i hb
  change (p.view (b.core.step i)).sendDone = true
  rw [hp.sendDone_step, hb, Bool.or_true]

/-- There is only one such cycle in a run. -/
theorem FirstLastBeat.unique {p : LoadPhase} (hp : p.Lawful) {inp : Nat → CoreInput}
    {j k : Nat} (hj : FirstLastBeat p inp j) (hk : FirstLastBeat p inp k) : j = k := by
  have hlater : ∀ {m}, FirstLastBeat p inp m →
      (p.view (busRun inp (m + 1)).core).sendDone = true := by
    intro m hm
    change (p.view ((busRun inp m).core.step (inp m))).sendDone = true
    rw [hp.sendDone_step, hm.2.1]
    rfl
  rcases Nat.lt_trichotomy j k with hlt | heq | hgt
  · exact absurd (sendDone_sticky hp hlt (hlater hj)) (by simp [hk.2.2])
  · exact heq
  · exact absurd (sendDone_sticky hp hgt (hlater hk)) (by simp [hj.2.2])

/-! ## A load phase along the run -/

/-- The ledger invariant at cycle {lit}`n`, with the cycles that decided how many
reads are accepted after the counter has reached fifteen. -/
structure LoadTrace (p : LoadPhase) (earlier : List (Command × Word))
    (inp : Nat → CoreInput) (n a : Nat) : Prop
    extends LoadInv p earlier a (busRun inp n) where
  job : (busRun inp n).job = 1
  earlier_phase : ∀ e ∈ earlier, e.1.phase ≠ p.state
  beat : (p.view (busRun inp n).core).sendDone = true →
    (p.view (busRun inp n).core).valid = true →
    ∃ j, n = j + 1 ∧ FirstLastBeat p inp j ∧ a = 15 + (inp j).cnnIcbCmdReady.toNat
  drained : (p.view (busRun inp n).core).sendDone = true →
    (p.view (busRun inp n).core).valid = false →
    ∃ j, FirstLastBeat p inp j ∧
      a = 15 + (inp j).cnnIcbCmdReady.toNat + (inp (j + 1)).cnnIcbCmdReady.toNat

namespace LoadTrace

variable {p : LoadPhase} {earlier : List (Command × Word)} {inp : Nat → CoreInput}
  {n a : Nat}

/-- A phase starts with untouched registers, no command presented and nothing
outstanding. -/
theorem start (hstate : (busRun inp n).core.currentState = p.state)
    (huntouched : Untouched p (busRun inp n).core)
    (hvalid : (p.view (busRun inp n).core).valid = false)
    (hpending : (busRun inp n).ledger.pending = []) (hjob : (busRun inp n).job = 1)
    (hphase : ∀ e ∈ (busRun inp n).ledger.answered, e.1.phase ≠ p.state) :
    LoadTrace p (busRun inp n).ledger.answered inp n 0 where
  state := hstate
  stage := LoadStage.opening huntouched.sendDone hvalid huntouched.sendCnt
    (by rw [huntouched.addrNext, wordAddr_zero])
  rcpt_le := by simp [huntouched.rcptCnt]
  lastBeat := by simp [huntouched.rcptCnt]
  accepted := by simp [Ledger.accepted_of_pending_nil hpending]
  answered := by simp [huntouched.rcptCnt]
  job := hjob
  earlier_phase := hphase
  beat := by simp [huntouched.sendDone]
  drained := by simp [huntouched.sendDone]

/-- Once every accepted read is answered and none is presented, nothing is outstanding
and the next cycle leaves the ledger alone. -/
theorem ledger_of_settled (h : LoadTrace p earlier inp n a) (hp : p.Lawful)
    (hvalid : (p.view (busRun inp n).core).valid = false)
    (hrcpt : (p.rcptCnt (busRun inp n).core).toNat = a)
    (hconf : (busRun inp n).SlaveConforms (inp n)) :
    (busRun inp n).ledger.pending = [] ∧
      (busRun inp (n + 1)).ledger = (busRun inp n).ledger := by
  rw [hp.view_valid] at hvalid
  have hpending : (busRun inp n).ledger.pending = [] := by
    have hlength := h.length_pending
    exact List.length_eq_zero_iff.mp (by omega)
  exact ⟨hpending, BusState.step_ledger_of_quiet hvalid hpending hconf⟩

/-- One more cycle of a phase that still waits for a response. -/
theorem step (h : LoadTrace p earlier inp n a) (hp : p.Lawful)
    (hrcpt : (p.rcptCnt (busRun inp n).core).toNat ≤ 15)
    (hconf : (busRun inp n).SlaveConforms (inp n)) :
    LoadTrace p earlier inp (n + 1)
      (a + ((p.view (busRun inp n).core).valid && (inp n).cnnIcbCmdReady).toNat) := by
  have hchannel := channelInv_busRun inp n
  have hload := hp.loads
  rw [← h.state] at hload
  have hsteps := hp.view_step (inp n) h.state fun hv => hchannel.load_read hload hv
  have hinv := h.toLoadInv.step hp hchannel hrcpt hconf
  have hjob : (busRun inp (n + 1)).job = 1 := (h.step_job hp).trans h.job
  refine
    { toLoadInv := hinv
      job := hjob
      earlier_phase := h.earlier_phase
      beat := ?_
      drained := ?_ }
  · intro hdone' hvalid'
    change (p.view ((busRun inp n).core.step (inp n))).sendDone = true at hdone'
    change (p.view ((busRun inp n).core.step (inp n))).valid = true at hvalid'
    have hdone : (p.view (busRun inp n).core).sendDone = false := by
      simpa [hsteps.valid] using hvalid'
    have hcnt : (p.view (busRun inp n).core).sendCnt = 15 := by
      simpa [hsteps.sendDone, hdone] using hdone'
    obtain ⟨ha, hvalid⟩ := h.stage.at_fifteen hdone hcnt
    exact ⟨n, rfl, ⟨h.state, hcnt, hdone⟩, by rw [ha, hvalid, Bool.true_and]⟩
  · intro _ hvalid'
    change (p.view ((busRun inp n).core.step (inp n))).valid = false at hvalid'
    have hdone : (p.view (busRun inp n).core).sendDone = true := by
      simpa [hsteps.valid] using hvalid'
    cases hvalid : (p.view (busRun inp n).core).valid
    · obtain ⟨j, hj, ha⟩ := h.drained hdone hvalid
      exact ⟨j, hj, by rw [Bool.false_and, Bool.toNat_false, Nat.add_zero, ha]⟩
    · obtain ⟨j, hn, hj, ha⟩ := h.beat hdone hvalid
      exact ⟨j, hj, by rw [Bool.true_and, ha, hn]⟩

/-- When all responses are in, the send side is drained. -/
theorem finished (h : LoadTrace p earlier inp n a)
    (hrcpt : (p.rcptCnt (busRun inp n).core).toNat = 16) :
    (p.view (busRun inp n).core).sendDone = true ∧
      (p.view (busRun inp n).core).valid = false ∧ 16 ≤ a := by
  have hlength := h.length_pending
  have hdone : (p.view (busRun inp n).core).sendDone = true := by
    rw [← Bool.not_eq_false]
    intro hdone
    have := (h.stage.of_not_sendDone hdone).1
    omega
  refine ⟨hdone, ?_, by omega⟩
  rw [Bool.eq_false_iff]
  intro hvalid
  have := h.lastBeat hdone hvalid
  omega

/-- A finished phase has accepted sixteen reads exactly when the slave was not
ready in both deciding cycles. -/
theorem accepts_sixteen_iff (h : LoadTrace p earlier inp n a) (hp : p.Lawful)
    (hrcpt : (p.rcptCnt (busRun inp n).core).toNat = 16) :
    a = 16 ↔ ∀ j, ¬AcceptsTwice p inp j := by
  obtain ⟨hdone, hvalid, hle⟩ := h.finished hrcpt
  obtain ⟨j, hj, ha⟩ := h.drained hdone hvalid
  constructor
  · rintro h16 k ⟨hk, hready, hready'⟩
    obtain rfl := hj.unique hp hk
    rw [h16, hready, hready'] at ha
    simp at ha
  · intro hno
    cases hready : (inp j).cnnIcbCmdReady <;> cases hready' : (inp (j + 1)).cnnIcbCmdReady <;>
      simp only [hready, hready', Bool.toNat_true, Bool.toNat_false] at ha
    · omega
    · exact ha
    · exact ha
    · exact absurd ⟨hj, hready, hready'⟩ (hno j)

end LoadTrace

/-- A receipt count that is not sixteen is at most fifteen. -/
private theorem rcpt_le_fifteen {cnt : BitVec 5} (hle : cnt.toNat ≤ 16) (hne : cnt ≠ 16#5) :
    cnt.toNat ≤ 15 := by
  have : cnt.toNat ≠ 16 := by
    intro heq
    exact hne (BitVec.eq_of_toNat_eq heq)
  omega

/-! ## The first job from reset -/

/-- A phase is untouched until it is entered. -/
private theorem untouched_busRun {p : LoadPhase} (hp : p.Lawful) {inp : Nat → CoreInput}
    {n : Nat} (hs : (busRun inp n).core.currentState ≠ p.state)
    (h : Untouched p (busRun inp n).core) : Untouched p (busRun inp (n + 1)).core :=
  hp.untouched_step (inp n) hs h

/-- Before the first job nothing has happened. -/
structure Waiting (b : BusState) : Prop where
  state : b.core.currentState = .idle
  weight : Untouched weightPhase b.core
  image : Untouched imagePhase b.core
  ledger : b.ledger = Ledger.empty

/-- Before the first job the core waits. -/
theorem waiting_of_job_zero {inp : Nat → CoreInput} (hconf : Conforming inp) {n : Nat}
    (hjob : (busRun inp n).job = 0) : Waiting (busRun inp n) := by
  induction n with
  | zero => exact ⟨rfl, ⟨rfl, rfl, rfl, rfl⟩, ⟨rfl, rfl, rfl, rfl⟩, rfl⟩
  | succ n ih =>
      have hstep : (busRun inp n).job = 0 ∧
          ¬((busRun inp n).core.currentState = .idle ∧ (inp n).enable = true) := by
        rw [busRun_succ] at hjob
        simp only [BusState.step] at hjob
        split_ifs at hjob with hstart
        exact ⟨hjob, by simpa using hstart⟩
      have h := ih hstep.1
      have henable : (inp n).enable = false := by
        simpa [h.state] using hstep.2
      have hvalid := (channelInv_busRun inp n).idle_valid h.state
      refine ⟨?_, ?_, ?_, ?_⟩
      · exact CoreState.nextState_eq_idle.mpr ⟨Or.inl h.state, henable⟩
      · exact untouched_busRun weightPhase_lawful (by simp [weightPhase, h.state]) h.weight
      · exact untouched_busRun imagePhase_lawful (by simp [imagePhase, h.state]) h.image
      · rw [busRun_succ, BusState.step_ledger_of_quiet hvalid (by simp [h.ledger]) (hconf n),
          h.ledger]

/-- The weight phase of the first job follows its trace; the image phase has not
begun. -/
theorem weightTrace {inp : Nat → CoreInput} (hconf : Conforming inp) {n : Nat}
    (hjob : (busRun inp n).job = 1)
    (hstate : (busRun inp n).core.currentState = .loadWeight) :
    (∃ a, LoadTrace weightPhase [] inp n a) ∧ Untouched imagePhase (busRun inp n).core := by
  induction n with
  | zero => exact absurd hjob Nat.zero_ne_one
  | succ n ih =>
      have hnext : (busRun inp n).core.nextState (inp n) = .loadWeight := hstate
      rcases CoreState.nextState_eq_loadWeight.mp hnext with ⟨hidle, henable⟩ | ⟨hs, hrcpt⟩
      · have hjob0 : (busRun inp n).job = 0 := by
          simpa [busRun_succ, BusState.step, hidle, henable] using hjob
        have h := waiting_of_job_zero hconf hjob0
        have hvalid := (channelInv_busRun inp n).idle_valid hidle
        have hledger := BusState.step_ledger_of_quiet hvalid (by simp [h.ledger]) (hconf n)
        rw [← busRun_succ, h.ledger] at hledger
        have himage := untouched_busRun imagePhase_lawful (by simp [imagePhase, hidle]) h.image
        have hweight := untouched_busRun weightPhase_lawful (by simp [weightPhase, hidle])
          h.weight
        have hvalid' : (weightPhase.view (busRun inp (n + 1)).core).valid = false := by
          simp [busRun_succ, weightPhase, CoreState.step, CoreState.cnnIcbCmdValidD,
            CoreState.weightAddrSendStart, CoreState.imageAddrSendStart,
            CoreState.storeDataSendStart, hidle]
        have hstart := LoadTrace.start (p := weightPhase) hstate hweight hvalid'
          (by simp [hledger]) hjob (by simp [hledger])
        rw [hledger] at hstart
        exact ⟨⟨0, hstart⟩, himage⟩
      · have hjob' : (busRun inp n).job = 1 :=
          (BusState.step_job_of_ne_idle (by simp [hs]) (inp n)).symm.trans hjob
        obtain ⟨⟨a, h⟩, himage⟩ := ih hjob' hs
        have hne : (busRun inp n).core.weightDataRcptCnt ≠ 16#5 := by
          simpa [CoreState.weightDataRcptDone] using hrcpt
        have hle : (weightPhase.rcptCnt (busRun inp n).core).toNat ≤ 15 :=
          rcpt_le_fifteen h.rcpt_le hne
        exact ⟨⟨_, h.step weightPhase_lawful hle (hconf n)⟩,
          untouched_busRun imagePhase_lawful (by simp [imagePhase, hs]) himage⟩

/-- The controller leaves a load phase of the first job with this clock edge. -/
def Leaves (p : LoadPhase) (inp : Nat → CoreInput) (n : Nat) : Prop :=
  (busRun inp n).job = 1 ∧ (busRun inp n).core.currentState = p.state ∧
    (busRun inp (n + 1)).core.currentState ≠ p.state

/-- If the controller leaves the phase at all, the slave is not ready in both of the two
cycles with the handshake counter at fifteen. -/
def AcceptsOnce (p : LoadPhase) (inp : Nat → CoreInput) : Prop :=
  (∃ n, Leaves p inp n) → ∀ j, ¬AcceptsTwice p inp j

/-- A phase that is left has received sixteen words. -/
theorem LoadTrace.rcpt_of_leaves {p : LoadPhase} {earlier : List (Command × Word)}
    {inp : Nat → CoreInput} {n a : Nat} (h : LoadTrace p earlier inp n a) (hp : p.Lawful)
    (hleaves : Leaves p inp n) : (p.rcptCnt (busRun inp n).core).toNat = 16 := by
  by_contra hne
  have hle : (p.rcptCnt (busRun inp n).core).toNat ≤ 15 := by
    have := h.rcpt_le
    omega
  exact hleaves.2.2 (hp.stays (inp n) h.state hle)

/-- The image phase of the first job follows its trace, unless the weight phase
accepted a seventeenth read. -/
theorem imageTrace {inp : Nat → CoreInput} (hconf : Conforming inp)
    (honce : AcceptsOnce weightPhase inp) {n : Nat} (hjob : (busRun inp n).job = 1)
    (hstate : (busRun inp n).core.currentState = .loadImage) :
    ∃ earlier a, LoadTrace imagePhase earlier inp n a := by
  induction n with
  | zero => exact absurd hjob Nat.zero_ne_one
  | succ n ih =>
      have hnext : (busRun inp n).core.nextState (inp n) = .loadImage := hstate
      rcases CoreState.nextState_eq_loadImage.mp hnext with ⟨hs, hrcpt⟩ | ⟨hs, hrcpt⟩
      · have hjob' : (busRun inp n).job = 1 :=
          (BusState.step_job_of_ne_idle (by simp [hs]) (inp n)).symm.trans hjob
        obtain ⟨⟨a, h⟩, himage⟩ := weightTrace hconf hjob' hs
        have hleaves : Leaves weightPhase inp n := by
          refine ⟨hjob', hs, ?_⟩
          rw [hstate]
          simp [weightPhase]
        have h16 := h.rcpt_of_leaves weightPhase_lawful hleaves
        obtain ⟨hdone, hvalid, _⟩ := h.finished h16
        have ha := (h.accepts_sixteen_iff weightPhase_lawful h16).mpr (honce ⟨n, hleaves⟩)
        rcases h.ledger_of_settled weightPhase_lawful hvalid (h16.trans ha.symm) (hconf n) with
          ⟨hpending, hledger⟩
        have hvalid' : (imagePhase.view (busRun inp (n + 1)).core).valid = false := by
          have hdone' : (busRun inp n).core.weightAddrSendDone = true := hdone
          simp [busRun_succ, imagePhase, CoreState.step, CoreState.cnnIcbCmdValidD,
            CoreState.weightAddrSendStart, CoreState.imageAddrSendStart,
            CoreState.storeDataSendStart, hs, hdone']
        have hphase : ∀ e ∈ (busRun inp (n + 1)).ledger.answered,
            e.1.phase ≠ imagePhase.state := by
          rw [hledger, h.answered]
          simp [LoadPhase.answer, LoadPhase.command, weightPhase, imagePhase]
        exact ⟨_, 0, LoadTrace.start hstate (untouched_busRun imagePhase_lawful
          (by simp [imagePhase, hs]) himage) hvalid' (by rw [hledger, hpending]) hjob hphase⟩
      · have hjob' : (busRun inp n).job = 1 :=
          (BusState.step_job_of_ne_idle (by simp [hs]) (inp n)).symm.trans hjob
        obtain ⟨earlier, a, h⟩ := ih hjob' hs
        have hne : (busRun inp n).core.imageDataRcptCnt ≠ 16#5 := by
          simpa [CoreState.imageDataRcptDone] using hrcpt
        have hle : (imagePhase.rcptCnt (busRun inp n).core).toNat ≤ 15 :=
          rcpt_le_fifteen h.rcpt_le hne
        exact ⟨earlier, _, h.step imagePhase_lawful hle (hconf n)⟩

/-! ## What a finished phase has loaded -/

/-- Sixteen reads were accepted in the phase, at the addresses of its block in
order; none is outstanding; and every buffer register holds the answer to its
read. -/
structure PhaseLoaded (p : LoadPhase) (b : BusState) : Prop where
  accepted : b.ledger.acceptedBy (fun c => c.phase == p.state) =
    (List.range 16).map (p.command b.job)
  pending : b.ledger.pending = []
  answered : b.ledger.answeredBy (fun c => c.phase == p.state) =
    (List.range 16).map (p.answer b)

/-- Every load phase of the first job that the controller leaves is loaded. -/
def LoadedOnLeaving (p : LoadPhase) (inp : Nat → CoreInput) : Prop :=
  ∀ n, Leaves p inp n → PhaseLoaded p (busRun inp (n + 1))

/-- A phase that is left is loaded exactly when it has accepted sixteen reads. -/
theorem LoadTrace.phaseLoaded_iff {p : LoadPhase} {earlier : List (Command × Word)}
    {inp : Nat → CoreInput} {n a : Nat} (h : LoadTrace p earlier inp n a) (hp : p.Lawful)
    (hconf : Conforming inp) (hleaves : Leaves p inp n) :
    PhaseLoaded p (busRun inp (n + 1)) ↔ a = 16 := by
  have h16 := h.rcpt_of_leaves hp hleaves
  obtain ⟨hdone, hidle, hle⟩ := h.finished h16
  have hvalid := hidle
  rw [hp.view_valid] at hvalid
  have hnone : (earlier.map Prod.fst).filter (fun c => c.phase == p.state) = [] := by
    simpa using fun c w hmem => h.earlier_phase (c, w) hmem
  have hall : ∀ k, ((List.range k).map (p.command (busRun inp n).job)).filter
      (fun c => c.phase == p.state) = (List.range k).map (p.command (busRun inp n).job) := by
    intro k
    simp [LoadPhase.command]
  have hjob : (busRun inp (n + 1)).job = (busRun inp n).job := h.step_job hp
  constructor
  · intro hloaded
    have haccepted := hloaded.accepted
    rw [busRun_succ, BusState.step_ledger, BusState.acceptedCommand_eq_none hvalid,
      Ledger.acceptedBy_cycle, Ledger.acceptedBy, h.accepted, List.filter_append, hnone,
      hall] at haccepted
    simpa using congrArg List.length haccepted
  · rintro rfl
    rcases h.ledger_of_settled hp hidle h16 (hconf n) with ⟨hpending, hledger⟩
    have hanswer : ∀ k < 16, p.answer (busRun inp (n + 1)) k = p.answer (busRun inp n) k := by
      intro k hk
      unfold LoadPhase.answer
      rw [hjob, busRun_succ, BusState.step_core, h.bufferWord_step hp hk,
        if_neg (by omega)]
    refine ⟨?_, by rw [hledger, hpending], ?_⟩
    · rw [hledger, Ledger.acceptedBy, h.accepted, List.filter_append, hnone, hall, hjob]
      rfl
    · rw [hledger, Ledger.answeredBy, h.answered, h16, List.filter_append,
        List.filter_eq_nil_iff.mpr (by simpa using fun c w hmem => h.earlier_phase (c, w) hmem),
        List.filter_eq_self.mpr (by simp [LoadPhase.answer, LoadPhase.command]),
        List.nil_append]
      apply List.map_congr_left
      intro k hk
      exact (hanswer k (List.mem_range.mp hk)).symm

/-- The load phases of the first job do their work exactly when no phase that is
left has accepted a read in both of its two deciding cycles. -/
theorem loads_exact_iff {inp : Nat → CoreInput} (hconf : Conforming inp) :
    (LoadedOnLeaving weightPhase inp ∧ LoadedOnLeaving imagePhase inp) ↔
      (AcceptsOnce weightPhase inp ∧ AcceptsOnce imagePhase inp) := by
  have hweight : LoadedOnLeaving weightPhase inp ↔ AcceptsOnce weightPhase inp := by
    have hiff : ∀ n, Leaves weightPhase inp n →
        (PhaseLoaded weightPhase (busRun inp (n + 1)) ↔
          ∀ j, ¬AcceptsTwice weightPhase inp j) := by
      intro n hleaves
      obtain ⟨⟨a, h⟩, _⟩ := weightTrace hconf hleaves.1 hleaves.2.1
      rw [h.phaseLoaded_iff weightPhase_lawful hconf hleaves,
        h.accepts_sixteen_iff weightPhase_lawful
          (h.rcpt_of_leaves weightPhase_lawful hleaves)]
    constructor
    · rintro hloaded ⟨n, hleaves⟩
      exact (hiff n hleaves).mp (hloaded n hleaves)
    · intro honce n hleaves
      exact (hiff n hleaves).mpr (honce ⟨n, hleaves⟩)
  have himage : AcceptsOnce weightPhase inp →
      (LoadedOnLeaving imagePhase inp ↔ AcceptsOnce imagePhase inp) := by
    intro honce
    have hiff : ∀ n, Leaves imagePhase inp n →
        (PhaseLoaded imagePhase (busRun inp (n + 1)) ↔
          ∀ j, ¬AcceptsTwice imagePhase inp j) := by
      intro n hleaves
      obtain ⟨earlier, a, h⟩ := imageTrace hconf honce hleaves.1 hleaves.2.1
      rw [h.phaseLoaded_iff imagePhase_lawful hconf hleaves,
        h.accepts_sixteen_iff imagePhase_lawful
          (h.rcpt_of_leaves imagePhase_lawful hleaves)]
    constructor
    · rintro hloaded ⟨n, hleaves⟩
      exact (hiff n hleaves).mp (hloaded n hleaves)
    · intro honce' n hleaves
      exact (hiff n hleaves).mpr (honce' ⟨n, hleaves⟩)
  rw [hweight]
  exact and_congr_right himage

/-- Ready in even cycles only; every read of the first job is answered in the
cycle after its acceptance. -/
def alternatingSlave (n : Nat) : CoreInput where
  enable := true
  cnnIcbCmdReady := n % 2 == 0
  cnnIcbRspValid := n % 2 == 1 && decide (3 ≤ n) && decide (n ≤ 67) && n != 35
  cnnIcbRspRdata := BitVec.ofNat 32 n

/-- It conforms. -/
private theorem alternatingSlave_conforming : Conforming alternatingSlave := by
  refine conforming_of_prefix (m := 68) (by decide +kernel) ?_
  intro n hn
  have hlt : ¬n ≤ 67 := by omega
  simp [alternatingSlave, hlt]

/-- A slave that is never ready twice in a row gets both blocks loaded. -/
theorem loads_exact_alternatingSlave :
    (Leaves weightPhase alternatingSlave 34 ∧ Leaves imagePhase alternatingSlave 68) ∧
      LoadedOnLeaving weightPhase alternatingSlave ∧
      LoadedOnLeaving imagePhase alternatingSlave := by
  have honce : ∀ p, AcceptsOnce p alternatingSlave := by
    rintro p _ j ⟨_, hready, hready'⟩
    simp [alternatingSlave] at hready hready'
    omega
  refine ⟨⟨⟨?_, ?_, ?_⟩, ⟨?_, ?_, ?_⟩⟩,
    (loads_exact_iff alternatingSlave_conforming).mpr ⟨honce _, honce _⟩⟩
  all_goals decide +kernel

/-- A slave that is always ready and answers in the next cycle is made to answer
a seventeenth weight read. -/
theorem greedySlave_overrequested :
    ¬∀ inp : Nat → CoreInput, Conforming inp →
      LoadedOnLeaving weightPhase inp ∧ LoadedOnLeaving imagePhase inp := by
  intro h
  have hleaves : Leaves weightPhase greedySlave 19 := by
    refine ⟨?_, ?_, ?_⟩ <;> decide +kernel
  have haccepted := ((h greedySlave greedySlave_conforming).1 19 hleaves).accepted
  have hlength := congrArg List.length haccepted
  revert hlength
  decide +kernel

end CnnCore
end AcceleratorSoc
