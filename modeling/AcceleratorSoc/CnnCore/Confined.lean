import AcceleratorSoc.CnnCore.Completion

/-!
# Where the core reads and writes

The address registers of the load phases are cleared in {lit}`IDLE` only, and their
handshake counters never are, so a slave that answers too often or too early leaves them
in states that no good run reaches.  Even then the core keeps to the first seventeen words
of its two blocks and to the sixteen addresses of its results.

Main results:

- Theorem {lit}`SendView.Bounded.step`: the next address is at most one word ahead of the
  handshake counter.
- Theorem {lit}`CommandInv.step`: one clock edge.
- Theorem {lit}`commands_confined`: every command that is presented in any run, and
  {lit}`accepted_confined`, every one that is accepted.
-/

namespace AcceleratorSoc
namespace CnnCore

open Clocked

/-- What the core may put on the bus: reads in the two blocks, writes of results. -/
inductive Confined : Bool → Word → Prop
  | weight {k : Nat} (hk : k < 17) : Confined true (wordAddr weightAddr k)
  | image {k : Nat} (hk : k < 17) : Confined true (wordAddr imageAddr k)
  | result {k : Nat} (hk : k < 16) : Confined false (storeAddr k)

/-! ## The send side of a load phase -/

/-- Before the done flag rises, the next address is ahead of the accepted reads by the one
that is presented. -/
def SendView.Bounded (base : Word) (v : SendView) : Prop :=
  v.sendDone = false →
    ∃ j ≤ v.sendCnt.toNat + v.valid.toNat, v.addrNext = wordAddr base j

namespace SendView.Bounded

variable {base : Word} {v v' : SendView} {ready : Bool}

/-- The phase starts at its base, whatever the counter kept. -/
theorem of_base (h : v.addrNext = base) : Bounded base v :=
  fun _ => ⟨0, Nat.zero_le _, h.trans (wordAddr_zero base).symm⟩

/-- The next address stays within the first seventeen words. -/
theorem exists_lt (h : Bounded base v) (hdone : v.sendDone = false) :
    ∃ j < 17, v.addrNext = wordAddr base j := by
  rcases h hdone with ⟨j, hj, haddr⟩
  have hcnt := v.sendCnt.isLt
  have hvalid := Bool.toNat_le v.valid
  exact ⟨j, by omega, haddr⟩

/-- One clock edge of the phase. -/
theorem step (h : Bounded base v) (hstep : v.Steps ready v') : Bounded base v' := by
  intro hdone'
  rw [hstep.sendDone, Bool.or_eq_false_iff] at hdone'
  rcases hdone' with ⟨hcnt, hdone⟩
  have hne : v.sendCnt ≠ 15 := by simpa using hcnt
  have hnext : (v.sendCnt + 1).toNat = v.sendCnt.toNat + 1 := by
    have hlt := v.sendCnt.isLt
    have hval : v.sendCnt.toNat ≠ 15 := fun heq => hne (BitVec.eq_of_toNat_eq heq)
    rw [BitVec.toNat_add]
    exact Nat.mod_eq_of_lt (by simp; omega)
  rcases h hdone with ⟨j, hj, haddr⟩
  rw [hstep.valid, hdone, hstep.sendCnt hne, hstep.addrNext hdone, haddr, ← wordAddr_succ]
  cases hvalid : v.valid <;> cases ready <;> rw [hvalid] at hj
  · exact ⟨j + 1, by simpa using hj, rfl⟩
  · exact ⟨j + 1, by simpa using hj, rfl⟩
  · exact ⟨j, by simpa using hj, rfl⟩
  · refine ⟨j + 1, ?_, rfl⟩
    simp only [Bool.toNat_true] at hj
    simp only [Bool.and_self, if_true, hnext, Bool.not_false, Bool.toNat_true]
    omega

end SendView.Bounded

/-! ## All phases -/

/-- What the address registers can hold in each controller state, and the command that is
presented. -/
structure CommandInv (s : CoreState) : Prop where
  channel : ChannelInv s
  weight : s.currentState = .loadWeight → SendView.Bounded weightAddr (weightPhase.view s)
  image : s.currentState = .loadImage → SendView.Bounded imageAddr (imagePhase.view s)
  store : s.currentState = .store → ∃ a, StoreStage a s
  confined : s.cnnIcbCmdValid = true → Confined s.cnnIcbCmdRead s.cnnIcbCmdAddr

/-- Out of reset no command is presented. -/
theorem commandInv_reset : CommandInv CoreState.reset where
  channel := channelInv_reset
  weight h := by simp [CoreState.reset] at h
  image h := by simp [CoreState.reset] at h
  store h := by simp [CoreState.reset] at h
  confined h := by simp [CoreState.reset] at h

namespace CommandInv

variable {s : CoreState}

/-- A read that a load phase presents next is the one presented before or the next one. -/
theorem read_confined (h : CommandInv s) (i : CoreInput) {p : LoadPhase} (hp : p.Lawful)
    (hs : s.currentState = p.state) (hdone : (p.view s).sendDone = false)
    (hbound : SendView.Bounded p.base (p.view s))
    (hblock : ∀ k < 17, Confined true (wordAddr p.base k)) :
    Confined true (s.step i).cnnIcbCmdAddr := by
  have hread : s.cnnIcbCmdValid = true → s.cnnIcbCmdRead = true := by
    apply h.channel.load_read
    rcases hp.loads with hload | hload
    · exact Or.inl (hs.trans hload)
    · exact Or.inr (hs.trans hload)
  have haddr := (hp.view_step i hs hread).cmdAddr hdone
  rw [hp.view_cmdAddr, hp.view_cmdAddr, hp.view_valid] at haddr
  rw [haddr]
  cases hvalid : s.cnnIcbCmdValid with
  | false =>
      rcases hbound.exists_lt hdone with ⟨j, hj, hnext⟩
      rw [hnext]
      exact hblock j hj
  | true =>
      cases i.cnnIcbCmdReady
      · -- the command is kept
        have hkept := h.confined hvalid
        rw [hread hvalid] at hkept
        exact hkept
      · rcases hbound.exists_lt hdone with ⟨j, hj, hnext⟩
        rw [hnext]
        exact hblock j hj

/-- One clock edge. -/
theorem step (h : CommandInv s) (i : CoreInput) : CommandInv (s.step i) where
  channel := channelInv_step h.channel i
  weight := by
    intro hnext
    rcases CoreState.nextState_eq_loadWeight.mp hnext with ⟨hs, -⟩ | ⟨hs, -⟩
    · apply SendView.Bounded.of_base
      simp [weightPhase, CoreState.step, CoreState.weightAddrNextD, hs]
    · exact (h.weight hs).step
        (weightPhase_lawful.view_step i hs (h.channel.load_read (Or.inl hs)))
  image := by
    intro hnext
    rcases CoreState.nextState_eq_loadImage.mp hnext with ⟨hs, -⟩ | ⟨hs, -⟩
    · apply SendView.Bounded.of_base
      simp [imagePhase, CoreState.step, CoreState.imageAddrNextD, hs]
    · exact (h.image hs).step
        (imagePhase_lawful.view_step i hs (h.channel.load_read (Or.inr hs)))
  store := by
    intro hnext
    rcases CoreState.nextState_eq_store.mp hnext with ⟨hs, -⟩ | ⟨hs, -⟩
    · exact ⟨0, storeStage_of_compute hs i⟩
    · rcases h.store hs with ⟨a, ha⟩
      exact ⟨_, ha.step (i := i) hs (h.channel.store_read hs)⟩
  confined := by
    intro hvalid
    have hread : (s.step i).cnnIcbCmdRead = (s.weightAddrSendStart || s.imageAddrSendStart) :=
      rfl
    rw [hread]
    rcases CoreState.step_valid_iff.mp hvalid with hstart | hstart | hstart
    · rcases CoreState.weightAddrSendStart_iff.mp hstart with ⟨hs, hdone⟩
      rw [hstart, Bool.true_or]
      exact h.read_confined i weightPhase_lawful hs hdone (h.weight hs)
        fun _ hk => Confined.weight hk
    · rcases CoreState.imageAddrSendStart_iff.mp hstart with ⟨hs, hdone⟩
      rw [hstart, Bool.or_true]
      exact h.read_confined i imagePhase_lawful hs hdone (h.image hs)
        fun _ hk => Confined.image hk
    · rcases CoreState.storeDataSendStart_iff.mp hstart with ⟨hs, -⟩
      rcases h.store hs with ⟨a, ha⟩
      have hwrites : (s.weightAddrSendStart || s.imageAddrSendStart) = false := by
        simp [CoreState.weightAddrSendStart, CoreState.imageAddrSendStart, hs]
      rcases (ha.step (i := i) hs (h.channel.store_read hs)).cmdAddr_of_valid hvalid with
        ⟨haddr, hle⟩
      rw [hwrites, haddr]
      exact Confined.result (Nat.lt_succ_of_le hle)

end CommandInv

/-- The invariant holds along every run. -/
theorem commandInv_run (inp : Nat → CoreInput) (n : Nat) : CommandInv (coreRun inp n) :=
  run_invariant_all commandInv_reset (fun _ i h => h.step i) inp n

/-- So are the commands that have been accepted. -/
theorem accepted_confined (inp : Nat → CoreInput) (n : Nat) :
    ∀ c ∈ (busRun inp n).ledger.accepted, Confined c.read c.addr := by
  induction n with
  | zero => exact fun c hc => absurd hc List.not_mem_nil
  | succ n ih =>
      intro c hc
      rw [busRun_succ, BusState.step_ledger, Ledger.accepted_cycle] at hc
      rcases List.mem_append.mp hc with hold | hnew
      · exact ih c hold
      · rw [Option.mem_toList, BusState.acceptedCommand] at hnew
        split_ifs at hnew with hhsk
        rw [CoreState.cnnIcbCmdHsk, Bool.and_eq_true, busRun_core] at hhsk
        rw [← Option.some.inj hnew, busRun_core]
        exact (commandInv_run inp n).confined hhsk.1

/-- In every run, whatever the slave does, every command that the core presents is a read
in one of its blocks or a write of a result. -/
theorem commands_confined (inp : Nat → CoreInput) (n : Nat)
    (hvalid : (coreRun inp n).cnnIcbCmdValid = true) :
    Confined (coreRun inp n).cnnIcbCmdRead (coreRun inp n).cnnIcbCmdAddr :=
  (commandInv_run inp n).confined hvalid

/-- A slave that takes nothing and answers all the time. -/
def eagerSlave (_ : Nat) : CoreInput where
  enable := true
  cnnIcbCmdReady := false
  cnnIcbRspValid := true
  cnnIcbRspRdata := 0

/-- What is presented to it in cycle twenty is one of these commands. -/
theorem commands_confined_eagerSlave :
    Confined (coreRun eagerSlave 20).cnnIcbCmdRead (coreRun eagerSlave 20).cnnIcbCmdAddr :=
  commands_confined eagerSlave 20 (by decide +kernel)

end CnnCore
end AcceleratorSoc
