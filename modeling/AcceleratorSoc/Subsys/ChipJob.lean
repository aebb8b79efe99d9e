import AcceleratorSoc.CnnCore.LastBeat
import AcceleratorSoc.Subsys.OnChip

/-!
# The first job on the chip

A slave that is ready in both deciding cycles of a load phase makes the core read a word
too much, and the job goes wrong.  Behind the shared bus this does not happen, whatever
the CPU does meanwhile: the core has presented commands in the two cycles before, and the
bus does not take three of them in a row.

Main results:

- Theorem {lit}`exists_linked`: the link holds in every cycle of a run, with the blocks as
  they are from the start on.
- Theorem {lit}`not_acceptsTwice`: on the chip no load phase of the first job reads too
  much.
- Theorem {lit}`ledger_of_finishes`, {lit}`acceptedAt_of_finishes`: what a first job that
  ends has put on the bus.
-/

namespace AcceleratorSoc
namespace Subsys

open Clocked CnnCore

/-! ## Addresses of the blocks -/

/-- The words of the weight block lie in region {lit}`O5`. -/
theorem target_weight {k : Nat} (hk : k < 1024) :
    target (wordAddr weightAddr k) = portO5 := by
  have haddr : (wordAddr weightAddr k).toNat = 0x2000 + 4 * k := by
    simp [wordAddr, weightAddr]
    omega
  unfold target icbCmdO0 icbCmdO1 icbCmdO3 icbCmdO4 icbCmdO5
  simp only [icbCmdO_true (by decide : 12 ≤ 32), icbCmdO_true (by decide : 29 ≤ 32),
    icbCmdO_true (by decide : 31 ≤ 32), decide_eq_true_eq, haddr]
  simp [portO5]
  split_ifs <;> omega

/-- The words of the image block lie in region {lit}`O6`. -/
theorem target_image {k : Nat} (hk : k < 1024) :
    target (wordAddr imageAddr k) = portO6 := by
  have haddr : (wordAddr imageAddr k).toNat = 0x40000000 + 4 * k := by
    simp [wordAddr, imageAddr]
    omega
  unfold target icbCmdO0 icbCmdO1 icbCmdO3 icbCmdO4 icbCmdO5 icbCmdO6
  simp only [icbCmdO_true (by decide : 12 ≤ 32), icbCmdO_true (by decide : 29 ≤ 32),
    icbCmdO_true (by decide : 31 ≤ 32), decide_eq_true_eq, haddr]
  simp [portO6]
  split_ifs <;> omega

/-- The job reads no word of the default slave. -/
theorem jobRead_mapped {a : Word} (h : JobRead a) : target a ≠ deft := by
  rcases h with ⟨k, hk, rfl | rfl⟩
  · rw [target_weight (by omega)]
    decide
  · rw [target_image (by omega)]
    decide

/-- The slaves of the blocks, and from the start on those that the CPU asks, answer later
than they take: there is a register in between.  The debug module, the mask ROM and the
default slave have none, so the CPU stays away from them. -/
structure Registered (u : PowerUp) (inp : Nat → OnChipInput) : Prop where
  weight : ∀ n, AnswersLater (chipRun u inp n).bus (busInputs u inp n) portO5
  image : ∀ n, AnswersLater (chipRun u inp n).bus (busInputs u inp n) portO6
  cpu : ∀ m, (inp m).mem.cmdValid = true → ∀ n, Started inp n →
    AnswersLater (chipRun u inp n).bus (busInputs u inp n) (target (inp m).mem.cmd.addr)

variable {mem : Word → Word} {u : PowerUp} {inp : Nat → OnChipInput} {p : LoadPhase}

/-- One cycle of a run. -/
theorem linked_succ (h : Answering u inp (InJob inp) mem) {n : Nat} {x : Traffic}
    (hx : Linked (InJob inp n) mem (chipRun u inp n) x) :
    Linked (InJob inp n) mem (chipRun u inp (n + 1))
      ((chipRun u inp n).bus.moved (busInputs u inp n) x) :=
  hx.step (h n) fun _ hblock => jobRead_mapped hblock.2

/-- The link holds in every cycle, with the blocks as they are from the start on. -/
theorem exists_linked (h : Answering u inp (InJob inp) mem) (n : Nat) :
    ∃ x, Linked (InJob inp n) mem (chipRun u inp n) x := by
  induction n with
  | zero => exact ⟨_, Linked.reset u⟩
  | succ n ih =>
      rcases ih with ⟨x, hx⟩
      have hnext := linked_succ h hx
      by_cases hstarted : Started inp n
      · exact ⟨_, hnext.mono fun _ hblock => ⟨hstarted, hblock.2⟩⟩
      · exact ⟨_, hnext.of_empty (h.ledger_empty hstarted)⟩

/-- What the bus has taken from the CPU is what the CPU has asked. -/
theorem exists_asked (u : PowerUp) (inp : Nat → OnChipInput) (n : Nat) :
    ∀ e ∈ (chipRun u inp n).bus.log.accepted, e.1 = .mem →
      ∃ m, (inp m).mem.cmdValid = true ∧ (inp m).mem.cmd = e.2 := by
  induction n with
  | zero => exact fun e he => absurd he (by simp [chipRun, OnChip.reset, Monitored.reset,
      BusLog.empty])
  | succ n ih =>
      intro e he hport
      rcases List.mem_append.mp he with hold | hnew
      · exact ih e hold hport
      · rcases List.mem_append.mp hnew with hmem | hcnn
        · unfold BusLog.acceptedOn at hmem
          split_ifs at hmem with hhsk
          · rw [Bool.and_eq_true] at hhsk
            exact ⟨n, hhsk.1, (congrArg Prod.snd (List.mem_singleton.mp hmem)).symm⟩
          · exact absurd hmem List.not_mem_nil
        · unfold BusLog.acceptedOn at hcnn
          split_ifs at hcnn
          · rw [List.mem_singleton.mp hcnn] at hport
            exact absurd hport (by simp)
          · exact absurd hcnn List.not_mem_nil

/-- The start is not taken back. -/
theorem Started.mono {inp : Nat → OnChipInput} {m n : Nat} (h : Started inp m)
    (hmn : m ≤ n) : Started inp n := by
  rcases h with ⟨k, hk, henable⟩
  exact ⟨k, hk.trans hmn, henable⟩

/-- A core that presents a command has been started. -/
theorem started_of_valid (h : Answering u inp (InJob inp) mem) {n : Nat}
    (hvalid : (chipRun u inp n).core.core.cnnIcbCmdValid = true) : Started inp n := by
  by_contra hnot
  rw [chipRun_core] at hvalid
  have hjob := job_zero_of_disabled (coreInputs u inp) (n := n) fun k hk => by
    rw [Bool.eq_false_iff]
    exact fun henable => hnot ⟨k, hk.le, henable⟩
  have hidle := (waiting_of_job_zero h.conforming hjob).state
  rw [(channelInv_busRun _ n).idle_valid hidle] at hvalid
  exact Bool.false_ne_true hvalid

/-- The block of a load phase. -/
def blockSlave (p : LoadPhase) : Prop :=
  ∀ k : Nat, k < 17 →
    target (wordAddr p.base k) = portO5 ∨ target (wordAddr p.base k) = portO6

/-- The weight block has a slave that answers later. -/
theorem blockSlave_weight : blockSlave weightPhase :=
  fun _ hk => Or.inl (target_weight (by omega))

/-- So has the image block. -/
theorem blockSlave_image : blockSlave imagePhase :=
  fun _ hk => Or.inr (target_image (by omega))

/-- In a load phase of the first job every waiting command is for a slave that answers
later. -/
theorem waiting_later (hlater : Registered u inp) (hblock : blockSlave p) {n a : Nat}
    (hstarted : Started inp n) {earlier : List (Command × Word)} (htrace : LoadTrace p earlier (coreInputs u inp) n a)
    {x : Traffic} {block : Word → Prop} (h : Linked block mem (chipRun u inp n) x) :
    ∀ e ∈ x.waiting, AnswersLater (chipRun u inp n).bus (busInputs u inp n)
      (target e.2.addr) := by
  intro e he
  cases hport : e.1 with
  | mem =>
      have haccepted : e ∈ (chipRun u inp n).bus.log.accepted := by
        rw [h.accounts.accepted]
        exact List.mem_append_right _ he
      rcases exists_asked u inp n e haccepted hport with ⟨m, hvalid, hcmd⟩
      rw [← hcmd]
      exact hlater.cpu m hvalid n hstarted
  | cnn =>
      have hheld : e.2 ∈ ofPort .cnn x.held :=
        List.mem_map.mpr ⟨e, List.mem_filter.mpr
          ⟨List.mem_append_right _ he, decide_eq_true hport⟩, rfl⟩
      rw [← h.pending, chipRun_core] at hheld
      rcases List.mem_map.mp hheld with ⟨c, hc, hcmd⟩
      rcases htrace.mem_pending hc with ⟨k, hk, haddr⟩
      have htarget : target e.2.addr = target (wordAddr p.base k) := by
        rw [← hcmd, ← haddr]
        rfl
      rcases hblock k hk with hslave | hslave
      · rw [htarget, hslave]
        exact hlater.weight n
      · rw [htarget, hslave]
        exact hlater.image n

/-! ## The deciding cycles on the chip -/

/-- In no load phase of the first job the bus takes a read in both deciding cycles. -/
theorem not_acceptsTwice (h : Answering u inp (InJob inp) mem) (hlater : Registered u inp)
    (hp : p.Lawful) (hblock : blockSlave p)
    (htraced : Traced p (coreInputs u inp)) {j : Nat}
    (hjob : (busRun (coreInputs u inp) j).job = 1) : ¬AcceptsTwice p (coreInputs u inp) j := by
  rintro ⟨hj, hready, hready'⟩
  rcases hj.before htraced hp hjob with ⟨k, rfl, hjob', hs, hask, htaken, hvalid⟩
  rcases exists_linked h k with ⟨x, hx⟩
  rcases htraced.trace (k + 1) hjob' hs with ⟨earlier, a, htrace⟩
  rw [← chipRun_core, Bool.and_eq_true] at htaken
  rw [← chipRun_core] at hask hvalid
  have hwaiting := waiting_later hlater hblock
    ((started_of_valid h hask).mono (Nat.le_succ k)) htrace (linked_succ h hx)
  have hfull := hx.accounts.not_three_in_row (p := .cnn) (h k).conform (h (k + 1)).conform
    (h (k + 1 + 1)).conform hask htaken ⟨hvalid, hready⟩ hwaiting (busInputs u inp (k + 1 + 1 + 1))
  exact Bool.false_ne_true (hfull.symm.trans hready')

/-- So no load phase that is left has read too much. -/
theorem acceptsOnce_chip (h : Answering u inp (InJob inp) mem) (hlater : Registered u inp)
    (hp : p.Lawful) (hblock : blockSlave p)
    (htraced : Traced p (coreInputs u inp)) : AcceptsOnce p (coreInputs u inp) := by
  rintro ⟨n, hleaves⟩ j htwice
  rcases htraced.trace n hleaves.1 hleaves.2.1 with ⟨earlier, a, htrace⟩
  have hdone := (htrace.finished (htrace.rcpt_of_leaves hp hleaves)).1
  exact not_acceptsTwice h hlater hp hblock htraced
    (htrace.job_of_beat hp h.conforming hdone htwice.1) htwice

/-- So it is in both phases. -/
theorem acceptsOnce_both (h : Answering u inp (InJob inp) mem) (hlater : Registered u inp) :
    AcceptsOnce weightPhase (coreInputs u inp) ∧ AcceptsOnce imagePhase (coreInputs u inp) := by
  have hweight := acceptsOnce_chip h hlater weightPhase_lawful blockSlave_weight
    (weight_traced h.conforming)
  exact ⟨hweight, acceptsOnce_chip h hlater imagePhase_lawful blockSlave_image
    (image_traced h.conforming hweight)⟩

/-! ## The job -/

/-- What the core has read are the words of the blocks. -/
theorem answersFrom_chip (h : Answering u inp (InJob inp) mem) (n : Nat) :
    AnswersFrom mem (busRun (coreInputs u inp) n) := by
  rcases exists_linked h n with ⟨x, hx⟩
  rw [← chipRun_core]
  intro e he hread hblock
  by_cases hstarted : Started inp n
  · exact hx.answered e he hread ⟨hstarted, hblock⟩
  · -- before the start nothing has been answered
    cases n with
    | zero => exact absurd he List.not_mem_nil
    | succ n =>
        have hempty := h.ledger_empty fun ⟨m, hm, henable⟩ =>
          hstarted ⟨m, Nat.le_succ_of_le hm, henable⟩
        rw [hempty] at he
        exact absurd he List.not_mem_nil

/-- The core's ledger when the first job leaves {lit}`STORE`. -/
theorem ledger_of_finishes (h : Answering u inp (InJob inp) mem) (hlater : Registered u inp)
    {n : Nat} (hfin : FinishesJob (coreInputs u inp) n) :
    (chipRun u inp (n + 1)).core.ledger.answered.map Prod.fst = jobCommands mem ∧
      (chipRun u inp (n + 1)).core.ledger.pending = [] := by
  rcases exists_timeline hfin with ⟨m, e, t, rfl, hline⟩
  rcases acceptsOnce_both h hlater with ⟨hweight, himage⟩
  rcases hline.commands h.conforming (answersFrom_chip h) hweight himage with
    ⟨haccepted, hpending⟩
  rw [← chipRun_core] at haccepted hpending
  rw [Ledger.accepted, hpending, List.append_nil] at haccepted
  exact ⟨haccepted, hpending⟩

/-- What the bus has taken from the core by then. -/
theorem acceptedAt_of_finishes (h : Answering u inp (InJob inp) mem) (hlater : Registered u inp)
    {n : Nat} (hfin : FinishesJob (coreInputs u inp) n) :
    (chipRun u inp (n + 1)).bus.log.acceptedAt .cnn = (jobCommands mem).map busCmd := by
  rcases ledger_of_finishes h hlater hfin with ⟨hanswered, hpending⟩
  rcases exists_linked h (n + 1) with ⟨x, hx⟩
  rw [← hx.accepted, Ledger.accepted, hpending, hanswered, List.append_nil]

end Subsys
end AcceleratorSoc
