import AcceleratorSoc.Subsys.HandOver

/-!
# The first job on the memories

The CPU has handed the memories over: the bus owes it no response, and it leaves the bus to
the accelerator.  Then the job ends, the weight and image memories are what they
were, and four words of the output memory have changed: the store addresses are one byte
apart, so of the four results that share a word the last one is left.

Main results:

- Theorem {lit}`HandedOver.held_core`: from the start on the bus carries commands of the
  core only.
- Theorem {lit}`HandedOver.kept`: the weight and image memories do not change.
- Theorem {lit}`HandedOver.answering`, {lit}`HandedOver.registered`,
  {lit}`HandedOver.undisturbed`: the memories do what the chip asks of its slaves.
- Theorem {lit}`mem_results`: a memory after the writes of a job.
- Theorem {lit}`soc_job_results`: the memories when the job has ended.
- Theorem {lit}`soc_job_results_filled`: a run in which the CPU stores the blocks first.
-/

namespace AcceleratorSoc
namespace Subsys

open Clocked CnnCore

variable {u : PowerUp} {ram : (W : Window) → SizedRam W.depth} {inp : Nat → SocInput}
  {start : Nat}

/-- While the CPU asks for nothing, only the core's commands are accepted. -/
theorem Monitored.accepted_of_silent {b : Monitored} {i : BusInput}
    (h : i.mem.cmdValid = false) :
    (b.step i).log.accepted = b.log.accepted ++ BusLog.acceptedOn b.bus i .cnn := by
  have hnone : BusLog.acceptedOn b.bus i .mem = [] := by
    unfold BusLog.acceptedOn BusInput.master
    rw [h, Bool.false_and, if_neg Bool.false_ne_true]
  change b.log.accepted ++ (BusLog.acceptedOn b.bus i .mem ++ _) = _
  rw [hnone, List.nil_append]

/-! ## Commands of the core -/

/-- The core reads in the weight and image memories and writes to the output memory. -/
theorem target_confined {read : Bool} {addr : Word} (h : Confined read addr) :
    ∃ W : Window, target addr = W.port ∧ (W = .output ↔ read = false) := by
  have hresult : ∀ k : Fin 16, target (storeAddr k.val) = Window.output.port := by decide
  cases h with
  | weight hk => exact ⟨.weight, target_weight (by omega), by simp⟩
  | image hk => exact ⟨.image, target_image (by omega), by simp⟩
  | result hk => exact ⟨.output, hresult ⟨_, hk⟩, by simp⟩

namespace HandedOver

/-- The accelerator has been enabled from the start on. -/
theorem started_iff (h : HandedOver u ram inp start) (n : Nat) :
    Started (chipInputs u ram inp) n ↔ start ≤ n := by
  constructor
  · rintro ⟨m, hm, henable⟩
    by_contra hlt
    exact Bool.false_ne_true ((h.first m (by omega)).symm.trans henable)
  · exact fun hle => ⟨start, hle, h.enabled⟩

/-- The CPU keeps having its responses. -/
theorem drained_of_le (h : HandedOver u ram inp start) {n : Nat} (hn : start ≤ n) :
    ((socRun u ram inp n).chip.bus.log.acceptedAt .mem).length ≤
      ((socRun u ram inp n).chip.bus.log.deliveredAt .mem).length := by
  induction n, hn using Nat.le_induction with
  | base => exact h.drained
  | succ n hn ih =>
      have haccepted := (socRun u ram inp n).chip.bus.acceptedAt_step
        ((socRun u ram inp n).busInput (inp n)) .mem
      have hsilent : ((socRun u ram inp n).busInput (inp n)).mem.cmdValid = false :=
        h.silent n hn
      rw [ofPort_accepted, BusInput.master, hsilent, Bool.false_and, if_neg Bool.false_ne_true,
        List.append_nil] at haccepted
      have hdelivered := (socRun u ram inp n).chip.bus.length_deliveredAt_step
        ((socRun u ram inp n).busInput (inp n)) .mem
      exact (congrArg List.length haccepted).le.trans (ih.trans hdelivered)

/-- From the start on the bus holds commands of the core only. -/
theorem held_core (h : HandedOver u ram inp start) {n : Nat} (hn : start ≤ n)
    {block : Word → Prop} {mem : Word → Word} {x : Traffic}
    (hx : Linked block mem (socRun u ram inp n).chip x) :
    ∀ e ∈ x.held, e.1 = .cnn ∧ Confined e.2.read e.2.addr := by
  intro e he
  have hport : e.1 = .cnn := by
    have hnone := hx.accounts.unanswered_eq .mem
    rw [List.drop_eq_nil_of_le (h.drained_of_le hn), eq_comm] at hnone
    cases hp : e.1 with
    | mem => exact absurd hp (ofPort_eq_nil_iff.mp hnone e he)
    | cnn => rfl
  have hmem : e.2 ∈ ofPort .cnn x.held :=
    List.mem_map.mpr ⟨e, List.mem_filter.mpr ⟨he, decide_eq_true hport⟩, rfl⟩
  rw [← hx.pending, socRun_chip, chipRun_core] at hmem
  rcases List.mem_map.mp hmem with ⟨c, hc, hcmd⟩
  have hconfined := accepted_confined _ n c (List.mem_append_right _ hc)
  rw [← hcmd]
  exact ⟨hport, hconfined⟩

/-- What the bus offers to a slave is a command of the core. -/
theorem offered_core (h : HandedOver u ram inp start) (hothers : OthersConform u ram inp)
    {n : Nat} (hn : start ≤ n) {k : Fin 9}
    (hvalid : (socRun u ram inp n).chip.bus.bus.oCmdValid k = true) :
    ∃ W : Window, k = W.port ∧
      (W = .output ↔ ((socRun u ram inp n).chip.bus.bus.oCmd k).read = false) := by
  rcases hothers.exists_linked n with ⟨x, hx⟩
  rcases hx.accounts.spltStage with ⟨hvld, -⟩ | ⟨_, hvld, -, -⟩
  · rcases MemBus.splt_idle ((socRun u ram inp n).busInput (inp n)) hvld with ⟨-, hoffer, -⟩
    have hcmd : (socRun u ram inp n).chip.bus.bus.oCmd k =
        (socRun u ram inp n).chip.bus.bus.bufCmd := by
      rw [MemBus.oCmd, if_pos hvalid, BusCmd.unpack_pack]
    rw [hoffer, Bool.and_eq_true, decide_eq_true_eq] at hvalid
    cases hwaiting : x.waiting with
    | nil =>
        rw [hx.accounts.bufCmdValid_of_nil hwaiting] at hvalid
        exact absurd hvalid.2 Bool.false_ne_true
    | cons e rest =>
        rw [hx.accounts.selected_of_cons hwaiting] at hvalid
        have he : e ∈ x.held := Transit.mem_held_of_waiting (hwaiting ▸ List.mem_cons_self)
        rw [hcmd, hx.accounts.bufCmd_of_cons hwaiting, hvalid.1]
        exact target_confined (h.held_core hn hx e he).2
  · have hnone := (MemBus.splt_busy ((socRun u ram inp n).busInput (inp n)) hvld).2.1 k
    exact absurd (hnone.symm.trans hvalid) Bool.false_ne_true

/-- A slave that owes an answer is a memory. -/
theorem owing_core (h : HandedOver u ram inp start) (hothers : OthersConform u ram inp)
    {n : Nat} (hn : start ≤ n) {k : Fin 9}
    (howes : ((socRun u ram inp n).chip.bus.log.answered k).length <
      ((socRun u ram inp n).chip.bus.log.taken k).length) : ∃ W : Window, k = W.port := by
  rcases hothers.exists_linked n with ⟨x, hx⟩
  have hat := hx.accounts.unanswered_before k
  rw [List.getElem?_eq_getElem howes, eq_comm] at hat
  rcases List.mem_map.mp (List.mem_of_getElem? hat) with ⟨e, he, -⟩
  rcases List.mem_filter.mp he with ⟨hserving, hgoes⟩
  have hheld : e ∈ x.held := Transit.mem_held_of_serving hserving
  rcases target_confined (h.held_core hn hx e hheld).2 with ⟨W, htarget, -⟩
  exact ⟨W, (of_decide_eq_true hgoes).symm.trans htarget⟩

/-- At the start the core has asked for nothing. -/
theorem ledger_start (h : HandedOver u ram inp start) (hothers : OthersConform u ram inp) :
    (socRun u ram inp start).chip.core.ledger = Ledger.empty :=
  hothers.ledger_empty h.first

/-- No response is for the CPU any more. -/
theorem no_response (h : HandedOver u ram inp start) (hothers : OthersConform u ram inp)
    {n : Nat} (hn : start ≤ n) :
    (socRun u ram inp n).chip.bus.bus.icbRspValid .mem = false := by
  rcases hothers.exists_linked n with ⟨x, hx⟩
  rw [(hx.accounts.rsp_wires ((socRun u ram inp n).busInput (inp n)) .mem).1]
  cases hreturning : x.returning with
  | nil => rfl
  | cons e rest =>
      have hmem : e.1 ∈ x.held :=
        Transit.mem_held_of_returning (hreturning ▸ List.mem_cons_self)
      simp [(h.held_core hn hx e.1 hmem).1]

/-- When the core waits for nothing, nothing is in transit. -/
theorem held_nil (h : HandedOver u ram inp start) {n : Nat} (hn : start ≤ n)
    {block : Word → Prop} {mem : Word → Word} {x : Traffic}
    (hx : Linked block mem (socRun u ram inp n).chip x)
    (hpending : (socRun u ram inp n).chip.core.ledger.pending = []) : x.held = [] := by
  by_contra hsome
  rcases List.exists_mem_of_ne_nil _ hsome with ⟨e, he⟩
  have hport := (h.held_core hn hx e he).1
  have hmem : e.2 ∈ ofPort .cnn x.held :=
    List.mem_map.mpr ⟨e, List.mem_filter.mpr ⟨he, decide_eq_true hport⟩, rfl⟩
  rw [← hx.pending, hpending] at hmem
  exact absurd hmem List.not_mem_nil

/-- So it is at the start. -/
theorem held_start (h : HandedOver u ram inp start) (hothers : OthersConform u ram inp)
    {block : Word → Prop} {mem : Word → Word} {x : Traffic}
    (hx : Linked block mem (socRun u ram inp start).chip x) : x.held = [] :=
  h.held_nil (le_refl start) hx (by rw [h.ledger_start hothers]; rfl)

end HandedOver

/-! ## The memories that are read -/

/-- A read leaves the words of a memory alone. -/
theorem SizedRam.mem_access_read {dp : Nat} (m : SizedRam dp) {c : IcbCmd}
    (hread : c.read = true) : (m.access c).mem = m.mem := by
  funext a
  simp [access, step, hread, writeBytes_none]

/-- A memory that is only read: its words are those of the start, and only reads wait. -/
structure ReadOnly {W : Window} (b₀ b : WindowState W) : Prop where
  mem : b.sram.ram.mem = b₀.sram.ram.mem
  reads : ∀ c, b.sram.bypbuf = some c → c.read = true

/-- One cycle in which a read, or nothing, is offered. -/
theorem ReadOnly.step {W : Window} {b₀ b : WindowState W} (h : ReadOnly b₀ b) {i : WindowInput}
    (hreads : ∀ c, WindowState.offered W i = some c → c.read = true) :
    ReadOnly b₀ (b.step i) := by
  have hout : ∀ c, b.sram.bypbuf.out ((WindowState.offered W i).map windowCmd) = some c →
      c.read = true := by
    intro c hc
    unfold Bypbuf.out at hc
    rcases Option.or_eq_some_iff.mp hc with hbuf | ⟨-, hnew⟩
    · exact h.reads c hbuf
    · rcases Option.map_eq_some_iff.mp hnew with ⟨d, hd, rfl⟩
      exact hreads d hd
  constructor
  · change ((b.sram.performed _ i.rspReady).toList.foldl SizedRam.access b.sram.ram).mem = _
    cases hperformed : b.sram.performed ((WindowState.offered W i).map windowCmd) i.rspReady with
    | none => exact h.mem
    | some c =>
        unfold WindowSram.performed at hperformed
        split_ifs at hperformed
        exact (SizedRam.mem_access_read _ (hout c hperformed)).trans h.mem
  · intro c hc
    have hin := b.sram.inFlight_step ((WindowState.offered W i).map windowCmd) i.rspReady
    have hmem : c ∈ (b.step i).sram.bypbuf.toList := Option.mem_toList.mpr hc
    have hall := List.mem_append_right
      (b.sram.performed ((WindowState.offered W i).map windowCmd) i.rspReady).toList hmem
    change c ∈ _ ++ (b.sram.step _ i.rspReady).bypbuf.toList at hall
    rw [← hin] at hall
    rcases List.mem_append.mp hall with hbuf | hnew
    · exact h.reads c (Option.mem_toList.mp hbuf)
    · split_ifs at hnew
      · rcases Option.map_eq_some_iff.mp (Option.mem_toList.mp hnew) with ⟨d, hd, rfl⟩
        exact hreads d hd
      · exact absurd hnew List.not_mem_nil

namespace HandedOver

/-- From the start on the weight and image memories are only read. -/
theorem kept (h : HandedOver u ram inp start) (hothers : OthersConform u ram inp) {n : Nat}
    (hn : start ≤ n) {W : Window} (hW : W ≠ .output) :
    ReadOnly ((socRun u ram inp start).window W) ((socRun u ram inp n).window W) := by
  induction n, hn using Nat.le_induction with
  | base =>
      rcases hothers.exists_linked start with ⟨x, hx⟩
      have hsettled := (socInv_run u ram inp start).settled hx.accounts
        (h.held_start hothers hx) W
      refine ⟨rfl, fun c hc => ?_⟩
      rw [hsettled.1] at hc
      exact absurd hc (by simp)
  | succ n hn ih =>
      apply ih.step
      intro c hc
      rw [offered_windowInput] at hc
      split_ifs at hc with hvalid
      rcases h.offered_core hothers hn hvalid with ⟨V, hport, hread⟩
      obtain rfl : W = V := Window.port_injective hport
      rw [← Option.some.inj hc, ← Bool.not_eq_false]
      exact fun hwrite => hW (hread.mpr hwrite)

/-- So from then on they hold what they held at the start. -/
theorem held (h : HandedOver u ram inp start) (hothers : OthersConform u ram inp) (n : Nat) :
    Held (socRun u ram inp n) (InJob (chipInputs u ram inp) n)
      (socRun u ram inp start).stored := by
  rintro a ⟨hstarted, hread⟩
  rcases exists_blockAt hread with ⟨W, base, k, hblock, hk, rfl⟩
  have htarget := hblock.target_eq hk
  have hindex := hblock.index_lt hk
  refine ⟨W, htarget, hindex, ?_⟩
  have hmem := (h.kept hothers ((h.started_iff n).mp hstarted) hblock.ne_output).mem
  rw [Soc.stored_eq _ htarget hindex, Soc.stored_eq _ htarget hindex, hmem]

/-! ## What the chip asks of its slaves -/

/-- The slaves answer the reads of the job with what was stored at the start. -/
theorem answering (h : HandedOver u ram inp start) (hothers : OthersConform u ram inp) :
    Answering u (chipInputs u ram inp) (InJob (chipInputs u ram inp))
      (socRun u ram inp start).stored :=
  hothers.answering (h.held hothers)

/-- A memory answers later than it takes. -/
theorem window_later (u : PowerUp) (ram : (W : Window) → SizedRam W.depth)
    (inp : Nat → SocInput) (n : Nat) (W : Window) :
    AnswersLater (socRun u ram inp n).chip.bus ((socRun u ram inp n).busInput (inp n)) W.port := by
  intro hrsp
  rw [oRspValid_port, Bool.and_eq_true, (socInv_run u ram inp n).e1Vld_eq W] at hrsp
  exact of_decide_eq_true hrsp.1

/-- They answer later than they take. -/
theorem registered (h : HandedOver u ram inp start) (hothers : OthersConform u ram inp) :
    Registered u (chipInputs u ram inp) where
  weight n := by
    rw [← socRun_chip, busInputs_chipInputs]
    exact window_later u ram inp n .weight
  image n := by
    rw [← socRun_chip, busInputs_chipInputs]
    exact window_later u ram inp n .image
  cpu m hask n hstarted := by
    rw [← socRun_chip, busInputs_chipInputs]
    rw [h.started_iff] at hstarted
    generalize target ((chipInputs u ram inp m).mem.cmd.addr) = k
    cases hwindow : windowAt k with
    | some W =>
        rw [windowAt_eq_some hwindow]
        exact window_later u ram inp n W
    | none =>
        -- such a slave is not offered anything any more
        have hnone : (socRun u ram inp n).chip.bus.bus.oCmdValid k = false := by
          rw [Bool.eq_false_iff]
          intro hvalid
          rcases h.offered_core hothers hstarted hvalid with ⟨W, hport, -⟩
          rw [hport, windowAt_port] at hwindow
          exact absurd hwindow (by simp)
        intro hrsp
        by_cases hdeft : k = deft
        · rw [MemBus.oRspValid, if_pos hdeft, ← hdeft, hnone, Bool.false_and] at hrsp
          exact absurd hrsp Bool.false_ne_true
        · have hlt := hothers n k hwindow hdeft hrsp
          rwa [takenNow, hnone, Bool.false_and, if_neg Bool.false_ne_true,
            List.append_nil] at hlt

/-- They are prompt, and the CPU is out of the way. -/
theorem undisturbed (h : HandedOver u ram inp start) (hothers : OthersConform u ram inp) :
    Undisturbed u (chipInputs u ram inp) where
  silent n hstarted := h.silent n ((h.started_iff n).mp hstarted)
  takes n hstarted hgiven := by
    rw [← socRun_chip, h.no_response hothers ((h.started_iff n).mp hstarted)] at hgiven
    exact absurd hgiven Bool.false_ne_true
  prompt n hstarted := by
    rw [h.started_iff] at hstarted
    rw [← socRun_chip, busInputs_chipInputs]
    apply (socInv_run u ram inp n).prompt
    · intro k hwindow _ howes
      rcases h.owing_core hothers hstarted howes with ⟨W, rfl⟩
      rw [windowAt_port] at hwindow
      exact absurd hwindow (by simp)
    · intro k hwindow _ hoffered
      rcases h.offered_core hothers hstarted hoffered with ⟨W, rfl, -⟩
      rw [windowAt_port] at hwindow
      exact absurd hwindow (by simp)

/-- What the bus has accepted since the start is what it has accepted from the core. -/
theorem accepted_since (h : HandedOver u ram inp start) (hothers : OthersConform u ram inp)
    {n : Nat} (hn : start ≤ n) : (socRun u ram inp n).chip.bus.log.accepted =
      (socRun u ram inp start).chip.bus.log.accepted ++
        ((socRun u ram inp n).chip.bus.log.acceptedAt .cnn).map (Prod.mk .cnn) := by
  induction n, hn using Nat.le_induction with
  | base =>
      rcases hothers.exists_linked start with ⟨x, hx⟩
      have hnone : (socRun u ram inp start).chip.bus.log.acceptedAt .cnn = [] := by
        rw [← hx.accepted, h.ledger_start hothers]
        rfl
      rw [hnone, List.map_nil, List.append_nil]
  | succ n hn ih =>
      have haccepted : (socRun u ram inp (n + 1)).chip.bus.log.accepted =
          (socRun u ram inp n).chip.bus.log.accepted ++
            BusLog.acceptedOn (socRun u ram inp n).chip.bus.bus
              ((socRun u ram inp n).busInput (inp n)) .cnn :=
        Monitored.accepted_of_silent (h.silent n hn)
      have hnew : ((ofPort .cnn (BusLog.acceptedOn (socRun u ram inp n).chip.bus.bus
          ((socRun u ram inp n).busInput (inp n)) .cnn)).map (Prod.mk Port.cnn)) =
          BusLog.acceptedOn (socRun u ram inp n).chip.bus.bus
            ((socRun u ram inp n).busInput (inp n)) .cnn := by
        unfold BusLog.acceptedOn
        split_ifs <;> simp [ofPort]
      have hat : (socRun u ram inp (n + 1)).chip.bus.log.acceptedAt .cnn =
          (socRun u ram inp n).chip.bus.log.acceptedAt .cnn ++
            ofPort .cnn (BusLog.acceptedOn (socRun u ram inp n).chip.bus.bus
              ((socRun u ram inp n).busInput (inp n)) .cnn) := by
        rw [BusLog.acceptedAt, haccepted]
        exact ofPort_append _ _ _
      rw [hat, List.map_append, ← List.append_assoc, ← ih, hnew, haccepted]

end HandedOver

/-! ## The writes of a job -/

/-- Write {lit}`k` of a job on the bus. -/
def resultWrite (word : Nat → Word) (k : Nat) : BusCmd where
  read := false
  addr := storeAddr k
  wdata := word k
  wmask := CoreState.cnnIcbCmdWmask

/-- It goes to word {lit}`k / 4` of the output memory. -/
theorem resultWrite_placed (word : Nat → Word) {k : Nat} (hk : k < 16) :
    target (resultWrite word k).addr = Window.output.port ∧
      (Sram.ramAddr (windowCmd (resultWrite word k))).toNat = k / 4 := by
  have hall : ∀ k : Fin 16, target (storeAddr k.val) = Window.output.port ∧
      ((storeAddr k.val).extractLsb' 2 10).toNat = k.val / 4 := by
    decide
  rw [ramAddr_windowCmd]
  exact hall ⟨k, hk⟩

/-- Word {lit}`a` of a memory after the first {lit}`m` writes of a job: the last of the
writes {lit}`4a` to {lit}`4a + 3` among them. -/
theorem mem_results {dp : Nat} (word : Nat → Word) (r : SizedRam dp) (a : Fin dp) {m : Nat}
    (hm : m ≤ 16) : ((((List.range m).map (resultWrite word)).map windowCmd).foldl
        SizedRam.access r).mem a =
      if 4 * a.val < m then word (min (m - 1) (4 * a.val + 3)) else r.mem a := by
  induction m with
  | zero => simp
  | succ m ih =>
      have hlast : ∀ r : SizedRam dp, (r.access (windowCmd (resultWrite word m))).mem a =
          if a.val = m / 4 then word m else r.mem a := by
        intro r
        have hindex := (resultWrite_placed word hm).2
        rw [ramAddr_windowCmd] at hindex
        have hwrite := r.mem_access_wordWrite (storeAddr m) (word m) a
        change ((storeAddr m).extractLsb' 2 10).toNat = m / 4 at hindex
        rwa [hindex] at hwrite
      rw [List.range_succ, List.map_append, List.map_append, List.foldl_append, List.map_cons,
        List.map_nil, List.map_cons, List.map_nil, List.foldl_cons, List.foldl_nil, hlast,
        ih (by omega)]
      by_cases ha : a.val = m / 4
      · have hmin : min (m + 1 - 1) (4 * a.val + 3) = m := by omega
        rw [if_pos ha, if_pos (by omega), hmin]
      · rw [if_neg ha]
        by_cases hlt : 4 * a.val < m
        · have hmin : min (m + 1 - 1) (4 * a.val + 3) = min (m - 1) (4 * a.val + 3) := by omega
          rw [if_pos hlt, if_pos (by omega), hmin]
        · rw [if_neg hlt, if_neg (by omega)]

/-- Of the commands of a job the results are for the output memory. -/
theorem results_of_jobCommands (mem : Word → Word) :
    (((((jobCommands mem).map busCmd).map (Prod.mk Port.cnn)).filter
      (goesTo Window.output.port)).map Prod.snd) =
      (List.range 16).map (resultWrite (jobResult mem)) := by
  have hreads : ∀ p : LoadPhase, (∀ k < 16, target (CnnCore.wordAddr p.base k) ≠
      Window.output.port) → (((((List.range 16).map (p.command 1)).map busCmd).map
        (Prod.mk Port.cnn)).filter (goesTo Window.output.port)) = [] := by
    intro p hblock
    rw [List.filter_eq_nil_iff]
    intro e he
    simp only [List.map_map, List.mem_map, List.mem_range, Function.comp_apply] at he
    rcases he with ⟨k, hk, rfl⟩
    exact fun hgoes => hblock k hk (of_decide_eq_true hgoes)
  have hwrites : (((((List.range 16).map (resultCommand mem)).map busCmd).map
      (Prod.mk Port.cnn)).filter (goesTo Window.output.port)) =
      (((List.range 16).map (resultCommand mem)).map busCmd).map (Prod.mk Port.cnn) := by
    rw [List.filter_eq_self]
    intro e he
    simp only [List.map_map, List.mem_map, List.mem_range, Function.comp_apply] at he
    rcases he with ⟨k, hk, rfl⟩
    exact decide_eq_true (resultWrite_placed (jobResult mem) hk).1
  have hweight := hreads weightPhase fun k hk => by
    change target (CnnCore.wordAddr weightAddr k) ≠ _
    rw [target_weight (by omega)]
    decide
  have himage := hreads imagePhase fun k hk => by
    change target (CnnCore.wordAddr imageAddr k) ≠ _
    rw [target_image (by omega)]
    decide
  rw [jobCommands, List.map_append, List.map_append, List.map_append, List.map_append,
    List.filter_append, List.filter_append, hweight, himage, hwrites, List.nil_append,
    List.nil_append, List.map_map, List.map_map, List.map_map]
  rfl

/-! ## The first job -/

/-- When the CPU has handed the memories over, the first job ends; by then the weight and
image memories are what they were at the start, and of the output memory the words zero to
three hold the results three, seven, eleven and fifteen of what was stored, and the others
are what they were. -/
theorem soc_job_results (h : HandedOver u ram inp start)
    (hothers : OthersConform u ram inp) :
    ∃ n, start ≤ n ∧ FinishesJob (coreInputs u (chipInputs u ram inp)) n ∧
      (∀ W, W ≠ Window.output → ((socRun u ram inp (n + 1)).window W).sram.ram.mem =
        ((socRun u ram inp start).window W).sram.ram.mem) ∧
      ∀ a : Fin Window.output.depth,
        ((socRun u ram inp (n + 1)).window .output).sram.ram.mem a =
          if a.val < 4 then jobResult (socRun u ram inp start).stored (4 * a.val + 3)
          else ((socRun u ram inp start).window .output).sram.ram.mem a := by
  have hanswer := h.answering hothers
  have hlater := h.registered hothers
  rcases (h.undisturbed hothers).exists_finishes hanswer hlater ⟨start, h.enabled⟩ with
    ⟨n, hfin⟩
  have hn : start ≤ n := by
    by_contra hlt
    have hjob := job_zero_of_disabled (coreInputs u (chipInputs u ram inp)) (n := n)
      fun k hk => h.first k (by omega)
    exact absurd (hjob.symm.trans hfin.1) (by decide)
  have hn' := Nat.le_succ_of_le hn
  refine ⟨n, hn, hfin, fun W hW => (h.kept hothers hn' hW).mem, fun a => ?_⟩
  -- nothing is in transit any more, so the output memory has performed all its commands
  have haccepted := acceptedAt_of_finishes hanswer hlater hfin
  rw [← socRun_chip] at haccepted
  have hpending := (ledger_of_finishes hanswer hlater hfin).2
  rw [← socRun_chip] at hpending
  rcases hothers.exists_linked (n + 1) with ⟨x, hx⟩
  have hheld := h.held_nil hn' hx hpending
  rcases hothers.exists_linked start with ⟨y, hy⟩
  have hbefore := ((socInv_run u ram inp start).settled hy.accounts
    (h.held_start hothers hy) .output).2
  have hafter := ((socInv_run u ram inp (n + 1)).settled hx.accounts hheld .output).2
  rw [h.accepted_since hothers hn', haccepted, List.filter_append, List.map_append,
    List.map_append, List.foldl_append, ← hbefore, results_of_jobCommands] at hafter
  rw [hafter, mem_results _ _ _ (le_refl 16)]
  by_cases ha : a.val < 4
  · have hmin : min (16 - 1) (4 * a.val + 3) = 4 * a.val + 3 := by omega
    rw [if_pos ha, if_pos (by omega), hmin]
  · rw [if_neg ha, if_neg (by omega)]

/-- Memories that power up with zeros. -/
def zeroRams (W : Window) : SizedRam W.depth :=
  zeroRam W.depth

/-- A CPU that writes the two blocks there and enables the accelerator. -/
def fillingInputs : Nat → SocInput :=
  programInputs zeroPowerUp zeroRams (fillMemories blockMemory)

/-- When the job that this CPU starts has ended, word one of the output memory holds result
seven of the blocks. -/
theorem soc_job_results_filled : ∃ n,
    FinishesJob (coreInputs zeroPowerUp (chipInputs zeroPowerUp zeroRams fillingInputs)) n ∧
      ((socRun zeroPowerUp zeroRams fillingInputs (n + 1)).window .output).sram.ram.mem
          ⟨1, by decide⟩ = jobResult blockMemory 7 := by
  rcases fillMemories_handedOver zeroPowerUp zeroRams blockMemory with ⟨start, hstart, hstored⟩
  rcases soc_job_results hstart (program_others zeroPowerUp zeroRams _) with
    ⟨n, -, hfin, -, hmem⟩
  refine ⟨n, hfin, (hmem ⟨1, by decide⟩).trans ?_⟩
  rw [if_pos (by decide)]
  exact jobResult_congr hstored (by decide)

end Subsys
end AcceleratorSoc
