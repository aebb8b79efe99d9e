import AcceleratorSoc.Subsys.Soc
import Mathlib.Data.List.GetD
import Mathlib.Data.List.Infix

/-!
# Handing the memories over

Before the accelerator is enabled the memories belong to the CPU.  It hands them over when
it has got all its responses and asks for nothing any more.  A CPU that puts the commands of
a program on its port, one after the other, and enables the accelerator when it has got the
last response, comes to that point, whatever the commands are.

Main results:

- Theorem {lit}`program_prompt`: the slaves of this CPU are prompt.
- Theorem {lit}`programLeft_moved`: in every cycle it gets closer to its last response.
- Theorem {lit}`program_handedOver`: it hands the memories over, and they have then
  performed its commands.
-/

namespace AcceleratorSoc
namespace Subsys

open Clocked CnnCore

/-! ## Hand-over -/

/-- The accelerator is enabled at cycle {lit}`start` for the first time; by then the CPU has
got all its responses, and from then on it asks for nothing.  Its ready wire does not matter
any more, since every response is for the core. -/
structure HandedOver (u : PowerUp) (ram : (W : Window) → SizedRam W.depth)
    (inp : Nat → SocInput) (start : Nat) : Prop where
  enabled : (inp start).enable = true
  first : ∀ n < start, (inp n).enable = false
  drained : ((socRun u ram inp start).chip.bus.log.acceptedAt .mem).length ≤
    ((socRun u ram inp start).chip.bus.log.deliveredAt .mem).length
  silent : ∀ n, start ≤ n → (inp n).mem.cmdValid = false

/-! ## A CPU with a program -/

/-- What an idle port drives. -/
def idleCmd : BusCmd where
  read := true
  addr := 0#32
  wdata := 0#32
  wmask := 0#4

/-- A CPU that puts the commands of a program on its port, one after the other, takes each
response in the cycle in which it is given, and enables the accelerator when it has got the
last one.  The slaves at the other ports are always ready and answer in the cycle after. -/
def programCpu (program : List BusCmd) (s : Soc) : SocInput where
  enable := decide (program.length ≤ (s.chip.bus.log.deliveredAt .mem).length)
  mem :=
    { cmdValid := decide ((s.chip.bus.log.acceptedAt .mem).length < program.length)
      cmd := program.getD (s.chip.bus.log.acceptedAt .mem).length idleCmd
      rspReady := s.chip.bus.bus.icbRspValid .mem }
  oCmdReady _ := true
  oRspValid k := decide ((s.chip.bus.log.answered k).length < (s.chip.bus.log.taken k).length)
  oRspErr _ := false
  oRspRdata _ := 0#32
  undriven _ := 0#32

/-- What this CPU and the slaves drive on the running machine. -/
def programInputs (u : PowerUp) (ram : (W : Window) → SizedRam W.depth)
    (program : List BusCmd) (n : Nat) : SocInput :=
  programCpu program
    (run (fun s (_ : Nat) => s.step (programCpu program s)) (Soc.reset u ram) id n)

/-- The machine with this CPU. -/
def programRun (u : PowerUp) (ram : (W : Window) → SizedRam W.depth)
    (program : List BusCmd) (n : Nat) : Soc :=
  socRun u ram (programInputs u ram program) n

variable (u : PowerUp) (ram : (W : Window) → SizedRam W.depth) (program : List BusCmd)

/-- They see the machine as it is in the cycle. -/
theorem programInputs_eq (n : Nat) :
    programInputs u ram program n = programCpu program (programRun u ram program n) :=
  congrArg (programCpu program)
    (run_closed Soc.step (Soc.reset u ram) (fun s _ => programCpu program s) n).symm

/-- The slaves answer only what they have taken. -/
theorem program_others : OthersConform u ram (programInputs u ram program) := by
  intro n k hwindow hk hrsp
  have hanswers := (Bool.and_eq_true _ _ ▸ hrsp).1
  rw [MemBus.oRspValid, if_neg hk] at hanswers
  split_ifs at hanswers with hO2
  have howes : ((programRun u ram program n).chip.bus.log.answered k).length <
      ((programRun u ram program n).chip.bus.log.taken k).length := by
    simpa [Soc.busInput, OnChip.busInput, Soc.chipInput, hwindow, programInputs_eq,
      programCpu] using hanswers
  rw [takenNow, List.length_append]
  exact Nat.lt_add_right _ howes

/-- They are prompt. -/
theorem program_prompt (n : Nat) : Prompt (programRun u ram program n).chip.bus
    ((programRun u ram program n).busInput (programInputs u ram program n)) := by
  apply (socInv_run u ram (programInputs u ram program) n).prompt
  · intro k _ _ howes
    rw [programInputs_eq]
    exact decide_eq_true howes
  · intro k _ _ _
    rw [programInputs_eq]
    rfl

/-! ## The commands on the bus -/

/-- What the bus accepts from the CPU in a cycle. -/
theorem acceptedAt_program (n : Nat) :
    (programRun u ram program (n + 1)).chip.bus.log.acceptedAt .mem =
      (programRun u ram program n).chip.bus.log.acceptedAt .mem ++
        ofPort .mem ((programRun u ram program n).chip.bus.bus.accepts
          ((programRun u ram program n).busInput (programInputs u ram program n))).toList :=
  Monitored.acceptedAt_step _ _ .mem

/-- It accepts the commands of the program in their order. -/
theorem accepted_isPrefix (n : Nat) :
    (programRun u ram program n).chip.bus.log.acceptedAt .mem <+: program := by
  induction n with
  | zero => exact List.nil_prefix
  | succ n ih =>
      rw [acceptedAt_program, ofPort_accepted]
      split_ifs with hhsk
      · have hmaster : ((programRun u ram program n).busInput
            (programInputs u ram program n)).master .mem =
              (programCpu program (programRun u ram program n)).mem := by
          rw [programInputs_eq]
          rfl
        rw [hmaster] at hhsk ⊢
        rw [Bool.and_eq_true] at hhsk
        have hlt := of_decide_eq_true hhsk.1
        have hcmd : (programCpu program (programRun u ram program n)).mem.cmd =
            program.get ⟨_, hlt⟩ := List.getD_eq_getElem _ _ hlt
        rw [hcmd]
        exact List.concat_get_prefix ih hlt
      · rwa [List.append_nil]

/-- A port has got the responses to the commands that are not in transit. -/
theorem Accounts.length_acceptedAt {b : Monitored} {x : Traffic} (h : Accounts b x)
    (p : Port) : (b.log.acceptedAt p).length =
      (b.log.deliveredAt p).length + (ofPort p x.held).length := by
  have hdelivered : (b.log.deliveredAt p).length =
      (ofPort p (x.delivered.map Prod.fst)).length := by
    rw [BusLog.deliveredAt, ofPort, h.delivered, List.filter_map, List.filter_map]
    simp only [List.length_map]
    rfl
  rw [hdelivered, ← List.length_append, ← ofPort_append, ← x.requests_eq, ← h.accepted]
  rfl

/-- Until the CPU enables the accelerator the bus holds commands of the CPU only. -/
theorem held_program {n : Nat}
    (hdisabled : ∀ m < n, (programInputs u ram program m).enable = false)
    {x : Traffic} (hx : Linked (fun _ => False) (fun _ => 0) (programRun u ram program n).chip x) :
    ∀ e ∈ x.held, e.1 = .mem := by
  have hledger := (program_others u ram program).ledger_empty hdisabled
  have hnone := hx.pending
  change List.map busCmd (socRun u ram (programInputs u ram program) n).chip.core.ledger.pending
    = _ at hnone
  rw [hledger, Ledger.empty_pending, List.map_nil, eq_comm, ofPort_eq_nil_iff] at hnone
  intro e he
  cases hport : e.1 with
  | mem => rfl
  | cnn => exact absurd hport (hnone e he)

/-! ## Progress -/

/-- Commands that the CPU has left, and what is in transit. -/
def programLeft (program : List BusCmd) (s : Soc) (x : Traffic) : Nat :=
  4 * (program.length - (s.chip.bus.log.acceptedAt .mem).length) + Accounts.backlog .mem x

/-- With nothing in transit the next command is two cycles away from its slave. -/
theorem Accounts.backlog_of_nil {x : Traffic} (hheld : x.held = []) (p : Port) :
    backlog p x = 2 := by
  rcases x.held_eq_nil_iff.mp hheld with ⟨hreturning, hserving, -⟩
  rw [backlog, hheld, distance, hreturning, hserving]
  rfl

/-- With nothing in transit a CPU that waits for a response has a command to give, and the
bus accepts it. -/
theorem accepts_program {n : Nat} (hdisabled : (programInputs u ram program n).enable = false)
    {x : Traffic} (hx : Accounts (programRun u ram program n).chip.bus x) (hheld : x.held = []) :
    (ofPort .mem ((programRun u ram program n).chip.bus.bus.accepts
      ((programRun u ram program n).busInput (programInputs u ram program n))).toList).length =
        1 := by
  have hwaiting := (x.held_eq_nil_iff.mp hheld).2.2
  have hvalid : ((programRun u ram program n).busInput
      (programInputs u ram program n)).mem.cmdValid = true := by
    have hlength := hx.length_acceptedAt .mem
    rw [hheld] at hlength
    rw [programInputs_eq, programCpu, decide_eq_false_iff_not, not_le] at hdisabled
    rw [programInputs_eq]
    exact decide_eq_true (hlength.trans_lt hdisabled)
  rw [ofPort_accepted, hx.icbCmdReady_eq, hwaiting, BusInput.master, hvalid, MemBus.cmdGrt]
  rfl

/-- Before the CPU has got all its responses, every cycle brings it closer to them. -/
theorem programLeft_moved {n : Nat}
    (hdisabled : ∀ m ≤ n, (programInputs u ram program m).enable = false)
    {x : Traffic} (hx : Linked (fun _ => False) (fun _ => 0) (programRun u ram program n).chip x) :
    programLeft program (programRun u ram program (n + 1))
        ((programRun u ram program n).chip.bus.moved
          ((programRun u ram program n).busInput (programInputs u ram program n)) x) <
      programLeft program (programRun u ram program n) x := by
  have hmem := held_program u ram program (fun m hm => hdisabled m hm.le) hx
  have hready : ∀ p, (programRun u ram program n).chip.bus.bus.icbRspValid p = true →
      (((programRun u ram program n).busInput (programInputs u ram program n)).master
        p).rspReady = true := by
    intro p hgiven
    cases p with
    | mem => rwa [programInputs_eq]
    | cnn => rfl
  have hcount := congrArg List.length (acceptedAt_program u ram program n)
  rw [List.length_append] at hcount
  have hle := (accepted_isPrefix u ram program (n + 1)).length_le
  have hprompt := program_prompt u ram program n
  unfold programLeft
  by_cases hheld : x.held = []
  · -- nothing is in transit, so the CPU asks and its command is accepted
    have hone := accepts_program u ram program (hdisabled n (le_refl n)) hx.accounts hheld
    have hbefore := Accounts.backlog_of_nil hheld .mem
    have hafter := hx.accounts.held_moved
      ((programRun u ram program n).busInput (programInputs u ram program n))
    rw [hheld, List.drop_nil, List.nil_append] at hafter
    have hdistance := Accounts.distance_le ((programRun u ram program n).chip.bus.moved
      ((programRun u ram program n).busInput (programInputs u ram program n)) x)
    rw [hbefore, Accounts.backlog, hafter]
    omega
  · have hport : ∀ e, x.returning.head? = some e → e.1.1 = .mem := by
      intro e he
      exact hmem _ (Transit.mem_held_of_returning (List.mem_of_head? he))
    have hless := hx.accounts.backlog_moved hprompt hx.serving hready hheld hport
    omega

/-- So it gets its last response and enables the accelerator. -/
theorem exists_enabled : ∃ n, (programInputs u ram program n).enable = true := by
  by_contra hnever
  have hdisabled : ∀ n, (programInputs u ram program n).enable = false := fun n =>
    Bool.eq_false_iff.mpr fun henable => hnever ⟨n, henable⟩
  have hothers := program_others u ram program
  -- a run without an end would have what is left shrink for ever
  have hdescends : ∀ size n x,
      Linked (fun _ => False) (fun _ => 0) (programRun u ram program n).chip x →
        programLeft program (programRun u ram program n) x ≠ size := by
    intro size
    induction size using Nat.strong_induction_on with
    | _ size ih =>
        rintro n x hx rfl
        have hless := programLeft_moved u ram program (fun m _ => hdisabled m) hx
        have hserve : SlavesServe (fun _ => False) (fun _ => 0)
            (programRun u ram program n).chip.bus
            ((programRun u ram program n).busInput (programInputs u ram program n)) :=
          hothers.serve n fun _ => False.elim
        exact ih _ hless (n + 1) _ (hx.step hserve fun _ => False.elim) rfl
  rcases hothers.exists_linked 0 with ⟨x, hx⟩
  exact hdescends _ 0 x hx rfl

/-! ## The memories -/

/-- With all its responses delivered, nothing is in transit, and the bus has accepted the
program. -/
theorem accepted_program {n : Nat}
    (hdisabled : ∀ m < n, (programInputs u ram program m).enable = false)
    (hall : program.length ≤
      ((programRun u ram program n).chip.bus.log.deliveredAt .mem).length)
    {x : Traffic} (hx : Linked (fun _ => False) (fun _ => 0) (programRun u ram program n).chip x) :
    x.held = [] ∧
      (programRun u ram program n).chip.bus.log.accepted = program.map (Prod.mk .mem) := by
  have hprefix := accepted_isPrefix u ram program n
  have hlength := hx.accounts.length_acceptedAt .mem
  have hle := hprefix.length_le
  constructor
  · have hnone : ofPort .mem x.held = [] := by
      rw [← List.length_eq_zero_iff]
      omega
    rw [eq_map_ofPort (held_program u ram program hdisabled hx), hnone, List.map_nil]
  · have hmem : ∀ e ∈ (programRun u ram program n).chip.bus.log.accepted, e.1 = .mem := by
      have hledger := (program_others u ram program).ledger_empty hdisabled
      have hnone := hx.accepted
      change List.map busCmd
        (socRun u ram (programInputs u ram program) n).chip.core.ledger.accepted =
          ofPort .cnn _ at hnone
      rw [hledger, eq_comm] at hnone
      intro e he
      cases hport : e.1 with
      | mem => rfl
      | cnn => exact absurd hport (ofPort_eq_nil_iff.mp hnone e he)
    have hprogram := hprefix.eq_of_length (by omega)
    exact (eq_map_ofPort hmem).trans (congrArg _ hprogram)

/-- At the first cycle in which the accelerator is enabled the memories are handed over, and
each has performed the commands of the program that are for it. -/
theorem program_handedOver : ∃ start, HandedOver u ram (programInputs u ram program) start ∧
    ∀ W : Window, ((socRun u ram (programInputs u ram program) start).window W).sram.ram =
      ((program.filter fun c => target c.addr = W.port).map windowCmd).foldl
        SizedRam.access (ram W) := by
  have hexists := exists_enabled u ram program
  have henabled := Nat.find_spec hexists
  have hfirst : ∀ n < Nat.find hexists, (programInputs u ram program n).enable = false :=
    fun n hn => Bool.eq_false_iff.mpr (Nat.find_min hexists hn)
  have hothers := program_others u ram program
  generalize Nat.find hexists = start at henabled hfirst
  have hall : program.length ≤
      ((programRun u ram program start).chip.bus.log.deliveredAt .mem).length := by
    rw [programInputs_eq] at henabled
    exact of_decide_eq_true henabled
  refine ⟨start, ⟨henabled, hfirst, ?_, ?_⟩, ?_⟩
  · exact (accepted_isPrefix u ram program start).length_le.trans hall
  · intro n hn
    have hdelivered : program.length ≤
        ((programRun u ram program n).chip.bus.log.deliveredAt .mem).length :=
      run_stable
        (P := fun s : Soc => program.length ≤ (s.chip.bus.log.deliveredAt .mem).length)
        (fun s i h => h.trans (Monitored.length_deliveredAt_step _ _ .mem)) hn hall
    rcases hothers.exists_linked n with ⟨x, hx⟩
    have hlength := hx.accounts.length_acceptedAt .mem
    rw [programInputs_eq]
    exact decide_eq_false (by rw [programRun] at hdelivered ⊢; omega)
  · intro W
    rcases hothers.exists_linked start with ⟨x, hx⟩
    rcases accepted_program u ram program hfirst hall hx with ⟨hheld, haccepted⟩
    have hsettled := ((socInv_run u ram (programInputs u ram program) start).settled
      hx.accounts hheld W).2
    rw [programRun] at haccepted
    rw [hsettled, haccepted, List.filter_map, List.map_map, List.map_map]
    rfl

/-! ## The blocks -/

/-- The block of the job that a memory holds. -/
def BlockAt (W : Window) (base : Word) : Prop :=
  W = .weight ∧ base = weightAddr ∨ W = .image ∧ base = imageAddr

/-- A word that the job reads lies in one of the blocks. -/
theorem exists_blockAt {a : Word} (h : JobRead a) :
    ∃ W base k, BlockAt W base ∧ k < 16 ∧ a = CnnCore.wordAddr base k := by
  rcases h with ⟨k, hk, rfl | rfl⟩
  · exact ⟨_, _, k, Or.inl ⟨rfl, rfl⟩, hk, rfl⟩
  · exact ⟨_, _, k, Or.inr ⟨rfl, rfl⟩, hk, rfl⟩

namespace BlockAt

variable {W : Window} {base : Word}

/-- The output memory holds none. -/
theorem ne_output (h : BlockAt W base) : W ≠ .output := by
  rcases h with ⟨rfl, -⟩ | ⟨rfl, -⟩ <;> simp

/-- The words of a block are routed to its memory. -/
theorem target_eq (h : BlockAt W base) {k : Nat} (hk : k < 16) :
    target (CnnCore.wordAddr base k) = W.port := by
  rcases h with ⟨rfl, rfl⟩ | ⟨rfl, rfl⟩
  · exact target_weight (by omega)
  · exact target_image (by omega)

/-- They are the first words of it. -/
theorem index_eq (h : BlockAt W base) {k : Nat} (hk : k < 16) :
    ((CnnCore.wordAddr base k).extractLsb' 2 10).toNat = k := by
  rcases h with ⟨-, rfl⟩ | ⟨-, rfl⟩ <;>
    simp [CnnCore.wordAddr, weightAddr, imageAddr, BitVec.extractLsb'_toNat,
      Nat.shiftRight_eq_div_pow] <;> omega

/-- The memories are large enough for them. -/
theorem index_lt (h : BlockAt W base) {k : Nat} (hk : k < 16) :
    ((CnnCore.wordAddr base k).extractLsb' 2 10).toNat < W.depth := by
  rw [h.index_eq hk]
  rcases h with ⟨rfl, -⟩ | ⟨rfl, -⟩
  · exact hk.trans (by decide)
  · exact hk.trans (by decide)

end BlockAt

/-- A write of a whole word. -/
def wordWrite (addr word : Word) : BusCmd where
  read := false
  addr := addr
  wdata := word
  wmask := 15#4

/-- The writes of the sixteen words from {lit}`base` on. -/
def blockWrites (mem : Word → Word) (base : Word) : List BusCmd :=
  (List.range 16).map fun k =>
    wordWrite (CnnCore.wordAddr base k) (mem (CnnCore.wordAddr base k))

/-- A CPU that writes both blocks. -/
def fillMemories (mem : Word → Word) : List BusCmd :=
  blockWrites mem weightAddr ++ blockWrites mem imageAddr

/-- The word that is written is replaced. -/
theorem SizedRam.mem_access_wordWrite {dp : Nat} (r : SizedRam dp) (addr word : Word)
    (a : Fin dp) : (r.access (windowCmd (wordWrite addr word))).mem a =
      if a.val = (addr.extractLsb' 2 10).toNat then word else r.mem a := by
  have hwrite : (r.access (windowCmd (wordWrite addr word))).mem a =
      if a.val = (Sram.ramAddr (windowCmd (wordWrite addr word))).toNat then
        writeBytes 15#4 (r.mem a) word
      else r.mem a := rfl
  rw [hwrite, ramAddr_windowCmd, writeBytes_all]
  rfl

/-- A memory after the writes of its block. -/
theorem mem_blockWrites (mem : Word → Word) {W : Window} {base : Word} (h : BlockAt W base)
    {dp : Nat} (r : SizedRam dp) (a : Fin dp) (ha : a.val < 16) :
    (((blockWrites mem base).map windowCmd).foldl SizedRam.access r).mem a =
      mem (CnnCore.wordAddr base a.val) := by
  have hfirst : ∀ m ≤ 16, a.val < m → ((((List.range m).map fun j =>
      wordWrite (CnnCore.wordAddr base j) (mem (CnnCore.wordAddr base j))).map windowCmd).foldl
        SizedRam.access r).mem a = mem (CnnCore.wordAddr base a.val) := by
    intro m hm ham
    induction m with
    | zero => exact absurd ham (Nat.not_lt_zero _)
    | succ m ih =>
        rw [List.range_succ, List.map_append, List.map_append, List.foldl_append, List.map_cons,
          List.map_nil, List.map_cons, List.map_nil, List.foldl_cons, List.foldl_nil,
          SizedRam.mem_access_wordWrite, h.index_eq (by omega)]
        by_cases hlast : a.val = m
        · rw [if_pos hlast, hlast]
        · rw [if_neg hlast]
          exact ih (by omega) (by omega)
  exact hfirst 16 (le_refl 16) ha

/-- Of the writes of both blocks a memory gets those of its own. -/
theorem filter_fillMemories (mem : Word → Word) {W : Window} {base : Word}
    (h : BlockAt W base) :
    (fillMemories mem).filter (fun c => target c.addr = W.port) = blockWrites mem base := by
  have htarget : ∀ {V : Window} {base' : Word}, BlockAt V base' →
      ∀ c ∈ blockWrites mem base', target c.addr = V.port := by
    intro V base' hV c hc
    rcases List.mem_map.mp hc with ⟨k, hk, rfl⟩
    exact hV.target_eq (List.mem_range.mp hk)
  have hweight := htarget (Or.inl ⟨rfl, rfl⟩)
  have himage := htarget (Or.inr ⟨rfl, rfl⟩)
  rw [fillMemories, List.filter_append]
  rcases h with ⟨rfl, rfl⟩ | ⟨rfl, rfl⟩
  · rw [List.filter_eq_self.mpr fun c hc => decide_eq_true (hweight c hc),
      List.filter_eq_nil_iff.mpr fun c hc => by rw [himage c hc]; decide, List.append_nil]
  · rw [List.filter_eq_self.mpr fun c hc => decide_eq_true (himage c hc),
      List.filter_eq_nil_iff.mpr fun c hc => by rw [hweight c hc]; decide, List.nil_append]

/-- A CPU that writes the two blocks hands over memories that hold them. -/
theorem fillMemories_handedOver (mem : Word → Word) : ∃ start,
    HandedOver u ram (programInputs u ram (fillMemories mem)) start ∧
      ∀ a, JobRead a →
        (socRun u ram (programInputs u ram (fillMemories mem)) start).stored a = mem a := by
  rcases program_handedOver u ram (fillMemories mem) with ⟨start, hstart, hram⟩
  refine ⟨start, hstart, fun a ha => ?_⟩
  rcases exists_blockAt ha with ⟨W, base, k, hblock, hk, rfl⟩
  have hindex := hblock.index_eq hk
  rw [Soc.stored_eq _ (hblock.target_eq hk) (hblock.index_lt hk), hram W,
    filter_fillMemories mem hblock]
  have hword := mem_blockWrites mem hblock (ram W) ⟨_, hblock.index_lt hk⟩ (hindex.trans_lt hk)
  simp only [hindex] at hword ⊢
  exact hword

end Subsys
end AcceleratorSoc
