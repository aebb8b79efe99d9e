import AcceleratorSoc.Subsys.ChipJob

/-!
# Progress on the chip

Once the accelerator is enabled the CPU asks for nothing any more and takes each response
in the cycle in which it is given, and every slave takes a command as soon as it owes no
answer and answers in its next cycle.  Then a command waits at most two cycles in the
buffer, the bus takes one of the two reads of the deciding cycles, and the first job ends.

Main results:

- Theorem {lit}`Accounts.spltRen_of_serving`, {lit}`Accounts.spltWen_of_waiting`: with
  prompt slaves the splitter moves in every cycle.
- Theorem {lit}`Accounts.backlog_moved`: with prompt slaves the work that stands between a
  master and its responses gets less in every cycle.
- Theorem {lit}`Undisturbed.takesOne`: one read is taken in the deciding cycles.
- Theorem {lit}`Undisturbed.fair`: the bus is a fair slave of the core.
- Theorem {lit}`chip_job_commands`: a first job that ends has issued exactly its commands
  over the stored blocks, in order, and every one of them has been answered.
- Theorem {lit}`chip_job_completes`: while the CPU is quiet the first job ends.
-/

namespace AcceleratorSoc
namespace Subsys

open Clocked CnnCore

/-! ## Prompt slaves -/

/-- In this cycle every slave gives the answer that it owes, and takes the command that
it is offered if it owes none. -/
structure Prompt (b : Monitored) (i : BusInput) : Prop where
  answers : ∀ k, k ≠ deft → k ≠ portO2 →
    (b.log.answered k).length < (b.log.taken k).length → i.oRspValid k = true
  ready : ∀ k, k ≠ deft → k ≠ portO2 → b.bus.oCmdValid k = true →
    (b.log.answered k).length = (b.log.taken k).length → i.oCmdReady k = true

/-- No address is routed to the port that is not used. -/
theorem target_ne_portO2 (addr : BitVec 32) : target addr ≠ portO2 := by
  unfold target
  split_ifs <;> decide

variable {b : Monitored} {i : BusInput} {x : Traffic}

namespace Accounts

/-- The response buffer has room for the next answer. -/
theorem rspFifo_room (h : Accounts b x) (hroom : x.returning.length < 2) :
    b.bus.rspFifo.iRdy = true := by
  rw [h.rspFifo.iRdy, List.length_map, decide_eq_true hroom]

/-- The command at the stage is answered. -/
theorem spltRen_of_serving (h : Accounts b x) (hprompt : Prompt b i) {e : Port × BusCmd}
    (hserving : x.serving = [e]) (hdeft : target e.2.addr ≠ deft)
    (hroom : x.returning.length < 2) : b.bus.spltRen i = true := by
  rcases h.spltStage with ⟨-, hnone⟩ | ⟨q, hvld, hone, hdat⟩
  · rw [hserving] at hnone
    exact absurd hnone (List.cons_ne_nil _ _)
  · obtain rfl : e = q := List.head_eq_of_cons_eq (hserving.symm.trans hone)
    have hport := (MemBus.splt_busy i hvld).1.trans hdat
    rcases b.bus.rsp_of_portId i hport with ⟨-, hren, -⟩
    have howes : (b.log.answered (target e.2.addr)).length <
        (b.log.taken (target e.2.addr)).length := by
      have hat := h.unanswered_before (target e.2.addr)
      rw [hserving, List.filter_cons_of_pos (by simp [goesTo])] at hat
      exact (List.getElem?_eq_some_iff.mp hat).1
    rw [hren, h.rspFifo_room hroom, MemBus.oRspValid, if_neg hdeft,
      if_neg (target_ne_portO2 _), hprompt.answers _ hdeft (target_ne_portO2 _) howes]
    rfl

/-- With the stage empty the oldest waiting command is handed over. -/
theorem spltWen_of_waiting (h : Accounts b x) (hprompt : Prompt b i)
    (hserving : x.serving = []) (hwaiting : x.waiting ≠ [])
    (hroom : x.returning.length < 2) : b.bus.spltWen i = true := by
  rcases h.spltStage with ⟨hvld, -⟩ | ⟨q, -, hone, -⟩
  · rcases List.exists_cons_of_ne_nil hwaiting with ⟨q, rest, hcons⟩
    rcases MemBus.splt_idle i hvld with ⟨hport, hvalid, hwen⟩
    rw [h.selected_of_cons hcons] at hport hvalid hwen
    rw [hwen, h.bufCmdValid_of_cons hcons, Bool.true_and, MemBus.oCmdReady]
    by_cases hdeft : target q.2.addr = deft
    · rw [if_pos hdeft, (b.bus.rsp_of_portId i hport).1, h.rspFifo_room hroom, hdeft]
      rfl
    · have hoffered : b.bus.oCmdValid (target q.2.addr) = true := by
        rw [hvalid, h.bufCmdValid_of_cons hcons, decide_eq_true rfl]
        rfl
      rw [if_neg hdeft, if_neg (target_ne_portO2 _)]
      exact hprompt.ready _ hdeft (target_ne_portO2 _) hoffered (h.length_answered hserving _)
  · rw [hserving] at hone
    exact absurd hone (List.cons_ne_nil _ _).symm

/-- While a master that is given a response takes it, the oldest one is delivered in
every cycle. -/
theorem rspidRen_eq (h : Accounts b x)
    (hready : ∀ p, b.bus.icbRspValid p = true → (i.master p).rspReady = true) :
    b.bus.rspidRen i = !x.returning.isEmpty := by
  rw [(h.rsp_wires i .cnn).2.1]
  cases hreturning : x.returning with
  | nil => rfl
  | cons e rest =>
      have hgiven : b.bus.icbRspValid e.1.1 = true := by
        rw [(h.rsp_wires i e.1.1).1, hreturning, List.head?_cons, Option.any_some,
          decide_eq_true rfl]
      exact hready e.1.1 hgiven

/-- Then at most one response is on its way. -/
theorem returning_moved (h : Accounts b x)
    (hready : ∀ p, b.bus.icbRspValid p = true → (i.master p).rspReady = true) :
    (b.moved i x).returning.length < 2 := by
  have hle := h.rspFifo.length_le
  rw [List.length_map] at hle
  have hanswer : (b.bus.answers i).toList.length ≤ 1 := by
    cases b.bus.answers i <;> simp
  have hfull : ¬x.returning.length < 2 → (b.bus.answers i).toList.length = 0 := by
    intro hfull
    have hroom : b.bus.rspFifo.iRdy = false := by
      rw [h.rspFifo.iRdy, List.length_map, decide_eq_false hfull]
    rw [MemBus.answers, MemBus.spltRen, hroom, Bool.and_false, if_neg Bool.false_ne_true]
    rfl
  have hren : (b.bus.rspidRen i).toNat = if x.returning = [] then 0 else 1 := by
    rw [h.rspidRen_eq hready]
    cases x.returning <;> simp
  simp only [Monitored.moved, Transit.cycle, List.length_append, List.length_drop,
    List.length_zip, hren]
  split_ifs with hnil
  · rw [hnil, List.length_nil]
    omega
  · have hpos := List.length_pos_iff.mpr hnil
    omega

/-- A full command buffer takes nothing in. -/
theorem waiting_of_full (h : Accounts b x) (hfull : x.waiting.length = 2) :
    (b.moved i x).waiting.length + (b.bus.spltWen i).toNat = 2 := by
  have hle := h.spltWen_le i
  have hnone : b.bus.accepts i = none := by
    rw [MemBus.accepts, MemBus.rspidWen, h.cmdFifo.iRdy, List.length_map, hfull,
      decide_eq_false (Nat.lt_irrefl 2), Bool.and_false, if_neg Bool.false_ne_true]
  simp only [Monitored.moved, Transit.cycle, List.length_append, List.length_drop, hnone,
    Option.toList_none, List.length_nil]
  omega

/-- With prompt slaves a waiting command is handed over in this cycle, or one is in the
next. -/
theorem spltWen_next (h : Accounts b x) {i' : BusInput} (hconform : b.SlavesConform i)
    (hprompt : Prompt b i) (hprompt' : Prompt (b.step i) i')
    (hready : ∀ p, b.bus.icbRspValid p = true → (i.master p).rspReady = true)
    (hmapped : ∀ e ∈ x.serving, target e.2.addr ≠ deft) (hroom : x.returning.length < 2)
    (hwaiting : x.waiting ≠ []) (hkept : b.bus.spltWen i = false) :
    (b.step i).bus.spltWen i' = true := by
  refine (h.moved hconform).spltWen_of_waiting hprompt' ?_ ?_ (h.returning_moved hready)
  · -- the stage was busy, so its command has been answered
    rcases h.spltStage with ⟨-, hnone⟩ | ⟨e, -, hone, -⟩
    · rw [h.spltWen_of_waiting hprompt hnone hwaiting hroom] at hkept
      exact absurd hkept.symm Bool.false_ne_true
    · have hren := h.spltRen_of_serving hprompt hone
        (hmapped e (hone ▸ List.mem_singleton_self e)) hroom
      simp [Monitored.moved, Transit.cycle, hone, hkept, MemBus.answers, hren]
  · simp [Monitored.moved, Transit.cycle, hkept, hwaiting]

/-- How many cycles the oldest command in transit is away from its delivery. -/
def distance (x : Traffic) : Nat :=
  if x.returning ≠ [] then 0 else if x.serving ≠ [] then 1 else 2

/-- The oldest command comes closer in every cycle. -/
theorem distance_moved (h : Accounts b x) (hprompt : Prompt b i)
    (hmapped : ∀ e ∈ x.serving, target e.2.addr ≠ deft) (hheld : x.held ≠ [])
    (hreturning : x.returning = []) : distance (b.moved i x) < distance x := by
  have hroom : x.returning.length < 2 := by simp [hreturning]
  rcases h.spltStage with ⟨-, hnone⟩ | ⟨e, hvld, hone, -⟩
  · have hwaiting : x.waiting ≠ [] := by
      simpa [Transit.held, hreturning, hnone] using hheld
    have hwen := h.spltWen_of_waiting hprompt hnone hwaiting hroom
    rcases List.exists_cons_of_ne_nil hwaiting with ⟨q, rest, hcons⟩
    cases hanswer : b.bus.answers i <;>
      simp [distance, Monitored.moved, Transit.cycle, hreturning, hnone, hwen, hcons, hanswer]
  · have hren := h.spltRen_of_serving hprompt hone
      (hmapped e (hone ▸ List.mem_singleton_self e)) hroom
    simp [distance, Monitored.moved, Transit.cycle, hreturning, hone, MemBus.answers, hren]

/-- It is at most two cycles away. -/
theorem distance_le (x : Traffic) : distance x ≤ 2 := by
  unfold distance
  split_ifs <;> omega

/-- What the bus holds of a port's commands, and how far the oldest command has to go. -/
def backlog (p : Port) (x : Traffic) : Nat :=
  3 * (ofPort p x.held).length + distance x

/-- What is held after a cycle. -/
theorem held_moved (h : Accounts b x) (i : BusInput) : (b.moved i x).held =
    x.held.drop (b.bus.rspidRen i).toNat ++ (b.bus.accepts i).toList := by
  apply x.held_cycle
  intro hdeliver hnil
  rw [(h.rsp_wires i .cnn).2.1, hnil] at hdeliver
  exact Bool.false_ne_true hdeliver

/-- While the responses are all for one port, its backlog shrinks but for what is accepted
from it. -/
theorem backlog_moved (h : Accounts b x) (hprompt : Prompt b i)
    (hmapped : ∀ e ∈ x.serving, target e.2.addr ≠ deft)
    (hready : ∀ p, b.bus.icbRspValid p = true → (i.master p).rspReady = true)
    (hheld : x.held ≠ []) {p : Port} (hport : ∀ e, x.returning.head? = some e → e.1.1 = p) :
    backlog p (b.moved i x) <
      backlog p x + 3 * (ofPort p (b.bus.accepts i).toList).length := by
  have hren := h.rspidRen_eq hready
  unfold backlog
  rw [h.held_moved i, ofPort_append, List.length_append, hren]
  cases hreturning : x.returning with
  | nil =>
      have hcloser := h.distance_moved hprompt hmapped hheld hreturning
      simp only [List.isEmpty_nil, Bool.not_true, Bool.toNat_false, List.drop_zero]
      omega
  | cons e rest =>
      -- a response is delivered, and the distance grows by two at most
      have hcons : x.held = e.1 :: (rest.map Prod.fst ++ x.serving ++ x.waiting) := by
        rw [Transit.held, hreturning]
        rfl
      have hbound := distance_le (b.moved i x)
      rw [hcons, ofPort_cons, if_pos (hport e (by rw [hreturning]; rfl))]
      simp only [List.isEmpty_cons, Bool.not_false, Bool.toNat_true, List.drop_one,
        List.tail_cons, List.length_cons]
      omega

end Accounts

/-! ## The chip while the CPU is quiet -/

/-- From the start on the CPU asks for nothing and takes a response in the cycle in which it
is given, and the slaves are prompt.  While no response is for the CPU its ready wire may be
anything: the arbiter looks at the wire of the port at the head of its fifo only. -/
structure Undisturbed (u : PowerUp) (inp : Nat → OnChipInput) : Prop where
  silent : ∀ n, Started inp n → (inp n).mem.cmdValid = false
  takes : ∀ n, Started inp n → (chipRun u inp n).bus.bus.icbRspValid .mem = true →
    (inp n).mem.rspReady = true
  prompt : ∀ n, Started inp n → Prompt (chipRun u inp n).bus (busInputs u inp n)

variable {mem : Word → Word} {u : PowerUp} {inp : Nat → OnChipInput}

/-- The accounts in the next cycle of a run. -/
theorem accounts_succ (h : Answering u inp (InJob inp) mem) {n : Nat} {x : Traffic}
    (hx : Accounts (chipRun u inp n).bus x) : Accounts (chipRun u inp (n + 1)).bus
      ((chipRun u inp n).bus.moved (busInputs u inp n) x) :=
  hx.moved (h n).conform

namespace Undisturbed

/-- A master that is given a response takes it. -/
theorem masters_ready (h : Undisturbed u inp) {n : Nat} (hstarted : Started inp n) (p : Port)
    (hgiven : (chipRun u inp n).bus.bus.icbRspValid p = true) :
    ((busInputs u inp n).master p).rspReady = true := by
  cases p with
  | mem => exact h.takes n hstarted hgiven
  | cnn => rfl

/-- From the cycle after the start on at most one response is on its way. -/
theorem exists_flowing (h : Undisturbed u inp) (hanswer : Answering u inp (InJob inp) mem)
    {n : Nat} (hstarted : Started inp n) :
    ∃ x, Linked (InJob inp n) mem (chipRun u inp (n + 1)) x ∧ x.returning.length < 2 := by
  rcases exists_linked hanswer n with ⟨x, hx⟩
  exact ⟨_, linked_succ hanswer hx,
    hx.accounts.returning_moved (h.masters_ready hstarted)⟩

/-- The accelerator is granted while there is room in the buffer. -/
theorem ready_eq (h : Undisturbed u inp) {n : Nat} (hstarted : Started inp n) {x : Traffic}
    (hx : Accounts (chipRun u inp n).bus x) :
    (coreInputs u inp n).cnnIcbCmdReady = decide (x.waiting.length < 2) := by
  have hwire : (coreInputs u inp n).cnnIcbCmdReady =
      (chipRun u inp n).bus.bus.icbCmdReady (busInputs u inp n) .cnn := rfl
  have hsilent : (busInputs u inp n).mem.cmdValid = false := h.silent n hstarted
  rw [hwire, hx.icbCmdReady_eq, MemBus.cmdGrt, hsilent]
  rfl

/-- One of the two reads of the deciding cycles is taken. -/
theorem takesOne (h : Undisturbed u inp) (hanswer : Answering u inp (InJob inp) mem)
    (hlater : Registered u inp) {p : LoadPhase} (hp : p.Lawful)
    (hblock : blockSlave p)
    (htraced : Traced p (coreInputs u inp)) : TakesOneInJob p (coreInputs u inp) := by
  intro j hjob hj heq
  have htwice := not_acceptsTwice hanswer hlater hp hblock htraced hjob
  rcases hj.before htraced hp hjob with ⟨k, rfl, -, -, hask, htaken, -⟩
  rw [← chipRun_core] at hask
  rw [← chipRun_core, Bool.and_eq_true] at htaken
  have hstarted := started_of_valid hanswer hask
  have hstarted₁ := hstarted.mono (Nat.le_succ k)
  have hstarted₂ := hstarted₁.mono (Nat.le_succ (k + 1))
  have hstarted₃ := hstarted₂.mono (Nat.le_succ (k + 1 + 1))
  rcases exists_linked hanswer k with ⟨x, hx⟩
  have hx₁ := linked_succ hanswer hx
  have hx₂ := accounts_succ hanswer hx₁.accounts
  have hx₃ := accounts_succ hanswer hx₂
  have hsome := hx.accounts.waiting_of_asked (i := busInputs u inp k) (p := .cnn) hask
  have hnext := hx₁.accounts.waiting_of_ready (i := busInputs u inp (k + 1)) (p := .cnn)
    htaken.1 htaken.2
  have hready₁ := h.ready_eq hstarted₁ hx₁.accounts
  have hready₂ := h.ready_eq hstarted₂ hx₂
  have hready₃ := h.ready_eq hstarted₃ hx₃
  rw [htaken.2, eq_comm, decide_eq_true_eq] at hready₁
  cases hboth : (coreInputs u inp (k + 1 + 1)).cnnIcbCmdReady with
  | true => exact htwice ⟨hj, hboth, heq.symm.trans hboth⟩
  | false =>
      rw [hboth, eq_comm, decide_eq_false_iff_not] at hready₂
      rw [← heq, hboth, eq_comm, decide_eq_false_iff_not] at hready₃
      -- with two commands waiting the splitter moves in one of the two cycles
      have hkept : (chipRun u inp (k + 1)).bus.bus.spltWen (busInputs u inp (k + 1)) = false := by
        rw [Bool.eq_false_iff]
        intro hwen
        have hone := congrArg Bool.toNat hwen
        rw [Bool.toNat_true] at hone
        omega
      have hmoves := hx₁.accounts.spltWen_next (hanswer (k + 1)).conform
        (h.prompt _ hstarted₁) (h.prompt _ hstarted₂) (h.masters_ready hstarted₁) hx₁.serving
        (hx.accounts.returning_moved (h.masters_ready hstarted))
        (List.length_pos_iff.mp hsome) hkept
      have hzero := congrArg Bool.toNat hkept
      have hone := congrArg Bool.toNat hmoves
      rw [Bool.toNat_false] at hzero
      rw [Bool.toNat_true] at hone
      have hfull := hx₂.waiting_of_full (i := busInputs u inp (k + 1 + 1)) (by omega)
      have hhanded : ((chipRun u inp (k + 1 + 1)).bus.bus.spltWen
          (busInputs u inp (k + 1 + 1))).toNat = 1 := hone
      omega

/-- The channel of the core takes a command that stays presented. -/
theorem takes_presented (h : Undisturbed u inp) (hanswer : Answering u inp (InJob inp) mem)
    (n : Nat) (hvalid : ∀ m, n ≤ m → (busChannel (coreInputs u inp)).valid m) :
    ∃ m, n ≤ m ∧ (busChannel (coreInputs u inp)).ready m := by
  have hstarted : Started inp n := by
    apply started_of_valid hanswer
    rw [chipRun_core]
    exact hvalid n (le_refl n)
  have hstarted₁ := hstarted.mono (Nat.le_succ n)
  have hstarted₂ := hstarted₁.mono (Nat.le_succ (n + 1))
  have hstarted₃ := hstarted₂.mono (Nat.le_succ (n + 1 + 1))
  rcases h.exists_flowing hanswer hstarted with ⟨x, hx, hroom⟩
  by_contra hnever
  have hfull : ∀ {m : Nat} {y : Traffic}, n ≤ m → Started inp m →
      Accounts (chipRun u inp m).bus y → y.waiting.length = 2 := by
    intro m y hm hs hy
    have hle := hy.cmdFifo.length_le
    rw [List.length_map] at hle
    have hready := h.ready_eq hs hy
    by_contra hne
    rw [decide_eq_true (by omega)] at hready
    exact hnever ⟨m, hm, hready⟩
  have hx₂ := accounts_succ hanswer hx.accounts
  have hx₃ := accounts_succ hanswer hx₂
  have hlength := hfull (by omega) hstarted₁ hx.accounts
  have hlength₂ := hfull (by omega) hstarted₂ hx₂
  have hlength₃ := hfull (by omega) hstarted₃ hx₃
  have hnext := hx.accounts.waiting_of_full (i := busInputs u inp (n + 1)) hlength
  have hnext₂ := hx₂.waiting_of_full (i := busInputs u inp (n + 1 + 1)) hlength₂
  have hkept : (chipRun u inp (n + 1)).bus.bus.spltWen (busInputs u inp (n + 1)) = false := by
    rw [Bool.eq_false_iff]
    intro hwen
    have hone := congrArg Bool.toNat hwen
    rw [Bool.toNat_true] at hone
    omega
  have hmoves := hx.accounts.spltWen_next (hanswer (n + 1)).conform (h.prompt _ hstarted₁)
    (h.prompt _ hstarted₂) (h.masters_ready hstarted₁) hx.serving hroom
    (List.length_pos_iff.mp (by omega)) hkept
  have hone : ((chipRun u inp (n + 1 + 1)).bus.bus.spltWen
      (busInputs u inp (n + 1 + 1))).toNat = 1 := congrArg Bool.toNat hmoves
  omega

/-- While the core waits, what the CPU still has in transit shrinks until a response
comes. -/
theorem backlog_moved (h : Undisturbed u inp) {n : Nat} (hstarted : Started inp n)
    {x : Traffic} {block : Word → Prop} (hx : Linked block mem (chipRun u inp n) x)
    (hpending : (chipRun u inp n).core.ledger.pending ≠ [])
    (hrsp : (coreInputs u inp n).cnnIcbRspValid = false) :
    Accounts.backlog .mem ((chipRun u inp n).bus.moved (busInputs u inp n) x) <
      Accounts.backlog .mem x := by
  have hsome : x.held ≠ [] := by
    intro hnil
    have hlink := hx.pending
    rw [hnil] at hlink
    exact hpending (List.map_eq_nil_iff.mp hlink)
  have hport : ∀ e, x.returning.head? = some e → e.1.1 = .mem := by
    -- the response is for the CPU, since the core gets none
    intro e he
    have hwire : (coreInputs u inp n).cnnIcbRspValid =
        (chipRun u inp n).bus.bus.icbRspValid .cnn := rfl
    rw [hwire, (hx.accounts.rsp_wires (busInputs u inp n) .cnn).1, he] at hrsp
    cases hp : e.1.1 with
    | mem => rfl
    | cnn => simp [hp] at hrsp
  have hnone : ofPort .mem ((chipRun u inp n).bus.bus.accepts (busInputs u inp n)).toList =
      [] := by
    have hsilent : (busInputs u inp n).mem.cmdValid = false := h.silent n hstarted
    rw [ofPort_accepted, BusInput.master, hsilent]
    rfl
  have hless := hx.accounts.backlog_moved (h.prompt n hstarted) hx.serving
    (h.masters_ready hstarted) hsome hport
  rwa [hnone, List.length_nil, Nat.mul_zero, Nat.add_zero] at hless

/-- What is outstanding is answered. -/
theorem answers_pending (h : Undisturbed u inp) (hanswer : Answering u inp (InJob inp) mem)
    (n : Nat) (hbusy : (busChannel (coreInputs u inp)).busy n) :
    ∃ m, n ≤ m ∧ (busChannel (coreInputs u inp)).respond m := by
  have hstarted : Started inp n := by
    by_contra hnot
    cases n with
    | zero => exact hbusy rfl
    | succ n =>
        have hempty := hanswer.ledger_empty fun hs => hnot (hs.mono (Nat.le_succ n))
        rw [chipRun_core] at hempty
        exact hbusy (by rw [hempty]; rfl)
  rcases exists_linked hanswer n with ⟨x, hx⟩
  induction hsize : Accounts.backlog .mem x using Nat.strong_induction_on generalizing n x with
  | _ size ih =>
      subst hsize
      by_cases hrsp : (busChannel (coreInputs u inp)).respond n
      · exact ⟨n, le_refl n, hrsp⟩
      · have hpending : (chipRun u inp n).core.ledger.pending ≠ [] := by
          rw [chipRun_core]
          exact hbusy
        have hless := h.backlog_moved hstarted hx hpending (by simpa [busChannel] using hrsp)
        have hnext := linked_succ hanswer hx
        rcases ih _ hless (n + 1) (busy_succ hanswer.conforming hbusy hrsp)
          (hstarted.mono (Nat.le_succ n)) _
          (hnext.mono fun _ hblock => ⟨hstarted, hblock.2⟩) rfl with ⟨m, hm, hresponse⟩
        exact ⟨m, by omega, hresponse⟩

/-- The bus is a fair slave of the core. -/
theorem fair (h : Undisturbed u inp) (hanswer : Answering u inp (InJob inp) mem) :
    (busChannel (coreInputs u inp)).Fair where
  takes := h.takes_presented hanswer
  answers := h.answers_pending hanswer

/-- So the first job ends. -/
theorem exists_finishes (h : Undisturbed u inp) (hanswer : Answering u inp (InJob inp) mem)
    (hlater : Registered u inp) (henable : ∃ n, (inp n).enable = true) :
    ∃ n, FinishesJob (coreInputs u inp) n := by
  have hconf := hanswer.conforming
  have honce := (acceptsOnce_both hanswer hlater).1
  exact CnnCore.exists_finishes hconf (h.fair hanswer) henable honce
    (h.takesOne hanswer hlater weightPhase_lawful blockSlave_weight (weight_traced hconf))
    (h.takesOne hanswer hlater imagePhase_lawful blockSlave_image (image_traced hconf honce))

end Undisturbed

/-! ## Slaves that do so -/

/-- Slaves that are always ready and answer in the cycle after, reads from {lit}`mem`.  The
CPU reads during the first four cycles; the accelerator is enabled from cycle eight on. -/
def storingSlaves (mem : Word → Word) (s : OnChip) (n : Nat) : OnChipInput where
  enable := decide (8 ≤ n)
  mem :=
    { cmdValid := decide (n < 4)
      cmd := { read := true, addr := 0x2000#32, wdata := 0#32, wmask := 0#4 }
      rspReady := true }
  oCmdReady _ := true
  oRspValid k := decide ((s.bus.log.answered k).length < (s.bus.log.taken k).length)
  oRspErr _ := false
  oRspRdata k :=
    ((s.bus.log.taken k)[(s.bus.log.answered k).length]?).elim 0#32 fun c => mem c.addr

/-- A chip that powered up with zeros. -/
def zeroPowerUp : PowerUp where
  rspid _ := 0#1
  cmd _ := 0#69
  rsp _ := 0#33
  splt := 0#9

/-- What these slaves and the CPU drive on the running chip. -/
def storingInputs (mem : Word → Word) (n : Nat) : OnChipInput :=
  storingSlaves mem
    (run (fun s k => s.step (storingSlaves mem s k)) (OnChip.reset zeroPowerUp) id n) n

/-- They see the chip as it is in the cycle. -/
theorem storingInputs_eq (mem : Word → Word) (n : Nat) :
    storingInputs mem n = storingSlaves mem (chipRun zeroPowerUp (storingInputs mem) n) n :=
  congrArg (fun s => storingSlaves mem s n)
    (run_closed OnChip.step (OnChip.reset zeroPowerUp) (storingSlaves mem) n).symm

/-- They store. -/
theorem storingSlaves_serve (block : Word → Prop) (mem : Word → Word) (s : OnChip) (n : Nat) :
    SlavesServe block mem s.bus (s.busInput (storingSlaves mem s n)) := by
  intro k hk hrsp
  rw [Bool.and_eq_true, MemBus.oRspValid, if_neg hk] at hrsp
  by_cases hO2 : k = portO2
  · rw [if_pos hO2] at hrsp
    exact absurd hrsp.1 Bool.false_ne_true
  · rw [if_neg hO2] at hrsp
    have howes : (s.bus.log.answered k).length < (s.bus.log.taken k).length :=
      of_decide_eq_true hrsp.1
    have hcmd := List.getElem?_eq_getElem howes
    refine ⟨_, (List.getElem?_append_left howes).trans hcmd, fun _ _ => ?_⟩
    have hword : (MemBus.oRsp (s.busInput (storingSlaves mem s n)) k).rdata =
        (storingSlaves mem s n).oRspRdata k := by
      rw [MemBus.oRsp, if_neg hk, if_neg hO2]
      split_ifs <;> rfl
    rw [hword]
    exact congrArg (fun c : Option BusCmd => c.elim 0#32 fun c => mem c.addr) hcmd

/-- They answer in every cycle of the run. -/
theorem storing_answering (mem : Word → Word) (block : Nat → Word → Prop) :
    Answering zeroPowerUp (storingInputs mem) block mem := by
  intro n
  rw [busInputs, storingInputs_eq]
  exact storingSlaves_serve (block n) mem _ n

/-- A slave that waits for its log to grow answers later than it takes. -/
theorem storing_later (mem : Word → Word) (n : Nat) {k : Fin 9} (hk : k ≠ deft)
    (hO2 : k ≠ portO2) : AnswersLater (chipRun zeroPowerUp (storingInputs mem) n).bus
      (busInputs zeroPowerUp (storingInputs mem) n) k := by
  rw [busInputs, storingInputs_eq]
  intro hrsp
  rw [Bool.and_eq_true, MemBus.oRspValid, if_neg hk, if_neg hO2] at hrsp
  exact of_decide_eq_true hrsp.1

/-- They answer later than they take. -/
theorem storing_registered (mem : Word → Word) : Registered zeroPowerUp (storingInputs mem) where
  weight n := storing_later mem n (by decide) (by decide)
  image n := storing_later mem n (by decide) (by decide)
  cpu m _ n _ := storing_later mem n (by change target 0x2000#32 ≠ deft; decide)
    (target_ne_portO2 _)

/-- They are prompt, and the CPU is quiet from the start on. -/
theorem storing_undisturbed (mem : Word → Word) :
    Undisturbed zeroPowerUp (storingInputs mem) where
  silent n := by
    rintro ⟨m, hm, henable⟩
    have hlate : 8 ≤ m := of_decide_eq_true henable
    exact decide_eq_false (by omega)
  takes _ _ _ := rfl
  prompt n _ := by
    rw [busInputs, storingInputs_eq]
    exact ⟨fun k _ _ howes => decide_eq_true howes, fun _ _ _ _ _ => rfl⟩

/-! ## The first job -/

/-- When the first job on the chip leaves {lit}`STORE`, the bus has taken exactly the
forty-eight commands of the job from the accelerator, in order and with the results of
the blocks as they were stored, and has answered each of them, the reads with the stored
words; whatever the CPU did on the bus meanwhile. -/
theorem chip_job_commands (h : Answering u inp (InJob inp) mem) (hlater : Registered u inp)
    {n : Nat} (hfin : FinishesJob (coreInputs u inp) n) :
    (chipRun u inp (n + 1)).bus.log.acceptedAt .cnn = (jobCommands mem).map busCmd ∧
      ((chipRun u inp (n + 1)).bus.log.deliveredAt .cnn).length = 48 ∧
      ∀ (k : Nat) (c : Command) (r : BusRsp), (jobCommands mem)[k]? = some c →
        ((chipRun u inp (n + 1)).bus.log.deliveredAt .cnn)[k]? = some r →
        c.read = true → r.rdata = mem c.addr := by
  rcases ledger_of_finishes h hlater hfin with ⟨hanswered, -⟩
  rcases exists_linked h (n + 1) with ⟨x, hx⟩
  refine ⟨acceptedAt_of_finishes h hlater hfin, ?_, ?_⟩
  · have hlength := congrArg List.length hx.delivered
    rw [List.length_map, List.length_map, ← List.length_map Prod.fst, hanswered] at hlength
    simpa [jobCommands] using hlength
  · intro k c r hc hr hread
    rw [← hanswered, List.getElem?_map, Option.map_eq_some_iff] at hc
    rcases hc with ⟨e, he, rfl⟩
    have hword := congrArg (fun l : List Word => l[k]?) hx.delivered
    simp only [List.getElem?_map, hr, he, Option.map_some, Option.some_inj] at hword
    have hmem := List.mem_of_getElem? he
    rw [hword]
    rw [chipRun_core] at hmem
    refine answersFrom_chip h (n + 1) e hmem hread ?_
    -- every read of the job is a read of one of the blocks
    have hjob : e.1 ∈ jobCommands mem := by
      rw [← hanswered, chipRun_core]
      exact List.mem_map_of_mem hmem
    rcases List.mem_append.mp hjob with hreads | hwrite
    · rcases List.mem_append.mp hreads with hmem | hmem <;>
        rcases List.mem_map.mp hmem with ⟨j, hj, heq⟩ <;> rw [← heq]
      · exact ⟨j, List.mem_range.mp hj, Or.inl rfl⟩
      · exact ⟨j, List.mem_range.mp hj, Or.inr rfl⟩
    · rcases List.mem_map.mp hwrite with ⟨j, -, heq⟩
      rw [← heq] at hread
      exact absurd hread Bool.false_ne_true

/-- With these slaves the job ends and has issued its commands. -/
theorem chip_job_commands_storing : ∃ n,
    (chipRun zeroPowerUp (storingInputs blockMemory) (n + 1)).bus.log.acceptedAt .cnn =
      (jobCommands blockMemory).map busCmd := by
  have hanswer := storing_answering blockMemory (InJob (storingInputs blockMemory))
  have hlater := storing_registered blockMemory
  rcases (storing_undisturbed blockMemory).exists_finishes hanswer hlater ⟨8, rfl⟩ with ⟨n, hfin⟩
  exact ⟨n, (chip_job_commands hanswer hlater hfin).1⟩

/-- When the CPU asks for nothing any more, takes the responses that it is still given, and
the slaves are prompt, an enabled accelerator ends its first job, and has then put exactly
the commands of the job over the stored blocks on the bus. -/
theorem chip_job_completes (h : Answering u inp (InJob inp) mem) (hlater : Registered u inp)
    (hundisturbed : Undisturbed u inp) (henable : ∃ n, (inp n).enable = true) :
    ∃ n, FinishesJob (coreInputs u inp) n ∧
      (chipRun u inp (n + 1)).core.ledger.pending = [] ∧
      (chipRun u inp (n + 1)).bus.log.acceptedAt .cnn = (jobCommands mem).map busCmd := by
  rcases hundisturbed.exists_finishes h hlater henable with ⟨n, hfin⟩
  exact ⟨n, hfin, (ledger_of_finishes h hlater hfin).2, acceptedAt_of_finishes h hlater hfin⟩

/-- With these slaves, and a CPU that reads before the start, the job ends. -/
theorem chip_job_completes_storing : ∃ n,
    FinishesJob (coreInputs zeroPowerUp (storingInputs blockMemory)) n ∧
      (chipRun zeroPowerUp (storingInputs blockMemory) (n + 1)).core.ledger.pending = [] ∧
      (chipRun zeroPowerUp (storingInputs blockMemory) (n + 1)).bus.log.acceptedAt .cnn =
        (jobCommands blockMemory).map busCmd :=
  chip_job_completes (storing_answering blockMemory _) (storing_registered blockMemory)
    (storing_undisturbed blockMemory) ⟨8, rfl⟩

end Subsys
end AcceleratorSoc
