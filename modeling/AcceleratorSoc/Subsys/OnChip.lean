import AcceleratorSoc.CnnCore.Completion
import AcceleratorSoc.Subsys.MemBusOrder

/-!
# The accelerator on the shared memory bus

{lit}`e203_subsys_main` wires the command and response channel of the core to the port
{lit}`cnn_icb` of the bus.  The core and the bus are clocked together; what comes from
outside is {lit}`enable`, the CPU port and the slaves.

Main results:

- Theorem {lit}`chipRun_core`, {lit}`chipRun_bus`: the parts of the chip run as they do
  alone, each on the inputs that the other one drives.
- Theorem {lit}`Linked.step`: the commands that the core waits for are its commands
  that the bus holds, and answered reads brought what the slaves store.
- Theorem {lit}`Answering.conforming`: the bus is a conforming slave of the core.
- Theorem {lit}`Accounts.not_three_in_row`: how fast the bus takes the commands of a
  port.
-/

namespace AcceleratorSoc
namespace Subsys

open Clocked CnnCore

/-! ## The chip -/

/-- The core with its ledger and the bus with its monitor. -/
structure OnChip where
  core : BusState
  bus : Monitored

/-- What comes from outside in a cycle. -/
structure OnChipInput where
  enable : Bool
  mem : IcbMaster
  oCmdReady : Fin 9 → Bool
  oRspValid : Fin 9 → Bool
  oRspErr : Fin 9 → Bool
  oRspRdata : Fin 9 → BitVec 32

/-- What the register files of the bus and its stage power up with. -/
structure PowerUp where
  rspid : Fin 8 → BitVec 1
  cmd : Fin 2 → BitVec 69
  rsp : Fin 2 → BitVec 33
  splt : BitVec 9

/-- A command of the core on {lit}`cnn_icb`. -/
def busCmd (c : Command) : BusCmd where
  read := c.read
  addr := c.addr
  wdata := c.wdata
  wmask := CoreState.cnnIcbCmdWmask

namespace OnChip

variable (s : OnChip) (i : OnChipInput)

/-- What the core drives on {lit}`cnn_icb`. -/
def cnnIcb : IcbMaster where
  cmdValid := s.core.core.cnnIcbCmdValid
  cmd :=
    { read := s.core.core.cnnIcbCmdRead
      addr := s.core.core.cnnIcbCmdAddr
      wdata := s.core.core.cnnIcbCmdWdata
      wmask := CoreState.cnnIcbCmdWmask }
  rspReady := CoreState.cnnIcbRspReady

/-- Input wires of the bus. -/
def busInput : BusInput where
  mem := i.mem
  cnn := s.cnnIcb
  oCmdReady := i.oCmdReady
  oRspValid := i.oRspValid
  oRspErr := i.oRspErr
  oRspRdata := i.oRspRdata

/-- Input wires of the core. -/
def coreInput : CoreInput where
  enable := i.enable
  cnnIcbCmdReady := s.bus.bus.icbCmdReady (s.busInput i) .cnn
  cnnIcbRspValid := s.bus.bus.icbRspValid .cnn
  cnnIcbRspRdata := s.bus.bus.icbRsp.rdata

/-- One clock edge. -/
def step : OnChip where
  core := s.core.step (s.coreInput i)
  bus := s.bus.step (s.busInput i)

/-- After reset. -/
def reset (u : PowerUp) : OnChip where
  core := BusState.reset
  bus := Monitored.reset u.rspid u.cmd u.rsp u.splt

end OnChip

/-- The chip from reset on. -/
def chipRun (u : PowerUp) (inp : Nat → OnChipInput) : Nat → OnChip :=
  run OnChip.step (OnChip.reset u) inp

/-- What the core sees in each cycle. -/
def coreInputs (u : PowerUp) (inp : Nat → OnChipInput) (n : Nat) : CoreInput :=
  (chipRun u inp n).coreInput (inp n)

/-- What the bus sees in each cycle. -/
def busInputs (u : PowerUp) (inp : Nat → OnChipInput) (n : Nat) : BusInput :=
  (chipRun u inp n).busInput (inp n)

/-- The core on the chip is the core on the inputs it sees. -/
theorem chipRun_core (u : PowerUp) (inp : Nat → OnChipInput) (n : Nat) :
    (chipRun u inp n).core = busRun (coreInputs u inp) n :=
  run_simulation (f := OnChip.core) (g := OnChip.coreInput) (fun _ _ => rfl)
    (OnChip.reset u) inp n

/-- The bus on the chip is the bus on the inputs it sees. -/
theorem chipRun_bus (u : PowerUp) (inp : Nat → OnChipInput) (n : Nat) :
    (chipRun u inp n).bus =
      run Monitored.step (Monitored.reset u.rspid u.cmd u.rsp u.splt) (busInputs u inp) n :=
  run_simulation (f := OnChip.bus) (g := OnChip.busInput) (fun _ _ => rfl)
    (OnChip.reset u) inp n

/-! ## Slaves that store -/

/-- The commands that a slave has taken after this cycle. -/
def takenNow (b : Monitored) (i : BusInput) (k : Fin 9) : List BusCmd :=
  b.log.taken k ++ (if b.bus.oCmdValid k && b.bus.oCmdReady i k then [b.bus.oCmd k] else [])

/-- A response in this cycle answers the oldest command that its slave has taken and not
answered, and a read in the region {lit}`block` gets the stored word. -/
def SlavesServe (block : Word → Prop) (mem : Word → Word) (b : Monitored) (i : BusInput) :
    Prop :=
  ∀ k ≠ deft, (b.bus.oRspValid i k && b.bus.oRspReady k) = true →
    ∃ c, (takenNow b i k)[(b.log.answered k).length]? = some c ∧
      (c.read = true → block c.addr → (MemBus.oRsp i k).rdata = mem c.addr)

/-- In this cycle the slave does not answer the command that it takes. -/
def AnswersLater (b : Monitored) (i : BusInput) (k : Fin 9) : Prop :=
  (b.bus.oRspValid i k && b.bus.oRspReady k) = true →
    (b.log.answered k).length < (b.log.taken k).length

variable {block : Word → Prop} {mem : Word → Word} {b : Monitored} {i : BusInput}
  {x : Traffic}

/-- Such slaves conform. -/
theorem SlavesServe.conform (h : SlavesServe block mem b i) : b.SlavesConform i := by
  intro k hk hrsp
  rcases h k hk hrsp with ⟨c, hc, -⟩
  have hlt := (List.getElem?_eq_some_iff.mp hc).1
  rw [takenNow, List.length_append] at hlt
  cases hnow : b.bus.oCmdValid k && b.bus.oCmdReady i k
  · rw [hnow, if_neg Bool.false_ne_true, List.length_nil] at hlt
    exact Or.inl hlt
  · exact Or.inr rfl

/-- The commands in transit after a cycle. -/
def Monitored.moved (b : Monitored) (i : BusInput) (x : Traffic) : Traffic :=
  x.cycle (b.bus.accepts i) (b.bus.spltWen i) (b.bus.answers i) (b.bus.rspidRen i)

namespace Accounts

/-- The accounts after a cycle in which the slaves conform. -/
theorem moved (h : Accounts b x) (hconform : b.SlavesConform i) :
    Accounts (b.step i) (b.moved i x) :=
  h.step hconform

/-- A slave has answered the commands that have been served. -/
theorem length_answered_eq (h : Accounts b x) (k : Fin 9) : (b.log.answered k).length =
    (((x.served.map Prod.fst).filter (goesTo k)).map Prod.snd).length := by
  rw [h.answered, List.filter_map, List.length_map, List.length_map, List.length_map]
  rfl

/-- The commands that a slave took before and did not answer are at the splitter's
stage. -/
theorem unanswered_before (h : Accounts b x) (k : Fin 9) :
    (b.log.taken k)[(b.log.answered k).length]? =
      ((x.serving.filter (goesTo k)).map Prod.snd)[0]? := by
  rw [h.length_answered_eq, h.taken, Transit.handed, List.filter_append, List.map_append,
    List.getElem?_append_right (le_refl _), Nat.sub_self]

/-- With the command of this cycle, they are what the splitter has handed over. -/
theorem unanswered_now (h : Accounts b x) (i : BusInput) (k : Fin 9) :
    (takenNow b i k)[(b.log.answered k).length]? =
      (((x.serving ++ x.waiting.take (b.bus.spltWen i).toNat).filter (goesTo k)).map
        Prod.snd)[0]? := by
  rw [takenNow, h.taken_cycle, h.length_answered_eq, h.taken, ← List.map_append, ← List.filter_append,
    Transit.handed, List.append_assoc, List.filter_append, List.map_append,
    List.getElem?_append_right (le_refl _), Nat.sub_self]

/-- A response to a read in the region carries the stored word. -/
theorem answer_stored (h : Accounts b x) (hserve : SlavesServe block mem b i)
    (hmapped : ∀ a, block a → target a ≠ deft) :
    ∀ e ∈ (x.serving ++ x.waiting.take (b.bus.spltWen i).toNat).zip
        (b.bus.answers i).toList,
      e.1.2.read = true → block e.1.2.addr → e.2.rdata = mem e.1.2.addr := by
  intro e he hread hblock
  rcases h.answering hserve.conform with ⟨t, hport, hhead⟩
  rcases b.bus.rsp_of_portId i hport with ⟨hready, hren, hrsp⟩
  cases hanswer : b.bus.spltRen i with
  | false => simp [MemBus.answers, hanswer] at he
  | true =>
      rcases hhead hanswer with ⟨q, hgoes, hqueue⟩
      rw [hqueue, MemBus.answers, hanswer, if_pos rfl, hrsp, BusRsp.unpack_pack] at he
      simp only [Option.toList_some, List.zip_cons_cons, List.zip_nil_right,
        List.mem_singleton] at he
      subst he
      have ht : target q.2.addr = t := of_decide_eq_true hgoes
      rw [hren, Bool.and_eq_true] at hanswer
      rcases hserve t (ht ▸ hmapped _ hblock)
        (by rw [hanswer.1, hready, decide_eq_true rfl, hanswer.2]; rfl) with ⟨c, hc, hword⟩
      rw [h.unanswered_now, hqueue, List.filter_cons_of_pos hgoes] at hc
      obtain rfl : q.2 = c := Option.some.inj hc
      exact hword hread hblock

/-- The default slave answers in the cycle in which it takes a command, so that none of
its commands stays at the stage. -/
theorem serving_cycle (h : Accounts b x) (i : BusInput)
    (hserving : ∀ e ∈ x.serving, target e.2.addr ≠ deft) :
    ∀ e ∈ (b.moved i x).serving, target e.2.addr ≠ deft := by
  intro e he
  change e ∈ (x.serving ++ x.waiting.take (b.bus.spltWen i).toNat).drop
    (b.bus.answers i).toList.length at he
  rcases List.mem_append.mp (List.mem_of_mem_drop he) with hold | hnew
  · exact hserving e hold
  · rcases h.spltStage with ⟨hvld, hnone⟩ | ⟨_, hvld, -, -⟩
    · rcases MemBus.splt_idle i hvld with ⟨hport, hvalid, hwen⟩
      cases hwaiting : x.waiting with
      | nil => simp [hwaiting] at hnew
      | cons q rest =>
          have hsome := h.bufCmdValid_of_cons hwaiting
          rw [h.selected_of_cons hwaiting] at hport hvalid hwen
          rw [hsome, Bool.true_and] at hwen
          rcases b.bus.rsp_of_portId i hport with ⟨hready, hren, -⟩
          rw [hnone, hwaiting, hwen, List.nil_append] at he
          rw [hwaiting, hwen] at hnew
          cases hhand : b.bus.oCmdReady i (target q.2.addr) with
          | false => simp [hhand] at hnew
          | true =>
              have heq : e = q := by simpa [hhand] using hnew
              subst heq
              intro hdeft
              rw [hdeft] at hready hren hhand he
              rw [hhand] at he
              have hroom := hready deft
              rw [MemBus.oCmdReady, if_pos rfl, hroom, decide_eq_true rfl,
                Bool.true_and] at hhand
              have hanswer : b.bus.spltRen i = true := by
                rw [hren, hhand, MemBus.oRspValid, if_pos rfl, hvalid, hsome,
                  decide_eq_true hdeft.symm]
                rfl
              simp [MemBus.answers, hanswer] at he
    · rw [(MemBus.splt_busy i hvld).2.2] at hnew
      simp at hnew

end Accounts

/-! ## The link between core and bus -/

/-- Commands of a port, without the port. -/
def ofPort (p : Port) (l : List (Port × BusCmd)) : List BusCmd :=
  (l.filter fun (e : Port × BusCmd) => e.1 = p).map Prod.snd

/-- Commands of a port are collected part by part. -/
theorem ofPort_append (p : Port) (l l' : List (Port × BusCmd)) :
    ofPort p (l ++ l') = ofPort p l ++ ofPort p l' := by
  rw [ofPort, List.filter_append, List.map_append]
  rfl

/-- There are none when every command comes from another port. -/
theorem ofPort_eq_nil_iff {p : Port} {l : List (Port × BusCmd)} :
    ofPort p l = [] ↔ ∀ e ∈ l, e.1 ≠ p := by
  rw [ofPort, List.map_eq_nil_iff, List.filter_eq_nil_iff]
  simp only [decide_eq_true_eq, ne_eq]

/-- What the core knows of its commands is what the bus knows of them, and every read
in the region {lit}`block` that has been answered brought the stored word. -/
structure Linked (block : Word → Prop) (mem : Word → Word) (s : OnChip) (x : Traffic) :
    Prop where
  accounts : Accounts s.bus x
  accepted : s.core.ledger.accepted.map busCmd = s.bus.log.acceptedAt .cnn
  pending : s.core.ledger.pending.map busCmd = ofPort .cnn x.held
  delivered : (s.bus.log.deliveredAt .cnn).map BusRsp.rdata =
    s.core.ledger.answered.map Prod.snd
  serving : ∀ e ∈ x.serving, target e.2.addr ≠ deft
  returning : ∀ e ∈ x.returning, e.1.1 = .cnn → e.1.2.read = true → block e.1.2.addr →
    e.2.rdata = mem e.1.2.addr
  answered : ∀ e ∈ s.core.ledger.answered, e.1.read = true → block e.1.addr →
    e.2 = mem e.1.addr

/-- After reset. -/
theorem Linked.reset (u : PowerUp) : Linked block mem (OnChip.reset u) Transit.empty where
  accounts := Accounts.reset u.rspid u.cmd u.rsp u.splt
  accepted := rfl
  pending := rfl
  delivered := rfl
  serving _ he := absurd he (by simp [Transit.empty])
  returning _ he := absurd he (by simp [Transit.empty])
  answered _ he := absurd he (by simp [OnChip.reset, BusState.reset])

/-- A handshake is seen on its own port only. -/
theorem ofPort_acceptedOn (s : MemBus) (i : BusInput) (p q : Port) :
    ofPort p (BusLog.acceptedOn s i q) =
      if q = p ∧ ((i.master p).cmdValid && s.icbCmdReady i p) = true then
        [(i.master p).cmd]
      else [] := by
  unfold BusLog.acceptedOn ofPort
  by_cases hq : q = p
  · subst hq
    cases (i.master q).cmdValid && s.icbCmdReady i q <;> simp
  · cases (i.master q).cmdValid && s.icbCmdReady i q <;> simp [hq]

/-- What the bus accepts from a port in a cycle. -/
theorem ofPort_accepted (s : MemBus) (i : BusInput) (p : Port) :
    ofPort p (s.accepts i).toList =
      if (i.master p).cmdValid && s.icbCmdReady i p then [(i.master p).cmd] else [] := by
  rw [← MemBus.acceptedOn_append, ofPort_append, ofPort_acceptedOn, ofPort_acceptedOn]
  cases p <;> simp

/-- The log of a port gets what is accepted from it. -/
theorem Monitored.acceptedAt_step (b : Monitored) (i : BusInput) (p : Port) :
    (b.step i).log.acceptedAt p =
      b.log.acceptedAt p ++ ofPort p (b.bus.accepts i).toList := by
  rw [← MemBus.acceptedOn_append]
  exact ofPort_append p _ _

/-- No response is taken back. -/
theorem Monitored.length_deliveredAt_step (b : Monitored) (i : BusInput) (p : Port) :
    (b.log.deliveredAt p).length ≤ ((b.step i).log.deliveredAt p).length := by
  rw [BusLog.deliveredAt, BusLog.deliveredAt, List.length_map, List.length_map]
  change _ ≤ (List.filter _ (b.log.delivered ++ _)).length
  rw [List.filter_append, List.length_append]
  exact Nat.le_add_right _ _

/-- The bus accepts a command on {lit}`cnn_icb` exactly when the core hands it over. -/
theorem ofPort_accepts (s : OnChip) (i : OnChipInput) :
    ofPort .cnn (s.bus.bus.accepts (s.busInput i)).toList =
      (s.core.acceptedCommand (s.coreInput i)).toList.map busCmd := by
  rw [ofPort_accepted]
  change (if (s.core.core.cnnIcbCmdValid && (s.coreInput i).cnnIcbCmdReady) = true
    then _ else _) = _
  unfold BusState.acceptedCommand CoreState.cnnIcbCmdHsk
  split_ifs <;> rfl

/-- What the monitor sees delivered on {lit}`cnn_icb` in a cycle is the core's response. -/
theorem deliveredOn_eq (s : OnChip) (i : OnChipInput) :
    ((BusLog.deliveredOn s.bus.bus (s.busInput i) .mem ++
      BusLog.deliveredOn s.bus.bus (s.busInput i) .cnn).filter
        fun (e : Port × BusRsp) => e.1 = .cnn).map (fun e => e.2.rdata) =
      (BusState.response (s.coreInput i)).toList := by
  have hmem : (BusLog.deliveredOn s.bus.bus (s.busInput i) .mem).filter
      (fun (e : Port × BusRsp) => e.1 = .cnn) = [] := by
    unfold BusLog.deliveredOn
    split_ifs <;> simp
  rw [List.filter_append, hmem, List.nil_append]
  unfold BusLog.deliveredOn BusState.response CoreState.cnnIcbRspHsk
  change _ = (if (s.bus.bus.icbRspValid .cnn && true) = true then _ else _ :
    Option Word).toList
  cases hvalid : s.bus.bus.icbRspValid .cnn <;>
    simp [BusInput.master, OnChip.busInput, OnChip.cnnIcb, OnChip.coreInput,
      CoreState.cnnIcbRspReady]

/-- The response at the head of the bus, when there is one, goes to the port of the
oldest command that is held. -/
theorem Accounts.rsp_wires (h : Accounts b x) (i : BusInput) (p : Port) :
    b.bus.icbRspValid p = ((x.returning.head?).any fun (e : (Port × BusCmd) × BusRsp) =>
      e.1.1 = p) ∧
    b.bus.rspidRen i = ((x.returning.head?).any fun (e : (Port × BusCmd) × BusRsp) =>
      (i.master e.1.1).rspReady) ∧
    ∀ e, x.returning.head? = some e → b.bus.icbRsp = e.2 := by
  have hrsp := h.rspFifo
  have hid := h.rspidFifo
  unfold MemBus.icbRspValid MemBus.rspidRen MemBus.arbtRspReady MemBus.arbtRspPortId
    MemBus.rspidEmpty MemBus.icbRsp
  cases hreturning : x.returning with
  | nil =>
      rw [hreturning] at hrsp
      simp [hrsp.oVld]
  | cons e rest =>
      rw [hreturning, List.map_cons] at hrsp
      rw [Transit.held, hreturning, List.map_cons, List.cons_append, List.cons_append,
        List.map_cons] at hid
      rw [hid.oVld, hid.oDat, hrsp.oVld, hrsp.oDat, BusRsp.unpack_pack]
      rcases e with ⟨⟨_ | _, c⟩, r⟩ <;> cases p <;> simp [Port.id, BusInput.master]

/-- Taking the oldest command off a queue takes it off the commands of its port. -/
theorem ofPort_cons (p : Port) (e : Port × BusCmd) (l : List (Port × BusCmd)) :
    ofPort p (e :: l) = if e.1 = p then e.2 :: ofPort p l else ofPort p l := by
  rw [ofPort, List.filter_cons]
  by_cases he : e.1 = p
  · simp [he, ofPort]
  · simp [he, ofPort]

/-- Commands that all come from one port. -/
theorem eq_map_ofPort {p : Port} {l : List (Port × BusCmd)} (h : ∀ e ∈ l, e.1 = p) :
    l = (ofPort p l).map (Prod.mk p) := by
  induction l with
  | nil => rfl
  | cons e rest ih =>
      have hhead : e.1 = p := h e List.mem_cons_self
      rw [ofPort_cons, if_pos hhead, List.map_cons,
        ← ih fun d hd => h d (List.mem_cons_of_mem e hd), ← hhead]

namespace Linked

variable {s : OnChip}

/-- The core gets the response at the head of the bus if it is for {lit}`cnn_icb`. -/
theorem response_eq (h : Linked block mem s x) (i : OnChipInput) :
    (BusState.response (s.coreInput i) = none ∧
        ∀ e, x.returning.head? = some e → e.1.1 = .mem) ∨
      ∃ e, x.returning.head? = some e ∧ e.1.1 = .cnn ∧
        BusState.response (s.coreInput i) = some e.2.rdata := by
  rcases h.accounts.rsp_wires (s.busInput i) .cnn with ⟨hvalid, -, hrsp⟩
  have hwire : (s.coreInput i).cnnIcbRspValid = s.bus.bus.icbRspValid .cnn := rfl
  cases hhead : x.returning.head? with
  | none =>
      rw [hhead] at hvalid
      exact Or.inl ⟨BusState.response_eq_none (hwire.trans hvalid), by simp⟩
  | some e =>
      rw [hhead, Option.any_some] at hvalid
      rcases e with ⟨⟨_ | _, c⟩, r⟩
      · refine Or.inl ⟨BusState.response_eq_none (hwire.trans hvalid), ?_⟩
        intro e he
        rw [← Option.some.inj he]
      · refine Or.inr ⟨_, rfl, rfl, ?_⟩
        rw [BusState.response_eq_some (hwire.trans hvalid)]
        exact congrArg (fun r : BusRsp => some r.rdata) (hrsp _ hhead)

/-- A response on {lit}`cnn_icb` finds a command that the core waits for. -/
theorem slaveConforms (h : Linked block mem s x) (i : OnChipInput) :
    s.core.SlaveConforms (s.coreInput i) := by
  intro hrsp hpending
  have hwire : (s.coreInput i).cnnIcbRspValid = s.bus.bus.icbRspValid .cnn := rfl
  rw [hwire, (h.accounts.rsp_wires (s.busInput i) .cnn).1] at hrsp
  cases hreturning : x.returning with
  | nil => simp [hreturning] at hrsp
  | cons e rest =>
      have hport : e.1.1 = .cnn := by simpa [hreturning] using hrsp
      have hheld := h.pending
      rw [hpending, Transit.held, hreturning, List.map_cons, List.cons_append,
        List.cons_append, ofPort_cons, if_pos hport] at hheld
      exact absurd hheld (by simp)

/-- What the bus still holds of the core's commands when a response has left it. -/
theorem held_drop (h : Linked block mem s x) (i : OnChipInput) :
    ofPort .cnn (x.held.drop (s.bus.bus.rspidRen (s.busInput i)).toNat) =
      (ofPort .cnn x.held).drop (BusState.response (s.coreInput i)).toList.length := by
  rcases h.accounts.rsp_wires (s.busInput i) .cnn with ⟨-, hren, -⟩
  rw [hren]
  cases hreturning : x.returning with
  | nil =>
      rcases h.response_eq i with ⟨hnone, -⟩ | ⟨e, he, -⟩
      · simp [hnone]
      · simp [hreturning] at he
  | cons e rest =>
      have hheld : x.held = e.1 :: (rest.map Prod.fst ++ x.serving ++ x.waiting) := by
        rw [Transit.held, hreturning]
        rfl
      rw [List.head?_cons, Option.any_some, hheld, ofPort_cons]
      rcases h.response_eq i with ⟨hnone, hmem⟩ | ⟨d, hd, hport, hsome⟩
      · have hport := hmem e (by rw [hreturning]; rfl)
        rw [hnone, hport, if_neg (by simp)]
        cases ((s.busInput i).master .mem).rspReady
        · simp [ofPort_cons, hport]
        · simp
      · rw [hreturning, List.head?_cons, Option.some_inj] at hd
        subst hd
        rw [hsome, hport, if_pos rfl]
        rfl

/-- The link is kept in every cycle. -/
theorem step (h : Linked block mem s x) {i : OnChipInput}
    (hserve : SlavesServe block mem s.bus (s.busInput i))
    (hmapped : ∀ a, block a → target a ≠ deft) :
    Linked block mem (s.step i) (s.bus.moved (s.busInput i) x) := by
  have hheld : s.bus.bus.rspidRen (s.busInput i) = true → x.returning ≠ [] := by
    rintro hren hnone
    rw [(h.accounts.rsp_wires (s.busInput i) .cnn).2.1, hnone] at hren
    exact Bool.false_ne_true hren
  constructor
  · exact h.accounts.moved hserve.conform
  · have hlog := s.bus.acceptedAt_step (s.busInput i) .cnn
    change _ = (s.bus.step (s.busInput i)).log.acceptedAt .cnn
    rw [hlog, ofPort_accepts, ← h.accepted, ← List.map_append, ← Ledger.accepted_cycle]
    rfl
  · rw [Monitored.moved, x.held_cycle _ _ _ _ hheld, ofPort_append, h.held_drop i, ofPort_accepts,
      ← h.pending, ← List.map_drop, ← List.map_append, ← Ledger.pending_cycle]
    rfl
  · have hlog : ((s.step i).bus.log.deliveredAt .cnn).map BusRsp.rdata =
        (s.bus.log.deliveredAt .cnn).map BusRsp.rdata ++
          (BusState.response (s.coreInput i)).toList := by
      rw [← deliveredOn_eq s i, BusLog.deliveredAt, BusLog.deliveredAt, List.map_map,
        List.map_map]
      change List.map _ (List.filter _ (s.bus.log.delivered ++ _)) = _
      rw [List.filter_append, List.map_append]
      rfl
    rw [hlog, h.delivered]
    refine (Ledger.responses_cycle fun hsome => ?_).symm
    apply h.slaveConforms i
    cases hvalid : (s.coreInput i).cnnIcbRspValid with
    | true => rfl
    | false => simp [BusState.response_eq_none hvalid] at hsome
  · exact h.accounts.serving_cycle (s.busInput i) h.serving
  · intro e he
    rcases List.mem_append.mp he with hold | hnew
    · exact h.returning e (List.mem_of_mem_drop hold)
    · exact fun _ => h.accounts.answer_stored hserve hmapped e hnew
  · intro e he hread hblock
    rcases Ledger.mem_answered_cycle he with hold | ⟨holdest, hrsp⟩
    · exact h.answered e hold hread hblock
    · rcases h.response_eq i with ⟨hnone, -⟩ | ⟨d, hd, hport, hsome⟩
      · rw [hnone] at hrsp
        exact absurd hrsp (by simp)
      · rw [hsome, Option.some_inj] at hrsp
        have hcmd : busCmd e.1 = d.1.2 := by
          have hpending := congrArg List.head? h.pending
          rw [List.head?_map, holdest, Transit.held] at hpending
          obtain ⟨rest, hrest⟩ := List.head?_eq_some_iff.mp hd
          rw [hrest, List.map_cons, List.cons_append, List.cons_append, ofPort_cons,
            if_pos hport] at hpending
          exact Option.some.inj hpending
        have hd' := h.returning d (List.mem_of_mem_head? hd) hport (by rw [← hcmd]; exact hread)
          (by rw [← hcmd]; exact hblock)
        rw [← hrsp, hd', ← hcmd]
        rfl

/-- A smaller region says less. -/
theorem mono {block' : Word → Prop} (h : Linked block mem s x) (hsub : ∀ a, block' a → block a) :
    Linked block' mem s x :=
  { h with
    returning := fun e he hport hread hblock => h.returning e he hport hread (hsub _ hblock)
    answered := fun e he hread hblock => h.answered e he hread (hsub _ hblock) }

/-- Before the core has asked for anything the region does not matter. -/
theorem of_empty {block' : Word → Prop} (h : Linked block mem s x)
    (hledger : s.core.ledger = Ledger.empty) : Linked block' mem s x := by
  have hnone := h.pending
  rw [hledger, Ledger.empty_pending, List.map_nil, eq_comm, ofPort_eq_nil_iff] at hnone
  refine { h with returning := ?_, answered := ?_ }
  · intro e he hport
    refine absurd hport (hnone e.1 ?_)
    exact List.mem_append_left _ (List.mem_append_left _ (List.mem_map_of_mem he))
  · intro e he
    rw [hledger] at he
    exact absurd he List.not_mem_nil

end Linked

/-- The slaves answer from before in every cycle. -/
def Answering (u : PowerUp) (inp : Nat → OnChipInput) (block : Nat → Word → Prop)
    (mem : Word → Word) : Prop :=
  ∀ n, SlavesServe (block n) mem (chipRun u inp n).bus (busInputs u inp n)

/-- Whatever the slaves answer, the link holds up to the words. -/
theorem Answering.exists_linked {u : PowerUp} {inp : Nat → OnChipInput}
    {block : Nat → Word → Prop} (h : Answering u inp block mem) (n : Nat) :
    ∃ x, Linked (fun _ => False) mem (chipRun u inp n) x := by
  induction n with
  | zero => exact ⟨_, Linked.reset u⟩
  | succ n ih =>
      rcases ih with ⟨x, hx⟩
      have hserve : SlavesServe (fun _ => False) mem (chipRun u inp n).bus (busInputs u inp n) := by
        intro k hk hrsp
        rcases h n k hk hrsp with ⟨c, hc, -⟩
        exact ⟨c, hc, fun _ => False.elim⟩
      exact ⟨_, hx.step hserve fun _ => False.elim⟩

/-- The bus is a conforming slave of the core. -/
theorem Answering.conforming {u : PowerUp} {inp : Nat → OnChipInput}
    {block : Nat → Word → Prop} (h : Answering u inp block mem) :
    Conforming (coreInputs u inp) := by
  intro n
  rcases h.exists_linked n with ⟨x, hx⟩
  rw [← chipRun_core]
  exact hx.slaveConforms (inp n)

/-- The accelerator has been enabled. -/
def Started (inp : Nat → OnChipInput) (n : Nat) : Prop :=
  ∃ m ≤ n, (inp m).enable = true

/-- The words that the first job reads, once it has been started. -/
def InJob (inp : Nat → OnChipInput) (n : Nat) (a : Word) : Prop :=
  Started inp n ∧ JobRead a

/-- Before the start the core has asked for nothing. -/
theorem Answering.ledger_empty {u : PowerUp} {inp : Nat → OnChipInput}
    {block : Nat → Word → Prop} (h : Answering u inp block mem) {n : Nat}
    (hnot : ¬Started inp n) : (chipRun u inp (n + 1)).core.ledger = Ledger.empty := by
  rw [chipRun_core]
  refine (waiting_of_job_zero h.conforming ?_).ledger
  refine job_zero_of_disabled (coreInputs u inp) fun k hk => ?_
  rw [Bool.eq_false_iff]
  exact fun henable => hnot ⟨k, by omega, henable⟩

/-! ## How fast the bus takes commands -/

namespace Accounts

/-- A port is granted while the command buffer has room: the fifo of the arbiter is
deeper than all the buffers behind it together. -/
theorem icbCmdReady_eq (h : Accounts b x) (i : BusInput) (p : Port) :
    b.bus.icbCmdReady i p = (MemBus.cmdGrt i p && decide (x.waiting.length < 2)) := by
  have hwaiting := h.cmdFifo.length_le
  have hreturning := h.rspFifo.length_le
  have hserving : x.serving.length ≤ 1 := by
    rcases h.spltStage with ⟨-, hnone⟩ | ⟨e, -, hone, -⟩
    · simp [hnone]
    · simp [hone]
  rw [List.length_map] at hwaiting hreturning
  have hroom : b.bus.rspidFull = false := by
    rw [MemBus.rspidFull, h.rspidFifo.iRdy, List.length_map, Transit.held]
    simp
    omega
  rw [MemBus.icbCmdReady, hroom, h.cmdFifo.iRdy, List.length_map, Bool.not_false,
    Bool.and_true]

/-- A command is handed over only when one waits. -/
theorem spltWen_le (h : Accounts b x) (i : BusInput) :
    (b.bus.spltWen i).toNat ≤ x.waiting.length := by
  cases hwaiting : x.waiting with
  | nil =>
      rw [MemBus.spltWen, h.bufCmdValid_of_nil hwaiting]
      rfl
  | cons e rest =>
      cases b.bus.spltWen i <;> simp

/-- What waits after a cycle in which a port asks and is ready. -/
theorem waiting_of_ready (h : Accounts b x) {i : BusInput} {p : Port}
    (hvalid : (i.master p).cmdValid = true) (hready : b.bus.icbCmdReady i p = true) :
    (b.moved i x).waiting.length + (b.bus.spltWen i).toNat = x.waiting.length + 1 := by
  have hle := h.spltWen_le i
  have hone : (b.bus.accepts i).toList.length = 1 := by
    have hwen : b.bus.rspidWen i = true := by
      rw [MemBus.icbCmdReady, Bool.and_eq_true, Bool.and_eq_true] at hready
      have hask : (i.mem.cmdValid || i.cnn.cmdValid) = true := by
        cases p with
        | mem => rw [show i.mem.cmdValid = true from hvalid, Bool.true_or]
        | cnn => rw [show i.cnn.cmdValid = true from hvalid, Bool.or_true]
      rw [MemBus.rspidWen, MemBus.arbtCmdValid, hask, hready.2.1, hready.2.2]
      rfl
    rw [MemBus.accepts, if_pos hwen]
    rfl
  simp only [Monitored.moved, Transit.cycle, List.length_append, List.length_drop, hone]
  omega

/-- Something waits after every cycle in which a port asks. -/
theorem waiting_of_asked (h : Accounts b x) {i : BusInput} {p : Port}
    (hvalid : (i.master p).cmdValid = true) : 0 < (b.moved i x).waiting.length := by
  have hle := h.spltWen_le i
  by_cases hroom : x.waiting.length < 2
  · -- with room in the buffer the granted port is ready
    have hgranted : (i.master (MemBus.granted i)).cmdValid = true ∧
        MemBus.cmdGrt i (MemBus.granted i) = true := by
      unfold MemBus.granted
      cases hmem : i.mem.cmdValid
      · cases p with
        | mem => exact absurd (hmem.symm.trans hvalid) Bool.false_ne_true
        | cnn => exact ⟨hvalid, by simp [MemBus.cmdGrt, hmem]⟩
      · exact ⟨hmem, rfl⟩
    have hready : b.bus.icbCmdReady i (MemBus.granted i) = true := by
      rw [h.icbCmdReady_eq, hgranted.2, decide_eq_true hroom]
      rfl
    have hlength := h.waiting_of_ready hgranted.1 hready
    omega
  · have hone : (b.bus.spltWen i).toNat ≤ 1 := by cases b.bus.spltWen i <;> simp
    simp only [Monitored.moved, Transit.cycle, List.length_append, List.length_drop]
    omega

/-- A slave that answers later keeps the splitter busy for at least one more cycle. -/
theorem spltWen_after (h : Accounts b x) (hconform : b.SlavesConform i)
    (hlater : ∀ e ∈ x.waiting, AnswersLater b i (target e.2.addr))
    (hwen : b.bus.spltWen i = true) (i' : BusInput) : (b.step i).bus.spltWen i' = false := by
  apply (MemBus.splt_busy i' _).2.2
  have hstage := h.spltStage_cycle hconform
  have hanswer : b.bus.answers i = none := by
    rw [MemBus.answers, if_neg]
    intro hren
    rcases h.spltStage with ⟨hvld, hserving⟩ | ⟨_, hvld, -, -⟩
    · -- the command is taken in this cycle, so its slave owed nothing
      rcases h.answering hconform with ⟨t, hport, hhead⟩
      rcases hhead hren with ⟨e, hgoes, hqueue⟩
      have he : e ∈ x.waiting := by
        rw [hserving, List.nil_append] at hqueue
        exact List.mem_of_mem_take (hqueue ▸ List.mem_singleton_self e)
      have ht : target e.2.addr = t := of_decide_eq_true hgoes
      rcases b.bus.rsp_of_portId i hport with ⟨hready, hren', -⟩
      rw [hren', Bool.and_eq_true] at hren
      have howed := hlater e he (by rw [ht, hren.1, hready, decide_eq_true rfl, hren.2]; rfl)
      rw [h.length_answered hserving] at howed
      exact Nat.lt_irrefl _ howed
    · rw [(MemBus.splt_busy i hvld).2.2] at hwen
      exact Bool.false_ne_true hwen
  rw [hanswer, Option.toList_none, List.length_nil, List.drop_zero] at hstage
  rcases hstage with ⟨-, hnone⟩ | ⟨_, hvld, -⟩
  · have hle := h.spltWen_le i
    rw [hwen, Bool.toNat_true, List.append_eq_nil_iff] at hnone
    rw [hwen, Bool.toNat_true] at hle
    have hlength := congrArg List.length hnone.2
    rw [List.length_take, List.length_nil] at hlength
    omega
  · exact hvld

/-- After a cycle in which a port asks, the bus does not take two of its commands in the
next two cycles and is ready for a third one: with slaves that answer later the splitter
hands commands over at most every other cycle, and the buffer has room for two. -/
theorem not_three_in_row (h : Accounts b x) {i₁ i₂ : BusInput} {p : Port}
    (hconform : b.SlavesConform i) (hconform₁ : (b.step i).SlavesConform i₁)
    (hconform₂ : ((b.step i).step i₁).SlavesConform i₂)
    (hask : (i.master p).cmdValid = true)
    (htakes₁ : (i₁.master p).cmdValid = true ∧ (b.step i).bus.icbCmdReady i₁ p = true)
    (htakes₂ : (i₂.master p).cmdValid = true ∧
      ((b.step i).step i₁).bus.icbCmdReady i₂ p = true)
    (hlater : ∀ e ∈ (b.moved i x).waiting, AnswersLater (b.step i) i₁ (target e.2.addr))
    (i₃ : BusInput) :
    (((b.step i).step i₁).step i₂).bus.icbCmdReady i₃ p = false := by
  have h₁ := h.moved hconform
  have h₂ := h₁.moved hconform₁
  have h₃ := h₂.moved hconform₂
  have hsome := h.waiting_of_asked hask
  have hnext₁ := h₁.waiting_of_ready htakes₁.1 htakes₁.2
  have hnext₂ := h₂.waiting_of_ready htakes₂.1 htakes₂.2
  have hroom : ∀ {b : Monitored} {x : Traffic} {i : BusInput}, Accounts b x →
      b.bus.icbCmdReady i p = true → x.waiting.length < 2 := by
    intro b x i h hready
    rw [h.icbCmdReady_eq, Bool.and_eq_true] at hready
    exact of_decide_eq_true hready.2
  have hlt₁ := hroom h₁ htakes₁.2
  have hlt₂ := hroom h₂ htakes₂.2
  rw [Bool.eq_false_iff]
  intro hready
  have hlt₃ := hroom h₃ hready
  have hwen : (b.step i).bus.spltWen i₁ = true := by
    by_contra hnot
    have hzero : ((b.step i).bus.spltWen i₁).toNat = 0 := by
      rw [Bool.not_eq_true] at hnot
      rw [hnot, Bool.toNat_false]
    omega
  have hone := congrArg Bool.toNat hwen
  have hzero := congrArg Bool.toNat (h₁.spltWen_after hconform₁ hlater hwen i₂)
  rw [Bool.toNat_true] at hone
  rw [Bool.toNat_false] at hzero
  omega

end Accounts

end Subsys
end AcceleratorSoc
