import AcceleratorSoc.Clocked.Run
import AcceleratorSoc.Clocked.Transit
import AcceleratorSoc.Subsys.MemBus

/-!
# Order on the shared memory bus

The registers of the bus and the logs of its monitor are accounted for by one
sequence of commands in transit: what waits is in the command buffer, what is
served is noted by the splitter's stage and owed by its slave, what returns is in
the response buffer, and the fifo of the arbiter has the ports of all of them.

Main results:

- Theorem {lit}`Accounts.reset`, {lit}`Accounts.step`: the accounts hold after reset
  and are kept by every cycle in which the slaves conform.
- Theorem {lit}`Accounts.answerTo_delivered`: responses reach the port of their
  command, in order.
- Theorem {lit}`responses_in_order`: the bus at every cycle of a run.
-/

namespace AcceleratorSoc
namespace Subsys

open Clocked

/-! ## Accounts -/

/-- Commands in transit, with the port they came from. -/
abbrev Traffic :=
  Transit (Port × BusCmd) BusRsp

/-- The command's address lies in the region of slave {lit}`k`. -/
def goesTo (k : Fin 9) (e : Port × BusCmd) : Bool :=
  target e.2.addr = k

/-- The same, read from the slave. -/
theorem goesTo_eq (k : Fin 9) (e : Port × BusCmd) :
    goesTo k e = decide (k = target e.2.addr) :=
  decide_eq_decide.mpr eq_comm

/-- The splitter's stage is empty, or points at the slave of the one command that is
outstanding. -/
def StageNotes (stage : CutStage 9) (serving : List (Port × BusCmd)) : Prop :=
  (stage.vldR = false ∧ serving = []) ∨
    ∃ e, stage.vldR = true ∧ serving = [e] ∧ stage.oDat = BitVec.twoPow 9 (target e.2.addr)

/-- Where the commands in transit are, and what the monitor has seen of them. -/
structure Accounts (b : Monitored) (x : Traffic) : Prop where
  accepted : b.log.accepted = x.requests
  taken : ∀ k, b.log.taken k = (x.handed.filter (goesTo k)).map Prod.snd
  answered : ∀ k, b.log.answered k =
    (x.served.filter fun (e : (Port × BusCmd) × BusRsp) => goesTo k e.1).map Prod.snd
  delivered : b.log.delivered =
    x.delivered.map fun (e : (Port × BusCmd) × BusRsp) => (e.1.1, e.2)
  rspidFifo : b.bus.rspidFifo.Holds (x.held.map fun (e : Port × BusCmd) => e.1.id)
  cmdFifo : b.bus.cmdFifo.Holds (x.waiting.map fun (e : Port × BusCmd) => e.2.pack)
  rspFifo : b.bus.rspFifo.Holds
    (x.returning.map fun (e : (Port × BusCmd) × BusRsp) => e.2.pack)
  spltStage : StageNotes b.bus.spltStage x.serving

/-- After reset nothing is in transit. -/
theorem Accounts.reset (rspid : Fin 8 → BitVec 1) (cmd : Fin 2 → BitVec 69)
    (rsp : Fin 2 → BitVec 33) (splt : BitVec 9) :
    Accounts (Monitored.reset rspid cmd rsp splt) Transit.empty where
  accepted := rfl
  taken _ := rfl
  answered _ := rfl
  delivered := rfl
  rspidFifo := Fifo.holds_reset (by decide) rspid
  cmdFifo := Fifo.holds_reset (by decide) cmd
  rspFifo := Fifo.holds_reset (by decide) rsp
  spltStage := Or.inl ⟨rfl, rfl⟩

/-! ## What a cycle moves -/

namespace MemBus

variable (s : MemBus) (i : BusInput)

/-- The port that is granted while some port asks. -/
def granted : Port :=
  if i.mem.cmdValid then .mem else .cnn

/-- The command that the bus accepts in this cycle, if any. -/
def accepts : Option (Port × BusCmd) :=
  if s.rspidWen i then some (granted i, (i.master (granted i)).cmd) else none

/-- The response that enters the response buffer in this cycle, if any. -/
def answers : Option BusRsp :=
  if s.spltRen i then some (BusRsp.unpack (s.bufRsp i)) else none

/-- The monitor sees the accepted command on the granted port. -/
theorem acceptedOn_append :
    BusLog.acceptedOn s i .mem ++ BusLog.acceptedOn s i .cnn = (s.accepts i).toList := by
  unfold BusLog.acceptedOn accepts granted icbCmdReady rspidWen arbtCmdValid cmdGrt
    BusInput.master
  cases i.mem.cmdValid <;> cases i.cnn.cmdValid <;> cases s.cmdFifo.iRdy <;>
    cases s.rspidFull <;> simp

/-- The command of the granted port goes into the command buffer, and its number into
the arbiter's fifo. -/
theorem arbt_granted (h : (i.mem.cmdValid || i.cnn.cmdValid) = true) :
    arbtCmd i = (i.master (granted i)).cmd.pack ∧ rspidWdat i = (granted i).id := by
  unfold arbtCmd rspidWdat cmdSel cmdGrt granted BusInput.master
  cases hmem : i.mem.cmdValid
  · rw [hmem, Bool.false_or] at h
    simp [h]
  · simp

/-- A command is only accepted while some port asks. -/
theorem asked_of_rspidWen (h : s.rspidWen i = true) :
    (i.mem.cmdValid || i.cnn.cmdValid) = true := by
  rw [rspidWen, arbtCmdValid, Bool.and_eq_true, Bool.and_eq_true] at h
  exact h.1.1

/-- What the two fifos behind the arbiter get in a cycle. -/
theorem pushed_eq :
    (if s.rspidWen i then [rspidWdat i] else []) =
        (s.accepts i).toList.map (fun (e : Port × BusCmd) => e.1.id) ∧
      (if s.rspidWen i then [arbtCmd i] else []) =
        (s.accepts i).toList.map (fun (e : Port × BusCmd) => e.2.pack) := by
  rw [accepts]
  cases hwen : s.rspidWen i
  · exact ⟨rfl, rfl⟩
  · rcases arbt_granted i (s.asked_of_rspidWen i hwen) with ⟨hcmd, hid⟩
    rw [if_pos rfl, if_pos rfl, if_pos rfl, hcmd, hid]
    exact ⟨rfl, rfl⟩

/-- An entry is only offered to the arbiter's fifo while there is room, and only taken
while there is one. -/
theorem rspid_handshakes :
    s.rspidFifo.wen (s.rspidWen i) = s.rspidWen i ∧
      s.rspidFifo.ren (s.rspidRen i) = s.rspidRen i := by
  unfold Fifo.wen Fifo.ren rspidWen rspidRen arbtCmdValid arbtRspReady rspidFull rspidEmpty
  cases s.rspidFifo.iRdy <;> cases s.rspidFifo.oVld <;> simp

/-- A response comes from the slave at which the splitter points. -/
theorem rsp_of_portId {t : Fin 9} (h : s.spltRspPortId = BitVec.twoPow 9 t) :
    (∀ k, s.oRspReady k = (decide (k = t) && s.rspFifo.iRdy)) ∧
      s.spltRen i = (s.oRspValid i t && s.rspFifo.iRdy) ∧
      s.bufRsp i = (oRsp i t).pack := by
  refine ⟨?_, ?_, ?_⟩
  · intro k
    rw [oRspReady, h, getLsbD_twoPow_fin]
  · rw [spltRen, bufRspValid, h, anyOf_eq]
  · rw [bufRsp, h, orMux_eq]

variable {s}

/-- With the stage empty, the command at the head of the buffer is offered to its
slave, and the splitter points at this slave. -/
theorem splt_idle (hvld : s.spltStage.vldR = false) :
    s.spltRspPortId = BitVec.twoPow 9 (selected s.bufCmdValid s.bufCmd.addr) ∧
      (∀ k, s.oCmdValid k =
        (decide (k = selected s.bufCmdValid s.bufCmd.addr) && s.bufCmdValid)) ∧
      s.spltWen i =
        (s.bufCmdValid && s.oCmdReady i (selected s.bufCmdValid s.bufCmd.addr)) := by
  have hempty : s.spltEmpty = true := by rw [spltEmpty, hvld, Bool.not_false]
  have hfull : s.spltFull = false := by
    rw [spltFull, CutStage.iRdy, hvld, Bool.not_false, Bool.not_true]
  have hbranch : s.cmdDiffBranch = false := by
    rw [cmdDiffBranch, hempty, Bool.not_true, Bool.false_and]
  have hindic : s.indic = BitVec.twoPow 9 (selected s.bufCmdValid s.bufCmd.addr) :=
    spltIndic_eq s.bufCmdValid s.bufCmd.addr
  refine ⟨?_, ?_, ?_⟩
  · rw [spltRspPortId, if_pos hempty, hindic]
  · intro k
    rw [oCmdValid, hindic, getLsbD_twoPow_fin, cmdValidPre, hbranch, hfull, Bool.not_false,
      Bool.and_true, Bool.and_true]
  · rw [spltWen, bufCmdReady, hindic, anyOf_eq, hbranch, hfull, Bool.not_false,
      Bool.and_true, Bool.and_true]

/-- With a command outstanding nothing is offered to the slaves. -/
theorem splt_busy (hvld : s.spltStage.vldR = true) :
    s.spltRspPortId = s.spltStage.oDat ∧ (∀ k, s.oCmdValid k = false) ∧
      s.spltWen i = false := by
  have hempty : s.spltEmpty = false := by rw [spltEmpty, hvld, Bool.not_true]
  have hfull : s.spltFull = true := by
    rw [spltFull, CutStage.iRdy, hvld, Bool.not_true, Bool.not_false]
  refine ⟨?_, ?_, ?_⟩
  · rw [spltRspPortId, hempty, if_neg Bool.false_ne_true]
  · intro k
    rw [oCmdValid, cmdValidPre, hfull, Bool.not_true, Bool.and_false, Bool.and_false]
  · rw [spltWen, bufCmdReady, hfull, Bool.not_true, Bool.and_false, Bool.and_false]

end MemBus

namespace Accounts

variable {b : Monitored} {x : Traffic} {i : BusInput}

/-- The command buffer shows the oldest waiting command. -/
theorem bufCmdValid_of_nil (h : Accounts b x) (hwaiting : x.waiting = []) :
    b.bus.bufCmdValid = false := by
  rw [MemBus.bufCmdValid, h.cmdFifo.oVld, hwaiting]
  rfl

/-- With a waiting command it is valid. -/
theorem bufCmdValid_of_cons (h : Accounts b x) {e : Port × BusCmd}
    {rest : List (Port × BusCmd)} (hwaiting : x.waiting = e :: rest) :
    b.bus.bufCmdValid = true := by
  rw [MemBus.bufCmdValid, h.cmdFifo.oVld, hwaiting]
  rfl

/-- It shows the oldest one. -/
theorem bufCmd_of_cons (h : Accounts b x) {e : Port × BusCmd} {rest : List (Port × BusCmd)}
    (hwaiting : x.waiting = e :: rest) : b.bus.bufCmd = e.2 := by
  have hholds := h.cmdFifo
  rw [hwaiting, List.map_cons] at hholds
  rw [MemBus.bufCmd, hholds.oDat, BusCmd.unpack_pack]

/-- The decoder points at the slave of the oldest waiting command. -/
theorem selected_of_cons (h : Accounts b x) {e : Port × BusCmd}
    {rest : List (Port × BusCmd)} (hwaiting : x.waiting = e :: rest) :
    selected b.bus.bufCmdValid b.bus.bufCmd.addr = target e.2.addr := by
  rw [h.bufCmdValid_of_cons hwaiting, h.bufCmd_of_cons hwaiting, selected, if_pos rfl]

/-- With nothing outstanding, every slave has answered all it took. -/
theorem length_answered (h : Accounts b x) (hserving : x.serving = []) (k : Fin 9) :
    (b.log.answered k).length = (b.log.taken k).length := by
  rw [h.answered, h.taken, Transit.handed, hserving, List.append_nil, List.filter_map,
    List.length_map, List.length_map, List.length_map]
  rfl

/-- A slave that answers with nothing outstanding takes its command in this cycle. -/
private theorem ready_of_idle_answer (h : Accounts b x) (hserving : x.serving = [])
    (hconform : b.SlavesConform i) {t : Fin 9} (hrsp : b.bus.oRspValid i t = true)
    (hrspReady : b.bus.oRspReady t = true) : b.bus.oCmdReady i t = true := by
  by_cases hdeft : t = deft
  · rw [MemBus.oCmdReady, if_pos hdeft, ← hdeft, hrspReady]
  · rcases hconform t hdeft (by rw [hrsp, hrspReady, Bool.and_self]) with hlt | hnow
    · rw [h.length_answered hserving] at hlt
      exact absurd hlt (Nat.lt_irrefl _)
    · exact (Bool.and_eq_true _ _ ▸ hnow).2

/-- The splitter points at one slave, and a response from it answers the oldest
command that is outstanding or handed over in this cycle. -/
theorem answering (h : Accounts b x) (hconform : b.SlavesConform i) :
    ∃ t : Fin 9, b.bus.spltRspPortId = BitVec.twoPow 9 t ∧
      (b.bus.spltRen i = true → ∃ e, goesTo t e = true ∧
        x.serving ++ x.waiting.take (b.bus.spltWen i).toNat = [e]) := by
  rcases h.spltStage with ⟨hvld, hserving⟩ | ⟨e, hvld, hserving, hdat⟩
  · rcases MemBus.splt_idle i hvld with ⟨hport, hcmd, hwen⟩
    refine ⟨selected b.bus.bufCmdValid b.bus.bufCmd.addr, hport, ?_⟩
    intro hren
    rcases b.bus.rsp_of_portId i hport with ⟨hready, hren', -⟩
    rw [hren', Bool.and_eq_true] at hren
    rcases hren with ⟨hvalid, hroom⟩
    have hrspReady := hready (selected b.bus.bufCmdValid b.bus.bufCmd.addr)
    rw [decide_eq_true rfl, hroom, Bool.and_self] at hrspReady
    have hcmdReady := h.ready_of_idle_answer hserving hconform hvalid hrspReady
    rw [hcmdReady, Bool.and_true] at hwen
    cases hwaiting : x.waiting with
    | nil =>
        -- nothing is offered, so the splitter points at the default slave, which is silent
        have hnone := h.bufCmdValid_of_nil hwaiting
        have hsilent := hcmd deft
        rw [hnone, Bool.and_false] at hsilent
        rw [hnone, selected, if_neg Bool.false_ne_true, MemBus.oRspValid, if_pos rfl,
          hsilent] at hvalid
        exact absurd hvalid Bool.false_ne_true
    | cons e rest =>
        have hsome := h.bufCmdValid_of_cons hwaiting
        refine ⟨e, ?_, ?_⟩
        · rw [goesTo_eq, h.selected_of_cons hwaiting]
          exact decide_eq_true rfl
        · rw [hserving, hwen, hsome]
          rfl
  · rcases MemBus.splt_busy i hvld with ⟨hport, -, hwen⟩
    refine ⟨target e.2.addr, hport.trans hdat, ?_⟩
    intro _
    refine ⟨e, decide_eq_true rfl, ?_⟩
    rw [hserving, hwen]
    rfl

/-! ## The monitor's view of a cycle -/

/-- A slave takes the oldest waiting command, if it is for this slave. -/
theorem taken_cycle (h : Accounts b x) (k : Fin 9) :
    (if b.bus.oCmdValid k && b.bus.oCmdReady i k then [b.bus.oCmd k] else []) =
      ((x.waiting.take (b.bus.spltWen i).toNat).filter (goesTo k)).map Prod.snd := by
  rcases h.spltStage with ⟨hvld, -⟩ | ⟨_, hvld, -, -⟩
  · rcases MemBus.splt_idle i hvld with ⟨-, hcmd, hwen⟩
    cases hwaiting : x.waiting with
    | nil =>
        have hnone := h.bufCmdValid_of_nil hwaiting
        rw [hcmd, hnone, Bool.and_false, Bool.false_and, List.take_nil]
        rfl
    | cons e rest =>
        have hsome := h.bufCmdValid_of_cons hwaiting
        rw [h.selected_of_cons hwaiting, hsome, Bool.true_and] at hwen
        have hvalid : b.bus.oCmdValid k = decide (k = target e.2.addr) := by
          rw [hcmd, h.selected_of_cons hwaiting, hsome, Bool.and_true]
        have hgoes := goesTo_eq k e
        rw [hwen]
        by_cases hk : k = target e.2.addr
        · subst hk
          have hcmdOut : b.bus.oCmd (target e.2.addr) = e.2 := by
            rw [MemBus.oCmd, hvalid, if_pos (decide_eq_true rfl), BusCmd.unpack_pack,
              h.bufCmd_of_cons hwaiting]
          rw [hvalid, decide_eq_true rfl, Bool.true_and, hcmdOut]
          cases b.bus.oCmdReady i (target e.2.addr) <;> simp [hgoes]
        · rw [hvalid, decide_eq_false hk, Bool.false_and]
          cases b.bus.oCmdReady i (target e.2.addr) <;> simp [hgoes, hk]
  · rcases MemBus.splt_busy i hvld with ⟨-, hcmd, hwen⟩
    rw [hcmd, hwen, Bool.false_and]
    rfl

/-- A slave's response is the answer to the oldest command at a slave. -/
theorem answered_cycle (h : Accounts b x) (hconform : b.SlavesConform i) (k : Fin 9) :
    (if b.bus.oRspValid i k && b.bus.oRspReady k then [MemBus.oRsp i k] else []) =
      (((x.serving ++ x.waiting.take (b.bus.spltWen i).toNat).zip
        (b.bus.answers i).toList).filter
          fun (e : (Port × BusCmd) × BusRsp) => goesTo k e.1).map Prod.snd := by
  rcases h.answering hconform with ⟨t, hport, hhead⟩
  rcases b.bus.rsp_of_portId i hport with ⟨hready, hren, hrsp⟩
  have hhandshake : (b.bus.oRspValid i k && b.bus.oRspReady k) =
      (decide (k = t) && b.bus.spltRen i) := by
    rw [hready, hren]
    by_cases hk : k = t
    · rw [hk, decide_eq_true rfl, Bool.true_and, Bool.true_and]
    · rw [decide_eq_false hk, Bool.false_and, Bool.false_and, Bool.and_false]
  rw [hhandshake, MemBus.answers, hrsp, BusRsp.unpack_pack]
  cases hanswer : b.bus.spltRen i
  · simp
  · rcases hhead hanswer with ⟨e, he, hserving⟩
    rw [goesTo_eq, decide_eq_true_eq] at he
    subst he
    have hgoes := goesTo_eq k e
    rw [hserving]
    by_cases hk : k = target e.2.addr
    · subst hk
      simp [hgoes]
    · simp [hgoes, hk]

/-- The response buffer gets this answer. -/
theorem buffered_cycle (h : Accounts b x) (hconform : b.SlavesConform i) :
    (if b.bus.spltRen i then [b.bus.bufRsp i] else []) =
      ((x.serving ++ x.waiting.take (b.bus.spltWen i).toNat).zip
        (b.bus.answers i).toList).map
          fun (e : (Port × BusCmd) × BusRsp) => e.2.pack := by
  rcases h.answering hconform with ⟨t, hport, hhead⟩
  rcases b.bus.rsp_of_portId i hport with ⟨-, -, hrsp⟩
  rw [MemBus.answers, hrsp, BusRsp.unpack_pack]
  cases hanswer : b.bus.spltRen i
  · simp
  · rcases hhead hanswer with ⟨e, -, hserving⟩
    rw [hserving]
    rfl

/-- The oldest returning response is delivered on the port of its command. -/
theorem delivered_cycle (h : Accounts b x) :
    BusLog.deliveredOn b.bus i .mem ++ BusLog.deliveredOn b.bus i .cnn =
      (x.returning.take (b.bus.rspidRen i).toNat).map
        fun (e : (Port × BusCmd) × BusRsp) => (e.1.1, e.2) := by
  have hrsp := h.rspFifo
  have hid := h.rspidFifo
  unfold BusLog.deliveredOn MemBus.icbRspValid MemBus.rspidRen MemBus.arbtRspReady
    MemBus.arbtRspPortId MemBus.rspidEmpty MemBus.icbRsp
  rw [hrsp.oVld, List.isEmpty_map]
  cases hreturning : x.returning with
  | nil => simp
  | cons e rest =>
      rw [hreturning, List.map_cons] at hrsp
      rw [Transit.held, hreturning, List.map_cons, List.cons_append, List.cons_append,
        List.map_cons] at hid
      rw [hid.oVld, hid.oDat, hrsp.oDat, BusRsp.unpack_pack]
      rcases e with ⟨⟨_ | _, c⟩, r⟩
      · cases hready : i.mem.rspReady <;> simp [Port.id, BusInput.master, hready]
      · cases hready : i.cnn.rspReady <;> simp [Port.id, BusInput.master, hready]

/-! ## One cycle -/

/-- The splitter's stage keeps pace with the command at a slave. -/
theorem spltStage_cycle (h : Accounts b x) (hconform : b.SlavesConform i) :
    StageNotes (b.bus.step i).spltStage
      ((x.serving ++ x.waiting.take (b.bus.spltWen i).toNat).drop
        (b.bus.answers i).toList.length) := by
  have hlength : (b.bus.answers i).toList.length = (b.bus.spltRen i).toNat := by
    rw [MemBus.answers]
    cases b.bus.spltRen i <;> rfl
  rcases h.answering hconform with ⟨_, -, hhead⟩
  rw [hlength]
  unfold MemBus.step CutStage.step CutStage.iRdy MemBus.spltBypass MemBus.spltEmpty
  rcases h.spltStage with ⟨hvld, hserving⟩ | ⟨e, hvld, hserving, hdat⟩
  · rcases MemBus.splt_idle i hvld with ⟨-, -, hwen⟩
    rw [hserving, List.nil_append] at hhead ⊢
    cases hhand : b.bus.spltWen i
    · cases hanswer : b.bus.spltRen i
      · exact Or.inl ⟨by simp [hvld], rfl⟩
      · rcases hhead hanswer with ⟨e, -, hnone⟩
        rw [hhand] at hnone
        exact absurd hnone (List.cons_ne_nil e []).symm
    · rw [hhand] at hwen
      have hsome : b.bus.bufCmdValid = true := (Bool.and_eq_true _ _ ▸ hwen.symm).1
      cases hwaiting : x.waiting with
      | nil =>
          rw [h.bufCmdValid_of_nil hwaiting] at hsome
          exact absurd hsome Bool.false_ne_true
      | cons e rest =>
          cases b.bus.spltRen i
          · have hindic : b.bus.indic = BitVec.twoPow 9 (target e.2.addr) := by
              rw [MemBus.indic, spltIndic_eq, h.selected_of_cons hwaiting]
            exact Or.inr ⟨e, by simp [hvld], rfl, by simp [hvld, hindic]⟩
          · exact Or.inl ⟨by simp [hvld], rfl⟩
  · rcases MemBus.splt_busy i hvld with ⟨-, -, hwen⟩
    rw [hserving, hwen]
    cases b.bus.spltRen i
    · exact Or.inr ⟨e, by simp [hvld], rfl, by simp [hdat]⟩
    · exact Or.inl ⟨by simp [hvld], rfl⟩

/-- What has been accepted and not delivered, after a cycle. -/
theorem rspidFifo_cycle (h : Accounts b x) (hand : Bool) (answer : Option BusRsp) :
    (b.bus.step i).rspidFifo.Holds
      ((x.cycle (b.bus.accepts i) hand answer (b.bus.rspidRen i)).held.map
        fun (e : Port × BusCmd) => e.1.id) := by
  have hreturning : b.bus.rspidRen i = true → x.returning ≠ [] := by
    intro hren hnone
    rw [MemBus.rspidRen, h.rspFifo.oVld, hnone] at hren
    exact Bool.false_ne_true hren
  have hnext := h.rspidFifo.step (b.bus.rspidWen i) (MemBus.rspidWdat i) (b.bus.rspidRen i)
  rw [(b.bus.rspid_handshakes i).1, (b.bus.rspid_handshakes i).2, Fifo.queueNext,
    (b.bus.pushed_eq i).1, ← List.map_drop, ← List.map_append,
    ← x.held_cycle _ hand answer _ hreturning] at hnext
  exact hnext

/-- What waits in the command buffer after a cycle. -/
theorem cmdFifo_cycle (h : Accounts b x) :
    (b.bus.step i).cmdFifo.Holds
      ((x.waiting.drop (b.bus.spltWen i).toNat ++ (b.bus.accepts i).toList).map
        fun (e : Port × BusCmd) => e.2.pack) := by
  have hnext := h.cmdFifo.step (b.bus.arbtCmdValid i) (MemBus.arbtCmd i)
    (b.bus.bufCmdReady i)
  have hwen : b.bus.cmdFifo.wen (b.bus.arbtCmdValid i) = b.bus.rspidWen i := rfl
  have hren : b.bus.cmdFifo.ren (b.bus.bufCmdReady i) = b.bus.spltWen i := rfl
  rw [hwen, hren, Fifo.queueNext, (b.bus.pushed_eq i).2, ← List.map_drop,
    ← List.map_append] at hnext
  exact hnext

/-- What returns through the response buffer after a cycle. -/
theorem rspFifo_cycle (h : Accounts b x) (hconform : b.SlavesConform i) :
    (b.bus.step i).rspFifo.Holds
      ((x.returning.drop (b.bus.rspidRen i).toNat ++
        (x.serving ++ x.waiting.take (b.bus.spltWen i).toNat).zip
          (b.bus.answers i).toList).map
            fun (e : (Port × BusCmd) × BusRsp) => e.2.pack) := by
  have hnext := h.rspFifo.step (b.bus.bufRspValid i) (b.bus.bufRsp i)
    (b.bus.arbtRspReady i)
  have hwen : b.bus.rspFifo.wen (b.bus.bufRspValid i) = b.bus.spltRen i := rfl
  have hren : b.bus.rspFifo.ren (b.bus.arbtRspReady i) = b.bus.rspidRen i := rfl
  rw [hwen, hren, Fifo.queueNext, h.buffered_cycle hconform, ← List.map_drop,
    ← List.map_append] at hnext
  exact hnext

/-- The accounts are kept by every cycle in which the slaves conform. -/
theorem step (h : Accounts b x) (hconform : b.SlavesConform i) :
    Accounts (b.step i)
      (x.cycle (b.bus.accepts i) (b.bus.spltWen i) (b.bus.answers i) (b.bus.rspidRen i)) := by
  constructor
  · exact (congrArg₂ _ h.accepted (b.bus.acceptedOn_append i)).trans
      (x.requests_cycle _ _ _ _).symm
  · intro k
    rw [Transit.handed_cycle, List.filter_append, List.map_append, ← h.taken,
      ← h.taken_cycle k]
    rfl
  · intro k
    rw [Transit.served_cycle, List.filter_append, List.map_append, ← h.answered,
      ← h.answered_cycle hconform k]
    rfl
  · rw [Transit.cycle, List.map_append, ← h.delivered, ← h.delivered_cycle]
    rfl
  · exact h.rspidFifo_cycle _ _
  · exact h.cmdFifo_cycle
  · exact h.rspFifo_cycle hconform
  · exact h.spltStage_cycle hconform

/-! ## Ports -/

/-- Accepted command {lit}`m`, when it has been answered, and the commands before it. -/
private theorem accepted_served (h : Accounts b x) {m : Nat}
    {e : (Port × BusCmd) × BusRsp} (hm : x.served[m]? = some e) :
    b.log.accepted[m]? = some e.1 ∧
      b.log.accepted.take m = (x.served.take m).map Prod.fst := by
  rcases List.getElem?_eq_some_iff.mp hm with ⟨hlt, -⟩
  rw [h.accepted, Transit.requests, Transit.handed, List.append_assoc]
  constructor
  · rw [List.getElem?_append_left (by rwa [List.length_map]), List.getElem?_map, hm]
    rfl
  · rw [List.take_append_of_le_length (by rw [List.length_map]; exact hlt.le),
      List.map_take]

/-- An answered command was answered with the response that its slave gave it. -/
theorem answerTo_served (h : Accounts b x) {m : Nat} {e : (Port × BusCmd) × BusRsp}
    (hm : x.served[m]? = some e) : b.log.answerTo m = some e.2 := by
  rcases h.accepted_served hm with ⟨haccepted, hbefore⟩
  have hrank : (x.served.filter
      fun (d : (Port × BusCmd) × BusRsp) => goesTo (target e.1.2.addr) d.1)[
        (x.served.take m).countP
          fun (d : (Port × BusCmd) × BusRsp) => goesTo (target e.1.2.addr) d.1]? = some e :=
    getElem?_filter_iff.mpr ⟨m, hm, decide_eq_true rfl, rfl⟩
  rw [BusLog.answerTo, haccepted]
  simp only
  rw [hbefore, h.answered, List.countP_map, List.getElem?_map]
  exact congrArg (Option.map Prod.snd) hrank

/-- Response {lit}`j` on a port is the answer to command {lit}`j` of this port. -/
theorem answerTo_delivered (h : Accounts b x) {p : Port} {j : Nat} {r : BusRsp}
    (hr : (b.log.deliveredAt p)[j]? = some r) :
    ∃ m, b.log.IsCommandOf p j m ∧ b.log.answerTo m = some r := by
  rw [BusLog.deliveredAt, List.getElem?_map, Option.map_eq_some_iff] at hr
  rcases hr with ⟨d, hd, rfl⟩
  rcases getElem?_filter_iff.mp hd with ⟨m, hm, hport, hrank⟩
  rw [h.delivered, List.getElem?_map, Option.map_eq_some_iff] at hm
  rcases hm with ⟨e, he, rfl⟩
  rcases List.getElem?_eq_some_iff.mp he with ⟨hlt, -⟩
  have hserved : x.served[m]? = some e := by
    rw [Transit.served, List.getElem?_append_left hlt, he]
  have hbefore : x.served.take m = x.delivered.take m := by
    rw [Transit.served, List.take_append_of_le_length hlt.le]
  refine ⟨m, ⟨?_, ?_⟩, h.answerTo_served hserved⟩
  · rw [(h.accepted_served hserved).1, ← of_decide_eq_true hport]
    rfl
  · rw [(h.accepted_served hserved).2, hbefore, ← hrank, h.delivered, ← List.map_take,
      List.countP_map, List.countP_map]
    rfl

/-- What a port waits for is held by the bus and the slaves. -/
theorem unanswered_eq (h : Accounts b x) (p : Port) :
    (b.log.acceptedAt p).drop (b.log.deliveredAt p).length =
      (x.held.filter fun (e : Port × BusCmd) => e.1 = p).map Prod.snd := by
  have hlength : (b.log.deliveredAt p).length =
      (((x.delivered.map Prod.fst).filter fun (e : Port × BusCmd) => e.1 = p).map
        Prod.snd).length := by
    rw [BusLog.deliveredAt, h.delivered, List.length_map, List.length_map,
      List.filter_map, List.filter_map, List.length_map, List.length_map]
    rfl
  rw [BusLog.acceptedAt, h.accepted, x.requests_eq, List.filter_append, List.map_append,
    hlength, List.drop_left]

end Accounts

/-! ## Runs -/

/-- What the masters can rely on. -/
structure BusOrder (b : Monitored) : Prop where
  /-- Response {lit}`j` on a port is the answer to command {lit}`j` of this port. -/
  responses : ∀ (p : Port) (j : Nat) (r : BusRsp), (b.log.deliveredAt p)[j]? = some r →
    ∃ m, b.log.IsCommandOf p j m ∧ b.log.answerTo m = some r
  /-- What a port waits for is what the command buffer, the splitter and its slave, and
  the response buffer hold of its commands. -/
  unanswered : ∃ x, Accounts b x ∧ ∀ p : Port,
    (b.log.acceptedAt p).drop (b.log.deliveredAt p).length =
      (x.held.filter fun (e : Port × BusCmd) => e.1 = p).map Prod.snd
  /-- The arbiter's fifo takes every entry that it is offered. -/
  rspidKept : ∀ i, b.bus.rspidWen i = true → b.bus.rspidFifo.wen (b.bus.rspidWen i) = true

/-- At every point of a run in which the slaves conform, responses come in order on the
port of their command, and what is missing is still held. -/
theorem responses_in_order (rspid : Fin 8 → BitVec 1) (cmd : Fin 2 → BitVec 69)
    (rsp : Fin 2 → BitVec 33) (splt : BitVec 9) (inp : Nat → BusInput) (n : Nat)
    (hconform : ∀ m < n, Monitored.SlavesConform
      (run Monitored.step (Monitored.reset rspid cmd rsp splt) inp m) (inp m)) :
    BusOrder (run Monitored.step (Monitored.reset rspid cmd rsp splt) inp n) := by
  have hrun : ∃ x,
      Accounts (run Monitored.step (Monitored.reset rspid cmd rsp splt) inp n) x := by
    induction n with
    | zero => exact ⟨_, Accounts.reset rspid cmd rsp splt⟩
    | succ n ih =>
        rcases ih fun m hm => hconform m (Nat.lt_succ_of_lt hm) with ⟨x, hx⟩
        exact ⟨_, hx.step (hconform n (Nat.lt_succ_self n))⟩
  rcases hrun with ⟨x, hx⟩
  exact {
    responses := fun _ _ _ hr => hx.answerTo_delivered hr
    unanswered := ⟨x, hx, hx.unanswered_eq⟩
    rspidKept := fun i hwen => by rw [(MemBus.rspid_handshakes _ i).1, hwen] }

/-- Both ports read in cycle zero; the weight memory answers in cycle two, the image
memory in cycle four. -/
def twoReads (n : Nat) : BusInput where
  mem :=
    { cmdValid := decide (n = 0)
      cmd := { read := true, addr := 0x2000#32, wdata := 0#32, wmask := 0#4 }
      rspReady := true }
  cnn :=
    { cmdValid := decide (n ≤ 1)
      cmd := { read := true, addr := 0x40000000#32, wdata := 0#32, wmask := 0#4 }
      rspReady := true }
  oCmdReady _ := true
  oRspValid k := decide (k = target 0x2000#32 ∧ n = 2 ∨ k = target 0x40000000#32 ∧ n = 4)
  oRspErr _ := false
  oRspRdata k := if k = target 0x2000#32 then 5#32 else 7#32

/-- The bus, from reset, under these reads. -/
def twoReadsRun (n : Nat) : Monitored :=
  run Monitored.step
    (Monitored.reset (fun _ => 0#1) (fun _ => 0#69) (fun _ => 0#33) 0#9) twoReads n

/-- Each port gets the word of its own slave. -/
theorem responses_in_order_twoReads :
    BusOrder (twoReadsRun 6) ∧
      (twoReadsRun 6).log.deliveredAt .mem = [{ err := false, rdata := 5#32 }] ∧
      (twoReadsRun 6).log.deliveredAt .cnn = [{ err := false, rdata := 7#32 }] := by
  have hconform : ∀ m < 6, (twoReadsRun m).SlavesConform (twoReads m) := by decide +kernel
  exact ⟨responses_in_order _ _ _ _ twoReads 6 hconform, by decide +kernel, by decide +kernel⟩

end Subsys
end AcceleratorSoc
