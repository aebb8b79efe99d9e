import Mathlib.Data.Nat.Find
import AcceleratorSoc.Adder.Step
import AcceleratorSoc.Clocked.Ledger

/-!
# The adder on its bus

{lit}`icb_slave` gives the processor the registers of the adder, and
{lit}`add_top` joins the two.  Command ready, response valid and read data are
three registers with rules of their own: response valid waits for the master, read
data are cleared at every edge that does not accept a read, and a command is
accepted whether or not a response is still on offer.

Main results:

- Theorem {lit}`losesNothing_iff`: the runs on which every command gets its one
  response and every read its data.
-/

namespace AcceleratorSoc
namespace Adder

open Clocked

/-! ## Registers -/

/-- Registers of {lit}`icb_slave`. -/
structure IcbSlaveState where
  icbCmdReady : Bool
  icbRspValid : Bool
  icbRspRdata : BitVec 32
  augend : BitVec 32
  addend : BitVec 32
  control : BitVec 32

/-- The bus channel in one cycle.  The slave ignores {lit}`icb_cmd_wmask`. -/
structure IcbInput where
  icbCmdValid : Bool
  icbCmdRead : Bool
  icbCmdAddr : BitVec 32
  icbCmdWdata : BitVec 32
  icbRspReady : Bool

/-- Register offsets, compared with the low twelve address bits. -/
def augendAddr : BitVec 12 := 0x000
/-- {lit}`ADDEND_ADDR`. -/
def addendAddr : BitVec 12 := 0x4
/-- {lit}`CONTROL_ADDR`. -/
def controlAddr : BitVec 12 := 0x8
/-- {lit}`SUM_ADDR`. -/
def sumAddr : BitVec 12 := 0xc
/-- {lit}`OF_ADDR`. -/
def ofAddr : BitVec 12 := 0x010

/-- {lit}`icb_cmd_addr[11:0]`. -/
def IcbInput.offset (i : IcbInput) : BitVec 12 :=
  i.icbCmdAddr.extractLsb' 0 12

namespace IcbSlaveState

/-- The registers after an edge with {lit}`rst_n` low. -/
def reset : IcbSlaveState where
  icbCmdReady := false
  icbRspValid := false
  icbRspRdata := 0
  augend := 0
  addend := 0
  control := 0

/-- {lit}`icb_cmd_valid & icb_cmd_ready`. -/
def cmdHsk (s : IcbSlaveState) (i : IcbInput) : Bool :=
  i.icbCmdValid && s.icbCmdReady

/-- {lit}`icb_rsp_valid & icb_rsp_ready`. -/
def rspHsk (s : IcbSlaveState) (i : IcbInput) : Bool :=
  s.icbRspValid && i.icbRspReady

/-- Without a response none is taken. -/
theorem rspHsk_of_not_valid {s : IcbSlaveState} (i : IcbInput) (h : s.icbRspValid = false) :
    s.rspHsk i = false := by
  rw [rspHsk, h, Bool.false_and]

/-- A master that is not ready takes none either. -/
theorem rspHsk_of_not_ready (s : IcbSlaveState) {i : IcbInput} (h : i.icbRspReady = false) :
    s.rspHsk i = false := by
  rw [rspHsk, h, Bool.and_false]

/-- A response is taken when it is given and the master is ready. -/
theorem rspHsk_eq_true_iff {s : IcbSlaveState} {i : IcbInput} :
    s.rspHsk i = true ↔ s.icbRspValid = true ∧ i.icbRspReady = true := by
  rw [rspHsk, Bool.and_eq_true]

/-- An accepted write to a register of its own. -/
def writes (s : IcbSlaveState) (i : IcbInput) (addr : BitVec 12) : Bool :=
  s.cmdHsk i && !i.icbCmdRead && decide (i.offset = addr)

/-- Read data after an accepted read; an undecoded address keeps the register. -/
def readData (s : IcbSlaveState) (i : IcbInput) (sum : BitVec 32) (overflow : Bool) :
    BitVec 32 :=
  if i.offset = augendAddr then s.augend
  else if i.offset = addendAddr then s.addend
  else if i.offset = controlAddr then s.control
  else if i.offset = sumAddr then sum
  else if i.offset = ofAddr then (BitVec.ofBool overflow).setWidth 32
  else s.icbRspRdata

/-- One rising clock edge. -/
def step (s : IcbSlaveState) (i : IcbInput) (sum : BitVec 32) (overflow : Bool) :
    IcbSlaveState where
  icbCmdReady :=
    if s.cmdHsk i then false
    else if i.icbCmdValid then true
    else s.icbCmdReady
  icbRspValid :=
    if s.cmdHsk i then true
    else if s.rspHsk i then false
    else s.icbRspValid
  icbRspRdata := if s.cmdHsk i && i.icbCmdRead then s.readData i sum overflow else 0
  augend := if s.writes i augendAddr then i.icbCmdWdata else s.augend
  addend := if s.writes i addendAddr then i.icbCmdWdata else s.addend
  control := if s.writes i controlAddr then i.icbCmdWdata else s.control

end IcbSlaveState

/-- {lit}`add_top`: the slave and the adder. -/
structure AddTop where
  slave : IcbSlaveState
  adder : AdderState

namespace AddTop

/-- Slave and adder out of reset. -/
def reset : AddTop where
  slave := IcbSlaveState.reset
  adder := AdderState.reset

/-- The wires between the slave and the adder.  The wire {lit}`CONTROL` is one bit
wide and carries bit zero of the register. -/
def adderInput (t : AddTop) : AdderInput where
  enable := t.slave.control.getLsbD 0
  in1 := t.slave.augend
  in2 := t.slave.addend

/-- One rising clock edge. -/
def step (t : AddTop) (i : IcbInput) : AddTop where
  slave := t.slave.step i t.adder.out t.adder.overflow
  adder := t.adder.step t.adderInput

/-- The value of the register at an offset, if there is one. -/
def register (t : AddTop) (addr : BitVec 12) : Option (BitVec 32) :=
  if addr = augendAddr then some t.slave.augend
  else if addr = addendAddr then some t.slave.addend
  else if addr = controlAddr then some t.slave.control
  else if addr = sumAddr then some t.adder.out
  else if addr = ofAddr then some ((BitVec.ofBool t.adder.overflow).setWidth 32)
  else none

/-- What the response to a command has to deliver: the addressed register for a read,
nothing in particular for a write. -/
def owed (t : AddTop) (i : IcbInput) : Option (BitVec 32) :=
  if i.icbCmdRead then t.register i.offset else none

/-- An accepted read loads what it is owed. -/
theorem step_icbRspRdata_of_owed {t : AddTop} {i : IcbInput} {w : BitVec 32}
    (hcmd : t.slave.cmdHsk i = true) (h : t.owed i = some w) :
    (t.step i).slave.icbRspRdata = w := by
  have hread : i.icbCmdRead = true := by
    by_contra hwrite
    simp [owed, hwrite] at h
  rw [owed, if_pos hread, register] at h
  simp only [step, IcbSlaveState.step, hcmd, hread, Bool.and_self, if_true,
    IcbSlaveState.readData]
  split_ifs at h ⊢ <;> simp_all

/-- Read data last for one cycle. -/
theorem step_icbRspRdata_of_idle {t : AddTop} {i : IcbInput}
    (hcmd : t.slave.cmdHsk i = false) : (t.step i).slave.icbRspRdata = 0 := by
  simp [step, IcbSlaveState.step, hcmd]

/-- A response is given after a command, and until it is taken. -/
theorem step_icbRspValid (t : AddTop) (i : IcbInput) :
    (t.step i).slave.icbRspValid =
      (t.slave.cmdHsk i || (t.slave.icbRspValid && !i.icbRspReady)) := by
  cases hcmd : t.slave.cmdHsk i <;> cases hvalid : t.slave.icbRspValid <;>
    cases hready : i.icbRspReady <;>
    simp [step, IcbSlaveState.step, IcbSlaveState.rspHsk, hcmd, hvalid, hready]

end AddTop

/-! ## Commands and their responses -/

/-- {lit}`add_top` with a ledger of what is owed to the accepted commands and of the
data in the response handshakes. -/
structure AdderPort where
  top : AddTop
  ledger : Ledger (Option (BitVec 32)) (BitVec 32)

namespace AdderPort

/-- The port out of reset. -/
def reset : AdderPort where
  top := AddTop.reset
  ledger := Ledger.empty

/-- What the command accepted in a cycle is owed, if one is accepted. -/
def accepted (p : AdderPort) (i : IcbInput) : Option (Option (BitVec 32)) :=
  if p.top.slave.cmdHsk i then some (p.top.owed i) else none

/-- The read data in a response handshake, if there is one. -/
def response (p : AdderPort) (i : IcbInput) : Option (BitVec 32) :=
  if p.top.slave.rspHsk i then some p.top.slave.icbRspRdata else none

/-- One rising clock edge. -/
def step (p : AdderPort) (i : IcbInput) : AdderPort where
  top := p.top.step i
  ledger := p.ledger.cycle (p.accepted i) (p.response i)

/-- A response carries what its command is owed. -/
def Satisfies (owed : Option (BitVec 32)) (v : BitVec 32) : Prop :=
  ∀ w, owed = some w → v = w

end AdderPort

/-- {lit}`add_top` out of reset, cycle by cycle. -/
def portRun (inp : Nat → IcbInput) : Nat → AdderPort :=
  run AdderPort.step AdderPort.reset inp

/-- One cycle of a run. -/
theorem portRun_succ (inp : Nat → IcbInput) (n : Nat) :
    portRun inp (n + 1) = (portRun inp n).step (inp n) :=
  rfl

/-- The slave in each cycle of a run. -/
def slaveAt (inp : Nat → IcbInput) (n : Nat) : IcbSlaveState :=
  (portRun inp n).top.slave

/-- No response and no read data are lost: the accepted commands have had one response
handshake each, in order, but for the last one while its response is on offer; a
response stays on offer until the handshake; and the handshake of a read carries the
value its register had when the command was accepted. -/
structure LosesNothing (inp : Nat → IcbInput) : Prop where
  once : ∀ n, (portRun inp n).ledger.pending.length = (slaveAt inp n).icbRspValid.toNat
  held : ∀ n, (slaveAt inp n).icbRspValid = true → (inp n).icbRspReady = false →
    (slaveAt inp (n + 1)).icbRspValid = true
  data : ∀ n, ∀ a ∈ (portRun inp n).ledger.answered, AdderPort.Satisfies a.1 a.2

/-- The master takes a response no later than its next command is accepted, and the
response to a read of a register that is not zero in its first cycle or never. -/
structure TakenInTime (inp : Nat → IcbInput) : Prop where
  overlap : ∀ n, (slaveAt inp n).cmdHsk (inp n) = true → (slaveAt inp n).icbRspValid = true →
    (inp n).icbRspReady = true
  fresh : ∀ n w, (slaveAt inp n).cmdHsk (inp n) = true →
    (portRun inp n).top.owed (inp n) = some w → w ≠ 0 →
    (inp (n + 1)).icbRspReady = true ∨ ∀ m > n, (inp m).icbRspReady = false

/-! ## Runs on which nothing is lost -/

section Runs

variable {inp : Nat → IcbInput} {n : Nat} {o : Option (BitVec 32)}

/-- When a response is given along a run. -/
theorem slaveAt_succ_rspValid (inp : Nat → IcbInput) (n : Nat) :
    (slaveAt inp (n + 1)).icbRspValid =
      ((slaveAt inp n).cmdHsk (inp n) ||
        ((slaveAt inp n).icbRspValid && !(inp n).icbRspReady)) :=
  AddTop.step_icbRspValid _ _

/-- An accepted command is owed its response. -/
theorem accepted_of_cmdHsk (hcmd : (slaveAt inp n).cmdHsk (inp n) = true) :
    (portRun inp n).accepted (inp n) = some ((portRun inp n).top.owed (inp n)) := by
  rw [AdderPort.accepted, ← slaveAt, if_pos hcmd]

/-- Without a handshake nothing is owed. -/
theorem accepted_of_idle (hcmd : (slaveAt inp n).cmdHsk (inp n) = false) :
    (portRun inp n).accepted (inp n) = none := by
  rw [AdderPort.accepted, ← slaveAt, hcmd]
  rfl

/-- A master that takes a response before its next command is accepted has no command
accepted while it leaves one. -/
theorem idle_of_left
    (hoverlap : (slaveAt inp n).cmdHsk (inp n) = true → (inp n).icbRspReady = true)
    (hready : (inp n).icbRspReady = false) : (slaveAt inp n).cmdHsk (inp n) = false := by
  rw [Bool.eq_false_iff]
  intro hcmd
  rw [hoverlap hcmd] at hready
  exact absurd hready (by simp)

/-- A response on offer satisfies its command when the master takes it now; when the
master leaves it, zero does, or it is never taken. -/
structure OnOffer (inp : Nat → IcbInput) (n : Nat) (o : Option (BitVec 32)) : Prop where
  now : (inp n).icbRspReady = true → AdderPort.Satisfies o (slaveAt inp n).icbRspRdata
  later : (inp n).icbRspReady = false →
    AdderPort.Satisfies o 0 ∨ ∀ m > n, (inp m).icbRspReady = false

/-- The response to a command accepted in time. -/
theorem onOffer_of_accepted (h : TakenInTime inp)
    (hcmd : (slaveAt inp n).cmdHsk (inp n) = true) :
    OnOffer inp (n + 1) ((portRun inp n).top.owed (inp n)) where
  now := by
    intro _ w hw
    exact AddTop.step_icbRspRdata_of_owed hcmd hw
  later := by
    intro hready
    by_cases hzero : AdderPort.Satisfies ((portRun inp n).top.owed (inp n)) 0
    · exact Or.inl hzero
    · right
      rw [AdderPort.Satisfies] at hzero
      push Not at hzero
      rcases hzero with ⟨w, hw, hne⟩
      rcases h.fresh n w hcmd hw hne.symm with hnow | hnever
      · rw [hready] at hnow
        exact absurd hnow (by simp)
      · exact fun m hm => hnever m (by omega)

/-- The response that the master leaves for a cycle without a command. -/
theorem onOffer_of_left (h : OnOffer inp n o) (hready : (inp n).icbRspReady = false)
    (hcmd : (slaveAt inp n).cmdHsk (inp n) = false) : OnOffer inp (n + 1) o := by
  have hdata : (slaveAt inp (n + 1)).icbRspRdata = 0 := AddTop.step_icbRspRdata_of_idle hcmd
  rcases h.later hready with hzero | hnever
  · exact ⟨fun _ => hdata ▸ hzero, fun _ => Or.inl hzero⟩
  · have hnext := hnever (n + 1) (by omega)
    refine ⟨?_, fun _ => Or.inr fun m hm => hnever m (by omega)⟩
    intro htaken
    rw [hnext] at htaken
    exact absurd htaken (by simp)

/-- Either nothing is outstanding, or one command whose response is on offer. -/
def Accounted (inp : Nat → IcbInput) (n : Nat) : Prop :=
  (portRun inp n).ledger.pending = [] ∧ (slaveAt inp n).icbRspValid = false ∨
    ∃ o, (portRun inp n).ledger.pending = [o] ∧ (slaveAt inp n).icbRspValid = true ∧
      OnOffer inp n o

/-- What a cycle without a response handshake does to the ledger. -/
theorem ledger_of_no_response (h : (slaveAt inp n).rspHsk (inp n) = false) :
    (portRun inp (n + 1)).ledger.pending = (portRun inp n).ledger.pending ++
        ((portRun inp n).accepted (inp n)).toList ∧
      (portRun inp (n + 1)).ledger.answered = (portRun inp n).ledger.answered := by
  have hnone : (portRun inp n).response (inp n) = none := by
    rw [AdderPort.response, ← slaveAt, h]
    rfl
  rw [portRun_succ, AdderPort.step, hnone]
  exact ⟨rfl, rfl⟩

/-- What a response handshake does to a ledger with one outstanding command. -/
theorem ledger_of_response (h : (slaveAt inp n).rspHsk (inp n) = true)
    (hpending : (portRun inp n).ledger.pending = [o]) :
    (portRun inp (n + 1)).ledger.pending = ((portRun inp n).accepted (inp n)).toList ∧
      (portRun inp (n + 1)).ledger.answered =
        (portRun inp n).ledger.answered ++ [(o, (slaveAt inp n).icbRspRdata)] := by
  have hsome : (portRun inp n).response (inp n) = some (slaveAt inp n).icbRspRdata := by
    rw [AdderPort.response, ← slaveAt, h]
    rfl
  rw [portRun_succ, AdderPort.step, hsome]
  simp [Ledger.cycle, Ledger.respond, Ledger.issue, hpending]

/-- After a cycle that leaves nothing outstanding but the command it accepts. -/
theorem accounted_of_accepted (h : TakenInTime inp)
    (hpending : (portRun inp (n + 1)).ledger.pending =
      ((portRun inp n).accepted (inp n)).toList)
    (hoffer : ((slaveAt inp n).icbRspValid && !(inp n).icbRspReady) = false) :
    Accounted inp (n + 1) := by
  have hvalid := slaveAt_succ_rspValid inp n
  rw [hoffer, Bool.or_false] at hvalid
  cases hcmd : (slaveAt inp n).cmdHsk (inp n)
  · rw [accepted_of_idle hcmd] at hpending
    rw [hcmd] at hvalid
    exact Or.inl ⟨hpending, hvalid⟩
  · rw [accepted_of_cmdHsk hcmd] at hpending
    rw [hcmd] at hvalid
    exact Or.inr ⟨_, hpending, hvalid, onOffer_of_accepted h hcmd⟩

/-- A master that takes its responses in time keeps the account. -/
theorem accounted_step (h : TakenInTime inp) (hn : Accounted inp n) :
    Accounted inp (n + 1) := by
  rcases hn with ⟨hpending, hvalid⟩ | ⟨o, hpending, hvalid, hoffer⟩
  · have hledger := ledger_of_no_response (IcbSlaveState.rspHsk_of_not_valid (inp n) hvalid)
    rw [hpending, List.nil_append] at hledger
    exact accounted_of_accepted h hledger.1 (by rw [hvalid, Bool.false_and])
  · cases hready : (inp n).icbRspReady
    · have hcmd := idle_of_left (fun hcmd => h.overlap n hcmd hvalid) hready
      have hledger := ledger_of_no_response (IcbSlaveState.rspHsk_of_not_ready _ hready)
      rw [accepted_of_idle hcmd] at hledger
      refine Or.inr ⟨o, ?_, ?_, onOffer_of_left hoffer hready hcmd⟩
      · rw [hledger.1, hpending]
        rfl
      · rw [slaveAt_succ_rspValid, hcmd, hvalid, hready]
        rfl
    · have hledger :=
        ledger_of_response (IcbSlaveState.rspHsk_eq_true_iff.mpr ⟨hvalid, hready⟩) hpending
      exact accounted_of_accepted h hledger.1 (by rw [hready, Bool.not_true, Bool.and_false])

/-- While the master takes each response in time, every response is accounted for. -/
theorem accounted_of_takenInTime (h : TakenInTime inp) (n : Nat) : Accounted inp n := by
  induction n with
  | zero => exact Or.inl ⟨rfl, rfl⟩
  | succ n ih => exact accounted_step h ih

/-- Every response handshake delivers what its command is owed. -/
theorem data_of_takenInTime (h : TakenInTime inp) (n : Nat) :
    ∀ a ∈ (portRun inp n).ledger.answered, AdderPort.Satisfies a.1 a.2 := by
  induction n with
  | zero =>
      intro a ha
      exact absurd ha List.not_mem_nil
  | succ n ih =>
      cases hrsp : (slaveAt inp n).rspHsk (inp n)
      · rw [(ledger_of_no_response hrsp).2]
        exact ih
      · have hhsk := IcbSlaveState.rspHsk_eq_true_iff.mp hrsp
        rcases accounted_of_takenInTime h n with ⟨_, hvalid⟩ | ⟨o, hpending, _, hoffer⟩
        · rw [hvalid] at hhsk
          exact absurd hhsk.1 (by simp)
        · rw [(ledger_of_response hrsp hpending).2]
          intro a ha
          rcases List.mem_append.mp ha with hold | hnew
          · exact ih a hold
          · rw [List.mem_singleton.mp hnew]
            exact hoffer.now hhsk.2

/-- Responses taken in time are not lost, and neither are their data. -/
theorem losesNothing_of_takenInTime (h : TakenInTime inp) : LosesNothing inp where
  once := by
    intro n
    rcases accounted_of_takenInTime h n with ⟨hpending, hvalid⟩ | ⟨o, hpending, hvalid, _⟩ <;>
      rw [hpending, hvalid] <;> rfl
  held := by
    intro n hvalid hready
    rw [slaveAt_succ_rspValid, hvalid, hready, Bool.not_false, Bool.and_self, Bool.or_true]
  data := data_of_takenInTime h

/-! ## Runs on which something is lost -/

/-- A command accepted over a response that is not taken leaves two commands
outstanding and one response on offer. -/
theorem overlap_of_losesNothing (h : LosesNothing inp)
    (hcmd : (slaveAt inp n).cmdHsk (inp n) = true)
    (hvalid : (slaveAt inp n).icbRspValid = true) : (inp n).icbRspReady = true := by
  by_contra hready
  rw [Bool.not_eq_true] at hready
  have hledger := (ledger_of_no_response (IcbSlaveState.rspHsk_of_not_ready _ hready)).1
  have hbefore := h.once n
  have hafter := h.once (n + 1)
  rw [hledger, List.length_append, hbefore, accepted_of_cmdHsk hcmd, slaveAt_succ_rspValid,
    hcmd, hvalid] at hafter
  exact absurd hafter (by simp)

/-- The command accepted in a cycle is alone outstanding in the next one. -/
theorem pending_of_accepted (h : LosesNothing inp)
    (hcmd : (slaveAt inp n).cmdHsk (inp n) = true) :
    (portRun inp (n + 1)).ledger.pending = [(portRun inp n).top.owed (inp n)] := by
  have hcount := h.once n
  cases hvalid : (slaveAt inp n).icbRspValid
  · have hledger :=
      (ledger_of_no_response (IcbSlaveState.rspHsk_of_not_valid (inp n) hvalid)).1
    rw [hvalid, Bool.toNat_false, List.length_eq_zero_iff] at hcount
    rw [hledger, hcount, accepted_of_cmdHsk hcmd]
    rfl
  · have hready := overlap_of_losesNothing h hcmd hvalid
    rw [hvalid, Bool.toNat_true, List.length_eq_one_iff] at hcount
    rcases hcount with ⟨o, hpending⟩
    have hledger :=
      (ledger_of_response (IcbSlaveState.rspHsk_eq_true_iff.mpr ⟨hvalid, hready⟩) hpending).1
    rw [hledger, accepted_of_cmdHsk hcmd]
    rfl

/-- A response that is not taken in its first cycle stays on offer with its data
cleared. -/
theorem cleared_of_left (h : LosesNothing inp)
    (hcmd : (slaveAt inp n).cmdHsk (inp n) = true) (d : Nat)
    (hleft : ∀ k ≤ d, (inp (n + 1 + k)).icbRspReady = false) :
    (portRun inp (n + 2 + d)).ledger.pending = [(portRun inp n).top.owed (inp n)] ∧
      (slaveAt inp (n + 2 + d)).icbRspValid = true ∧
      (slaveAt inp (n + 2 + d)).icbRspRdata = 0 := by
  have hwait : ∀ m, (portRun inp m).ledger.pending = [(portRun inp n).top.owed (inp n)] →
      (slaveAt inp m).icbRspValid = true → (inp m).icbRspReady = false →
      (portRun inp (m + 1)).ledger.pending = [(portRun inp n).top.owed (inp n)] ∧
        (slaveAt inp (m + 1)).icbRspValid = true ∧ (slaveAt inp (m + 1)).icbRspRdata = 0 := by
    intro m hpending hvalid hready
    have hidle := idle_of_left (fun hcmd => overlap_of_losesNothing h hcmd hvalid) hready
    have hledger := (ledger_of_no_response (IcbSlaveState.rspHsk_of_not_ready _ hready)).1
    refine ⟨?_, h.held m hvalid hready, AddTop.step_icbRspRdata_of_idle hidle⟩
    rw [hledger, hpending, accepted_of_idle hidle]
    rfl
  induction d with
  | zero =>
      have hvalid : (slaveAt inp (n + 1)).icbRspValid = true := by
        rw [slaveAt_succ_rspValid, hcmd, Bool.true_or]
      exact hwait (n + 1) (pending_of_accepted h hcmd) hvalid (hleft 0 le_rfl)
  | succ d ih =>
      rcases ih fun k hk => hleft k (Nat.le_succ_of_le hk) with ⟨hpending, hvalid, _⟩
      refine hwait (n + 2 + d) hpending hvalid ?_
      have hlast := hleft (d + 1) le_rfl
      rwa [show n + 1 + (d + 1) = n + 2 + d by omega] at hlast

/-- A response that is left and taken later delivers zero. -/
theorem fresh_of_losesNothing (h : LosesNothing inp) {w : BitVec 32}
    (hcmd : (slaveAt inp n).cmdHsk (inp n) = true)
    (howed : (portRun inp n).top.owed (inp n) = some w) (hne : w ≠ 0)
    (hready : (inp (n + 1)).icbRspReady = false) : ∀ m > n, (inp m).icbRspReady = false := by
  by_contra htaken
  push Not at htaken
  have hlater : ∃ k, (inp (n + 1 + k)).icbRspReady = true := by
    rcases htaken with ⟨m, hm, htaken⟩
    refine ⟨m - (n + 1), ?_⟩
    rw [show n + 1 + (m - (n + 1)) = m by omega]
    simpa using htaken
  -- The first cycle in which the master is ready.
  have hfirst : ∀ k < Nat.find hlater, (inp (n + 1 + k)).icbRspReady = false := by
    intro k hk
    simpa using Nat.find_min hlater hk
  have hpos : Nat.find hlater ≠ 0 := by
    intro hzero
    have htaken := Nat.find_spec hlater
    rw [hzero, Nat.add_zero, hready] at htaken
    exact absurd htaken (by simp)
  rcases Nat.exists_eq_succ_of_ne_zero hpos with ⟨d, hd⟩
  rcases cleared_of_left h hcmd d fun k hk => hfirst k (by omega) with
    ⟨hpending, hvalid, hdata⟩
  have htaken := Nat.find_spec hlater
  rw [hd, show n + 1 + d.succ = n + 2 + d by omega] at htaken
  have hledger :=
    (ledger_of_response (IcbSlaveState.rspHsk_eq_true_iff.mpr ⟨hvalid, htaken⟩) hpending).2
  have hzero := h.data (n + 2 + d + 1) (some w, 0) (by
    rw [hledger, hdata, howed]
    exact List.mem_append_right _ (List.mem_singleton.mpr rfl)) w rfl
  exact hne hzero.symm

/-- No response and no read data are lost exactly on the runs whose master takes
responses in time. -/
theorem losesNothing_iff (inp : Nat → IcbInput) : LosesNothing inp ↔ TakenInTime inp := by
  constructor
  · intro h
    refine ⟨fun n => overlap_of_losesNothing h, ?_⟩
    intro n w hcmd howed hne
    cases hready : (inp (n + 1)).icbRspReady
    · exact Or.inr (fresh_of_losesNothing h hcmd howed hne hready)
    · exact Or.inl rfl
  · exact losesNothing_of_takenInTime

/-- A command stays on the bus until it is accepted. -/
def CmdHeld (inp : Nat → IcbInput) : Prop :=
  ∀ n, (inp n).icbCmdValid = true → (slaveAt inp n).icbCmdReady = false →
    (inp (n + 1)).icbCmdValid = true ∧ (inp (n + 1)).icbCmdRead = (inp n).icbCmdRead ∧
      (inp (n + 1)).icbCmdAddr = (inp n).icbCmdAddr ∧
      (inp (n + 1)).icbCmdWdata = (inp n).icbCmdWdata

/-- Writes five to {lit}`AUGEND` in the first two cycles and reads the register back
in the next two; the master is ready in the cycles given. -/
def writeThenRead (ready : Nat → Bool) (n : Nat) : IcbInput where
  icbCmdValid := decide (n < 4)
  icbCmdRead := decide (2 ≤ n)
  icbCmdAddr := 0
  icbCmdWdata := 5
  icbRspReady := ready n

/-- This master holds a command until it is accepted. -/
theorem cmdHeld_writeThenRead (ready : Nat → Bool)
    (haccepted : ∀ n < 4, 2 ∣ n + 1 → (slaveAt (writeThenRead ready) n).icbCmdReady = true) :
    CmdHeld (writeThenRead ready) := by
  intro n hvalid hready
  have hn : n < 4 := of_decide_eq_true hvalid
  have hodd : ¬ 2 ∣ n + 1 := by
    intro hdvd
    rw [haccepted n hn hdvd] at hready
    exact absurd hready (by simp)
  refine ⟨decide_eq_true (by omega), ?_, rfl, rfl⟩
  exact decide_eq_decide.mpr (by omega)

/-- Left for one cycle, the response to the read delivers zero for five; left for
longer, the response to the write is never delivered. -/
theorem writeThenRead_loses :
    (CmdHeld (writeThenRead fun n => decide (n ≠ 4)) ∧
        ¬ LosesNothing (writeThenRead fun n => decide (n ≠ 4)) ∧
        (portRun (writeThenRead fun n => decide (n ≠ 4)) 6).ledger.answered =
          [(none, 0), (some 5, 0)]) ∧
      CmdHeld (writeThenRead fun n => decide (5 ≤ n)) ∧
        ¬ LosesNothing (writeThenRead fun n => decide (5 ≤ n)) ∧
        (portRun (writeThenRead fun n => decide (5 ≤ n)) 6).ledger.pending = [some 5] ∧
        (slaveAt (writeThenRead fun n => decide (5 ≤ n)) 6).icbRspValid = false := by
  have hstale : (portRun (writeThenRead fun n => decide (n ≠ 4)) 6).ledger.answered =
      [(none, 0), (some 5, 0)] := by
    decide
  have hpending : (portRun (writeThenRead fun n => decide (5 ≤ n)) 6).ledger.pending =
      [some 5] := by
    decide
  have hvalid : (slaveAt (writeThenRead fun n => decide (5 ≤ n)) 6).icbRspValid = false := by
    decide
  refine ⟨⟨cmdHeld_writeThenRead _ (by decide), ?_, hstale⟩,
    cmdHeld_writeThenRead _ (by decide), ?_, hpending, hvalid⟩
  · intro h
    have hdata := h.data 6 (some 5, 0) (by rw [hstale]; simp) 5 rfl
    exact absurd hdata (by decide)
  · intro h
    have hcount := h.once 6
    rw [hpending, hvalid] at hcount
    exact absurd hcount (by decide)

end Runs

end Adder
end AcceleratorSoc
