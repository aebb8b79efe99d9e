import AcceleratorSoc.CnnTop.Control

/-!
# The configuration port over whole runs

{lit}`cnn_control` under an arbitrary sequence of configuration commands.  The
response register of the block is loaded only while it is empty, and emptied one
cycle later whether or not the master was ready.  The write decoder looks at three
address bits and masks the data, not the enable.

Main results:

- Theorem {lit}`answersEveryCommand_iff`: every command is answered once, in order
  and with its own data, exactly on the runs without commands in adjacent cycles
  and without back-pressure.
- Theorem {lit}`tracksLastWrite_iff`: {lit}`CNNCTR` is the last byte written to
  offset zero exactly on the runs whose other writes to multiples of eight change
  nothing.
-/

namespace AcceleratorSoc
namespace CnnTop

open Clocked

/-- The inputs of {lit}`cnn_control` in one cycle. -/
structure ConfigCycle where
  done : Bool
  cfg : ControlInput

/-! ## Commands and their responses -/

/-- What a response has to deliver: the register's value for a read of
{lit}`CNNCTR` or {lit}`CNNSTATUS`, nothing in particular for other commands. -/
def ControlState.owed (s : ControlState) (i : ConfigCycle) : Option (BitVec 32) :=
  if i.cfg.cfgIcbCmdRead && i.cfg.offset == cnnCtr then some (s.cnnctr.setWidth 32)
  else if i.cfg.cfgIcbCmdRead && i.cfg.offset == cnnStatus then
    some ((ControlState.cnnstatus i.done).setWidth 32)
  else none

/-- The control block, with what is owed to the accepted commands and what the
completed responses delivered, oldest first. -/
structure ConfigPort where
  control : ControlState
  owed : List (Option (BitVec 32))
  delivered : List (BitVec 32)

namespace ConfigPort

/-- The port out of reset. -/
def reset : ConfigPort where
  control := ControlState.reset
  owed := []
  delivered := []

/-- The response register, while it holds a response. -/
def pending (p : ConfigPort) : List (BitVec 32) :=
  if p.control.cfgIcbRspValid then [p.control.cfgIcbRspRdata] else []

/-- One rising clock edge. -/
def step (p : ConfigPort) (i : ConfigCycle) : ConfigPort where
  control := p.control.step i.done i.cfg
  owed := if i.cfg.cfgIcbCmdHsk then p.owed ++ [p.control.owed i] else p.owed
  delivered := if i.cfg.cfgIcbRspReady then p.delivered ++ p.pending else p.delivered

/-- A response carries what its command is owed. -/
def Satisfies (v : BitVec 32) (owed : Option (BitVec 32)) : Prop :=
  ∀ w, owed = some w → v = w

/-- Completed and pending responses together answer the accepted commands, one
each and in order. -/
structure AnswersOnce (p : ConfigPort) : Prop where
  count : p.delivered.length + p.pending.length = p.owed.length
  order : List.Forall₂ Satisfies (p.delivered ++ p.pending) p.owed

/-- A response that the master does not take stays. -/
def HoldsResponse (p : ConfigPort) (i : ConfigCycle) : Prop :=
  p.control.cfgIcbRspValid = true → i.cfg.cfgIcbRspReady = false →
    (p.step i).control.cfgIcbRspValid = true ∧
      (p.step i).control.cfgIcbRspRdata = p.control.cfgIcbRspRdata

/-- The response register is loaded by a command that finds it empty, and holds for
one cycle. -/
theorem step_rspValid (p : ConfigPort) (i : ConfigCycle) :
    (p.step i).control.cfgIcbRspValid = (i.cfg.cfgIcbCmdValid && !p.control.cfgIcbRspValid) := by
  simp [step, ControlState.step, ControlState.cfgIcbRspValidD, ControlInput.cfgIcbCmdHsk,
    cfgIcbCmdReady]

/-- The read data loaded with a command is what the command is owed. -/
theorem satisfies_step {p : ConfigPort} {i : ConfigCycle} (h : i.cfg.cfgIcbCmdValid = true) :
    Satisfies (p.step i).control.cfgIcbRspRdata (p.control.owed i) := by
  intro w hw
  simp only [step, ControlState.step, ControlState.cfgIcbRspRdataD, ControlState.owed,
    ControlInput.cfgIcbCmdRdHsk, ControlInput.cfgIcbCmdHsk, cfgIcbCmdReady, h] at *
  grind

/-- Without a response nothing is pending. -/
theorem pending_of_empty {p : ConfigPort} (h : p.control.cfgIcbRspValid = false) :
    p.pending = [] := by
  simp [pending, h]

/-- Otherwise the response is. -/
theorem pending_of_full {p : ConfigPort} (h : p.control.cfgIcbRspValid = true) :
    p.pending = [p.control.cfgIcbRspRdata] := by
  simp [pending, h]

/-- A cycle with nothing in the response register keeps the balance. -/
theorem answersOnce_step_of_empty {p : ConfigPort} (h : AnswersOnce p)
    (hempty : p.control.cfgIcbRspValid = false) (i : ConfigCycle) :
    AnswersOnce (p.step i) := by
  have hpending := pending_of_empty hempty
  have hvalid := step_rspValid p i
  have hdelivered : (p.step i).delivered = p.delivered := by
    simp [step, hpending]
  have horder := h.order
  rw [hpending, List.append_nil] at horder
  cases hcmd : i.cfg.cfgIcbCmdValid
  · have howed : (p.step i).owed = p.owed := by
      simp [step, ControlInput.cfgIcbCmdHsk, hcmd]
    have hnext : (p.step i).pending = [] := pending_of_empty (by simp [hvalid, hcmd])
    constructor
    · simpa [hdelivered, howed, hnext] using horder.length_eq
    · simpa [hdelivered, howed, hnext] using horder
  · have howed : (p.step i).owed = p.owed ++ [p.control.owed i] := by
      simp [step, ControlInput.cfgIcbCmdHsk, cfgIcbCmdReady, hcmd]
    have hnext : (p.step i).pending = [(p.step i).control.cfgIcbRspRdata] :=
      pending_of_full (by simp [hvalid, hcmd, hempty])
    constructor
    · simpa [hdelivered, howed, hnext] using horder.length_eq
    · rw [hdelivered, howed, hnext]
      exact List.rel_append horder (List.Forall₂.cons (satisfies_step hcmd) List.Forall₂.nil)

/-- A cycle that takes the pending response and brings no command keeps the
balance. -/
theorem answersOnce_step_of_taken {p : ConfigPort} {i : ConfigCycle} (h : AnswersOnce p)
    (hfull : p.control.cfgIcbRspValid = true) (hcmd : i.cfg.cfgIcbCmdValid = false)
    (hready : i.cfg.cfgIcbRspReady = true) : AnswersOnce (p.step i) := by
  have hdelivered : (p.step i).delivered = p.delivered ++ p.pending := by
    simp [step, hready]
  have howed : (p.step i).owed = p.owed := by
    simp [step, ControlInput.cfgIcbCmdHsk, hcmd]
  have hnext : (p.step i).pending = [] :=
    pending_of_empty (by simp [step_rspValid, hfull])
  constructor
  · simpa [hdelivered, howed, hnext] using h.count
  · simpa [hdelivered, howed, hnext] using h.order

/-- A command accepted while a response is pending is never answered. -/
theorem cmdValid_eq_false_of_balanced {p : ConfigPort} {i : ConfigCycle}
    (hfull : p.control.cfgIcbRspValid = true) (hready : i.cfg.cfgIcbRspReady = true)
    (h : AnswersOnce p) (hnext : AnswersOnce (p.step i)) : i.cfg.cfgIcbCmdValid = false := by
  rw [Bool.eq_false_iff]
  intro hcmd
  have hempty : (p.step i).pending = [] :=
    pending_of_empty (by simp [step_rspValid, hfull])
  have hbefore := h.count
  have hafter := hnext.count
  rw [hempty] at hafter
  simp [step, hready, ControlInput.cfgIcbCmdHsk, cfgIcbCmdReady, hcmd] at hafter
  omega

/-- A held response would have to survive an edge, which empties the register. -/
theorem rspReady_of_holds {p : ConfigPort} {i : ConfigCycle}
    (hfull : p.control.cfgIcbRspValid = true) (h : HoldsResponse p i) :
    i.cfg.cfgIcbRspReady = true := by
  rw [← Bool.not_eq_false]
  intro hready
  have hvalid := (h hfull hready).1
  simp [step_rspValid, hfull] at hvalid

end ConfigPort

/-- {lit}`cnn_control` out of reset, cycle by cycle. -/
def portRun (inp : Nat → ConfigCycle) : Nat → ConfigPort :=
  run ConfigPort.step ConfigPort.reset inp

/-- One cycle of a run. -/
theorem portRun_succ (inp : Nat → ConfigCycle) (n : Nat) :
    portRun inp (n + 1) = (portRun inp n).step (inp n) :=
  rfl

/-- Every command is answered once, in order, with the value its register had when
it was accepted, and responses wait for the master. -/
def AnswersEveryCommand (inp : Nat → ConfigCycle) : Prop :=
  ∀ n, (portRun inp n).AnswersOnce ∧ (portRun inp n).HoldsResponse (inp n)

/-- After each command the master pauses for a cycle, in which it takes the
response. -/
def Spaced (inp : Nat → ConfigCycle) : Prop :=
  ∀ n, (inp n).cfg.cfgIcbCmdValid = true →
    (inp (n + 1)).cfg.cfgIcbCmdValid = false ∧ (inp (n + 1)).cfg.cfgIcbRspReady = true

/-- On a spaced run a pending response is taken in its first cycle. -/
private theorem taken_of_spaced {inp : Nat → ConfigCycle} (h : Spaced inp) {n : Nat}
    (hfull : (portRun inp n).control.cfgIcbRspValid = true) :
    (inp n).cfg.cfgIcbCmdValid = false ∧ (inp n).cfg.cfgIcbRspReady = true := by
  cases n with
  | zero => simp [portRun, ConfigPort.reset, ControlState.reset] at hfull
  | succ n =>
      rw [portRun_succ, ConfigPort.step_rspValid] at hfull
      exact h n (by simp_all)

/-- With spaced commands every one is answered once. -/
theorem answersOnce_of_spaced {inp : Nat → ConfigCycle} (h : Spaced inp) (n : Nat) :
    (portRun inp n).AnswersOnce := by
  induction n with
  | zero => exact ⟨rfl, List.Forall₂.nil⟩
  | succ n ih =>
      rw [portRun_succ]
      cases hvalid : (portRun inp n).control.cfgIcbRspValid
      · exact ConfigPort.answersOnce_step_of_empty ih hvalid (inp n)
      · rcases taken_of_spaced h hvalid with ⟨hcmd, hready⟩
        exact ConfigPort.answersOnce_step_of_taken ih hvalid hcmd hready

/-- The control block answers every command of a run, in order and without loss,
exactly when the master spaces its commands. -/
theorem answersEveryCommand_iff (inp : Nat → ConfigCycle) :
    AnswersEveryCommand inp ↔ Spaced inp := by
  constructor
  · intro h
    have htaken : ∀ n, (portRun inp n).control.cfgIcbRspValid = true →
        (inp n).cfg.cfgIcbCmdValid = false ∧ (inp n).cfg.cfgIcbRspReady = true := by
      intro n hfull
      have hready := ConfigPort.rspReady_of_holds hfull (h n).2
      exact ⟨ConfigPort.cmdValid_eq_false_of_balanced hfull hready (h n).1 (h (n + 1)).1,
        hready⟩
    intro n hcmd
    have hempty : (portRun inp n).control.cfgIcbRspValid = false := by
      rw [Bool.eq_false_iff]
      intro hfull
      rw [(htaken n hfull).1] at hcmd
      exact absurd hcmd (by simp)
    apply htaken (n + 1)
    rw [portRun_succ, ConfigPort.step_rspValid, hcmd, hempty]
    rfl
  · intro h n
    refine ⟨answersOnce_of_spaced h n, ?_⟩
    intro hfull hready
    rw [(taken_of_spaced h hfull).2] at hready
    exact absurd hready (by simp)

/-- A master that reads {lit}`CNNSTATUS` in every cycle and takes every response. -/
def eagerMaster (_ : Nat) : ConfigCycle where
  done := false
  cfg :=
    { cfgIcbCmdValid := true
      cfgIcbCmdAddr := 0x10042004
      cfgIcbCmdRead := true
      cfgIcbCmdWdata := 0
      cfgIcbCmdWmask := 0
      cfgIcbRspReady := true }

/-- Two adjacent reads are accepted, one is answered and none is pending. -/
theorem eagerMaster_unanswered :
    ¬ AnswersEveryCommand eagerMaster ∧ (portRun eagerMaster 2).owed.length = 2 ∧
      (portRun eagerMaster 2).delivered.length = 1 ∧ (portRun eagerMaster 2).pending = [] := by
  refine ⟨?_, by decide, by decide, by decide⟩
  intro h
  have hcount := (h 2).1.count
  exact absurd hcount (by decide)

/-! ## The control register -/

namespace ControlInput

/-- Byte offset within the 4 KB window {lit}`0x1004_2000` to {lit}`0x1004_2FFF`. -/
def windowOffset (i : ControlInput) : BitVec 12 :=
  i.cfgIcbCmdAddr.extractLsb' 0 12

/-- An accepted write to offset zero with its lowest byte enabled. -/
def writesCtr (i : ControlInput) : Bool :=
  i.cfgIcbCmdWrHsk && i.windowOffset == 0 && i.cfgIcbCmdWmask.getLsbD 0

/-- Any other accepted write that the decoder takes for a write to
{lit}`CNNCTR`. -/
def strayWrite (i : ControlInput) : Bool :=
  i.cfgIcbCmdWrHsk && i.offset == cnnCtr && !i.writesCtr

/-- What a write puts into {lit}`CNNCTR`: masked bits are written as zeros. -/
def maskedByte (i : ControlInput) : BitVec 8 :=
  i.cfgIcbCmdWdata.extractLsb' 0 8 &&& (if i.cfgIcbCmdWmask.getLsbD 0 then 0xff else 0)

/-- Offset zero is decoded as {lit}`CNNCTR`. -/
theorem offset_of_windowOffset {i : ControlInput} (h : i.windowOffset = 0) :
    i.offset = cnnCtr := by
  have hlow : i.offset = i.windowOffset.extractLsb' 0 3 := by
    simp [offset, windowOffset, BitVec.extractLsb'_extractLsb'_of_le]
  rw [hlow, h]
  rfl

/-- A write to {lit}`CNNCTR` that has its mask up stores its byte. -/
theorem maskedByte_of_writesCtr {i : ControlInput} (h : i.writesCtr = true) :
    i.maskedByte = i.cfgIcbCmdWdata.extractLsb' 0 8 := by
  have hmask : i.cfgIcbCmdWmask.getLsbD 0 = true := by
    simp only [writesCtr, Bool.and_eq_true] at h
    exact h.2
  calc
    i.maskedByte = i.cfgIcbCmdWdata.extractLsb' 0 8 &&& BitVec.allOnes 8 := by
      rw [maskedByte, if_pos hmask]
      rfl
    _ = i.cfgIcbCmdWdata.extractLsb' 0 8 := BitVec.and_allOnes

end ControlInput

namespace ControlState

/-- What one command does to {lit}`CNNCTR`: intended and stray writes load the
masked byte, everything else leaves the register alone. -/
theorem cnnctrD_eq (s : ControlState) (i : ControlInput) :
    s.cnnctrD i = if i.writesCtr then i.cfgIcbCmdWdata.extractLsb' 0 8
      else if i.strayWrite then i.maskedByte else s.cnnctr := by
  cases hwrites : i.writesCtr
  · simp only [cnnctrD, ControlInput.strayWrite, ControlInput.maskedByte, hwrites]
    simp
  · have hoffset : i.windowOffset = 0 := by
      simp only [ControlInput.writesCtr, Bool.and_eq_true, beq_iff_eq] at hwrites
      exact hwrites.1.2
    have hhsk : i.cfgIcbCmdWrHsk = true := by
      simp only [ControlInput.writesCtr, Bool.and_eq_true] at hwrites
      exact hwrites.1.1
    have hbyte := ControlInput.maskedByte_of_writesCtr hwrites
    simp only [cnnctrD, hhsk, ControlInput.offset_of_windowOffset hoffset, beq_self_eq_true,
      Bool.and_self, if_true]
    exact hbyte

end ControlState

/-- The low byte of the last accepted write to offset zero with its lowest byte
enabled; zero if there was none since reset. -/
def lastByte (inp : Nat → ConfigCycle) : Nat → BitVec 8
  | 0 => 0
  | n + 1 =>
      if (inp n).cfg.writesCtr then (inp n).cfg.cfgIcbCmdWdata.extractLsb' 0 8
      else lastByte inp n

/-- {lit}`CNNCTR` in each cycle of a run. -/
def cnnctrAt (inp : Nat → ConfigCycle) (n : Nat) : BitVec 8 :=
  (portRun inp n).control.cnnctr

/-- The register after a cycle. -/
theorem cnnctrAt_succ (inp : Nat → ConfigCycle) (n : Nat) :
    cnnctrAt inp (n + 1) =
      if (inp n).cfg.writesCtr then (inp n).cfg.cfgIcbCmdWdata.extractLsb' 0 8
      else if (inp n).cfg.strayWrite then (inp n).cfg.maskedByte else cnnctrAt inp n :=
  ControlState.cnnctrD_eq _ _

/-- {lit}`CNNCTR` is what software last wrote to it, and no other command of the
window changes it. -/
structure TracksLastWrite (inp : Nat → ConfigCycle) : Prop where
  value : ∀ n, cnnctrAt inp n = lastByte inp n
  frame : ∀ n, (inp n).cfg.writesCtr = false → cnnctrAt inp (n + 1) = cnnctrAt inp n

/-- Every stray write puts the value back that the register holds. -/
def StrayWritesHarmless (inp : Nat → ConfigCycle) : Prop :=
  ∀ n, (inp n).cfg.strayWrite = true → (inp n).cfg.maskedByte = lastByte inp n

/-- While no stray write changes the value it is the last byte written. -/
private theorem value_of_harmless {inp : Nat → ConfigCycle} (h : StrayWritesHarmless inp)
    (n : Nat) : cnnctrAt inp n = lastByte inp n := by
  induction n with
  | zero => rfl
  | succ n ih =>
      rw [cnnctrAt_succ, lastByte, ih]
      cases hstray : (inp n).cfg.strayWrite
      · simp
      · simp [h n hstray]

/-- {lit}`CNNCTR` has its documented meaning on a run exactly when all its stray
writes are harmless. -/
theorem tracksLastWrite_iff (inp : Nat → ConfigCycle) :
    TracksLastWrite inp ↔ StrayWritesHarmless inp := by
  constructor
  · intro h n hstray
    have hother : (inp n).cfg.writesCtr = false := by
      simp only [ControlInput.strayWrite, Bool.and_eq_true, Bool.not_eq_true'] at hstray
      exact hstray.2
    have hnext := cnnctrAt_succ inp n
    simp only [hother, hstray, if_true] at hnext
    have hkept := h.frame n hother
    rw [← h.value n, ← hkept, hnext]
    simp
  · intro h
    refine ⟨value_of_harmless h, ?_⟩
    intro n hother
    have hnext := value_of_harmless h (n + 1)
    rw [hnext, value_of_harmless h n]
    simp [lastByte, hother]

/-- A write of the configuration master. -/
def configWrite (addr wdata : BitVec 32) (wmask : BitVec 4) : ConfigCycle where
  done := false
  cfg :=
    { cfgIcbCmdValid := true
      cfgIcbCmdAddr := addr
      cfgIcbCmdRead := false
      cfgIcbCmdWdata := wdata
      cfgIcbCmdWmask := wmask
      cfgIcbRspReady := true }

/-- Starts the core through offset zero, then writes once more. -/
def startThen (stray : ConfigCycle) : Nat → ConfigCycle
  | 0 => configWrite 0x10042000 1 0xf
  | _ => stray

/-- Both a write to offset eight and a fully masked write stop the core. -/
theorem stray_writes_stop :
    ¬ TracksLastWrite (startThen (configWrite 0x10042008 0 0xf)) ∧
      ¬ TracksLastWrite (startThen (configWrite 0x10042000 1 0)) ∧
      ∀ stray ∈ [configWrite 0x10042008 0 0xf, configWrite 0x10042000 1 0],
        (portRun (startThen stray) 1).control.enable = true ∧
          (portRun (startThen stray) 2).control.enable = false := by
  refine ⟨?_, ?_, by decide⟩
  · intro h
    exact absurd (h.value 2) (by decide)
  · intro h
    exact absurd (h.value 2) (by decide)

end CnnTop
end AcceleratorSoc
