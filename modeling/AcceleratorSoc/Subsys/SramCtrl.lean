import Mathlib.Data.Nat.Init
import Mathlib.Tactic.SplitIfs

/-!
# SRAM behind its ICB controller

One accelerator SRAM of {lit}`e203_subsys_mems`: {lit}`sirv_sram_icb_ctrl` with
{lit}`DW = 32`, {lit}`MW = 4`, {lit}`AW = 12` and {lit}`AW_LSB = 2`, in front of
{lit}`sirv_sim_ram`.  The controller is a bypass buffer of depth one followed by
one pipeline stage; the memory is accessed in the cycle in which a command moves
from the buffer into the stage.

Main results:

- Theorem {lit}`Bypbuf.next_toList`: the bypass buffer is a queue.
- Theorem {lit}`writeBytes_all`: a write with all byte lanes replaces the word.
- Theorem {lit}`Sram.inFlight_step`: commands reach the memory in the order in
  which they were taken, none lost and none repeated.
- Theorem {lit}`Sram.mem_step`: what the memory holds after one clock edge.
-/

namespace AcceleratorSoc
namespace Subsys

/-- Command of an ICB port of the controller; only the low twelve address bits
are connected. -/
structure IcbCmd where
  read : Bool
  addr : BitVec 12
  wdata : BitVec 32
  wmask : BitVec 4
deriving DecidableEq

/-! ## Bypass buffer and pipeline stage -/

/-- {lit}`sirv_gnrl_bypbuf` with {lit}`DP = 1`: its one fifo entry. -/
abbrev Bypbuf (α : Type*) := Option α

namespace Bypbuf

variable {α : Type*}

/-- {lit}`i_rdy`: the fifo is cut, so it accepts only while empty. -/
def iRdy (b : Bypbuf α) : Bool :=
  b.isNone

/-- {lit}`o_vld` and {lit}`o_dat`: the fifo entry first, else the input. -/
def out (b : Bypbuf α) (i : Option α) : Option α :=
  b.or i

/-- The fifo entry after one clock edge.  An input that can pass through to the
output at once does not enter the fifo. -/
def next (b : Bypbuf α) (i : Option α) (oRdy : Bool) : Bypbuf α :=
  match b with
  | none => if oRdy then none else i
  | some x => if oRdy then none else some x

/-- What is in the buffer or offered to it leaves at the front. -/
theorem next_toList (b : Bypbuf α) (i : Option α) (oRdy : Bool) :
    b.toList ++ (if b.iRdy then i else none).toList =
      (if oRdy then b.out i else none).toList ++ (b.next i oRdy).toList := by
  cases b <;> cases oRdy <;> simp [iRdy, out, next]

end Bypbuf

/-- {lit}`i_rdy` of {lit}`sirv_gnrl_pipe_stage` with {lit}`CUT_READY = 0`: the stage
is empty or popping. -/
def stageIRdy (vldR oRdy : Bool) : Bool :=
  !vldR || (vldR && oRdy)

/-- {lit}`vld_r` of the stage after one clock edge. -/
def stageNext (vldR iVld oRdy : Bool) : Bool :=
  let vldSet := iVld && stageIRdy vldR oRdy
  let vldClr := vldR && oRdy
  if vldSet || vldClr then vldSet || !vldClr else vldR

/-- A stage that hands nothing over and receives nothing keeps its flag; at most
one entry is in it. -/
theorem stageNext_toNat (vldR iVld oRdy : Bool) :
    (stageNext vldR iVld oRdy).toNat + (vldR && oRdy).toNat =
      vldR.toNat + (iVld && stageIRdy vldR oRdy).toNat := by
  cases vldR <;> cases iVld <;> cases oRdy <;> rfl

/-- What a stage takes under its ready wire is at most one entry. -/
theorem length_taken {α : Type*} (entry : Option α) (ready : Bool) :
    (if ready then entry else none).toList.length = (entry.isSome && ready).toNat := by
  cases ready <;> cases entry <;> rfl

/-! ## Memory -/

/-- {lit}`sirv_sim_ram`: its words, as far as the ten address bits reach, and the
registered read address. -/
structure SimRam where
  mem : BitVec 10 → BitVec 32
  addrR : BitVec 10

/-- Byte lane {lit}`k` of the word written under the lane enables {lit}`wen`. -/
def byteLane (wen : BitVec 4) (old din : BitVec 32) (k : Nat) : BitVec 8 :=
  if wen.getLsbD k then din.extractLsb' (8 * k) 8 else old.extractLsb' (8 * k) 8

/-- A word after a write under the lane enables {lit}`wen`. -/
def writeBytes (wen : BitVec 4) (old din : BitVec 32) : BitVec 32 :=
  byteLane wen old din 3 ++ byteLane wen old din 2 ++ byteLane wen old din 1 ++
    byteLane wen old din 0

/-- The four bytes of a word. -/
private theorem bytes_append (x : BitVec 32) :
    x.extractLsb' 24 8 ++ x.extractLsb' 16 8 ++ x.extractLsb' 8 8 ++ x.extractLsb' 0 8 =
      x := by
  apply BitVec.eq_of_getLsbD_eq
  intro i hi
  simp only [BitVec.getLsbD_append, BitVec.getLsbD_extractLsb']
  have hbyte : ∀ start k, k < 8 → start + k = i →
      (decide (k < 8) && x.getLsbD (start + k)) = x.getLsbD i := by
    intro start k hk hi
    rw [decide_eq_true hk, Bool.true_and, hi]
  split_ifs with h0 h1 h2
  · exact hbyte 0 i h0 (Nat.zero_add i)
  · exact hbyte 8 (i - 8) h1 (by omega)
  · exact hbyte 16 (i - 8 - 8) h2 (by omega)
  · exact hbyte 24 (i - 8 - 8 - 8) (by omega) (by omega)

/-- With all lanes enabled the whole word is replaced. -/
theorem writeBytes_all (old din : BitVec 32) : writeBytes 15#4 old din = din := by
  unfold writeBytes byteLane
  rw [if_pos (by decide), if_pos (by decide), if_pos (by decide), if_pos (by decide)]
  exact bytes_append din

/-- With no lane enabled the word is kept. -/
theorem writeBytes_none (old din : BitVec 32) : writeBytes 0#4 old din = old := by
  unfold writeBytes byteLane
  simp only [BitVec.getLsbD_zero, Bool.false_eq_true, if_false]
  exact bytes_append old

namespace SimRam

/-- {lit}`dout`. -/
def dout (m : SimRam) : BitVec 32 :=
  m.mem m.addrR

/-- One clock edge of the memory. -/
def step (m : SimRam) (cs we : Bool) (wem : BitVec 4) (addr : BitVec 10)
    (din : BitVec 32) : SimRam where
  mem := fun a =>
    if a = addr then writeBytes (if cs && we then wem else 0) (m.mem a) din else m.mem a
  addrR := if cs && !we then addr else m.addrR

end SimRam

/-! ## Controller and memory -/

/-- {lit}`sirv_sram_icb_ctrl` and its {lit}`sirv_sim_ram`. -/
structure Sram where
  bypbuf : Bypbuf IcbCmd
  e1Vld : Bool
  ram : SimRam

namespace Sram

/-- An idle controller over given memory contents. -/
def idle (mem : BitVec 10 → BitVec 32) : Sram where
  bypbuf := none
  e1Vld := false
  ram := { mem := mem, addrR := 0 }

/-- {lit}`i_icb_cmd_ready`. -/
def icbCmdReady (s : Sram) : Bool :=
  s.bypbuf.iRdy

/-- {lit}`i_icb_rsp_valid`. -/
def icbRspValid (s : Sram) : Bool :=
  s.e1Vld

/-- {lit}`i_icb_rsp_rdata`. -/
def icbRspRdata (s : Sram) : BitVec 32 :=
  s.ram.dout

/-- {lit}`uop_cmd_ready` of {lit}`sirv_1cyc_sram_ctrl`. -/
def uopCmdReady (s : Sram) (rspReady : Bool) : Bool :=
  stageIRdy s.e1Vld rspReady

/-- The command on which {lit}`ram_cs` is raised in this cycle, if any. -/
def performed (s : Sram) (cmd : Option IcbCmd) (rspReady : Bool) : Option IcbCmd :=
  if s.uopCmdReady rspReady then s.bypbuf.out cmd else none

/-- {lit}`ram_addr`: the word index, address bits 11 to 2. -/
def ramAddr (c : IcbCmd) : BitVec 10 :=
  c.addr.extractLsb' 2 10

/-- One clock edge, with the command offered on the port and the ready wire of the
response channel. -/
def step (s : Sram) (cmd : Option IcbCmd) (rspReady : Bool) : Sram where
  bypbuf := s.bypbuf.next cmd (s.uopCmdReady rspReady)
  e1Vld := stageNext s.e1Vld (s.bypbuf.out cmd).isSome rspReady
  ram :=
    match s.bypbuf.out cmd with
    | none => s.ram
    | some c => s.ram.step (s.uopCmdReady rspReady) (!c.read) c.wmask (ramAddr c) c.wdata

/-- Commands pass through the controller in order, and each accesses the memory
once. -/
theorem inFlight_step (s : Sram) (cmd : Option IcbCmd) (rspReady : Bool) :
    s.bypbuf.toList ++ (if s.icbCmdReady then cmd else none).toList =
      (s.performed cmd rspReady).toList ++ (s.step cmd rspReady).bypbuf.toList :=
  Bypbuf.next_toList s.bypbuf cmd (s.uopCmdReady rspReady)

/-- Each performed command is answered: the stage holds the answer until it is
taken. -/
theorem e1Vld_step (s : Sram) (cmd : Option IcbCmd) (rspReady : Bool) :
    (s.step cmd rspReady).e1Vld.toNat + (s.icbRspValid && rspReady).toNat =
      s.e1Vld.toNat + (s.performed cmd rspReady).toList.length := by
  rw [performed, length_taken]
  exact stageNext_toNat s.e1Vld (s.bypbuf.out cmd).isSome rspReady

/-- What a performed command makes of word {lit}`a`: a write changes the enabled
bytes of its own word, anything else changes nothing. -/
def wordAfter (cmd : Option IcbCmd) (a : BitVec 10) (old : BitVec 32) : BitVec 32 :=
  match cmd with
  | none => old
  | some c => if a = ramAddr c ∧ c.read = false then writeBytes c.wmask old c.wdata else old

/-- Without a command the word stays. -/
@[simp]
theorem wordAfter_none (a : BitVec 10) (old : BitVec 32) : wordAfter none a old = old :=
  rfl

/-- A write to its address replaces the bytes of its mask. -/
theorem wordAfter_some (c : IcbCmd) (a : BitVec 10) (old : BitVec 32) :
    wordAfter (some c) a old =
      if a = ramAddr c ∧ c.read = false then writeBytes c.wmask old c.wdata else old :=
  rfl

/-- The memory after one clock edge. -/
theorem mem_step (s : Sram) (cmd : Option IcbCmd) (rspReady : Bool) (a : BitVec 10) :
    (s.step cmd rspReady).ram.mem a =
      wordAfter (s.performed cmd rspReady) a (s.ram.mem a) := by
  cases hout : s.bypbuf.out cmd with
  | none => simp [step, performed, hout]
  | some c =>
      cases hready : s.uopCmdReady rspReady
      · simp [step, performed, hready, hout, SimRam.step, writeBytes_none]
      · cases hread : c.read <;>
          simp [step, performed, hready, hout, hread, SimRam.step, writeBytes_none,
            wordAfter_some]

end Sram

end Subsys
end AcceleratorSoc
