import Mathlib.Tactic.FinCases
import AcceleratorSoc.Subsys.Fifo

/-!
# The shared memory bus

Two masters, the CPU port {lit}`mem_icb` and the accelerator port {lit}`cnn_icb`,
share the memories of {lit}`e203_subsys_mems`.  The arbiter {lit}`u_mem_icb_arbt`
grants by fixed priority and keeps the port of every granted command in an
eight-entry fifo; the fabric {lit}`u_sirv_mem_fab` has a two-entry buffer for
commands and one for responses, and a splitter that lets one command be
outstanding.  The bus starts from reset.

Main results:

- Theorem {lit}`BusCmd.unpack_pack`, {lit}`BusRsp.unpack_pack`: what the buffers
  carry.
- Theorem {lit}`spltIndic_eq`: the decoder selects exactly one slave.
- Definition {lit}`MemBus.step`: one clock edge.
- Definition {lit}`BusLog.record`: what a monitor sees on the ports and at the
  slaves.
-/

namespace AcceleratorSoc
namespace Subsys

open Clocked

/-! ## Commands and responses -/

/-- Command fields that the masters drive. -/
@[ext]
structure BusCmd where
  read : Bool
  addr : BitVec 32
  wdata : BitVec 32
  wmask : BitVec 4
deriving DecidableEq

/-- Response fields that the slaves drive. -/
@[ext]
structure BusRsp where
  err : Bool
  rdata : BitVec 32
deriving DecidableEq

namespace BusCmd

/-- {lit}`cmd_fifo_i_dat`, without the fields that are tied to zero. -/
def pack (c : BusCmd) : BitVec 69 :=
  BitVec.ofBool c.read ++ c.addr ++ c.wdata ++ c.wmask

/-- The fields of {lit}`cmd_fifo_o_dat`. -/
def unpack (x : BitVec 69) : BusCmd where
  read := x.getLsbD 68
  addr := x.extractLsb' 36 32
  wdata := x.extractLsb' 4 32
  wmask := x.extractLsb' 0 4

/-- Packing loses nothing. -/
@[simp]
theorem unpack_pack (c : BusCmd) : unpack c.pack = c := by
  apply BusCmd.ext
  · show c.pack.getLsbD 68 = c.read
    rw [pack, BitVec.getLsbD_append, BitVec.getLsbD_append, BitVec.getLsbD_append]
    simp
  · show c.pack.extractLsb' 36 32 = c.addr
    rw [pack, BitVec.extractLsb'_append_eq_of_le (by decide),
      BitVec.extractLsb'_append_eq_of_le (by decide), BitVec.extractLsb'_append_eq_right]
  · show c.pack.extractLsb' 4 32 = c.wdata
    rw [pack, BitVec.extractLsb'_append_eq_of_le (by decide),
      BitVec.extractLsb'_append_eq_right]
  · show c.pack.extractLsb' 0 4 = c.wmask
    rw [pack, BitVec.extractLsb'_append_eq_right]

end BusCmd

namespace BusRsp

/-- {lit}`rsp_fifo_i_dat`, without the fields that are tied to zero. -/
def pack (r : BusRsp) : BitVec 33 :=
  BitVec.ofBool r.err ++ r.rdata

/-- The fields of {lit}`rsp_fifo_o_dat`. -/
def unpack (x : BitVec 33) : BusRsp where
  err := x.getLsbD 32
  rdata := x.extractLsb' 0 32

/-- Packing loses nothing here either. -/
@[simp]
theorem unpack_pack (r : BusRsp) : unpack r.pack = r := by
  apply BusRsp.ext
  · show r.pack.getLsbD 32 = r.err
    rw [pack, BitVec.getLsbD_append]
    simp
  · show r.pack.extractLsb' 0 32 = r.rdata
    rw [pack, BitVec.extractLsb'_append_eq_right]

end BusRsp

/-! ## Address decoder -/

/-- {lit}`icb_cmd_o0` and its siblings: the command's address has the upper bits of
the region's base. -/
def icbCmdO (base : BitVec 32) (lsb : Nat) (enable valid : Bool) (addr : BitVec 32) : Bool :=
  valid && (addr.extractLsb' lsb (32 - lsb) == base.extractLsb' lsb (32 - lsb)) && enable

/-- {lit}`DM`: {lit}`0x0000_0000` to {lit}`0x0000_0fff`. -/
def icbCmdO0 : Bool → BitVec 32 → Bool :=
  icbCmdO 0x00000000#32 12 true

/-- {lit}`MROM`: {lit}`0x0000_1000` to {lit}`0x0000_1fff`. -/
def icbCmdO1 : Bool → BitVec 32 → Bool :=
  icbCmdO 0x00001000#32 12 true

/-- Not used. -/
def icbCmdO2 : Bool → BitVec 32 → Bool :=
  icbCmdO 0x00020000#32 17 false

/-- {lit}`QSPI0-RO`: {lit}`0x2000_0000` to {lit}`0x3fff_ffff`. -/
def icbCmdO3 : Bool → BitVec 32 → Bool :=
  icbCmdO 0x20000000#32 29 true

/-- {lit}`SysMem`: {lit}`0x8000_0000` to {lit}`0xffff_ffff`. -/
def icbCmdO4 : Bool → BitVec 32 → Bool :=
  icbCmdO 0x80000000#32 31 true

/-- {lit}`sram_weight`: {lit}`0x0000_2000` to {lit}`0x0000_2fff`. -/
def icbCmdO5 : Bool → BitVec 32 → Bool :=
  icbCmdO 0x00002000#32 12 true

/-- {lit}`sram_image`: {lit}`0x4000_0000` to {lit}`0x4000_0fff`. -/
def icbCmdO6 : Bool → BitVec 32 → Bool :=
  icbCmdO 0x40000000#32 12 true

/-- {lit}`sram_wr`: {lit}`0x6000_0000` to {lit}`0x6000_0fff`. -/
def icbCmdO7 : Bool → BitVec 32 → Bool :=
  icbCmdO 0x60000000#32 12 true

/-- The default slave gets what is in none of the regions. -/
def icbCmdDeft (valid : Bool) (addr : BitVec 32) : Bool :=
  !icbCmdO0 valid addr && !icbCmdO1 valid addr && !icbCmdO2 valid addr &&
    !icbCmdO3 valid addr && !icbCmdO4 valid addr && !icbCmdO5 valid addr &&
    !icbCmdO6 valid addr && !icbCmdO7 valid addr

/-- {lit}`buf_icb_splt_indic`: port {lit}`o0` is bit eight, the default slave bit
zero. -/
def spltIndic (valid : Bool) (addr : BitVec 32) : BitVec 9 :=
  BitVec.ofBool (icbCmdO0 valid addr) ++ BitVec.ofBool (icbCmdO1 valid addr) ++
    BitVec.ofBool (icbCmdO2 valid addr) ++ BitVec.ofBool (icbCmdO3 valid addr) ++
    BitVec.ofBool (icbCmdO4 valid addr) ++ BitVec.ofBool (icbCmdO5 valid addr) ++
    BitVec.ofBool (icbCmdO6 valid addr) ++ BitVec.ofBool (icbCmdO7 valid addr) ++
    BitVec.ofBool (icbCmdDeft valid addr)

/-- Position of the default slave in the splitter's vectors. -/
def deft : Fin 9 :=
  0

/-- Position of the unused port {lit}`o2`. -/
def portO2 : Fin 9 :=
  6

/-- Position of the port {lit}`o5` of the weight memory. -/
def portO5 : Fin 9 :=
  3

/-- Position of the port {lit}`o6` of the image memory. -/
def portO6 : Fin 9 :=
  2

/-- Position of the port {lit}`o7` of the output memory. -/
def portO7 : Fin 9 :=
  1

/-- The slave in whose region an address lies. -/
def target (addr : BitVec 32) : Fin 9 :=
  if icbCmdO0 true addr then 8
  else if icbCmdO1 true addr then 7
  else if icbCmdO3 true addr then 5
  else if icbCmdO4 true addr then 4
  else if icbCmdO5 true addr then 3
  else if icbCmdO6 true addr then 2
  else if icbCmdO7 true addr then 1
  else deft

/-- The slave at which {lit}`buf_icb_splt_indic` points. -/
def selected (valid : Bool) (addr : BitVec 32) : Fin 9 :=
  if valid then target addr else deft

/-- The upper bits of two addresses agree when the addresses lie in one region. -/
theorem icbCmdO_true {lsb : Nat} (hlsb : lsb ≤ 32) (base addr : BitVec 32) :
    icbCmdO base lsb true true addr =
      decide (addr.toNat / 2 ^ lsb = base.toNat / 2 ^ lsb) := by
  have hslice : ∀ x : BitVec 32,
      (x.extractLsb' lsb (32 - lsb)).toNat = x.toNat / 2 ^ lsb := by
    intro x
    rw [BitVec.extractLsb'_toNat, Nat.shiftRight_eq_div_pow]
    apply Nat.mod_eq_of_lt
    rw [Nat.div_lt_iff_lt_mul (Nat.two_pow_pos lsb), ← Nat.pow_add,
      Nat.sub_add_cancel hlsb]
    exact x.isLt
  rw [icbCmdO, Bool.true_and, Bool.and_true, beq_eq_decide]
  apply decide_eq_decide.mpr
  rw [← BitVec.toNat_inj, hslice, hslice]

/-- The decoder selects the slave in whose region the address lies, and no other;
without a command it points at the default slave. -/
theorem spltIndic_eq (valid : Bool) (addr : BitVec 32) :
    spltIndic valid addr = BitVec.twoPow 9 (selected valid addr) := by
  cases valid with
  | false =>
      simp only [spltIndic, icbCmdDeft, icbCmdO0, icbCmdO1, icbCmdO2, icbCmdO3, icbCmdO4,
        icbCmdO5, icbCmdO6, icbCmdO7, icbCmdO, Bool.false_and]
      rw [selected, if_neg Bool.false_ne_true]
      rfl
  | true =>
      have hO2 : icbCmdO2 true addr = false := by simp [icbCmdO2, icbCmdO]
      simp only [spltIndic, icbCmdDeft, selected, if_true, target, hO2]
      simp only [icbCmdO0, icbCmdO1, icbCmdO3, icbCmdO4, icbCmdO5, icbCmdO6, icbCmdO7,
        icbCmdO_true (by decide : 12 ≤ 32), icbCmdO_true (by decide : 29 ≤ 32),
        icbCmdO_true (by decide : 31 ≤ 32), BitVec.toNat_ofNat, decide_eq_true_eq,
        Nat.reducePow, Nat.reduceMod, Nat.reduceDiv]
      split_ifs <;> simp (disch := omega) only [decide_eq_true, decide_eq_false] <;> rfl

/-! ## Ports -/

/-- The two masters. -/
inductive Port
  | mem
  | cnn
deriving DecidableEq

/-- Number of the port in the arbiter's vectors. -/
def Port.id : Port → BitVec 1
  | .mem => 0#1
  | .cnn => 1#1

/-- What a master drives. -/
structure IcbMaster where
  cmdValid : Bool
  cmd : BusCmd
  rspReady : Bool

/-- Input wires of the bus: the masters, and the slaves by their position in the
splitter's vectors.  What is given for the default slave and for {lit}`o2` is not
connected. -/
structure BusInput where
  mem : IcbMaster
  cnn : IcbMaster
  oCmdReady : Fin 9 → Bool
  oRspValid : Fin 9 → Bool
  oRspErr : Fin 9 → Bool
  oRspRdata : Fin 9 → BitVec 32

/-- What the master on a port drives. -/
def BusInput.master (i : BusInput) : Port → IcbMaster
  | .mem => i.mem
  | .cnn => i.cnn

/-- Registers of the arbiter and of the fabric. -/
structure MemBus where
  rspidFifo : Fifo 8 1
  cmdFifo : Fifo 2 69
  rspFifo : Fifo 2 33
  spltStage : CutStage 9

namespace MemBus

variable (s : MemBus) (i : BusInput)

/-! ## Arbiter -/

/-- The fifo of the arbiter is full. -/
def rspidFull : Bool :=
  !s.rspidFifo.iRdy

/-- The fifo of the arbiter is empty. -/
def rspidEmpty : Bool :=
  !s.rspidFifo.oVld

/-- {lit}`i_bus_icb_cmd_grt_vec`: the CPU port always, the accelerator port while the
CPU port asks for nothing. -/
def cmdGrt : Port → Bool
  | .mem => true
  | .cnn => !i.mem.cmdValid

/-- {lit}`i_bus_icb_cmd_sel`. -/
def cmdSel (p : Port) : Bool :=
  cmdGrt i p && (i.master p).cmdValid

/-- {lit}`arbt_icb_cmd_valid`. -/
def arbtCmdValid : Bool :=
  (i.mem.cmdValid || i.cnn.cmdValid) && !s.rspidFull

/-- {lit}`sel_o_icb_cmd_*`: OR of the masked commands. -/
def arbtCmd : BitVec 69 :=
  (if cmdSel i .mem then i.mem.cmd.pack else 0#69) |||
    (if cmdSel i .cnn then i.cnn.cmd.pack else 0#69)

/-- {lit}`i_bus_icb_cmd_ready`. -/
def icbCmdReady (p : Port) : Bool :=
  cmdGrt i p && (s.cmdFifo.iRdy && !s.rspidFull)

/-- {lit}`i_arbt_indic_id`. -/
def rspidWdat : BitVec 1 :=
  (if cmdSel i .mem then Port.mem.id else 0#1) |||
    (if cmdSel i .cnn then Port.cnn.id else 0#1)

/-- A command is accepted, and its port noted in the fifo. -/
def rspidWen : Bool :=
  s.arbtCmdValid i && s.cmdFifo.iRdy

/-- {lit}`o_icb_rsp_port_id` of the arbiter. -/
def arbtRspPortId : BitVec 1 :=
  if s.rspidEmpty then 0#1 else s.rspidFifo.oDat

/-- {lit}`i_bus_icb_rsp_valid`. -/
def icbRspValid (p : Port) : Bool :=
  (!s.rspidEmpty && s.rspFifo.oVld) && s.arbtRspPortId == p.id

/-- {lit}`arbt_icb_rsp_ready`: the ready wire of the port at the head of the fifo. -/
def arbtRspReady : Bool :=
  !s.rspidEmpty && (if s.arbtRspPortId == 0#1 then i.mem.rspReady else i.cnn.rspReady)

/-- A response is delivered, and its port taken off the fifo. -/
def rspidRen : Bool :=
  s.rspFifo.oVld && s.arbtRspReady i

/-- {lit}`i_bus_icb_rsp_err` and {lit}`i_bus_icb_rsp_rdata`, the same on both ports. -/
def icbRsp : BusRsp :=
  BusRsp.unpack s.rspFifo.oDat

/-! ## Splitter -/

/-- The command buffer has a command. -/
def bufCmdValid : Bool :=
  s.cmdFifo.oVld

/-- The command at its head. -/
def bufCmd : BusCmd :=
  BusCmd.unpack s.cmdFifo.oDat

/-- {lit}`buf_icb_splt_indic` in this cycle. -/
def indic : BitVec 9 :=
  spltIndic s.bufCmdValid s.bufCmd.addr

/-- The splitter's stage is full. -/
def spltFull : Bool :=
  !s.spltStage.iRdy

/-- The splitter's stage is empty. -/
def spltEmpty : Bool :=
  !s.spltStage.vldR

/-- {lit}`cmd_diff_branch`: a command to another slave is outstanding. -/
def cmdDiffBranch : Bool :=
  !s.spltEmpty && !(s.indic == s.spltStage.oDat)

/-- {lit}`i_icb_cmd_valid_pre`. -/
def cmdValidPre : Bool :=
  s.bufCmdValid && !s.cmdDiffBranch && !s.spltFull

/-- {lit}`o_icb_cmd_valid`. -/
def oCmdValid (k : Fin 9) : Bool :=
  s.indic.getLsbD k && s.cmdValidPre

/-- {lit}`o_icb_cmd_*`: the command, masked with its valid wire. -/
def oCmd (k : Fin 9) : BusCmd :=
  BusCmd.unpack (if s.oCmdValid k then s.bufCmd.pack else 0#69)

/-- {lit}`o_icb_rsp_port_id` of the splitter. -/
def spltRspPortId : BitVec 9 :=
  if s.spltEmpty then s.indic else s.spltStage.oDat

/-- {lit}`o_icb_rsp_ready`. -/
def oRspReady (k : Fin 9) : Bool :=
  s.spltRspPortId.getLsbD k && s.rspFifo.iRdy

/-- {lit}`o_icb_cmd_ready`; the default slave is ready with its response, port
{lit}`o2` never. -/
def oCmdReady (k : Fin 9) : Bool :=
  if k = deft then s.oRspReady deft else if k = portO2 then false else i.oCmdReady k

/-- {lit}`o_icb_rsp_valid`; the default slave answers in the cycle of the command. -/
def oRspValid (k : Fin 9) : Bool :=
  if k = deft then s.oCmdValid deft else if k = portO2 then false else i.oRspValid k

/-- {lit}`o_icb_rsp_err` and {lit}`o_icb_rsp_rdata`. -/
def oRsp (k : Fin 9) : BusRsp :=
  if k = deft then { err := true, rdata := 0#32 }
  else if k = portO2 then { err := false, rdata := 0#32 }
  else if k = 8 then { err := false, rdata := i.oRspRdata k }
  else { err := i.oRspErr k, rdata := i.oRspRdata k }

/-- {lit}`buf_icb_cmd_ready`. -/
def bufCmdReady : Bool :=
  anyOf s.indic (s.oCmdReady i) && !s.cmdDiffBranch && !s.spltFull

/-- A slave takes the command of the buffer. -/
def spltWen : Bool :=
  s.bufCmdValid && s.bufCmdReady i

/-- {lit}`buf_icb_rsp_valid`. -/
def bufRspValid : Bool :=
  anyOf s.spltRspPortId (s.oRspValid i)

/-- {lit}`buf_icb_rsp_err` and {lit}`buf_icb_rsp_rdata`. -/
def bufRsp : BitVec 33 :=
  orMux s.spltRspPortId fun k => (oRsp i k).pack

/-- The response buffer takes the answer of a slave. -/
def spltRen : Bool :=
  s.bufRspValid i && s.rspFifo.iRdy

/-- A slave answers the command in the cycle in which it takes it. -/
def spltBypass : Bool :=
  s.spltEmpty && s.spltWen i && s.spltRen i

/-- One clock edge. -/
def step : MemBus where
  rspidFifo := s.rspidFifo.step (s.rspidWen i) (rspidWdat i) (s.rspidRen i)
  cmdFifo := s.cmdFifo.step (s.arbtCmdValid i) (arbtCmd i) (s.bufCmdReady i)
  rspFifo := s.rspFifo.step (s.bufRspValid i) (s.bufRsp i) (s.arbtRspReady i)
  spltStage := s.spltStage.step (s.spltWen i && !s.spltBypass i) s.indic
    (s.spltRen i && !s.spltBypass i)

/-- The bus after reset; the register files and the stage's word keep what they
powered up with. -/
def reset (rspid : Fin 8 → BitVec 1) (cmd : Fin 2 → BitVec 69) (rsp : Fin 2 → BitVec 33)
    (splt : BitVec 9) : MemBus where
  rspidFifo := Fifo.reset rspid
  cmdFifo := Fifo.reset cmd
  rspFifo := Fifo.reset rsp
  spltStage := { vldR := false, oDat := splt }

end MemBus

/-! ## Monitor -/

/-- Handshakes seen so far: commands accepted on the ports, commands taken and
responses given by each slave, responses delivered on the ports. -/
structure BusLog where
  accepted : List (Port × BusCmd)
  taken : Fin 9 → List BusCmd
  answered : Fin 9 → List BusRsp
  delivered : List (Port × BusRsp)

namespace BusLog

/-- Nothing has been seen. -/
def empty : BusLog where
  accepted := []
  taken := fun _ => []
  answered := fun _ => []
  delivered := []

/-- A command handshake on a port. -/
def acceptedOn (s : MemBus) (i : BusInput) (p : Port) : List (Port × BusCmd) :=
  if (i.master p).cmdValid && s.icbCmdReady i p then [(p, (i.master p).cmd)] else []

/-- A response handshake on a port. -/
def deliveredOn (s : MemBus) (i : BusInput) (p : Port) : List (Port × BusRsp) :=
  if s.icbRspValid p && (i.master p).rspReady then [(p, s.icbRsp)] else []

/-- The log after a cycle. -/
def record (l : BusLog) (s : MemBus) (i : BusInput) : BusLog where
  accepted := l.accepted ++ (acceptedOn s i .mem ++ acceptedOn s i .cnn)
  taken := fun k =>
    l.taken k ++ (if s.oCmdValid k && s.oCmdReady i k then [s.oCmd k] else [])
  answered := fun k =>
    l.answered k ++ (if s.oRspValid i k && s.oRspReady k then [MemBus.oRsp i k] else [])
  delivered := l.delivered ++ (deliveredOn s i .mem ++ deliveredOn s i .cnn)

/-- Commands accepted on a port, in order. -/
def acceptedAt (l : BusLog) (p : Port) : List BusCmd :=
  (l.accepted.filter fun (e : Port × BusCmd) => e.1 = p).map Prod.snd

/-- Responses delivered on a port, in order. -/
def deliveredAt (l : BusLog) (p : Port) : List BusRsp :=
  (l.delivered.filter fun (e : Port × BusRsp) => e.1 = p).map Prod.snd

/-- Accepted command {lit}`m` is command number {lit}`j` of a port. -/
def IsCommandOf (l : BusLog) (p : Port) (j m : Nat) : Prop :=
  l.accepted[m]?.map Prod.fst = some p ∧
    (l.accepted.take m).countP (fun (e : Port × BusCmd) => e.1 = p) = j

/-- The answer to accepted command {lit}`n`.  A slave answers in order, so it is the
response number {lit}`m` of its slave, when {lit}`m` earlier commands went there. -/
def answerTo (l : BusLog) (n : Nat) : Option BusRsp :=
  match l.accepted[n]? with
  | none => none
  | some e =>
      (l.answered (target e.2.addr))[(l.accepted.take n).countP
        fun (d : Port × BusCmd) => target d.2.addr = target e.2.addr]?

end BusLog

/-- The bus and its monitor. -/
structure Monitored where
  bus : MemBus
  log : BusLog

namespace Monitored

/-- After reset, before any handshake. -/
def reset (rspid : Fin 8 → BitVec 1) (cmd : Fin 2 → BitVec 69) (rsp : Fin 2 → BitVec 33)
    (splt : BitVec 9) : Monitored where
  bus := MemBus.reset rspid cmd rsp splt
  log := BusLog.empty

/-- One clock edge. -/
def step (b : Monitored) (i : BusInput) : Monitored where
  bus := b.bus.step i
  log := b.log.record b.bus i

/-- In this cycle no slave gives a response that it does not owe: what it answers
was taken before, or is taken now.  The default slave belongs to the fabric. -/
def SlavesConform (b : Monitored) (i : BusInput) : Prop :=
  ∀ k ≠ deft, (b.bus.oRspValid i k && b.bus.oRspReady k) = true →
    (b.log.answered k).length < (b.log.taken k).length ∨
      (b.bus.oCmdValid k && b.bus.oCmdReady i k) = true

instance (b : Monitored) (i : BusInput) : Decidable (b.SlavesConform i) :=
  inferInstanceAs (Decidable (∀ k ≠ deft,
    (b.bus.oRspValid i k && b.bus.oRspReady k) = true →
      (b.log.answered k).length < (b.log.taken k).length ∨
        (b.bus.oCmdValid k && b.bus.oCmdReady i k) = true))

end Monitored

end Subsys
end AcceleratorSoc
