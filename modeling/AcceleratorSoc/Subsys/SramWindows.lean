import AcceleratorSoc.Clocked.Run
import AcceleratorSoc.Clocked.LastWrite
import AcceleratorSoc.Subsys.MemBus
import AcceleratorSoc.Subsys.SramCtrl

/-!
# The accelerator's memory windows

The weight, image and output memories of {lit}`e203_subsys_mems` are regions
{lit}`O5`, {lit}`O6` and {lit}`O7` of the fabric, four kilobytes each.  Each has a
controller of its own, which drives ten address bits, and a {lit}`sirv_sim_ram`
whose depth is set separately: 192 words for the weights, more than the window has
for the other two.  A word beyond the depth does not exist: writing it does
nothing and reading it gives {lit}`x`.

Main results:

- Theorem {lit}`WindowSram.toSram_step`: with a memory of full depth the window is the
  controller and memory of {lit}`Sram`.
- Theorem {lit}`WindowInv.step`: the controller performs the accepted commands one
  after the other, and answers in order.
- Theorem {lit}`byte_accessAll`: a byte of the memory is the last one written to it.
- Theorem {lit}`wordAddr_eq_iff`: the ten address bits tell the words of a window
  apart.
- Theorem {lit}`memoryLike_iff`: a window is a memory as long as the words read are
  within the depth.
-/

namespace AcceleratorSoc
namespace Subsys

open Clocked

/-! ## Windows -/

/-- The three windows. -/
inductive Window
  | weight
  | image
  | output
deriving DecidableEq

namespace Window

/-- {lit}`DP` of {lit}`u_sirv_sim_ram1`, {lit}`u_sirv_sim_ram2` and
{lit}`u_sirv_sim_ram3`. -/
def depth : Window → Nat
  | weight => 192
  | image => 2176
  | output => 16384

/-- The fabric routes the address to the window's controller. -/
def selects : Window → BitVec 32 → Bool
  | weight => icbCmdO5 true
  | image => icbCmdO6 true
  | output => icbCmdO7 true

end Window

/-- A command on the port of the window's controller: address bits 11 to 0. -/
def windowCmd (c : BusCmd) : IcbCmd where
  read := c.read
  addr := c.addr.extractLsb' 0 12
  wdata := c.wdata
  wmask := c.wmask

/-! ## Memory of a given depth -/

/-- {lit}`sirv_sim_ram` with {lit}`DP` words, {lit}`AW = 10` and
{lit}`FORCE_X2ZERO = 0`. -/
structure SizedRam (dp : Nat) where
  mem : Fin dp → BitVec 32
  addrR : BitVec 10

namespace SizedRam

variable {dp : Nat}

/-- {lit}`dout`; a word that does not exist reads as {lit}`x`. -/
def dout (m : SizedRam dp) : Option (BitVec 32) :=
  if h : m.addrR.toNat < dp then some (m.mem ⟨m.addrR.toNat, h⟩) else none

/-- One clock edge of the memory. -/
def step (m : SizedRam dp) (cs we : Bool) (wem : BitVec 4) (addr : BitVec 10)
    (din : BitVec 32) : SizedRam dp where
  mem := fun a =>
    if a.val = addr.toNat then writeBytes (if cs && we then wem else 0) (m.mem a) din
    else m.mem a
  addrR := if cs && !we then addr else m.addrR

/-- The clock edge that performs a command. -/
def access (m : SizedRam dp) (c : IcbCmd) : SizedRam dp :=
  m.step true (!c.read) c.wmask (Sram.ramAddr c) c.wdata

end SizedRam

/-! ## Controller and memory -/

/-- {lit}`sirv_sram_icb_ctrl` and its {lit}`sirv_sim_ram`. -/
structure WindowSram (dp : Nat) where
  bypbuf : Bypbuf IcbCmd
  e1Vld : Bool
  ram : SizedRam dp

namespace WindowSram

variable {dp : Nat}

/-- {lit}`i_icb_cmd_ready`. -/
def icbCmdReady (s : WindowSram dp) : Bool :=
  s.bypbuf.iRdy

/-- {lit}`i_icb_rsp_valid`. -/
def icbRspValid (s : WindowSram dp) : Bool :=
  s.e1Vld

/-- {lit}`i_icb_rsp_rdata`. -/
def icbRspRdata (s : WindowSram dp) : Option (BitVec 32) :=
  s.ram.dout

/-- {lit}`uop_cmd_ready`. -/
def uopCmdReady (s : WindowSram dp) (rspReady : Bool) : Bool :=
  stageIRdy s.e1Vld rspReady

/-- The command on which {lit}`ram_cs` is raised in this cycle, if any. -/
def performed (s : WindowSram dp) (cmd : Option IcbCmd) (rspReady : Bool) : Option IcbCmd :=
  if s.uopCmdReady rspReady then s.bypbuf.out cmd else none

/-- One clock edge; the memory's clock is gated with {lit}`ram_cs`. -/
def step (s : WindowSram dp) (cmd : Option IcbCmd) (rspReady : Bool) : WindowSram dp where
  bypbuf := s.bypbuf.next cmd (s.uopCmdReady rspReady)
  e1Vld := stageNext s.e1Vld (s.bypbuf.out cmd).isSome rspReady
  ram := (s.performed cmd rspReady).toList.foldl SizedRam.access s.ram

/-- After reset, with what the memory powered up with. -/
def reset (ram : SizedRam dp) : WindowSram dp where
  bypbuf := none
  e1Vld := false
  ram := ram

/-- Commands pass through the controller in order, and each is performed once. -/
theorem inFlight_step (s : WindowSram dp) (cmd : Option IcbCmd) (rspReady : Bool) :
    s.bypbuf.toList ++ (if s.icbCmdReady then cmd else none).toList =
      (s.performed cmd rspReady).toList ++ (s.step cmd rspReady).bypbuf.toList :=
  Bypbuf.next_toList s.bypbuf cmd (s.uopCmdReady rspReady)

/-- The stage holds the answer to a performed command until it is taken. -/
theorem e1Vld_step (s : WindowSram dp) (cmd : Option IcbCmd) (rspReady : Bool) :
    (s.step cmd rspReady).e1Vld.toNat + (s.icbRspValid && rspReady).toNat =
      s.e1Vld.toNat + (s.performed cmd rspReady).toList.length := by
  rw [performed, length_taken]
  exact stageNext_toNat s.e1Vld (s.bypbuf.out cmd).isSome rspReady

end WindowSram

/-! ## Full depth -/

/-- A memory at least as large as its window, as far as the ten address bits reach. -/
def SizedRam.toSimRam {dp : Nat} (hdepth : 1024 ≤ dp) (m : SizedRam dp) : SimRam where
  mem a := m.mem ⟨a.toNat, Nat.lt_of_lt_of_le a.isLt hdepth⟩
  addrR := m.addrR

/-- A memory of full depth is a {lit}`SimRam`. -/
theorem SizedRam.toSimRam_step {dp : Nat} (hdepth : 1024 ≤ dp) (m : SizedRam dp)
    (cs we : Bool) (wem : BitVec 4) (addr : BitVec 10) (din : BitVec 32) :
    (m.step cs we wem addr din).toSimRam hdepth =
      (m.toSimRam hdepth).step cs we wem addr din := by
  unfold SizedRam.toSimRam SizedRam.step SimRam.step
  congr 1
  funext a
  simp only [BitVec.toNat_inj]

/-- A clock edge without {lit}`ram_cs` changes nothing. -/
theorem SimRam.step_idle (m : SimRam) (we : Bool) (wem : BitVec 4) (addr : BitVec 10)
    (din : BitVec 32) : m.step false we wem addr din = m := by
  rcases m with ⟨mem, addrR⟩
  simp [SimRam.step, writeBytes_none]

/-- The controller over such a memory. -/
def WindowSram.toSram {dp : Nat} (hdepth : 1024 ≤ dp) (s : WindowSram dp) : Sram where
  bypbuf := s.bypbuf
  e1Vld := s.e1Vld
  ram := s.ram.toSimRam hdepth

/-- With a memory of full depth the window is the controller with a word for every
address. -/
theorem WindowSram.toSram_step {dp : Nat} (hdepth : 1024 ≤ dp) (s : WindowSram dp)
    (cmd : Option IcbCmd) (rspReady : Bool) :
    (s.step cmd rspReady).toSram hdepth = (s.toSram hdepth).step cmd rspReady := by
  have hram : ((s.performed cmd rspReady).toList.foldl SizedRam.access s.ram).toSimRam hdepth =
      ((s.toSram hdepth).step cmd rspReady).ram := by
    have hready : (s.toSram hdepth).uopCmdReady rspReady = s.uopCmdReady rspReady := rfl
    have hout : (s.toSram hdepth).bypbuf.out cmd = s.bypbuf.out cmd := rfl
    unfold Sram.step WindowSram.performed
    rw [hready, hout]
    cases s.bypbuf.out cmd with
    | none => cases s.uopCmdReady rspReady <;> rfl
    | some c =>
        cases s.uopCmdReady rspReady
        · exact (SimRam.step_idle _ _ _ _ _).symm
        · exact s.ram.toSimRam_step hdepth true (!c.read) c.wmask (Sram.ramAddr c) c.wdata
  calc
    (s.step cmd rspReady).toSram hdepth =
        { bypbuf := s.bypbuf.next cmd (s.uopCmdReady rspReady)
          e1Vld := stageNext s.e1Vld (s.bypbuf.out cmd).isSome rspReady
          ram := ((s.performed cmd rspReady).toList.foldl SizedRam.access s.ram).toSimRam
            hdepth } := rfl
    _ = (s.toSram hdepth).step cmd rspReady := by
      rw [hram]
      rfl

/-! ## Monitor -/

/-- Input wires in one cycle: a command of the fabric, for this window or another, and
the ready wire of the response channel. -/
structure WindowInput where
  cmd : Option BusCmd
  rspReady : Bool

/-- Commands accepted by the window's controller, and its responses, in order. -/
structure WindowLog where
  accepted : List BusCmd
  responses : List (Option (BitVec 32))

/-- A window's controller, its memory and the monitor. -/
structure WindowState (W : Window) where
  sram : WindowSram W.depth
  log : WindowLog

namespace WindowState

variable {W : Window}

/-- The command on the controller's port. -/
def offered (W : Window) (i : WindowInput) : Option BusCmd :=
  i.cmd.filter fun c => W.selects c.addr

/-- The command that the controller accepts in this cycle, if any. -/
def accepts (b : WindowState W) (i : WindowInput) : Option BusCmd :=
  if b.sram.icbCmdReady then offered W i else none

/-- The response that is taken from the controller in this cycle, if any. -/
def responds (b : WindowState W) (i : WindowInput) : Option (Option (BitVec 32)) :=
  if b.sram.icbRspValid && i.rspReady then some b.sram.icbRspRdata else none

/-- One clock edge. -/
def step (b : WindowState W) (i : WindowInput) : WindowState W where
  sram := b.sram.step ((offered W i).map windowCmd) i.rspReady
  log :=
    { accepted := b.log.accepted ++ (b.accepts i).toList
      responses := b.log.responses ++ (b.responds i).toList }

/-- After reset. -/
def reset (ram : SizedRam W.depth) : WindowState W where
  sram := WindowSram.reset ram
  log := { accepted := [], responses := [] }

/-- The command that the controller performs in this cycle, if any. -/
def performs (b : WindowState W) (i : WindowInput) : Option IcbCmd :=
  b.sram.performed ((offered W i).map windowCmd) i.rspReady

variable (b : WindowState W) (i : WindowInput)

/-- A command that is offered is accepted when the controller is ready. -/
theorem accepts_map : (b.accepts i).map windowCmd =
    if b.sram.icbCmdReady then (offered W i).map windowCmd else none := by
  rw [accepts]
  cases b.sram.icbCmdReady <;> rfl

/-- A response is logged when it is taken. -/
theorem length_responses_step : (b.step i).log.responses.length =
    b.log.responses.length + (b.sram.icbRspValid && i.rspReady).toNat := by
  simp only [step, responds, List.length_append]
  cases b.sram.icbRspValid && i.rspReady <;> rfl

variable {b i}

/-- An accepted command belongs to the window. -/
theorem selects_of_accepts {c : BusCmd} (h : b.accepts i = some c) :
    W.selects c.addr = true := by
  rw [accepts] at h
  split_ifs at h
  exact (Option.filter_eq_some_iff.mp h).2

/-- A response of this cycle shows the memory's output. -/
theorem response_step {k : Nat} {r : Option (BitVec 32)}
    (hr : (b.step i).log.responses[k]? = some r) :
    b.log.responses[k]? = some r ∨
      (k = b.log.responses.length ∧ b.sram.e1Vld = true ∧ r = b.sram.ram.dout) := by
  simp only [step, responds, WindowSram.icbRspValid, WindowSram.icbRspRdata] at hr
  cases hvalid : b.sram.e1Vld && i.rspReady
  · simp only [hvalid, Bool.false_eq_true, if_false, Option.toList_none,
      List.append_nil] at hr
    exact Or.inl hr
  · simp only [hvalid, if_true, Option.toList_some] at hr
    rcases Nat.lt_or_ge k b.log.responses.length with hlt | hge
    · rw [List.getElem?_append_left hlt] at hr
      exact Or.inl hr
    · rw [List.getElem?_append_right hge, List.getElem?_singleton] at hr
      split_ifs at hr with hzero
      exact Or.inr ⟨by omega, (Bool.and_eq_true _ _ ▸ hvalid).1, (Option.some.inj hr).symm⟩

end WindowState

/-! ## A window as a memory -/

/-- Word address of a command on the bus. -/
def wordAddr (c : BusCmd) : BitVec 30 :=
  c.addr.extractLsb' 2 30

/-- Byte {lit}`j` that a command writes to the word with address {lit}`a`, if any. -/
def writtenByte (a : BitVec 30) (j : Nat) (c : BusCmd) : Option (BitVec 8) :=
  if c.read = false ∧ wordAddr c = a ∧ c.wmask.getLsbD j = true then
    some (c.wdata.extractLsb' (8 * j) 8)
  else none

/-- Byte {lit}`j` last written to the word with address {lit}`a`. -/
def lastByteAt (l : List BusCmd) (a : BitVec 30) (j : Nat) : Option (BitVec 8) :=
  lastWrite (writtenByte a j) l

/-- All bytes of a word have been written. -/
def FullyWritten (l : List BusCmd) (a : BitVec 30) : Prop :=
  ∀ j < 4, (lastByteAt l a j).isSome

/-- Every answered read of a word that was fully written before returned, byte by
byte, what was last written to it. -/
def MemoryLike (l : WindowLog) : Prop :=
  ∀ (k : Nat) (c : BusCmd) (r : Option (BitVec 32)), l.accepted[k]? = some c →
    l.responses[k]? = some r → c.read = true →
      FullyWritten (l.accepted.take k) (wordAddr c) →
        ∃ v, r = some v ∧
          ∀ j < 4, lastByteAt (l.accepted.take k) (wordAddr c) j =
            some (v.extractLsb' (8 * j) 8)

/-- Every answered read of a word that was fully written before is a read of a word
that the memory has. -/
def ReadsBacked (W : Window) (l : WindowLog) : Prop :=
  ∀ (k : Nat) (c : BusCmd), l.accepted[k]? = some c → k < l.responses.length →
    c.read = true → FullyWritten (l.accepted.take k) (wordAddr c) →
      (Sram.ramAddr (windowCmd c)).toNat < W.depth

/-! ## The controller performs commands in order -/

/-- The commands performed so far; the memory, the buffer and the responses follow from
them. -/
structure WindowInv {W : Window} (start : SizedRam W.depth) (b : WindowState W)
    (done : List IcbCmd) : Prop where
  accepted : b.log.accepted.map windowCmd = done ++ b.sram.bypbuf.toList
  ram : b.sram.ram = done.foldl SizedRam.access start
  count : b.log.responses.length + b.sram.e1Vld.toNat = done.length
  responses : ∀ (k : Nat) (r : Option (BitVec 32)), b.log.responses[k]? = some r →
    r = ((done.take (k + 1)).foldl SizedRam.access start).dout
  selected : ∀ c ∈ b.log.accepted, W.selects c.addr = true

namespace WindowInv

variable {W : Window} {start : SizedRam W.depth} {b : WindowState W} {done : List IcbCmd}

/-- Out of reset nothing has been performed. -/
theorem reset (start : SizedRam W.depth) : WindowInv start (WindowState.reset start) [] where
  accepted := rfl
  ram := rfl
  count := rfl
  responses _ _ h := absurd h (by simp [WindowState.reset])
  selected _ h := absurd h (by simp [WindowState.reset])

/-- A cycle performs at most one command, and answers the one before. -/
theorem step (h : WindowInv start b done) (i : WindowInput) :
    WindowInv start (b.step i) (done ++ (b.performs i).toList) := by
  let cmd := (WindowState.offered W i).map windowCmd
  have hcount := h.count
  constructor
  · calc
      (b.step i).log.accepted.map windowCmd =
          b.log.accepted.map windowCmd ++ ((b.accepts i).map windowCmd).toList := by
        simp [WindowState.step, Option.toList_map]
      _ = done ++ (b.sram.bypbuf.toList ++
            (if b.sram.icbCmdReady then cmd else none).toList) := by
        rw [h.accepted, b.accepts_map, List.append_assoc]
      _ = done ++ (b.performs i).toList ++ (b.step i).sram.bypbuf.toList := by
        rw [b.sram.inFlight_step cmd i.rspReady, List.append_assoc]
        rfl
  · rw [List.foldl_append, ← h.ram]
    rfl
  · have hstage : (b.step i).sram.e1Vld.toNat + (b.sram.icbRspValid && i.rspReady).toNat =
        b.sram.e1Vld.toNat + (b.performs i).toList.length :=
      b.sram.e1Vld_step cmd i.rspReady
    rw [b.length_responses_step, List.length_append]
    omega
  · intro k r hr
    rcases WindowState.response_step hr with hold | ⟨rfl, hvalid, rfl⟩
    · rcases List.getElem?_eq_some_iff.mp hold with ⟨hlt, -⟩
      rw [List.take_append_of_le_length (by omega)]
      exact h.responses k r hold
    · -- the answer belongs to the last performed command, and the memory is at rest since
      rw [hvalid, Bool.toNat_true] at hcount
      rw [hcount, List.take_left, h.ram]
  · intro c hc
    rcases List.mem_append.mp hc with hold | hnew
    · exact h.selected c hold
    · exact WindowState.selects_of_accepts (Option.mem_toList.mp hnew)

end WindowInv

/-! ## Bytes of the memory -/

/-- A byte of a written word is the new one in an enabled lane, else the old one. -/
theorem extractLsb'_writeBytes (wen : BitVec 4) (old din : BitVec 32) {j : Nat} (hj : j < 4) :
    (writeBytes wen old din).extractLsb' (8 * j) 8 = byteLane wen old din j := by
  have hlanes : j = 0 ∨ j = 1 ∨ j = 2 ∨ j = 3 := by omega
  rcases hlanes with rfl | rfl | rfl | rfl
  · rw [writeBytes, BitVec.extractLsb'_append_eq_right]
  · rw [writeBytes, BitVec.extractLsb'_append_eq_of_le (by decide),
      BitVec.extractLsb'_append_eq_right]
  · rw [writeBytes, BitVec.extractLsb'_append_eq_of_le (by decide),
      BitVec.extractLsb'_append_eq_of_le (by decide), BitVec.extractLsb'_append_eq_right]
  · rw [writeBytes, BitVec.extractLsb'_append_eq_of_le (by decide),
      BitVec.extractLsb'_append_eq_of_le (by decide),
      BitVec.extractLsb'_append_eq_of_le (by decide), BitVec.extractLsb'_eq_self]

namespace SizedRam

variable {dp : Nat}

/-- Byte {lit}`j` that a command writes to word {lit}`a` of the memory, if any. -/
def storedByte (a : Fin dp) (j : Nat) (c : IcbCmd) : Option (BitVec 8) :=
  if c.read = false ∧ (Sram.ramAddr c).toNat = a ∧ c.wmask.getLsbD j = true then
    some (c.wdata.extractLsb' (8 * j) 8)
  else none

/-- A byte after a command. -/
theorem byte_access (m : SizedRam dp) (c : IcbCmd) (a : Fin dp) {j : Nat} (hj : j < 4) :
    ((m.access c).mem a).extractLsb' (8 * j) 8 =
      (storedByte a j c).getD ((m.mem a).extractLsb' (8 * j) 8) := by
  have hmem : (m.access c).mem a = if a.val = (Sram.ramAddr c).toNat then
      writeBytes (if !c.read then c.wmask else 0) (m.mem a) c.wdata else m.mem a := rfl
  rw [hmem, storedByte]
  by_cases ha : a.val = (Sram.ramAddr c).toNat
  · rw [if_pos ha, extractLsb'_writeBytes _ _ _ hj, byteLane]
    cases hread : c.read
    · cases hlane : c.wmask.getLsbD j <;> simp [ha.symm, hlane]
    · simp
  · rw [if_neg ha, if_neg fun h => ha h.2.1.symm]
    rfl

/-- A byte of the memory after a list of commands is the last one written to it. -/
theorem byte_accessAll (m : SizedRam dp) (l : List IcbCmd) (a : Fin dp) {j : Nat}
    (hj : j < 4) :
    ((l.foldl access m).mem a).extractLsb' (8 * j) 8 =
      (lastWrite (storedByte a j) l).getD ((m.mem a).extractLsb' (8 * j) 8) :=
  @observe_foldl _ _ _ access (fun m => (m.mem a).extractLsb' (8 * j) 8) (storedByte a j)
    (fun m c => m.byte_access c a hj) m l

/-- A read leaves the memory as it is and shows the word it names, if the memory has
it. -/
theorem dout_access_read (m : SizedRam dp) {c : IcbCmd} (hread : c.read = true) :
    (m.access c).dout = if h : (Sram.ramAddr c).toNat < dp then
      some (m.mem ⟨(Sram.ramAddr c).toNat, h⟩) else none := by
  have haddr : (m.access c).addrR = Sram.ramAddr c := by
    simp [access, step, hread]
  have hmem : (m.access c).mem = m.mem := by
    funext a
    simp [access, step, hread, writeBytes_none]
  rw [dout, hmem]
  simp only [haddr]

end SizedRam

/-! ## Words of a window -/

/-- Addresses of a window agree in the bits above the offset. -/
private theorem div_of_selects {W : Window} {addr addr' : BitVec 32}
    (h : W.selects addr = true) (h' : W.selects addr' = true) :
    addr.toNat / 4096 = addr'.toNat / 4096 := by
  have hregion : ∀ base : BitVec 32, icbCmdO base 12 true true addr = true →
      icbCmdO base 12 true true addr' = true → addr.toNat / 4096 = addr'.toNat / 4096 := by
    intro base hbase hbase'
    rw [icbCmdO_true (by decide), decide_eq_true_eq] at hbase hbase'
    exact hbase.trans hbase'.symm
  cases W with
  | weight => exact hregion _ h h'
  | image => exact hregion _ h h'
  | output => exact hregion _ h h'

/-- Distinct words of a window have distinct indices in the memory. -/
theorem wordAddr_eq_iff {W : Window} {c d : BusCmd} (hc : W.selects c.addr = true)
    (hd : W.selects d.addr = true) :
    wordAddr c = wordAddr d ↔
      (Sram.ramAddr (windowCmd c)).toNat = (Sram.ramAddr (windowCmd d)).toNat := by
  have hword : ∀ e : BusCmd, (wordAddr e).toNat = e.addr.toNat / 4 := by
    intro e
    have hlt := e.addr.isLt
    rw [wordAddr, BitVec.extractLsb'_toNat, Nat.shiftRight_eq_div_pow]
    omega
  have hindex : ∀ e : BusCmd,
      (Sram.ramAddr (windowCmd e)).toNat = e.addr.toNat % 4096 / 4 := by
    intro e
    simp only [Sram.ramAddr, windowCmd, BitVec.extractLsb'_toNat,
      Nat.shiftRight_eq_div_pow]
    omega
  have hregion := div_of_selects hc hd
  rw [← BitVec.toNat_inj, hword, hword, hindex, hindex]
  omega

/-- What the memory was given for a word is what the bus wrote to it. -/
theorem lastWrite_storedByte {W : Window} {l : List BusCmd}
    (hl : ∀ d ∈ l, W.selects d.addr = true) {c : BusCmd} (hc : W.selects c.addr = true)
    {dp : Nat} (a : Fin dp) (ha : a.val = (Sram.ramAddr (windowCmd c)).toNat) (j : Nat) :
    lastWrite (SizedRam.storedByte a j) (l.map windowCmd) = lastByteAt l (wordAddr c) j := by
  rw [lastWrite_map]
  apply lastWrite_congr
  intro d hd
  have hsame : (Sram.ramAddr (windowCmd d)).toNat = a.val ↔ wordAddr d = wordAddr c := by
    rw [ha]
    exact (wordAddr_eq_iff (hl d hd) hc).symm
  simp only [SizedRam.storedByte, writtenByte, hsame]
  rfl

/-! ## Runs -/

/-- A window's controller and memory from reset on. -/
def windowRun (W : Window) (start : SizedRam W.depth) (inp : Nat → WindowInput) (n : Nat) :
    WindowState W :=
  run WindowState.step (WindowState.reset start) inp n

/-- Along every run some commands have been performed. -/
theorem exists_windowInv (W : Window) (start : SizedRam W.depth) (inp : Nat → WindowInput)
    (n : Nat) : ∃ done, WindowInv start (windowRun W start inp n) done :=
  run_invariant_all (P := fun b => ∃ done, WindowInv start b done)
    ⟨[], WindowInv.reset start⟩ (fun _ i ⟨_, h⟩ => ⟨_, h.step i⟩) inp n

/-- Response {lit}`k` is what the memory shows after the first {lit}`k + 1` commands. -/
theorem WindowInv.response_eq {W : Window} {start : SizedRam W.depth} {b : WindowState W}
    {done : List IcbCmd} (h : WindowInv start b done) {k : Nat} {c : BusCmd}
    {r : Option (BitVec 32)} (hc : b.log.accepted[k]? = some c)
    (hr : b.log.responses[k]? = some r) :
    r = (((b.log.accepted.take k).map windowCmd).foldl SizedRam.access start
      |>.access (windowCmd c)).dout := by
  rcases List.getElem?_eq_some_iff.mp hr with ⟨hlt, -⟩
  have hcount := h.count
  have hdone : done.take (k + 1) = (b.log.accepted.take k).map windowCmd ++ [windowCmd c] := by
    calc
      done.take (k + 1) = (b.log.accepted.map windowCmd).take (k + 1) := by
        rw [h.accepted, List.take_append_of_le_length (by omega)]
      _ = (b.log.accepted.take (k + 1)).map windowCmd := List.map_take.symm
      _ = (b.log.accepted.take k).map windowCmd ++ [windowCmd c] := by
        rw [List.take_add_one, hc, List.map_append]
        rfl
  rw [h.responses k r hr, hdone, List.foldl_append]
  rfl

/-- In every cycle of every run, a window has behaved as a memory exactly when every
read of a fully written word named a word that the memory has. -/
theorem memoryLike_iff (W : Window) (start : SizedRam W.depth) (inp : Nat → WindowInput)
    (n : Nat) :
    MemoryLike (windowRun W start inp n).log ↔ ReadsBacked W (windowRun W start inp n).log := by
  rcases exists_windowInv W start inp n with ⟨done, h⟩
  have hdout : ∀ {k : Nat} {c : BusCmd} {r : Option (BitVec 32)},
      (windowRun W start inp n).log.accepted[k]? = some c →
      (windowRun W start inp n).log.responses[k]? = some r → c.read = true →
      r = if hlt : (Sram.ramAddr (windowCmd c)).toNat < W.depth then
        some (((((windowRun W start inp n).log.accepted.take k).map windowCmd).foldl
          SizedRam.access start).mem ⟨_, hlt⟩) else none := by
    intro k c r hc hr hread
    rw [h.response_eq hc hr]
    exact SizedRam.dout_access_read _ hread
  constructor
  · intro hmemory k c hc hk hread hfull
    obtain ⟨r, hr⟩ : ∃ r, (windowRun W start inp n).log.responses[k]? = some r :=
      ⟨_, List.getElem?_eq_getElem hk⟩
    rcases hmemory k c r hc hr hread hfull with ⟨v, rfl, -⟩
    by_contra hout
    have hnone := hdout hc hr hread
    rw [dif_neg hout] at hnone
    exact absurd hnone (by simp)
  · intro hbacked k c r hc hr hread hfull
    rcases List.getElem?_eq_some_iff.mp hr with ⟨hk, -⟩
    have hlt := hbacked k c hc hk hread hfull
    have hsome := hdout hc hr hread
    rw [dif_pos hlt] at hsome
    refine ⟨_, hsome, ?_⟩
    intro j hj
    have hbefore : ∀ d ∈ (windowRun W start inp n).log.accepted.take k,
        W.selects d.addr = true :=
      fun d hd => h.selected d (List.mem_of_mem_take hd)
    have hbyte := SizedRam.byte_accessAll start
      (((windowRun W start inp n).log.accepted.take k).map windowCmd)
      ⟨(Sram.ramAddr (windowCmd c)).toNat, hlt⟩ hj
    have hlast := lastWrite_storedByte hbefore (h.selected c (List.mem_of_getElem? hc))
      ⟨(Sram.ramAddr (windowCmd c)).toNat, hlt⟩ rfl j
    rw [hlast] at hbyte
    rcases Option.isSome_iff_exists.mp (hfull j hj) with ⟨v, hv⟩
    rw [hbyte, hv]
    rfl

/-- A memory at least as large as its window has every word of it. -/
theorem readsBacked_of_le {W : Window} (hdepth : 1024 ≤ W.depth) (l : WindowLog) :
    ReadsBacked W l := by
  intro _ c _ _ _ _
  exact Nat.lt_of_lt_of_le (Sram.ramAddr (windowCmd c)).isLt hdepth

/-- The image and the output memory are that large. -/
theorem readsBacked_of_ne_weight {W : Window} (hW : W ≠ .weight) (l : WindowLog) :
    ReadsBacked W l := by
  cases W with
  | weight => exact absurd rfl hW
  | image => exact readsBacked_of_le (by decide) l
  | output => exact readsBacked_of_le (by decide) l

/-- Writes a word and reads it back. -/
def writeThenRead (addr wdata : BitVec 32) (n : Nat) : WindowInput where
  cmd :=
    if n = 0 then some { read := false, addr := addr, wdata := wdata, wmask := 15#4 }
    else if n = 1 then some { read := true, addr := addr, wdata := 0#32, wmask := 0#4 }
    else none
  rspReady := true

/-- A memory that powered up with zeros. -/
def zeroRam (dp : Nat) : SizedRam dp where
  mem _ := 0#32
  addrR := 0#10

/-- The word at {lit}`0x2300` of the weight window does not exist. -/
theorem weightWord_lost :
    ¬ MemoryLike
      (windowRun .weight (zeroRam 192) (writeThenRead 0x2300#32 0x12345678#32) 3).log := by
  intro h
  have hfull : FullyWritten
      ((windowRun .weight (zeroRam 192)
        (writeThenRead 0x2300#32 0x12345678#32) 3).log.accepted.take 1)
      (wordAddr { read := true, addr := 0x2300#32, wdata := 0#32, wmask := 0#4 }) := by
    unfold FullyWritten
    decide
  obtain ⟨v, hv, -⟩ := h 1 { read := true, addr := 0x2300#32, wdata := 0#32, wmask := 0#4 }
    none (by decide) (by decide) rfl hfull
  exact absurd hv (by simp)

end Subsys
end AcceleratorSoc
