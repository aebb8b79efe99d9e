import AcceleratorSoc.CnnCore.Confined
import AcceleratorSoc.Subsys.ChipProgress
import AcceleratorSoc.Subsys.SramWindows

/-!
# The accelerator with its memories

The slaves at the ports {lit}`o5`, {lit}`o6` and {lit}`o7` of the bus are the weight, image
and output memories behind their controllers.  What comes from outside is {lit}`enable`, the
CPU port and the slaves at the other ports.

Main results:

- Theorem {lit}`socRun_chip`: core and bus run as on a chip whose slaves are these memories.
- Theorem {lit}`SocInv.step`: what the bus knows of a memory's commands is what the
  memory's controller knows of them.
- Theorem {lit}`SocInv.e1Vld_eq`, {lit}`SocInv.ready_of_settled`: a memory answers what it
  owes, later than it took it, and takes a command when it owes nothing.
- Theorem {lit}`SocInv.response_stored`: it answers a read with the stored word.
- Theorem {lit}`OthersConform.serve`: with conforming slaves at the other ports the
  memories make up the slaves that the chip asks for.
- Theorem {lit}`SocInv.prompt`: with prompt slaves at the other ports all slaves of the
  bus are prompt.
- Theorem {lit}`SocInv.settled`: a memory for which the bus holds nothing has performed
  all that it was sent.
-/

namespace AcceleratorSoc
namespace Subsys

open Clocked CnnCore

/-! ## Ports of the memories -/

/-- The window's position in the splitter's vectors. -/
def Window.port : Window → Fin 9
  | weight => portO5
  | image => portO6
  | output => portO7

/-- The window at a position. -/
def windowAt (k : Fin 9) : Option Window :=
  if k = portO5 then some .weight
  else if k = portO6 then some .image
  else if k = portO7 then some .output
  else none

/-- A window is at its own position. -/
@[simp]
theorem windowAt_port (W : Window) : windowAt W.port = some W := by
  cases W <;> rfl

/-- It is neither the default slave nor one of the ports that are tied off. -/
theorem Window.port_ne (W : Window) : W.port ≠ deft ∧ W.port ≠ portO2 ∧ W.port ≠ 8 := by
  cases W <;> decide

/-- Windows have different positions. -/
theorem Window.port_injective : Function.Injective Window.port := by
  intro W W' h
  have hsome := (windowAt_port W).symm.trans ((congrArg windowAt h).trans (windowAt_port W'))
  exact Option.some.inj hsome

/-- Nothing else is at the position of a window. -/
theorem windowAt_eq_some {k : Fin 9} {W : Window} (h : windowAt k = some W) : k = W.port := by
  unfold windowAt at h
  split_ifs at h with hO5 hO6 hO7
  · rw [← Option.some.inj h]
    exact hO5
  · rw [← Option.some.inj h]
    exact hO6
  · rw [← Option.some.inj h]
    exact hO7

/-- An address is routed to the window's controller exactly when it is in the window. -/
theorem selects_iff (W : Window) (addr : BitVec 32) :
    W.selects addr = true ↔ target addr = W.port := by
  have hlt := addr.isLt
  cases W <;>
    simp only [Window.selects, Window.port, portO5, portO6, portO7, target, icbCmdO0, icbCmdO1,
      icbCmdO3, icbCmdO4, icbCmdO5, icbCmdO6, icbCmdO7, icbCmdO_true (by decide : 12 ≤ 32),
      icbCmdO_true (by decide : 29 ≤ 32), icbCmdO_true (by decide : 31 ≤ 32),
      BitVec.toNat_ofNat, decide_eq_true_eq, Nat.reducePow, Nat.reduceMod, Nat.reduceDiv] <;>
    split_ifs <;> simp [deft] <;> omega

/-! ## The machine -/

/-- Core, bus and the three memories. -/
structure Soc where
  chip : OnChip
  window : (W : Window) → WindowState W

/-- What comes from outside in a cycle; what is given for the memories' ports is not
connected.  {lit}`undriven` is what a word that does not exist is read as. -/
structure SocInput where
  enable : Bool
  mem : IcbMaster
  oCmdReady : Fin 9 → Bool
  oRspValid : Fin 9 → Bool
  oRspErr : Fin 9 → Bool
  oRspRdata : Fin 9 → BitVec 32
  undriven : Window → BitVec 32

namespace Soc

variable (s : Soc) (i : SocInput)

/-- What core and bus see; {lit}`usr`, which the controllers return as the error flag, is
tied to zero. -/
def chipInput : OnChipInput where
  enable := i.enable
  mem := i.mem
  oCmdReady k :=
    match windowAt k with
    | some W => (s.window W).sram.icbCmdReady
    | none => i.oCmdReady k
  oRspValid k :=
    match windowAt k with
    | some W => (s.window W).sram.icbRspValid
    | none => i.oRspValid k
  oRspErr k :=
    match windowAt k with
    | some _ => false
    | none => i.oRspErr k
  oRspRdata k :=
    match windowAt k with
    | some W => (s.window W).sram.icbRspRdata.getD (i.undriven W)
    | none => i.oRspRdata k

/-- What a window sees. -/
def windowInput (W : Window) : WindowInput where
  cmd := if s.chip.bus.bus.oCmdValid W.port then some (s.chip.bus.bus.oCmd W.port) else none
  rspReady := s.chip.bus.bus.oRspReady W.port

/-- One clock edge. -/
def step : Soc where
  chip := s.chip.step (s.chipInput i)
  window W := (s.window W).step (s.windowInput W)

/-- After reset. -/
def reset (u : PowerUp) (ram : (W : Window) → SizedRam W.depth) : Soc where
  chip := OnChip.reset u
  window W := WindowState.reset (ram W)

/-- Input wires of the bus. -/
def busInput : BusInput :=
  s.chip.busInput (s.chipInput i)

/-- The word that a memory holds at an address. -/
def stored (addr : Word) : Word :=
  match windowAt (target addr) with
  | some W =>
      if h : (addr.extractLsb' 2 10).toNat < W.depth then
        (s.window W).sram.ram.mem ⟨_, h⟩
      else 0
  | none => 0

end Soc

/-- The machine from reset on. -/
def socRun (u : PowerUp) (ram : (W : Window) → SizedRam W.depth) (inp : Nat → SocInput) :
    Nat → Soc :=
  run Soc.step (Soc.reset u ram) inp

/-- What core and bus see in each cycle. -/
def chipInputs (u : PowerUp) (ram : (W : Window) → SizedRam W.depth) (inp : Nat → SocInput)
    (n : Nat) : OnChipInput :=
  (socRun u ram inp n).chipInput (inp n)

/-- Core and bus are the chip on the inputs that the memories give it. -/
theorem socRun_chip (u : PowerUp) (ram : (W : Window) → SizedRam W.depth)
    (inp : Nat → SocInput) (n : Nat) :
    (socRun u ram inp n).chip = chipRun u (chipInputs u ram inp) n :=
  run_simulation (f := Soc.chip) (g := Soc.chipInput) (fun _ _ => rfl) (Soc.reset u ram) inp n

/-- The bus of that chip sees what the bus of the machine sees. -/
theorem busInputs_chipInputs (u : PowerUp) (ram : (W : Window) → SizedRam W.depth)
    (inp : Nat → SocInput) (n : Nat) :
    busInputs u (chipInputs u ram inp) n = (socRun u ram inp n).busInput (inp n) := by
  rw [busInputs, ← socRun_chip]
  rfl

/-! ## Wires between bus and memories -/

/-- A command that is offered to a slave lies in its region. -/
theorem MemBus.offered {s : MemBus} {k : Fin 9} (hvalid : s.oCmdValid k = true)
    (hk : k ≠ deft) : target (s.oCmd k).addr = k := by
  have hcmd : s.oCmd k = s.bufCmd := by
    rw [oCmd, if_pos hvalid, BusCmd.unpack_pack]
  rw [oCmdValid, Bool.and_eq_true, indic, spltIndic_eq, getLsbD_twoPow_fin,
    decide_eq_true_eq] at hvalid
  rw [hcmd, hvalid.1]
  unfold selected
  split_ifs with hbuf
  · rfl
  · rw [selected, if_neg hbuf] at hvalid
    exact absurd hvalid.1 hk

section Wires

variable (s : Soc) (i : SocInput) (W : Window)

/-- The bus sees the ready wire of the controller. -/
theorem oCmdReady_port : s.chip.bus.bus.oCmdReady (s.busInput i) W.port =
    (s.window W).sram.icbCmdReady := by
  rw [MemBus.oCmdReady, if_neg W.port_ne.1, if_neg W.port_ne.2.1]
  simp [Soc.busInput, OnChip.busInput, Soc.chipInput]

/-- It sees the response of the controller. -/
theorem oRspValid_port : s.chip.bus.bus.oRspValid (s.busInput i) W.port =
    (s.window W).sram.e1Vld := by
  rw [MemBus.oRspValid, if_neg W.port_ne.1, if_neg W.port_ne.2.1]
  simp [Soc.busInput, OnChip.busInput, Soc.chipInput, WindowSram.icbRspValid]

/-- It sees the word at the output of the memory. -/
theorem oRsp_port : (MemBus.oRsp (s.busInput i) W.port).rdata =
    (s.window W).sram.ram.dout.getD (i.undriven W) := by
  rw [MemBus.oRsp, if_neg W.port_ne.1, if_neg W.port_ne.2.1, if_neg W.port_ne.2.2]
  simp [Soc.busInput, OnChip.busInput, Soc.chipInput, WindowSram.icbRspRdata]

/-- Nothing that the bus offers is for another window. -/
theorem offered_windowInput : WindowState.offered W (s.windowInput W) =
    if s.chip.bus.bus.oCmdValid W.port then some (s.chip.bus.bus.oCmd W.port) else none := by
  unfold WindowState.offered Soc.windowInput
  cases hvalid : s.chip.bus.bus.oCmdValid W.port with
  | false => rfl
  | true =>
      have hselect := (selects_iff W _).mpr (MemBus.offered hvalid W.port_ne.1)
      simp [hselect]

end Wires

/-! ## The address register of a memory -/

/-- Word index of an address in its window. -/
theorem ramAddr_windowCmd (c : BusCmd) :
    Sram.ramAddr (windowCmd c) = c.addr.extractLsb' 2 10 := by
  apply BitVec.eq_of_toNat_eq
  simp only [Sram.ramAddr, windowCmd, BitVec.extractLsb'_toNat, Nat.shiftRight_eq_div_pow]
  omega

/-- While a controller answers a read, the memory's address register is at its word. -/
theorem WindowInv.addrR_of_read {W : Window} {start : SizedRam W.depth} {b : WindowState W}
    {done : List IcbCmd} (h : WindowInv start b done) (hvalid : b.sram.e1Vld = true)
    {c : BusCmd} (hc : b.log.accepted[b.log.responses.length]? = some c)
    (hread : c.read = true) : b.sram.ram.addrR = Sram.ramAddr (windowCmd c) := by
  have hcount := h.count
  rw [hvalid, Bool.toNat_true] at hcount
  have hlast : (b.log.accepted.take b.log.responses.length).map windowCmd ++ [windowCmd c] =
      done := by
    have hprefix := congrArg (List.take done.length) h.accepted
    rw [List.take_left, ← hcount, ← List.map_take, List.take_add_one, hc,
      List.map_append] at hprefix
    exact hprefix
  rw [h.ram, ← hlast, List.foldl_append]
  simp [SizedRam.access, SizedRam.step, windowCmd, hread]

/-- The word at an address of a window. -/
theorem Soc.stored_eq (s : Soc) {W : Window} {addr : Word} (htarget : target addr = W.port)
    (hdepth : (addr.extractLsb' 2 10).toNat < W.depth) :
    s.stored addr = (s.window W).sram.ram.mem ⟨_, hdepth⟩ := by
  rw [stored, htarget, windowAt_port]
  exact dif_pos hdepth

/-! ## What bus and memories know -/

/-- A slave has got commands of its region only.  The bus has handed over what the
controllers have accepted and got the answers that they have given, and a controller buffers
a command only behind an answer. -/
structure SocInv (ram : (W : Window) → SizedRam W.depth) (s : Soc) : Prop where
  routed : ∀ k ≠ deft, ∀ c ∈ s.chip.bus.log.taken k, target c.addr = k
  taken : ∀ W, (s.window W).log.accepted = s.chip.bus.log.taken W.port
  answered : ∀ W, (s.window W).log.responses.length =
    (s.chip.bus.log.answered W.port).length
  performs : ∀ W, ∃ done, WindowInv (ram W) (s.window W) done
  behind : ∀ W, (s.window W).sram.bypbuf ≠ none → (s.window W).sram.e1Vld = true

/-- Behind an answer that is not taken only. -/
theorem WindowSram.behind_step {dp : Nat} {s : WindowSram dp} {cmd : Option IcbCmd}
    {rspReady : Bool} (h : (s.step cmd rspReady).bypbuf ≠ none) :
    (s.step cmd rspReady).e1Vld = true := by
  have hready : s.uopCmdReady rspReady = false := by
    rw [Bool.eq_false_iff]
    intro hready
    apply h
    change s.bypbuf.next cmd (s.uopCmdReady rspReady) = none
    rw [hready]
    cases s.bypbuf <;> rfl
  change stageNext s.e1Vld (s.bypbuf.out cmd).isSome rspReady = true
  unfold uopCmdReady stageIRdy at hready
  revert hready
  cases s.e1Vld <;> cases rspReady <;> cases (s.bypbuf.out cmd).isSome <;> decide

namespace SocInv

variable {ram : (W : Window) → SizedRam W.depth} {s : Soc} {i : SocInput}

/-- After reset nothing has been handed over. -/
theorem reset (u : PowerUp) (ram : (W : Window) → SizedRam W.depth) :
    SocInv ram (Soc.reset u ram) where
  routed _ _ _ hc := absurd hc List.not_mem_nil
  taken _ := rfl
  answered _ := rfl
  performs W := ⟨[], WindowInv.reset (ram W)⟩
  behind _ h := absurd rfl h

/-- What a slave takes in this cycle lies in its region too. -/
theorem routed_now (h : SocInv ram s) (i : SocInput) {k : Fin 9} (hk : k ≠ deft) :
    ∀ c ∈ takenNow s.chip.bus (s.busInput i) k, target c.addr = k := by
  intro c hc
  rcases List.mem_append.mp hc with hold | hnew
  · exact h.routed k hk c hold
  · split_ifs at hnew with hhsk
    · rw [Bool.and_eq_true] at hhsk
      rw [List.mem_singleton.mp hnew]
      exact MemBus.offered hhsk.1 hk
    · exact absurd hnew List.not_mem_nil

/-- One clock edge. -/
theorem step (h : SocInv ram s) (i : SocInput) : SocInv ram (s.step i) where
  routed _ hk := h.routed_now i hk
  taken W := by
    have hoffered := offered_windowInput s W
    have hready := oCmdReady_port s i W
    have haccepts : ((s.window W).accepts (s.windowInput W)).toList =
        if s.chip.bus.bus.oCmdValid W.port && s.chip.bus.bus.oCmdReady (s.busInput i) W.port
        then [s.chip.bus.bus.oCmd W.port] else [] := by
      rw [WindowState.accepts, hoffered, hready]
      cases s.chip.bus.bus.oCmdValid W.port <;> cases (s.window W).sram.icbCmdReady <;> rfl
    change (s.window W).log.accepted ++ _ = s.chip.bus.log.taken W.port ++ _
    rw [h.taken W, haccepts]
    rfl
  answered W := by
    have hvalid := oRspValid_port s i W
    have hanswered : ((s.step i).chip.bus.log.answered W.port).length =
        (s.chip.bus.log.answered W.port).length +
          ((s.window W).sram.e1Vld && s.chip.bus.bus.oRspReady W.port).toNat := by
      change (s.chip.bus.log.answered W.port ++ if s.chip.bus.bus.oRspValid (s.busInput i) W.port &&
        s.chip.bus.bus.oRspReady W.port then [_] else []).length = _
      rw [hvalid, List.length_append]
      cases (s.window W).sram.e1Vld && s.chip.bus.bus.oRspReady W.port <;> rfl
    rw [hanswered, ← h.answered W]
    exact (s.window W).length_responses_step (s.windowInput W)
  performs W := by
    rcases h.performs W with ⟨done, hdone⟩
    exact ⟨_, hdone.step (s.windowInput W)⟩
  behind _ := WindowSram.behind_step

/-- What a controller has accepted and not answered is at its output or behind it. -/
theorem length_taken (h : SocInv ram s) (W : Window) :
    (s.chip.bus.log.taken W.port).length = (s.chip.bus.log.answered W.port).length +
      (s.window W).sram.e1Vld.toNat + (s.window W).sram.bypbuf.toList.length := by
  rcases h.performs W with ⟨done, hdone⟩
  have hlength := congrArg List.length hdone.accepted
  have hcount := hdone.count
  rw [List.length_map, List.length_append, h.taken W] at hlength
  have hanswered := h.answered W
  omega

/-- A memory answers as long as it owes an answer, and only then. -/
theorem e1Vld_eq (h : SocInv ram s) (W : Window) : (s.window W).sram.e1Vld =
    decide ((s.chip.bus.log.answered W.port).length < (s.chip.bus.log.taken W.port).length) := by
  have hlength := h.length_taken W
  have hbehind := h.behind W
  cases hvalid : (s.window W).sram.e1Vld with
  | true =>
      rw [hvalid, Bool.toNat_true] at hlength
      exact (decide_eq_true (by omega)).symm
  | false =>
      have hbuf : (s.window W).sram.bypbuf = none := by
        by_contra hsome
        exact Bool.false_ne_true (hvalid.symm.trans (hbehind hsome))
      rw [hvalid, hbuf, Bool.toNat_false] at hlength
      exact (decide_eq_false (by simp at hlength; omega)).symm

/-- A memory that owes nothing takes the next command. -/
theorem ready_of_settled (h : SocInv ram s) (W : Window)
    (heq : (s.chip.bus.log.answered W.port).length = (s.chip.bus.log.taken W.port).length) :
    (s.window W).sram.icbCmdReady = true := by
  have hbuf : (s.window W).sram.bypbuf = none := by
    by_contra hsome
    have hvalid := h.behind W hsome
    rw [h.e1Vld_eq W, decide_eq_true_eq] at hvalid
    omega
  unfold WindowSram.icbCmdReady Bypbuf.iRdy
  rw [hbuf]
  rfl

/-- The answer to a read is what the memory holds at its address. -/
theorem response_stored (h : SocInv ram s) (i : SocInput) {W : Window}
    (hvalid : (s.window W).sram.e1Vld = true) :
    ∃ c, (s.chip.bus.log.taken W.port)[(s.chip.bus.log.answered W.port).length]? = some c ∧
      target c.addr = W.port ∧
      (c.read = true → (c.addr.extractLsb' 2 10).toNat < W.depth →
        (MemBus.oRsp (s.busInput i) W.port).rdata = s.stored c.addr) := by
  have howes := h.e1Vld_eq W
  rw [hvalid, eq_comm, decide_eq_true_eq] at howes
  obtain ⟨c, hc⟩ : ∃ c, (s.chip.bus.log.taken W.port)[
      (s.chip.bus.log.answered W.port).length]? = some c :=
    ⟨_, List.getElem?_eq_getElem howes⟩
  rcases h.performs W with ⟨done, hdone⟩
  rw [← h.taken W, ← h.answered W] at hc
  have htarget := (selects_iff W _).mp (hdone.selected c (List.mem_of_getElem? hc))
  refine ⟨c, by rw [← h.taken W, ← h.answered W]; exact hc, htarget, ?_⟩
  intro hread hdepth
  have haddr := hdone.addrR_of_read hvalid hc hread
  rw [ramAddr_windowCmd] at haddr
  rw [oRsp_port, s.stored_eq htarget hdepth]
  simp only [SizedRam.dout, haddr, dif_pos hdepth, Option.getD_some]

end SocInv

/-- So they know it along every run. -/
theorem socInv_run (u : PowerUp) (ram : (W : Window) → SizedRam W.depth)
    (inp : Nat → SocInput) (n : Nat) : SocInv ram (socRun u ram inp n) :=
  run_invariant_all (SocInv.reset u ram) (fun _ i h => h.step i) inp n

/-! ## Slaves that conform -/

/-- The other slaves answer what they have taken, at the earliest in the cycle in which they
take it. -/
def OthersConform (u : PowerUp) (ram : (W : Window) → SizedRam W.depth)
    (inp : Nat → SocInput) : Prop :=
  ∀ n k, windowAt k = none → k ≠ deft →
    ((socRun u ram inp n).chip.bus.bus.oRspValid ((socRun u ram inp n).busInput (inp n)) k &&
      (socRun u ram inp n).chip.bus.bus.oRspReady k) = true →
    ((socRun u ram inp n).chip.bus.log.answered k).length <
      (takenNow (socRun u ram inp n).chip.bus ((socRun u ram inp n).busInput (inp n)) k).length

variable {u : PowerUp} {ram : (W : Window) → SizedRam W.depth} {inp : Nat → SocInput}

/-- A region whose words the memories have, and hold as {lit}`mem` says. -/
def Held (s : Soc) (block : Word → Prop) (mem : Word → Word) : Prop :=
  ∀ a, block a → ∃ W : Window, target a = W.port ∧ (a.extractLsb' 2 10).toNat < W.depth ∧
    s.stored a = mem a

/-- The slaves store such a region. -/
theorem OthersConform.serve (hothers : OthersConform u ram inp) (n : Nat)
    {block : Word → Prop} {mem : Word → Word}
    (hheld : Held (socRun u ram inp n) block mem) :
    SlavesServe block mem (socRun u ram inp n).chip.bus
      ((socRun u ram inp n).busInput (inp n)) := by
  have hinv := socInv_run u ram inp n
  intro k hk hrsp
  cases hwindow : windowAt k with
  | none =>
      have hlt := hothers n k hwindow hk hrsp
      refine ⟨_, List.getElem?_eq_getElem hlt, fun _ hblock => ?_⟩
      rcases hheld _ hblock with ⟨W, htarget, -⟩
      rw [hinv.routed_now (inp n) hk _ (List.getElem_mem hlt)] at htarget
      rw [htarget, windowAt_port] at hwindow
      exact absurd hwindow (by simp)
  | some W =>
      rw [windowAt_eq_some hwindow] at hrsp ⊢
      rw [oRspValid_port, Bool.and_eq_true] at hrsp
      rcases hinv.response_stored (inp n) hrsp.1 with ⟨c, hc, htarget, hword⟩
      have hlt := (List.getElem?_eq_some_iff.mp hc).1
      refine ⟨c, (List.getElem?_append_left hlt).trans hc, fun hread hblock => ?_⟩
      rcases hheld _ hblock with ⟨V, hV, hdepth, hstored⟩
      obtain rfl : W = V := Window.port_injective (htarget.symm.trans hV)
      rw [hword hread hdepth, hstored]

/-- They serve whatever region is held. -/
theorem OthersConform.answering (hothers : OthersConform u ram inp)
    {block : Nat → Word → Prop} {mem : Word → Word}
    (hheld : ∀ n, Held (socRun u ram inp n) (block n) mem) :
    Answering u (chipInputs u ram inp) block mem := by
  intro n
  rw [← socRun_chip, busInputs_chipInputs]
  exact hothers.serve n (hheld n)

/-- Whatever is stored, they answer in order. -/
theorem OthersConform.answering_none (hothers : OthersConform u ram inp) :
    Answering u (chipInputs u ram inp) (fun _ _ => False) fun _ => 0 :=
  hothers.answering fun _ _ hfalse => hfalse.elim

/-- Where the commands in transit are. -/
theorem OthersConform.exists_linked (hothers : OthersConform u ram inp) (n : Nat) :
    ∃ x, Linked (fun _ => False) (fun _ => 0) (socRun u ram inp n).chip x := by
  rw [socRun_chip]
  exact hothers.answering_none.exists_linked n

/-- Before the start the core has asked for nothing. -/
theorem OthersConform.ledger_empty (hothers : OthersConform u ram inp) {n : Nat}
    (hdisabled : ∀ m < n, (inp m).enable = false) :
    (socRun u ram inp n).chip.core.ledger = Ledger.empty := by
  rw [socRun_chip]
  cases n with
  | zero => rfl
  | succ n =>
      refine hothers.answering_none.ledger_empty ?_
      rintro ⟨m, hm, henable⟩
      exact Bool.false_ne_true ((hdisabled m (by omega)).symm.trans henable)

/-- With prompt slaves at the other ports all slaves are prompt. -/
theorem SocInv.prompt {s : Soc} (h : SocInv ram s) (i : SocInput)
    (hanswers : ∀ k, windowAt k = none → k ≠ deft →
      (s.chip.bus.log.answered k).length < (s.chip.bus.log.taken k).length →
        i.oRspValid k = true)
    (hready : ∀ k, windowAt k = none → k ≠ deft → s.chip.bus.bus.oCmdValid k = true →
      i.oCmdReady k = true) : Prompt s.chip.bus (s.busInput i) := by
  constructor
  · intro k hk hO2 howes
    cases hwindow : windowAt k with
    | none =>
        have hvalid := hanswers k hwindow hk howes
        simpa [Soc.busInput, OnChip.busInput, Soc.chipInput, hwindow] using hvalid
    | some W =>
        obtain rfl := windowAt_eq_some hwindow
        have hvalid := oRspValid_port s i W
        rwa [h.e1Vld_eq W, decide_eq_true howes, MemBus.oRspValid, if_neg hk,
          if_neg hO2] at hvalid
  · intro k hk hO2 hoffered heq
    cases hwindow : windowAt k with
    | none =>
        have hvalid := hready k hwindow hk hoffered
        simpa [Soc.busInput, OnChip.busInput, Soc.chipInput, hwindow] using hvalid
    | some W =>
        obtain rfl := windowAt_eq_some hwindow
        have hvalid := oCmdReady_port s i W
        rwa [h.ready_of_settled W heq, MemBus.oCmdReady, if_neg hk, if_neg hO2] at hvalid

/-- With nothing in transit a memory has performed all its commands. -/
theorem SocInv.settled {s : Soc} (h : SocInv ram s) {x : Traffic}
    (hx : Accounts s.chip.bus x) (hheld : x.held = []) (W : Window) :
    (s.window W).sram.bypbuf = none ∧
      (s.window W).sram.ram = (((s.chip.bus.log.accepted.filter (goesTo W.port)).map
        Prod.snd).map windowCmd).foldl SizedRam.access (ram W) := by
  rcases x.held_eq_nil_iff.mp hheld with ⟨-, hserving, hwaiting⟩
  have hlength := h.length_taken W
  rw [hx.length_answered hserving] at hlength
  have hbuf : (s.window W).sram.bypbuf = none := by
    rw [← Option.toList_eq_nil_iff, ← List.length_eq_zero_iff]
    omega
  refine ⟨hbuf, ?_⟩
  rcases h.performs W with ⟨done, hdone⟩
  have haccepted := hdone.accepted
  rw [hbuf, Option.toList_none, List.append_nil, h.taken W, hx.taken] at haccepted
  rw [hdone.ram, ← haccepted, hx.accepted, Transit.requests, hwaiting, List.append_nil]

end Subsys
end AcceleratorSoc
