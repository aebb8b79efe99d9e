import AcceleratorSoc.CnnCore.StoreStream
import AcceleratorSoc.Subsys.SramCtrl

/-!
# From the store phase to the output SRAM

The core's writes travel through the arbiter and the fabric of
{lit}`e203_subsys_mems` to the controller of the output SRAM, and the responses
travel back.  The buffers on the way are first-in first-out in both directions
and registered; when an entry moves is left open in every cycle, so the model
covers every timing of the path.  No other master uses the SRAM meanwhile.

Main results:

- Theorem {lit}`OutputPath.inFlight_step`: writes reach the memory in the order in
  which the core issued them.
- Theorem {lit}`PathInv.step`: what is on the way and what is in the memory.
- Theorem {lit}`memAfter_sixteen`: the store addresses are one byte apart, so four
  consecutive writes share a word.
- Theorem {lit}`result_placement_iff`: when the results are in their words at the
  end of the phase.
- Theorem {lit}`output_of_enters`: what every run from reset that enters the phase
  leaves in the memory.
-/

namespace AcceleratorSoc
namespace Subsys

open Clocked CnnCore

/-! ## The path -/

/-- Region {lit}`O7` of the fabric: base {lit}`0x6000_0000`, compared from bit 12 on. -/
def selectsO7 (addr : Word) : Bool :=
  addr.extractLsb' 12 20 == (0x60000000#32).extractLsb' 12 20

/-- A command of the core as the controller's port sees it. -/
def icbCmd (c : Command) : IcbCmd where
  read := c.read
  addr := c.addr.extractLsb' 0 12
  wdata := c.wdata
  wmask := CoreState.cnnIcbCmdWmask

/-- The core, the commands in the fabric, the output SRAM, and the responses on
their way back. -/
structure OutputPath where
  bus : BusState
  fabric : List IcbCmd
  sram : Sram
  answers : List (BitVec 32)

/-- What happens on the path in one cycle: the fabric takes a command of the core,
offers its oldest command to the controller, takes a response of the controller,
hands its oldest response to the core. -/
structure PathInput where
  enable : Bool
  cmdReady : Bool
  deliver : Bool
  rspReady : Bool
  respond : Bool

namespace OutputPath

/-- Input ports of the core in this cycle. -/
def coreInput (p : OutputPath) (i : PathInput) : CoreInput where
  enable := i.enable
  cnnIcbCmdReady := i.cmdReady
  cnnIcbRspValid := i.respond && !p.answers.isEmpty
  cnnIcbRspRdata := p.answers.headD 0

/-- The command that enters the fabric towards this SRAM, if any. -/
def routed (p : OutputPath) (i : PathInput) : Option IcbCmd :=
  match p.bus.acceptedCommand (p.coreInput i) with
  | none => none
  | some c => if selectsO7 c.addr then some (icbCmd c) else none

/-- The command on the controller's port. -/
def offered (p : OutputPath) (i : PathInput) : Option IcbCmd :=
  if i.deliver then p.fabric.head? else none

/-- One clock edge of the whole path. -/
def step (p : OutputPath) (i : PathInput) : OutputPath where
  bus := p.bus.step (p.coreInput i)
  fabric :=
    (if i.deliver && p.sram.icbCmdReady then p.fabric.tail else p.fabric) ++
      (p.routed i).toList
  sram := p.sram.step (p.offered i) i.rspReady
  answers :=
    (if i.respond then p.answers.tail else p.answers) ++
      (if p.sram.icbRspValid && i.rspReady then [p.sram.icbRspRdata] else [])

/-- Commands that have not reached the memory, oldest first. -/
def inFlight (p : OutputPath) : List IcbCmd :=
  p.sram.bypbuf.toList ++ p.fabric

/-- The command performed on the memory in this cycle, if any. -/
def performed (p : OutputPath) (i : PathInput) : Option IcbCmd :=
  p.sram.performed (p.offered i) i.rspReady

/-- The path is a queue from the core to the memory. -/
theorem inFlight_step (p : OutputPath) (i : PathInput) :
    p.inFlight ++ (p.routed i).toList = (p.performed i).toList ++ (p.step i).inFlight := by
  have hpop : p.fabric = (if p.sram.icbCmdReady then p.offered i else none).toList ++
      (if i.deliver && p.sram.icbCmdReady then p.fabric.tail else p.fabric) := by
    unfold offered
    cases i.deliver <;> cases p.sram.icbCmdReady <;> cases p.fabric <;> rfl
  have hsram := p.sram.inFlight_step (p.offered i) i.rspReady
  calc
    p.inFlight ++ (p.routed i).toList =
        p.sram.bypbuf.toList ++
          ((if p.sram.icbCmdReady then p.offered i else none).toList ++
            (if i.deliver && p.sram.icbCmdReady then p.fabric.tail else p.fabric)) ++
          (p.routed i).toList := by
      rw [← hpop]
      rfl
    _ = (p.performed i).toList ++ (p.step i).inFlight := by
      rw [← List.append_assoc, hsram]
      simp [performed, inFlight, step]

/-- Responses on their way back, after one cycle. -/
theorem length_answers_step (p : OutputPath) (i : PathInput) :
    (p.step i).answers.length + (p.coreInput i).cnnIcbRspValid.toNat =
      p.answers.length + (p.sram.icbRspValid && i.rspReady).toNat := by
  simp only [step, coreInput]
  cases i.respond <;> cases hanswers : p.answers <;>
    cases p.sram.icbRspValid && i.rspReady <;> simp

end OutputPath

/-! ## Writes of the phase -/

/-- Write {lit}`k` of the phase on the controller's port. -/
def icbWrite (word : Nat → Word) (k : Nat) : IcbCmd where
  read := false
  addr := BitVec.ofNat 12 k
  wdata := word k
  wmask := CoreState.cnnIcbCmdWmask

/-- Every store address lies in the region of the output SRAM; the controller sees
its offset. -/
theorem storeAddr_routed {k : Nat} (hk : k < 16) :
    selectsO7 (storeAddr k) = true ∧
      (storeAddr k).extractLsb' 0 12 = BitVec.ofNat 12 k := by
  have hall : ∀ k : Fin 16, selectsO7 (storeAddr k) = true ∧
      (storeAddr k).extractLsb' 0 12 = BitVec.ofNat 12 k.val := by
    decide
  exact hall ⟨k, hk⟩

/-- Write {lit}`k` goes to word {lit}`k / 4`. -/
theorem ramAddr_icbWrite (word : Nat → Word) {k : Nat} (hk : k < 16) :
    Sram.ramAddr (icbWrite word k) = BitVec.ofNat 10 (k / 4) := by
  have hall : ∀ k : Fin 16,
      (BitVec.ofNat 12 k.val).extractLsb' 2 10 = BitVec.ofNat 10 (k.val / 4) := by
    decide
  exact hall ⟨k, hk⟩

/-- The memory after the first {lit}`m` writes. -/
def memAfter (word : Nat → Word) (mem : BitVec 10 → BitVec 32) :
    Nat → BitVec 10 → BitVec 32
  | 0 => mem
  | m + 1 => fun a =>
      if a = BitVec.ofNat 10 (m / 4) then word m else memAfter word mem m a

/-- Small numbers are different words of ten bits. -/
private theorem ofNat_ten_inj {v w : Nat} (hv : v < 1024) (hw : w < 1024) :
    BitVec.ofNat 10 v = BitVec.ofNat 10 w ↔ v = w := by
  rw [← BitVec.toNat_inj, BitVec.toNat_ofNat, BitVec.toNat_ofNat,
    Nat.mod_eq_of_lt (by omega), Nat.mod_eq_of_lt (by omega)]

/-- A word holds the last write to it. -/
theorem memAfter_word (word : Nat → Word) (mem : BitVec 10 → BitVec 32) {m w : Nat}
    (hm : m ≤ 16) (hw : w < 1024) :
    memAfter word mem m (BitVec.ofNat 10 w) =
      if 4 * w < m then word (min (m - 1) (4 * w + 3)) else mem (BitVec.ofNat 10 w) := by
  induction m with
  | zero => simp [memAfter]
  | succ m ih =>
      simp only [memAfter, ofNat_ten_inj (v := w) (w := m / 4) (by omega) (by omega)]
      rw [ih (by omega)]
      by_cases hlast : w = m / 4
      · have hmin : min (m + 1 - 1) (4 * w + 3) = m := by
          omega
        rw [if_pos hlast, if_pos (by omega), hmin]
      · rw [if_neg hlast]
        by_cases hbefore : 4 * w < m
        · have hmin : min (m + 1 - 1) (4 * w + 3) = min (m - 1) (4 * w + 3) := by
            omega
          rw [if_pos hbefore, if_pos (by omega), hmin]
        · rw [if_neg hbefore, if_neg (by omega)]

/-- After all sixteen writes word {lit}`w < 4` holds write {lit}`4w + 3`, and the
other words are untouched. -/
theorem memAfter_sixteen (word : Nat → Word) (mem : BitVec 10 → BitVec 32) {w : Nat}
    (hw : w < 1024) :
    memAfter word mem 16 (BitVec.ofNat 10 w) =
      if w < 4 then word (4 * w + 3) else mem (BitVec.ofNat 10 w) := by
  rw [memAfter_word word mem (le_refl 16) hw]
  by_cases hlt : w < 4
  · have hmin : min (16 - 1) (4 * w + 3) = 4 * w + 3 := by
      omega
    rw [if_pos hlt, if_pos (by omega), hmin]
  · rw [if_neg hlt, if_neg (by omega)]

/-! ## The phase along the path -/

/-- Cycle {lit}`t` of the phase, with {lit}`a` writes accepted from the core and
{lit}`m` performed on the memory: the others are on the way in order, and the
performed ones are counted by the core or on their way back. -/
structure PathInv (s₀ : CoreState) (mem : BitVec 10 → BitVec 32)
    (start : Ledger Command Word) (t a m : Nat) (p : OutputPath) : Prop where
  store : StoreInv s₀ start t a p.bus
  le : m ≤ a
  inFlight : p.inFlight = (List.range' m (a - m)).map (icbWrite (finalWord s₀))
  count : m = p.bus.core.storeRspRcptCnt.toNat + p.answers.length + p.sram.e1Vld.toNat
  mem : p.sram.ram.mem = memAfter (finalWord s₀) mem m

namespace PathInv

variable {s₀ : CoreState} {mem : BitVec 10 → BitVec 32} {start : Ledger Command Word}
  {t a m : Nat} {p : OutputPath} {i : PathInput}

/-- The path only hands over responses that the core is waiting for. -/
theorem slaveConforms (h : PathInv s₀ mem start t a m p) (hstart : start.pending = []) :
    p.bus.SlaveConforms (p.coreInput i) := by
  intro hrsp hnil
  have hpos : 0 < p.answers.length := by
    cases hanswers : p.answers
    · simp [OutputPath.coreInput, hanswers] at hrsp
    · simp
  have hlength := p.bus.ledger.length_accepted
  have hstartLength := start.length_accepted
  have hcount := h.count
  have hle := h.le
  rw [h.store.accepted, h.store.answered, hnil, List.length_append, hstartLength,
    hstart] at hlength
  simp at hlength
  omega

/-- The command that enters the fabric is the next write. -/
theorem routed (h : PathInv s₀ mem start t a m p) :
    (p.routed i).toList = (List.range' a
      (p.bus.core.cnnIcbCmdValid && i.cmdReady).toNat).map (icbWrite (finalWord s₀)) := by
  unfold OutputPath.routed
  rw [h.store.acceptedCommand]
  by_cases hhsk : (p.bus.core.cnnIcbCmdValid && i.cmdReady) = true
  · have hvalid : p.bus.core.cnnIcbCmdValid = true := by
      simp_all
    have hle := (h.store.stage.cmdAddr_of_valid hvalid).2
    obtain ⟨hselect, haddr⟩ := storeAddr_routed (k := a) (by omega)
    have hcmd : icbCmd (writeCommand p.bus.job s₀ a) = icbWrite (finalWord s₀) a := by
      simp [icbCmd, icbWrite, writeCommand, haddr]
    have hready : (p.bus.core.cnnIcbCmdValid && (p.coreInput i).cnnIcbCmdReady) = true := hhsk
    rw [if_pos hready, hhsk]
    simp [writeCommand, hselect] at hcmd ⊢
    exact hcmd
  · have hready : ¬(p.bus.core.cnnIcbCmdValid && (p.coreInput i).cnnIcbCmdReady) = true := hhsk
    rw [if_neg hready, Bool.eq_false_iff.mpr hhsk]
    rfl

/-- Everything accepted and not yet performed, the write accepted now included. -/
theorem queue_step (h : PathInv s₀ mem start t a m p) :
    (p.performed i).toList ++ (p.step i).inFlight =
      (List.range' m (a + (p.bus.core.cnnIcbCmdValid && i.cmdReady).toNat - m)).map
        (icbWrite (finalWord s₀)) := by
  have hle := h.le
  have hsplit : a + (p.bus.core.cnnIcbCmdValid && i.cmdReady).toNat - m =
      (a - m) + (p.bus.core.cnnIcbCmdValid && i.cmdReady).toNat := by
    omega
  have hend : m + 1 * (a - m) = a := by
    omega
  rw [← OutputPath.inFlight_step, h.inFlight, h.routed, ← List.map_append, hsplit,
    ← List.range'_append, hend]

/-- Every performed write is counted, on its way back or in the output stage. -/
theorem count_step (h : PathInv s₀ mem start t a m p)
    (hrsp : p.bus.core.storeRspRcptCnt.toNat ≤ 15) :
    m + (p.performed i).toList.length =
      (p.step i).bus.core.storeRspRcptCnt.toNat + (p.step i).answers.length +
        (p.step i).sram.e1Vld.toNat := by
  have hcount := storeRspRcptCnt_step h.store.state (p.coreInput i) hrsp
  have hanswers := p.length_answers_step i
  have hstage := p.sram.e1Vld_step (p.offered i) i.rspReady
  have hold := h.count
  change _ = (p.bus.core.step (p.coreInput i)).storeRspRcptCnt.toNat + _ +
    (p.sram.step (p.offered i) i.rspReady).e1Vld.toNat
  change _ = p.sram.e1Vld.toNat + (p.performed i).toList.length at hstage
  omega

/-- One clock edge of the path before the core has counted its last response. -/
theorem step (h : PathInv s₀ mem start t a m p) (hstart : start.pending = [])
    (hrsp : p.bus.core.storeRspRcptCnt.toNat ≤ 15)
    (hresult : ∀ r c : Fin 4, r.val + c.val ≤ t →
      p.bus.core.result r c = innerProduct s₀ r c) :
    PathInv s₀ mem start (t + 1)
      (a + (p.bus.core.cnnIcbCmdValid && i.cmdReady).toNat)
      (m + (p.performed i).toList.length) (p.step i) := by
  have hstore := h.store.step (h.slaveConforms hstart (i := i)) hrsp hresult
  have hle := h.le
  have hqueue := h.queue_step (i := i)
  have hnewCount := h.count_step (i := i) hrsp
  have hmem : ∀ w, (p.step i).sram.ram.mem w =
      Sram.wordAfter (p.performed i) w (p.sram.ram.mem w) :=
    p.sram.mem_step (p.offered i) i.rspReady
  cases hperformed : p.performed i with
  | none =>
      rw [hperformed] at hqueue hnewCount
      exact
        { store := hstore
          le := by simp; omega
          inFlight := by simpa using hqueue
          count := by simpa using hnewCount
          mem := by
            funext w
            simp [hmem, hperformed, h.mem] }
  | some c =>
      rw [hperformed] at hqueue hnewCount
      have hlt : m < a + (p.bus.core.cnnIcbCmdValid && i.cmdReady).toNat := by
        have hlength := congrArg List.length hqueue
        simp at hlength
        omega
      obtain ⟨d, hd⟩ : ∃ d,
          a + (p.bus.core.cnnIcbCmdValid && i.cmdReady).toNat - m = d + 1 :=
        ⟨_, (Nat.succ_pred_eq_of_pos (by omega)).symm⟩
      rw [hd, List.range'_succ, List.map_cons, Option.toList_some, List.singleton_append,
        List.cons.injEq] at hqueue
      obtain ⟨rfl, hrest⟩ := hqueue
      have hm : m < 16 := by
        have hle16 : a + (p.bus.core.cnnIcbCmdValid && i.cmdReady).toNat ≤ 16 :=
          hstore.stage.le_sixteen
        omega
      exact
        { store := hstore
          le := by simp; omega
          inFlight := by
            rw [hrest]
            congr 2
            simp
            omega
          count := hnewCount
          mem := by
            funext w
            rw [hmem, hperformed, Sram.wordAfter_some]
            simp only [ramAddr_icbWrite _ hm]
            simp [memAfter, icbWrite, CoreState.cnnIcbCmdWmask, writeBytes_all, h.mem] }

end PathInv

/-! ## The end of the phase -/

/-- The core as it enters {lit}`STORE`: five cycles after a clean start of
{lit}`COMPUTE`. -/
def StoreEntry (s : CoreState) : Prop :=
  ∃ s₀ first, CleanStart s₀ ∧ s = run CoreState.step s₀ first 5

/-- A run from reset enters {lit}`STORE` five cycles after the clean entry of
{lit}`COMPUTE` before it. -/
theorem core_of_enters {inp : Nat → CoreInput} {f : Nat} (h : EntersStore inp f) :
    CleanStart (computeEntry inp f) ∧ (busRun inp (f + 1)).core =
      run CoreState.step (computeEntry inp f) (fun j => inp (f - 4 + j)) 5 := by
  obtain ⟨e, rfl, hentry⟩ := h.entersCompute
  exact ⟨hentry.cleanStart, core_eq_run inp (e + 1) 5⟩

/-- Every run from reset enters {lit}`STORE` in such a state. -/
theorem storeEntry_of_enters {inp : Nat → CoreInput} {f : Nat} (h : EntersStore inp f) :
    StoreEntry (busRun inp (f + 1)).core :=
  ⟨_, _, core_of_enters h⟩

/-- The path at the entry of {lit}`STORE`: nothing is on the way. -/
def OutputPath.atEntry (s : CoreState) (job : Nat) (mem : BitVec 10 → BitVec 32) :
    OutputPath where
  bus := { core := s, job := job, ledger := Ledger.empty }
  fabric := []
  sram := Sram.idle mem
  answers := []

/-- The path from the entry of {lit}`STORE` on. -/
def pathRun (s : CoreState) (job : Nat) (mem : BitVec 10 → BitVec 32)
    (inp : Nat → PathInput) : Nat → OutputPath :=
  run OutputPath.step (OutputPath.atEntry s job mem) inp

section Run

variable {s₀ s : CoreState} {first : Nat → CoreInput} {job : Nat}
  {mem : BitVec 10 → BitVec 32} {inp : Nat → PathInput} {t : Nat}

/-- The phase lasts at least up to cycle {lit}`t`. -/
def StoreLasts (s : CoreState) (job : Nat) (mem : BitVec 10 → BitVec 32)
    (inp : Nat → PathInput) (t : Nat) : Prop :=
  ∀ k ≤ t, (pathRun s job mem inp k).bus.core.currentState = .store

/-- The core on the path runs as the core alone. -/
theorem pathRun_core (s : CoreState) (job : Nat) (mem : BitVec 10 → BitVec 32)
    (inp : Nat → PathInput) (k : Nat) :
    (pathRun s job mem inp k).bus.core =
      run CoreState.step s (fun j => (pathRun s job mem inp j).coreInput (inp j)) k :=
  run_simulation (f := fun p : OutputPath => p.bus.core)
    (g := fun p i => p.coreInput i) (fun _ _ => rfl) (OutputPath.atEntry s job mem) inp k

/-- The accumulators along the path. -/
theorem result_of_storeLasts (hclean : CleanStart s₀)
    (hs : s = run CoreState.step s₀ first 5) (hin : StoreLasts s job mem inp t)
    {r c : Fin 4} (hrc : r.val + c.val ≤ t) :
    (pathRun s job mem inp t).bus.core.result r c = innerProduct s₀ r c := by
  have hrun : ∀ k, (pathRun s job mem inp k).bus.core = run CoreState.step s₀
      (fun j => if j < 5 then first j
        else (pathRun s job mem inp (j - 5)).coreInput (inp (j - 5))) (5 + k) := by
    intro k
    rw [pathRun_core, hs]
    exact (run_splice CoreState.step s₀ first _ 5 k).symm
  rw [hrun]
  apply result_in_store hclean _ _ hrc
  intro k hk
  rw [← hrun]
  exact hin k hk

/-- The invariant holds as long as the phase lasts. -/
theorem pathInv_of_storeLasts (hclean : CleanStart s₀)
    (hs : s = run CoreState.step s₀ first 5) (hin : StoreLasts s job mem inp t) :
    ∃ a m, PathInv s₀ mem Ledger.empty t a m (pathRun s job mem inp t) := by
  induction t with
  | zero =>
      have hcompute : (run CoreState.step s₀ first 4).currentState = .compute :=
        (sweep_run hclean first (n := 4) (by omega)).currentState
      have hstore : StoreInv s₀ Ledger.empty 0 0 (OutputPath.atEntry s job mem).bus :=
        storeInv_start hcompute (hs.trans (run_succ _ _ _ 4)) (hin 0 (le_refl 0))
      exact ⟨0, 0,
        { store := hstore
          le := le_refl 0
          inFlight := rfl
          count := by
            have := hstore.answered
            simpa [OutputPath.atEntry, Sram.idle, pathRun] using this
          mem := rfl }⟩
  | succ t ih =>
      have hin' : StoreLasts s job mem inp t := fun k hk => hin k (Nat.le_succ_of_le hk)
      obtain ⟨a, m, h⟩ := ih hin'
      have hnext : ((pathRun s job mem inp t).bus.core.step
          ((pathRun s job mem inp t).coreInput (inp t))).currentState = .store :=
        hin (t + 1) (le_refl _)
      have hrsp := storeRspRcptCnt_le_fifteen h.store.state hnext h.store.rsp_le
      exact ⟨_, _, h.step rfl hrsp fun r c hrc => result_of_storeLasts hclean hs hin' hrc⟩

/-- Word {lit}`4r + c` of the memory holds {lit}`GELU(result_rc)`, for all {lit}`r`
and {lit}`c`. -/
def Placed (mem : BitVec 10 → BitVec 32) (core : CoreState) : Prop :=
  ∀ r c : Fin 4, mem (BitVec.ofNat 10 (4 * r.val + c.val)) = core.geluWire r c

/-- At the end of the phase the memory has taken all sixteen writes. -/
theorem mem_of_left (hclean : CleanStart s₀) (hs : s = run CoreState.step s₀ first 5)
    (hin : StoreLasts s job mem inp t)
    (hleft : (pathRun s job mem inp (t + 1)).bus.core.currentState ≠ .store) :
    16 ≤ t ∧ (pathRun s job mem inp (t + 1)).sram.ram.mem =
      memAfter (finalWord s₀) mem 16 := by
  obtain ⟨a, m, h⟩ := pathInv_of_storeLasts hclean hs hin
  have hdone : (pathRun s job mem inp t).bus.core.storeDone = true :=
    CoreState.storeDone_of_leaves h.store.state hleft
  obtain ⟨rfl, _, _⟩ := h.store.finished rfl hdone
  have hrsp : (pathRun s job mem inp t).bus.core.storeRspRcptCnt.toNat = 16 := by
    rw [CoreState.storeDone_iff.mp hdone]
    rfl
  have hm : m = 16 := by
    have hle := h.le
    have hcount := h.count
    omega
  subst hm
  refine ⟨h.store.le_time, ?_⟩
  -- Nothing is on the way any more, so the last cycle performs no command.
  have hempty : (pathRun s job mem inp t).inFlight = [] := h.inFlight
  have hnone : (pathRun s job mem inp t).performed (inp t) = none := by
    obtain ⟨hbuf, hfabric⟩ := List.append_eq_nil_iff.mp hempty
    rw [Option.toList_eq_nil_iff] at hbuf
    simp [OutputPath.performed, OutputPath.offered, Sram.performed, hbuf, hfabric,
      Bypbuf.out]
  have hmem : ∀ w, (pathRun s job mem inp (t + 1)).sram.ram.mem w =
      (pathRun s job mem inp t).sram.ram.mem w := by
    intro w
    refine ((pathRun s job mem inp t).sram.mem_step _ _ w).trans ?_
    change Sram.wordAfter ((pathRun s job mem inp t).performed (inp t)) _ _ = _
    rw [hnone, Sram.wordAfter_none]
  funext w
  rw [hmem, h.mem]

/-- At the end of the phase each of the first four words holds the last result of
its row, and every other word what it held before. -/
theorem word_of_left (hs : StoreEntry s) (hin : StoreLasts s job mem inp t)
    (hleft : (pathRun s job mem inp (t + 1)).bus.core.currentState ≠ .store)
    (a : BitVec 10) :
    (pathRun s job mem inp (t + 1)).sram.ram.mem a =
      if a.toNat < 4 then
        (pathRun s job mem inp t).bus.core.geluWire (Fin.ofNat 4 a.toNat) 3
      else mem a := by
  obtain ⟨s₀, first, hclean, hs⟩ := hs
  obtain ⟨ht, hmem⟩ := mem_of_left hclean hs hin hleft
  have hword : a = BitVec.ofNat 10 a.toNat := (BitVec.ofNat_toNat 10 a).symm
  have hvalue : (pathRun s job mem inp (t + 1)).sram.ram.mem a =
      if a.toNat < 4 then finalWord s₀ (4 * a.toNat + 3) else mem a := by
    rw [hmem, hword, memAfter_sixteen _ _ a.isLt, ← hword]
  rw [hvalue]
  by_cases ha : a.toNat < 4
  · have hrow : (4 * a.toNat + 3) / 4 = a.toNat := by
      omega
    have hcol : Fin.ofNat 4 (4 * a.toNat + 3) = 3 := by
      apply Fin.ext
      simp
    have hlast : (Fin.ofNat 4 a.toNat).val + (3 : Fin 4).val ≤ t := by
      omega
    rw [if_pos ha, if_pos ha, finalWord, hrow, hcol, CoreState.geluWire,
      result_of_storeLasts hclean hs hin hlast]
  · rw [if_neg ha, if_neg ha]

/-- When {lit}`STORE` completes, the sixteen results are in their words exactly when
each of the first four words is due the result that was written to it last, and
the other twelve words held their results before. -/
theorem result_placement_iff (hs : StoreEntry s) (hin : StoreLasts s job mem inp t)
    (hleft : (pathRun s job mem inp (t + 1)).bus.core.currentState ≠ .store) :
    Placed (pathRun s job mem inp (t + 1)).sram.ram.mem (pathRun s job mem inp t).bus.core ↔
      (∀ c : Fin 4, (pathRun s job mem inp t).bus.core.geluWire c 3 =
        (pathRun s job mem inp t).bus.core.geluWire 0 c) ∧
      ∀ r c : Fin 4, r ≠ 0 → mem (BitVec.ofNat 10 (4 * r.val + c.val)) =
        (pathRun s job mem inp t).bus.core.geluWire r c := by
  have hword : ∀ r c : Fin 4,
      (pathRun s job mem inp (t + 1)).sram.ram.mem (BitVec.ofNat 10 (4 * r.val + c.val)) =
        if r = 0 then (pathRun s job mem inp t).bus.core.geluWire c 3
        else mem (BitVec.ofNat 10 (4 * r.val + c.val)) := by
    intro r c
    have hsmall : (BitVec.ofNat 10 (4 * r.val + c.val)).toNat = 4 * r.val + c.val :=
      Nat.mod_eq_of_lt (by omega)
    rw [word_of_left hs hin hleft, hsmall]
    by_cases hr : r = 0
    · subst hr
      have hcol : Fin.ofNat 4 (4 * (0 : Fin 4).val + c.val) = c := by
        apply Fin.ext
        simp
      rw [if_pos (by simp), if_pos rfl, hcol]
    · have hpos : 0 < r.val := Nat.pos_of_ne_zero fun h => hr (Fin.ext h)
      rw [if_neg (by omega), if_neg hr]
  constructor
  · intro hplaced
    constructor
    · intro c
      have := hplaced 0 c
      rwa [hword, if_pos rfl] at this
    · intro r c hr
      have := hplaced r c
      rwa [hword, if_neg hr] at this
  · rintro ⟨hfirst, hrest⟩ r c
    rw [hword]
    by_cases hr : r = 0
    · subst hr
      rw [if_pos rfl]
      exact hfirst c
    · rw [if_neg hr]
      exact hrest r c hr

/-- In every run from reset that enters {lit}`STORE`, and on every timing of the path,
the memory ends the phase with four results: word {lit}`r < 4` holds {lit}`GELU` of
row {lit}`r` times column three of the operands that the run had loaded, and every
other word is untouched. -/
theorem output_of_enters {core : Nat → CoreInput} {f : Nat} (h : EntersStore core f)
    (hin : StoreLasts (busRun core (f + 1)).core job mem inp t)
    (hleft : (pathRun (busRun core (f + 1)).core job mem inp (t + 1)).bus.core.currentState ≠
      .store) (a : BitVec 10) :
    (pathRun (busRun core (f + 1)).core job mem inp (t + 1)).sram.ram.mem a =
      if a.toNat < 4 then
        gelu (innerProduct (computeEntry core f) (Fin.ofNat 4 a.toNat) 3)
      else mem a := by
  obtain ⟨hclean, hcore⟩ := core_of_enters h
  have ht := (mem_of_left hclean hcore hin hleft).1
  have hresult := result_of_storeLasts hclean hcore hin (r := Fin.ofNat 4 a.toNat) (c := 3)
    (by omega)
  rw [word_of_left (storeEntry_of_enters h) hin hleft, CoreState.geluWire, hresult]

end Run

/-- Everything on the path moves as soon as it can. -/
def promptPath (_ : Nat) : PathInput where
  enable := true
  cmdReady := true
  deliver := true
  rspReady := true
  respond := true

/-- The core at the entry of {lit}`STORE`, from given buffers. -/
def entryOf (loaded : CoreState) : CoreState :=
  run CoreState.step (loaded.step quietInput) (fun _ => quietInput) 5

/-- Operands for which all sixteen accumulators end with 12. -/
def uniformCore : CoreState :=
  { loadedCore with imageData := Bank.table fun _ _ => BitVec.ofNat 32 (65536 * 2) }

/-- A quiet job from a clean pipeline enters {lit}`STORE` as asked for. -/
private theorem storeEntry_entryOf {loaded : CoreState}
    (hload : loaded.currentState = .loadImage) (hrcpt : loaded.imageDataRcptDone = true)
    (hzero : PipelineZero (loaded.step quietInput)) : StoreEntry (entryOf loaded) :=
  ⟨_, _, cleanStart_of_zero hload hrcpt hzero, rfl⟩

/-- When all results are 12 and the memory held 12 everywhere, the results are in
their words. -/
theorem result_placement_uniform :
    Placed (pathRun (entryOf uniformCore) 1 (fun _ => 12) promptPath 21).sram.ram.mem
      (pathRun (entryOf uniformCore) 1 (fun _ => 12) promptPath 20).bus.core :=
  (result_placement_iff
    (storeEntry_entryOf rfl rfl ⟨rfl, rfl, rfl, rfl⟩)
    (t := 20) (by unfold StoreLasts; decide +kernel) (by decide +kernel)).mpr
      ⟨by decide +kernel, by decide +kernel⟩

/-- Four results share a word: the second word ends with the eighth result in
place of the second. -/
theorem results_overwritten :
    ¬∀ (s : CoreState) (job : Nat) (mem : BitVec 10 → BitVec 32) (inp : Nat → PathInput)
      (t : Nat), StoreEntry s → StoreLasts s job mem inp t →
      (pathRun s job mem inp (t + 1)).bus.core.currentState ≠ .store →
      Placed (pathRun s job mem inp (t + 1)).sram.ram.mem
        (pathRun s job mem inp t).bus.core := by
  intro h
  have hplaced := h (entryOf loadedCore) 1 (fun _ => 0) promptPath 20
    (storeEntry_entryOf rfl rfl ⟨rfl, rfl, rfl, rfl⟩)
    (by unfold StoreLasts; decide +kernel) (by decide +kernel)
  have hsecond := hplaced 0 1
  revert hsecond
  decide +kernel

end Subsys
end AcceleratorSoc
