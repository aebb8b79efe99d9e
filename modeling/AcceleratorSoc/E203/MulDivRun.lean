import AcceleratorSoc.Clocked.Run
import AcceleratorSoc.E203.MulDivCycle

/-!
# Runs of the multiply and divide unit

The unit's surroundings hold an instruction until it is taken or flushed, and mark the
second instruction of a pair only right behind the first one: same operands, nothing written
to the shared buffers between.  A flush may come in any cycle.

Main results:

- Theorem {lit}`muldiv_results`: in every cycle of every such run, a result that is shown is
  what the instruction set gives.
- Theorem {lit}`muldiv_latency`: the cycle in which the result of an instruction is there
  first.
-/

namespace AcceleratorSoc
namespace E203

open Clocked

/-- The unit, and what its surroundings have done so far: the instruction that is presented
and neither taken nor flushed; the last one taken, if neither a flush nor a write of the
buffers came since; whether a flush came since the last one was taken. -/
structure MulDivRun where
  unit : MulDivState
  waiting : Option MulDivInstr
  last : Option MulDivInstr
  flushed : Bool

namespace MulDivRun

/-- One clock edge. -/
def step (r : MulDivRun) (i : MulDivInput) : MulDivRun where
  unit := r.unit.step i
  waiting := if i.iValid && !i.flush && !r.unit.oHsked i then some i.instr else none
  last :=
    if i.flush || i.writesBuffers then none
    else if r.unit.oHsked i then some i.instr
    else r.last
  flushed := if i.flush then true else if r.unit.oHsked i then false else r.flushed

/-- Out of reset nothing has been presented.  The buffers may hold anything. -/
def start (sbf0 sbf1 : BitVec 33) : MulDivRun where
  unit := MulDivState.reset sbf0 sbf1
  waiting := none
  last := none
  flushed := false

/-- What the unit expects of its surroundings in one cycle. -/
structure Obeys (r : MulDivRun) (i : MulDivInput) : Prop where
  held : ∀ ins, r.waiting = some ins → i.flush = true ∨ i.Presents ins
  pair : i.iValid = true → i.instr.b2b = true → r.flushed = false →
    ∃ prev, r.last = some prev ∧ prev.Pairs i.instr

/-- What every cycle finds. -/
structure Inv (r : MulDivRun) : Prop where
  flushed_eq : r.unit.flushed = r.flushed
  kept : r.unit.state = .zeroth → ∀ ins, r.last = some ins → Kept r.unit ins
  working : r.unit.state ≠ .zeroth → ∃ ins j, r.waiting = some ins ∧ Working r.unit ins j

variable {r : MulDivRun} {i : MulDivInput} {ins : MulDivInstr}

/-- Out of reset there is nothing to keep. -/
theorem inv_start (sbf0 sbf1 : BitVec 33) : Inv (start sbf0 sbf1) := by
  refine ⟨rfl, ?_, ?_⟩
  · rintro - ins hlast
    simp [start] at hlast
  · intro hstate
    exact absurd rfl hstate

/-- Where nothing waits, the unit is in its first state. -/
theorem Inv.zeroth_of_idle (h : Inv r) (hidle : r.waiting = none) : r.unit.state = .zeroth := by
  by_contra hne
  obtain ⟨ins, j, hwaiting, -⟩ := h.working hne
  simp [hidle] at hwaiting

/-- A valid input presents its instruction. -/
theorem presents_of_iValid (hvalid : i.iValid = true) : i.Presents i.instr := by
  rw [MulDivInput.iValid, Bool.and_eq_true] at hvalid
  exact ⟨hvalid.1, hvalid.2, rfl⟩

/-- Results are shown for valid inputs only. -/
theorem iValid_of_oValid (hvalid : r.unit.oValid i = true) : i.iValid = true := by
  rw [MulDivState.oValid, Bool.and_eq_true] at hvalid
  exact hvalid.2

/-- The unit's note of a flush is that of the run. -/
theorem step_flushed_eq (h : Inv r) : (r.step i).unit.flushed = (r.step i).flushed := by
  have hflushed := h.flushed_eq
  simp only [step, MulDivState.step, MulDivState.flushedD, hflushed]

/-- A marked instruction finds the registers of its pair. -/
theorem pair_kept (h : Inv r) (hobeys : r.Obeys i) (hstate : r.unit.state = .zeroth)
    (hi : i.Presents ins) (hpair : (ins.b2b && !r.unit.flushed && !ins.nob2b) = true) :
    ∃ prev : MulDivInstr, prev.Pairs ins ∧ Kept r.unit prev := by
  simp only [Bool.and_eq_true, Bool.not_eq_true'] at hpair
  obtain ⟨⟨hb2b, hflushed⟩, -⟩ := hpair
  rw [h.flushed_eq] at hflushed
  rw [← hi.instr] at hb2b ⊢
  obtain ⟨prev, hlast, hpairs⟩ := hobeys.pair hi.iValid hb2b hflushed
  exact ⟨prev, hpairs, h.kept hstate prev hlast⟩

/-- What is shown is what the instruction set gives. -/
theorem wbckWdat_eq (h : Inv r) (hobeys : r.Obeys i) (hflush : i.flush = false)
    (hvalid : r.unit.oValid i = true) : r.unit.wbckWdat i = i.instr.result := by
  have hi := presents_of_iValid (iValid_of_oValid hvalid)
  by_cases hstate : r.unit.state = .zeroth
  · exact wbckWdat_zeroth hi ((oValid_zeroth hstate hi).mp hvalid)
      (fun hpair => pair_kept h hobeys hstate hi hpair)
  · obtain ⟨ins, j, hwaiting, hworking⟩ := h.working hstate
    have hheld := (hobeys.held ins hwaiting).resolve_left (by simp [hflush])
    have hj := hworking.oValid_eq hheld
    rw [hvalid, eq_comm, decide_eq_true_iff] at hj
    rw [hj] at hworking
    rw [hworking.wbckWdat_eq hheld, hheld.instr]

/-! ## One clock edge -/

/-- An instruction without a result keeps waiting. -/
theorem step_waiting (hi : i.Presents ins) (hflush : i.flush = false)
    (hsked : r.unit.oHsked i = false) : (r.step i).waiting = some ins := by
  rw [step, hi.iValid, hflush, hsked, hi.instr]
  rfl

/-- Only the instruction that was presented can wait. -/
theorem instr_of_waiting (hwaiting : (r.step i).waiting = some ins) : i.instr = ins := by
  change (if _ then some i.instr else none) = some ins at hwaiting
  split_ifs at hwaiting
  exact Option.some.inj hwaiting

/-- The instruction that was taken last is remembered. -/
theorem step_last (hflush : i.flush = false) (hwrites : i.writesBuffers = false) :
    (r.step i).last = if r.unit.oHsked i then some i.instr else r.last := by
  rw [step, hflush, hwrites]
  rfl

/-- While an instruction is presented the load/store unit does not write the buffers. -/
theorem writesBuffers_of_presents (hi : i.Presents ins) : i.writesBuffers = false := by
  rw [MulDivInput.writesBuffers, hi.mdvOp]
  rfl

/-- After a flush nothing is known of the registers, and nothing is expected. -/
private theorem inv_flush (h : Inv r) (hflush : i.flush = true) : Inv (r.step i) := by
  refine ⟨step_flushed_eq h, ?_, ?_⟩
  · rintro - ins hlast
    simp [step, hflush] at hlast
  · intro hstate
    exact absurd (MulDivState.step_flush hflush) hstate

/-- The first state, without a start. -/
private theorem inv_stay (h : Inv r) (hobeys : r.Obeys i) (hflush : i.flush = false)
    (hstate : r.unit.state = .zeroth)
    (hnone : i.iValid = false ∨ i.Presents i.instr ∧ AtOnce r.unit i.instr) :
    Inv (r.step i) := by
  have hstate' := step_stay hstate hnone
  refine ⟨step_flushed_eq h, ?_, fun hne => absurd hstate' hne⟩
  rintro - ins hlast
  cases hwrites : i.writesBuffers
  · obtain ⟨hsbf0, hsbf1, hsft1⟩ := step_zeroth hstate hstate' hwrites
    rw [step_last hflush hwrites] at hlast
    have hkept : Kept r.unit ins := by
      split_ifs at hlast with hsked
      · -- The taken instruction is the second of a pair, or needs nothing of the registers.
        obtain rfl := Option.some.inj hlast
        rw [MulDivState.oHsked, Bool.and_eq_true] at hsked
        have hi := presents_of_iValid (iValid_of_oValid hsked.1)
        rcases (oValid_zeroth hstate hi).mp hsked.1 with hspecial | hpair
        · exact fun hne => absurd hspecial hne
        · obtain ⟨prev, hpairs, hkept⟩ := pair_kept h hobeys hstate hi hpair
          exact hkept.second hpairs
      · exact h.kept hstate ins hlast
    exact hkept.congr hsbf0 hsbf1 hsft1
  · simp [step, hwrites] at hlast

/-- The first state, with a start. -/
private theorem inv_begin (h : Inv r) (hflush : i.flush = false)
    (hstate : r.unit.state = .zeroth) (hi : i.Presents ins) (hlong : ¬AtOnce r.unit ins) :
    Inv (r.step i) := by
  have hworking := step_start hstate hi hflush hlong
  have hsked : r.unit.oHsked i = false := by
    rw [MulDivState.oHsked, Bool.and_eq_false_iff, ← Bool.not_eq_true, oValid_zeroth hstate hi]
    exact Or.inl hlong
  refine ⟨step_flushed_eq h, ?_, fun _ => ⟨ins, 1, step_waiting hi hflush hsked, hworking⟩⟩
  intro hstate'
  exact absurd hstate' hworking.state_ne

/-- Work on an instruction. -/
private theorem inv_work (h : Inv r) (hflush : i.flush = false) {j : Nat}
    (hi : i.Presents ins) (hworking : Working r.unit ins j) : Inv (r.step i) := by
  cases hvalid : r.unit.oValid i
  · have hsked : r.unit.oHsked i = false := by
      rw [MulDivState.oHsked, hvalid, Bool.false_and]
    have hnext := hworking.step_wait hi hflush hvalid
    exact ⟨step_flushed_eq h, fun hstate => absurd hstate hnext.state_ne,
      fun _ => ⟨ins, j + 1, step_waiting hi hflush hsked, hnext⟩⟩
  · cases hready : i.oReady
    · have hsked : r.unit.oHsked i = false := by
        rw [MulDivState.oHsked, hready, Bool.and_false]
      have hnext := hworking.step_stall hi hflush hvalid hready
      exact ⟨step_flushed_eq h, fun hstate => absurd hstate hnext.state_ne,
        fun _ => ⟨ins, j, step_waiting hi hflush hsked, hnext⟩⟩
    · have hsked : r.unit.oHsked i = true := by
        rw [MulDivState.oHsked, hvalid, hready]
        rfl
      obtain ⟨hstate', hkept⟩ := hworking.step_done hi hflush hsked
      refine ⟨step_flushed_eq h, ?_, fun hne => absurd hstate' hne⟩
      rintro - ins' hlast
      rw [step_last hflush (writesBuffers_of_presents hi), if_pos hsked, hi.instr] at hlast
      rw [← Option.some.inj hlast]
      exact hkept

/-- The invariant is kept in every cycle. -/
theorem inv_step (h : Inv r) (hobeys : r.Obeys i) : Inv (r.step i) := by
  cases hflush : i.flush
  · by_cases hstate : r.unit.state = .zeroth
    · cases hvalid : i.iValid
      · exact inv_stay h hobeys hflush hstate (Or.inl hvalid)
      · have hi := presents_of_iValid hvalid
        by_cases honce : AtOnce r.unit i.instr
        · exact inv_stay h hobeys hflush hstate (Or.inr ⟨hi, honce⟩)
        · exact inv_begin h hflush hstate hi honce
    · obtain ⟨ins, j, hwaiting, hworking⟩ := h.working hstate
      have hi := (hobeys.held ins hwaiting).resolve_left (by simp [hflush])
      exact inv_work h hflush hi hworking
  · exact inv_flush h hflush

/-- The run of a sequence of inputs. -/
abbrev states (sbf0 sbf1 : BitVec 33) (inp : Nat → MulDivInput) (n : Nat) : MulDivRun :=
  run step (start sbf0 sbf1) inp n

/-- It holds along every run whose surroundings obey. -/
theorem inv_states {sbf0 sbf1 : BitVec 33} {inp : Nat → MulDivInput}
    (hobeys : ∀ n, (states sbf0 sbf1 inp n).Obeys (inp n)) (n : Nat) :
    Inv (states sbf0 sbf1 inp n) :=
  run_invariant (inv_start sbf0 sbf1) (fun _ _ h hside => inv_step h hside) hobeys n

/-- Cycles from the first one in which an instruction is presented to the one in which its
result is there. -/
def answerTime (s : MulDivState) (ins : MulDivInstr) : Nat :=
  if AtOnce s ins then 0 else ins.latency

/-- An instruction that is not answered at once is worked on until its last cycle. -/
theorem working_states {sbf0 sbf1 : BitVec 33} {inp : Nat → MulDivInput}
    (hobeys : ∀ n, (states sbf0 sbf1 inp n).Obeys (inp n)) {n : Nat} {ins : MulDivInstr}
    (hfirst : (states sbf0 sbf1 inp n).waiting = none) (hi : (inp n).Presents ins)
    (hlong : ¬AtOnce (states sbf0 sbf1 inp n).unit ins)
    (hflush : ∀ j < ins.latency, (inp (n + j)).flush = false) {j : Nat} (hj : j + 1 ≤ ins.latency) :
    (states sbf0 sbf1 inp (n + (j + 1))).waiting = some ins ∧
      Working (states sbf0 sbf1 inp (n + (j + 1))).unit ins (j + 1) := by
  induction j with
  | zero =>
      have hstate := (inv_states hobeys n).zeroth_of_idle hfirst
      have hflush' : (inp n).flush = false := hflush 0 (by omega)
      have hsked : (states sbf0 sbf1 inp n).unit.oHsked (inp n) = false := by
        rw [MulDivState.oHsked, Bool.and_eq_false_iff, ← Bool.not_eq_true, oValid_zeroth hstate hi]
        exact Or.inl hlong
      exact ⟨step_waiting hi hflush' hsked, step_start hstate hi hflush' hlong⟩
  | succ j ih =>
      obtain ⟨hwaiting, hworking⟩ := ih (by omega)
      have hflush' := hflush (j + 1) (by omega)
      have hi' := ((hobeys (n + (j + 1))).held ins hwaiting).resolve_left (by simp [hflush'])
      have hvalid := hworking.oValid_eq hi'
      rw [decide_eq_false (by omega)] at hvalid
      have hsked : (states sbf0 sbf1 inp (n + (j + 1))).unit.oHsked (inp (n + (j + 1))) = false := by
        rw [MulDivState.oHsked, hvalid, Bool.false_and]
      exact ⟨step_waiting hi' hflush' hsked, hworking.step_wait hi' hflush' hvalid⟩

end MulDivRun

/-- In every cycle of every run whose surroundings hold instructions and mark pairs as they
should, a result that is shown and not flushed is what the instruction set gives. -/
theorem muldiv_results (sbf0 sbf1 : BitVec 33) (inp : Nat → MulDivInput)
    (hobeys : ∀ n, (MulDivRun.states sbf0 sbf1 inp n).Obeys (inp n)) (n : Nat)
    (hflush : (inp n).flush = false)
    (hvalid : (MulDivRun.states sbf0 sbf1 inp n).unit.oValid (inp n) = true) :
    (MulDivRun.states sbf0 sbf1 inp n).unit.wbckWdat (inp n) = (inp n).instr.result :=
  MulDivRun.wbckWdat_eq (MulDivRun.inv_states hobeys n) (hobeys n) hflush hvalid

/-- One instruction, presented in every cycle and taken as soon as its result is there. -/
def MulDivInput.always (op : MulDivOp) (a b : XWord) : MulDivInput where
  mdvOp := true
  valid := true
  instr := { op := op, rs1 := a, rs2 := b, b2b := false, nob2b := false }
  flush := false
  oReady := true
  alu := { AluOp.add.request 0 0 with req := false }
  bjp := { BjpCmp.eq.request 0 0 with req := false }
  agu := { AguOp.add.request 0 0 with req := false }
  aguSbf0Ena := false
  aguSbf0Nxt := 0
  aguSbf1Ena := false
  aguSbf1Nxt := 0

/-- Presenting one instruction over and over obeys the rules. -/
theorem obeys_always (op : MulDivOp) (a b : XWord) (n : Nat) :
    (MulDivRun.states 0 0 (fun _ => .always op a b) n).Obeys (.always op a b) := by
  refine ⟨?_, fun _ hb2b => by simp [MulDivInput.always] at hb2b⟩
  intro ins hwaiting
  refine Or.inr ⟨rfl, rfl, ?_⟩
  cases n with
  | zero => simp [MulDivRun.start] at hwaiting
  | succ n =>
      exact MulDivRun.instr_of_waiting hwaiting

/-- Minus seven divided by two, in the thirty-fourth cycle. -/
theorem muldiv_results_div :
    (MulDivRun.states 0 0 (fun _ => .always .div (-7) 2) 33).unit.wbckWdat (.always .div (-7) 2) =
      -3 :=
  (muldiv_results 0 0 (fun _ => .always .div (-7) 2) (obeys_always .div (-7) 2) 33 rfl
    (by decide +kernel)).trans (by decide)

/-- An instruction that is presented first in some cycle, and not flushed, has its result
after a time that depends on the operation and the operands alone, and not before: at once,
after sixteen cycles, or after thirty-three or thirty-five, for an odd or an even quotient. -/
theorem muldiv_latency (sbf0 sbf1 : BitVec 33) (inp : Nat → MulDivInput)
    (hobeys : ∀ n, (MulDivRun.states sbf0 sbf1 inp n).Obeys (inp n)) (n : Nat)
    (ins : MulDivInstr) (hfirst : (MulDivRun.states sbf0 sbf1 inp n).waiting = none)
    (hi : (inp n).Presents ins)
    (hflush : ∀ j ≤ MulDivRun.answerTime (MulDivRun.states sbf0 sbf1 inp n).unit ins,
      (inp (n + j)).flush = false) (j : Nat)
    (hj : j ≤ MulDivRun.answerTime (MulDivRun.states sbf0 sbf1 inp n).unit ins) :
    (MulDivRun.states sbf0 sbf1 inp (n + j)).unit.oValid (inp (n + j)) =
      decide (j = MulDivRun.answerTime (MulDivRun.states sbf0 sbf1 inp n).unit ins) := by
  have hinv := MulDivRun.inv_states hobeys n
  have hstate := hinv.zeroth_of_idle hfirst
  by_cases honce : AtOnce (MulDivRun.states sbf0 sbf1 inp n).unit ins
  · have htime : MulDivRun.answerTime (MulDivRun.states sbf0 sbf1 inp n).unit ins = 0 :=
      if_pos honce
    obtain rfl : j = 0 := by omega
    rw [htime]
    exact (oValid_zeroth hstate hi).mpr honce
  · have htime : MulDivRun.answerTime (MulDivRun.states sbf0 sbf1 inp n).unit ins = ins.latency :=
      if_neg honce
    rw [htime] at hflush hj ⊢
    cases j with
    | zero =>
        have hpos := ins.latency_pos
        rw [decide_eq_false (by omega), ← Bool.not_eq_true]
        exact mt (oValid_zeroth hstate hi).mp honce
    | succ j =>
        obtain ⟨hwaiting, hworking⟩ := MulDivRun.working_states hobeys hfirst hi honce
          (fun j hj => hflush j hj.le) hj
        have hheld := ((hobeys _).held ins hwaiting).resolve_left (by simp [hflush (j + 1) hj])
        exact hworking.oValid_eq hheld

/-- Minus seven divided by two: the quotient is odd. -/
theorem muldiv_latency_div :
    (MulDivRun.states 0 0 (fun _ => .always .div (-7) 2) (0 + 32)).unit.oValid
      (.always .div (-7) 2) = false :=
  (muldiv_latency 0 0 (fun _ => .always .div (-7) 2) (obeys_always .div (-7) 2) 0
    (MulDivInput.always .div (-7) 2).instr rfl ⟨rfl, rfl, rfl⟩ (fun _ _ => rfl) 32
    (by decide)).trans (by decide)

end E203
end AcceleratorSoc
