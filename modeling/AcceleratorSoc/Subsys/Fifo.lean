import Mathlib.Data.Nat.ModEq
import AcceleratorSoc.Clocked.OneHot

/-!
# Fifo and pipeline stage of the ICB blocks

{lit}`sirv_gnrl_fifo` keeps its read and write positions as one-hot vectors and its
fill level as a thermometer vector, so that its flags are flip-flop outputs.  The
words of its register file are not reset.  The depths used by the shared memory
bus are larger than one.

Main results:

- Theorem {lit}`Fifo.holds_reset`: after reset the fifo holds nothing.
- Theorem {lit}`Fifo.Holds.iRdy`, {lit}`Fifo.Holds.oVld`: the flags tell a full and an
  empty fifo.
- Theorem {lit}`Fifo.Holds.oDat`: the output is the oldest word.
- Theorem {lit}`Fifo.Holds.step`: a clock edge takes the oldest word off and appends
  the input, under the two handshakes.
-/

namespace AcceleratorSoc
namespace Subsys

open Clocked

variable {dp w : Nat}

/-! ## Registers -/

/-- {lit}`sirv_gnrl_fifo` with depth {lit}`DP` and width {lit}`DW`. -/
structure Fifo (dp w : Nat) where
  rptrVec : BitVec dp
  wptrVec : BitVec dp
  vec : BitVec (dp + 1)
  rf : Fin dp → BitVec w

namespace Fifo

/-- Reset values; the register file keeps what it powered up with. -/
def reset (rf : Fin dp → BitVec w) : Fifo dp w where
  rptrVec := BitVec.ofNat dp 1
  wptrVec := BitVec.ofNat dp 1
  vec := BitVec.ofNat (dp + 1) 1
  rf := rf

/-- {lit}`i_rdy`: not full. -/
def iRdy (f : Fifo dp w) : Bool :=
  !f.vec.getLsbD dp

/-- {lit}`o_vld`: not empty. -/
def oVld (f : Fifo dp w) : Bool :=
  f.vec.getLsbD 1

/-- {lit}`mux_rdat`. -/
def oDat (f : Fifo dp w) : BitVec w :=
  orMux f.rptrVec f.rf

/-- An entry goes in. -/
def wen (f : Fifo dp w) (iVld : Bool) : Bool :=
  iVld && f.iRdy

/-- An entry goes out. -/
def ren (f : Fifo dp w) (oRdy : Bool) : Bool :=
  f.oVld && oRdy

/-- The thermometer grows with an entry and shrinks without. -/
def vecNxt (f : Fifo dp w) (wen : Bool) : BitVec (dp + 1) :=
  if wen then f.vec.extractLsb' 0 dp ++ 1#1 else f.vec >>> 1

/-- One clock edge. -/
def step (f : Fifo dp w) (iVld : Bool) (iDat : BitVec w) (oRdy : Bool) : Fifo dp w where
  rptrVec := if f.ren oRdy then ringNext f.rptrVec else f.rptrVec
  wptrVec := if f.wen iVld then ringNext f.wptrVec else f.wptrVec
  vec := if f.ren oRdy ^^ f.wen iVld then f.vecNxt (f.wen iVld) else f.vec
  rf := fun j => if f.wen iVld && f.wptrVec.getLsbD j then iDat else f.rf j

/-! ## The queue in the registers -/

/-- A fill level as the thermometer vector shows it. -/
def Thermometer (vec : BitVec (dp + 1)) (len : Nat) : Prop :=
  len ≤ dp ∧ ∀ j ≤ dp, vec.getLsbD j = decide (j ≤ len)

/-- The queue {lit}`q` lies in the register file from position {lit}`r` on. -/
def Window (rf : Fin dp → BitVec w) (r : Nat) (q : List (BitVec w)) : Prop :=
  ∀ (j : Nat) (k : Fin dp), j < q.length → k.val = (r + j) % dp → q[j]? = some (rf k)

/-- The fifo holds the words of {lit}`q`, oldest first. -/
def Holds (f : Fifo dp w) (q : List (BitVec w)) : Prop :=
  Thermometer f.vec q.length ∧
    ∃ r < dp, f.rptrVec = BitVec.twoPow dp r ∧
      f.wptrVec = BitVec.twoPow dp ((r + q.length) % dp) ∧ Window f.rf r q

/-- A thermometer that grows counts one more. -/
private theorem Thermometer.push {vec : BitVec (dp + 1)} {len : Nat}
    (h : Thermometer vec len) (hlen : len < dp) :
    Thermometer (vec.extractLsb' 0 dp ++ 1#1) (len + 1) := by
  refine ⟨hlen, ?_⟩
  intro j hj
  rw [BitVec.getLsbD_append]
  cases j with
  | zero => simp
  | succ j =>
      rw [if_neg (by omega), BitVec.getLsbD_extractLsb', decide_eq_true (by omega),
        Bool.true_and, Nat.add_sub_cancel, Nat.zero_add, h.2 j (by omega)]
      exact decide_eq_decide.mpr (by omega)

/-- A thermometer that shrinks counts one less. -/
private theorem Thermometer.pop {vec : BitVec (dp + 1)} {len : Nat}
    (h : Thermometer vec (len + 1)) : Thermometer (vec >>> 1) len := by
  have hlen : len + 1 ≤ dp := h.1
  refine ⟨by omega, ?_⟩
  intro j hj
  rw [BitVec.getLsbD_ushiftRight]
  rcases Nat.lt_or_eq_of_le hj with hlt | rfl
  · rw [h.2 (1 + j) (by omega)]
    exact decide_eq_decide.mpr (by omega)
  · rw [BitVec.getLsbD_of_ge _ _ (by omega)]
    exact (decide_eq_false (by omega)).symm

/-- Positions of one round are different words of the register file. -/
private theorem offset_inj {r a b : Nat} (ha : a < dp) (hb : b < dp)
    (h : (r + a) % dp = (r + b) % dp) : a = b := by
  have hmod : a % dp = b % dp := Nat.ModEq.add_left_cancel' r h
  rwa [Nat.mod_eq_of_lt ha, Nat.mod_eq_of_lt hb] at hmod

/-- Writing behind the window extends it. -/
private theorem Window.push {rf : Fin dp → BitVec w} {r : Nat} {q : List (BitVec w)}
    (h : Window rf r q) (hlen : q.length < dp) (x : BitVec w) :
    Window (fun j => if (BitVec.twoPow dp ((r + q.length) % dp)).getLsbD j then x else rf j)
      r (q ++ [x]) := by
  intro j k hj hk
  have hpos : (r + q.length) % dp < dp := Nat.mod_lt _ (by omega)
  have hbit : (BitVec.twoPow dp ((r + q.length) % dp)).getLsbD k =
      decide ((r + q.length) % dp = k) := by
    rw [BitVec.getLsbD_twoPow, decide_eq_true hpos, Bool.true_and]
  rw [List.length_append, List.length_singleton] at hj
  simp only [hbit, decide_eq_true_eq]
  rw [hk]
  rcases Nat.lt_or_eq_of_le (Nat.le_of_lt_succ hj) with hlt | rfl
  · have hne : ¬(r + q.length) % dp = (r + j) % dp := by
      intro heq
      exact absurd (offset_inj hlen (by omega) heq) (by omega)
    rw [if_neg hne, List.getElem?_append_left hlt]
    exact h j k hlt hk
  · rw [if_pos rfl]
    exact List.getElem?_concat_length

/-- Moving its start drops the oldest entry. -/
private theorem Window.pop {rf : Fin dp → BitVec w} {r : Nat} {x : BitVec w}
    {q : List (BitVec w)} (h : Window rf r (x :: q)) : Window rf ((r + 1) % dp) q := by
  intro j k hj hk
  have hround : k.val = (r + (j + 1)) % dp := by
    rw [hk, Nat.mod_add_mod, Nat.add_assoc, Nat.add_comm 1 j]
  exact h (j + 1) k (by simpa using hj) hround

variable {f : Fifo dp w} {q : List (BitVec w)}

/-- After reset the fifo is empty, whatever its register file contains. -/
theorem holds_reset (hdp : 0 < dp) (rf : Fin dp → BitVec w) : (reset rf).Holds [] := by
  refine ⟨⟨Nat.zero_le dp, ?_⟩, 0, hdp, ?_, ?_, ?_⟩
  · intro j _
    have hone : (BitVec.ofNat (dp + 1) 1).getLsbD j = decide (j = 0) := by
      rw [← BitVec.twoPow_zero, BitVec.getLsbD_twoPow]
      exact decide_eq_decide.mpr (by omega)
    exact hone.trans (decide_eq_decide.mpr (by simp))
  · exact BitVec.twoPow_zero.symm
  · rw [List.length_nil, Nat.add_zero, Nat.zero_mod]
    exact BitVec.twoPow_zero.symm
  · intro j k hj
    exact absurd hj (Nat.not_lt_zero j)

/-- The fifo never holds more than its depth. -/
theorem Holds.length_le (h : f.Holds q) : q.length ≤ dp :=
  h.1.1

/-- {lit}`i_rdy` tells whether there is room. -/
theorem Holds.iRdy (h : f.Holds q) : f.iRdy = decide (q.length < dp) := by
  have hle := h.length_le
  rw [Fifo.iRdy, h.1.2 dp (Nat.le_refl dp), ← decide_not]
  exact decide_eq_decide.mpr (by omega)

/-- {lit}`o_vld` tells whether there is a word. -/
theorem Holds.oVld (h : f.Holds q) : f.oVld = !q.isEmpty := by
  rcases h.2 with ⟨r, hr, -⟩
  rw [Fifo.oVld, h.1.2 1 (by omega)]
  cases q with
  | nil => rfl
  | cons x q => exact decide_eq_true (by simp)

/-- The output is the oldest word. -/
theorem Holds.oDat {x : BitVec w} (h : f.Holds (x :: q)) : f.oDat = x := by
  rcases h.2 with ⟨r, hr, hread, -, hwindow⟩
  have hfront := hwindow 0 ⟨r, hr⟩ (Nat.zero_lt_succ _) (Nat.mod_eq_of_lt hr).symm
  rw [Fifo.oDat, hread, orMux_eq ⟨r, hr⟩ f.rf]
  exact (Option.some.inj hfront).symm

/-- What the fifo holds after a clock edge. -/
def queueNext (q : List (BitVec w)) (wen : Bool) (iDat : BitVec w) (ren : Bool) :
    List (BitVec w) :=
  q.drop ren.toNat ++ (if wen then [iDat] else [])

/-- A clock edge takes the oldest word off under the output handshake and appends the
input under the input handshake. -/
theorem Holds.step (h : f.Holds q) (iVld : Bool) (iDat : BitVec w) (oRdy : Bool) :
    (f.step iVld iDat oRdy).Holds (queueNext q (f.wen iVld) iDat (f.ren oRdy)) := by
  have hroom : f.wen iVld = true → q.length < dp := by
    intro hwen
    rw [Fifo.wen, h.iRdy, Bool.and_eq_true] at hwen
    exact of_decide_eq_true hwen.2
  have hword : f.ren oRdy = true → q ≠ [] := by
    rintro hren rfl
    rw [Fifo.ren, h.oVld] at hren
    exact Bool.false_ne_true hren
  rcases h with ⟨hvec, r, hr, hread, hwrite, hwindow⟩
  have hround : (r + 1) % dp < dp := Nat.mod_lt _ (by omega)
  have hpos : (r + q.length) % dp < dp := Nat.mod_lt _ (by omega)
  have hsucc : ((r + q.length) % dp + 1) % dp = (r + (q.length + 1)) % dp := by
    rw [Nat.mod_add_mod, Nat.add_assoc]
  unfold Fifo.step Holds queueNext vecNxt
  rw [hread, hwrite, ringNext_twoPow hr, ringNext_twoPow hpos, hsucc]
  cases hwen : f.wen iVld
  · cases hren : f.ren oRdy
    · simpa using ⟨hvec, r, hr, rfl, rfl, hwindow⟩
    · rcases List.exists_cons_of_ne_nil (hword hren) with ⟨x, rest, rfl⟩
      have hshift : (r + (rest.length + 1)) % dp = ((r + 1) % dp + rest.length) % dp := by
        rw [Nat.mod_add_mod, Nat.add_assoc, Nat.add_comm 1]
      have hwindow' := hwindow.pop
      refine ⟨?_, (r + 1) % dp, hround, ?_, ?_, ?_⟩
      · simpa using hvec.pop
      · rfl
      · simpa using congrArg (BitVec.twoPow dp) hshift
      · simpa using hwindow'
  · have hlen := hroom hwen
    have hpushed := hwindow.push hlen iDat
    cases hren : f.ren oRdy
    · refine ⟨?_, r, hr, ?_, ?_, ?_⟩
      · simpa using hvec.push hlen
      · rfl
      · simp
      · simpa using hpushed
    · rcases List.exists_cons_of_ne_nil (hword hren) with ⟨x, rest, rfl⟩
      have hshift : (r + (rest.length + 1 + 1)) % dp =
          ((r + 1) % dp + (rest.length + 1)) % dp := by
        rw [Nat.mod_add_mod, Nat.add_assoc r 1, Nat.add_comm 1]
      have hwindow' := Window.pop hpushed
      refine ⟨?_, (r + 1) % dp, hround, ?_, ?_, ?_⟩
      · simpa using hvec
      · rfl
      · simpa using congrArg (BitVec.twoPow dp) hshift
      · simpa using hwindow'

end Fifo

/-! ## Stage of one word -/

/-- {lit}`sirv_gnrl_pipe_stage` with {lit}`DP = 1` and {lit}`CUT_READY = 1`. -/
structure CutStage (w : Nat) where
  vldR : Bool
  oDat : BitVec w

namespace CutStage

/-- {lit}`i_rdy`: the stage is empty. -/
def iRdy (p : CutStage w) : Bool :=
  !p.vldR

/-- One clock edge. -/
def step (p : CutStage w) (iVld : Bool) (iDat : BitVec w) (oRdy : Bool) : CutStage w :=
  let vldSet := iVld && p.iRdy
  let vldClr := p.vldR && oRdy
  { vldR := if vldSet || vldClr then vldSet || !vldClr else p.vldR
    oDat := if vldSet then iDat else p.oDat }

end CutStage

end Subsys
end AcceleratorSoc
