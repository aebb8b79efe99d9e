import AcceleratorSoc.Clocked.Bank
import AcceleratorSoc.Clocked.Systolic
import AcceleratorSoc.CnnCore.Gelu

/-!
# The processing-element array

The 4 × 4 grid of multiply-accumulate cells {lit}`pe_array`.  Data words travel
from left to right, weight words from top to bottom; each word packs two
unsigned 16-bit operands, and a cell adds both products to its accumulator.

Main results:

- Theorem {lit}`toGrid_step_single`: in mode {lit}`SINGLE` the array performs one
  pulse of an output-stationary systolic array.
- Theorem {lit}`step_disable_result`: in mode {lit}`DISABLE` the accumulators
  hold, while the forwarding registers are cleared.
-/

namespace AcceleratorSoc
namespace CnnCore

open Clocked

/-- Systolic array mode.  The fourth value of the two-bit register is never
assigned. -/
inductive Mode
  | disable
  | single
  | clear
deriving DecidableEq

/-- Low operand of a packed word, widened to 32 bits ({lit}`weight0`,
{lit}`data0`). -/
def lowHalf (w : Word) : Word :=
  (w.extractLsb' 0 16).setWidth 32

/-- High operand of a packed word, widened to 32 bits ({lit}`weight1`,
{lit}`data1`). -/
def highHalf (w : Word) : Word :=
  (w.extractLsb' 16 16).setWidth 32

/-- The two products one cell adds up in a cycle. -/
def product (data weight : Word) : Word :=
  lowHalf weight * lowHalf data + highHalf weight * highHalf data

/-- Registers of one processing element. -/
structure Pe where
  result : Word
  dataOut : Word
  weightOut : Word
deriving DecidableEq

/-- A processing element after reset. -/
def Pe.reset : Pe where
  result := 0
  dataOut := 0
  weightOut := 0

/-- One clock edge of a processing element. -/
def Pe.step (p : Pe) (mode : Mode) (dataIn weightIn : Word) : Pe where
  result :=
    match mode with
    | .clear => 0
    | .single => p.result + lowHalf weightIn * lowHalf dataIn +
        highHalf weightIn * highHalf dataIn
    | .disable => p.result
  dataOut :=
    match mode with
    | .clear => 0
    | .single => dataIn
    | .disable => 0
  weightOut :=
    match mode with
    | .clear => 0
    | .single => weightIn
    | .disable => 0

/-- The sixteen processing elements, {lit}`pe_rc` at row {lit}`r` and column
{lit}`c`. -/
abbrev PeArray :=
  Bank (Bank Pe)

namespace PeArray

/-- All processing elements after reset. -/
def reset : PeArray :=
  Bank.table fun _ _ => Pe.reset

/-- The {lit}`data_in` port of {lit}`pe_rc`: the array input of its row, or the
{lit}`data_out` of its left neighbour. -/
def dataWire (a : PeArray) (dataIn : Fin 4 → Word) (r : Fin 4) : Fin 4 → Word
  | 0 => dataIn r
  | 1 => (a r 0).dataOut
  | 2 => (a r 1).dataOut
  | 3 => (a r 2).dataOut

/-- The {lit}`weight_in` port of {lit}`pe_rc`: the array input of its column, or
the {lit}`weight_out` of its upper neighbour. -/
def weightWire (a : PeArray) (weightIn : Fin 4 → Word) (r c : Fin 4) : Word :=
  match r with
  | 0 => weightIn c
  | 1 => (a 0 c).weightOut
  | 2 => (a 1 c).weightOut
  | 3 => (a 2 c).weightOut

/-- One clock edge of the array. -/
def step (a : PeArray) (mode : Mode) (dataIn weightIn : Fin 4 → Word) : PeArray :=
  Bank.table fun r c =>
    (a r c).step mode (dataWire a dataIn r c) (weightWire a weightIn r c)

/-- An element after a clock edge. -/
theorem step_get (a : PeArray) (mode : Mode) (dataIn weightIn : Fin 4 → Word)
    (r c : Fin 4) :
    step a mode dataIn weightIn r c =
      (a r c).step mode (dataWire a dataIn r c) (weightWire a weightIn r c) :=
  Bank.table_get _ r c

/-- A disabled array holds its accumulators. -/
theorem step_disable_result (a : PeArray) (dataIn weightIn : Fin 4 → Word)
    (r c : Fin 4) :
    (step a .disable dataIn weightIn r c).result = (a r c).result := by
  rw [step_get]
  rfl

/-- A disabled array whose accumulators are zero is a reset array. -/
theorem step_disable_eq_reset {a : PeArray} (h : ∀ r c, (a r c).result = 0)
    (dataIn weightIn : Fin 4 → Word) :
    step a .disable dataIn weightIn = reset := by
  apply Bank.ext_table
  intro r c
  rw [step_get]
  simp [Pe.step, reset, Pe.reset, h]

/-! ## The array as a systolic grid -/

/-- The registers of the array as a systolic grid: data to the right, weights
downwards. -/
def toGrid (a : PeArray) : Systolic.Grid 4 Word Word Word :=
  fun r c =>
    { right := (a r c).dataOut
      down := (a r c).weightOut
      val := (a r c).result }

/-- After reset the grid is zero. -/
theorem toGrid_reset : toGrid reset = Systolic.zeroGrid 4 Word Word Word := by
  funext r c
  simp [toGrid, reset, Pe.reset, Systolic.zeroGrid]

/-- Data come from the left neighbour. -/
theorem dataWire_eq_fromLeft (a : PeArray) (dataIn : Fin 4 → Word) (r c : Fin 4) :
    dataWire a dataIn r c = Systolic.fromLeft dataIn (toGrid a) r c := by
  fin_cases c <;> rfl

/-- Weights come from the neighbour above. -/
theorem weightWire_eq_fromAbove (a : PeArray) (weightIn : Fin 4 → Word)
    (r c : Fin 4) :
    weightWire a weightIn r c = Systolic.fromAbove weightIn (toGrid a) r c := by
  fin_cases r <;> rfl

/-- In mode {lit}`SINGLE` a clock edge of the array is a pulse of the grid. -/
theorem toGrid_step_single (a : PeArray) (dataIn weightIn : Fin 4 → Word) :
    toGrid (step a .single dataIn weightIn) =
      Systolic.pulse product (toGrid a) (dataIn, weightIn) := by
  funext r c
  simp only [toGrid, step_get, Pe.step, Systolic.pulse, product, dataWire_eq_fromLeft,
    weightWire_eq_fromAbove, add_assoc]

end PeArray

/-- A zero data word contributes nothing. -/
theorem product_zero_left (weight : Word) : product 0 weight = 0 := by
  have hlow : lowHalf 0 = 0 := rfl
  have hhigh : highHalf 0 = 0 := rfl
  rw [product, hlow, hhigh, mul_zero, mul_zero, add_zero]

end CnnCore
end AcceleratorSoc
