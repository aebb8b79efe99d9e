import Mathlib.Data.Fintype.Basic
import Mathlib.Tactic.FinCases

/-!
# Register banks of four

Hardware often repeats a register four times and numbers the copies.  A bank
holds the four values and is read by index; a table is a bank of banks, numbered
by row and column.  Unlike a function from indices, a bank stores its values, so
that a long run evaluates every register once a cycle.

Main results:

- Definition {lit}`Bank.ofFn`, {lit}`Bank.table`: the bank, or table, with given contents.
- Theorem {lit}`ofFn_get`, {lit}`table_get`: what it is read as.
- Theorem {lit}`ext_get`, {lit}`ext_table`: the registers determine it.
-/

namespace AcceleratorSoc
namespace Clocked

/-- The proof that there are indices, shared by all numerals of {lit}`Fin 4`. -/
instance instNeZeroFour : @NeZero Nat Zero.ofOfNat0 4 :=
  ⟨by decide⟩

/-- Four numbered registers. -/
@[ext]
structure Bank (α : Type*) where
  reg0 : α
  reg1 : α
  reg2 : α
  reg3 : α
deriving DecidableEq

namespace Bank

variable {α β : Type*}

/-- The register with a given number. -/
def get (b : Bank α) : Fin 4 → α
  | 0 => b.reg0
  | 1 => b.reg1
  | 2 => b.reg2
  | 3 => b.reg3

instance : CoeFun (Bank α) fun _ => Fin 4 → α :=
  ⟨get⟩

/-- The bank with given contents. -/
def ofFn (f : Fin 4 → α) : Bank α :=
  { reg0 := f 0, reg1 := f 1, reg2 := f 2, reg3 := f 3 }

/-- The bank of banks with given contents, row first. -/
def table (f : Fin 4 → Fin 4 → α) : Bank (Bank α) :=
  ofFn fun r => ofFn (f r)

/-- A bank is read as it was written. -/
@[simp]
theorem ofFn_get (f : Fin 4 → α) (k : Fin 4) : ofFn f k = f k := by
  fin_cases k <;> rfl

/-- So is a table. -/
@[simp]
theorem table_get (f : Fin 4 → Fin 4 → α) (r c : Fin 4) : table f r c = f r c := by
  simp [table]

/-- Banks with the same registers are equal. -/
theorem ext_get {a b : Bank α} (h : ∀ k, a k = b k) : a = b :=
  Bank.ext (h 0) (h 1) (h 2) (h 3)

/-- Tables with the same registers are equal. -/
theorem ext_table {a b : Bank (Bank α)} (h : ∀ r c, a r c = b r c) : a = b :=
  ext_get fun r => ext_get (h r)

end Bank

end Clocked
end AcceleratorSoc
