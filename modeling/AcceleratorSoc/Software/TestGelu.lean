import Mathlib.Algebra.BigOperators.Fin
import Mathlib.Data.Int.Bitwise
import AcceleratorSoc.Python.Numeral

/-!
# The software model of the accelerator

The functions of {lit}`test_gelu.py` that predict the accelerator's results: a
matrix product on hexadecimal strings, the bits kept of every entry, and the
activation table.

Main results:

- Theorem {lit}`hexMatrixMultiply_eq`: on matrices of 16-bit words the product
  strings are those of the exact dot products.
- Theorem {lit}`calGeluResultHex_eq`: the whole prediction, entry by entry.
-/

namespace AcceleratorSoc
namespace Software

open Python

/-- The exceptions these functions end with. -/
inductive PyError
  /-- {lit}`ValueError` of {lit}`int(text, 16)`. -/
  | invalidLiteral (text : String)
  /-- {lit}`ValueError` of {lit}`np.array` on rows of unequal lengths. -/
  | inhomogeneous
  /-- {lit}`OverflowError` of {lit}`np.array` on an integer beyond 64 bits. -/
  | overflow
  /-- {lit}`ValueError` of {lit}`np.vectorize` on an array without entries. -/
  | emptyVectorize
  /-- {lit}`ValueError` raised by the module itself. -/
  | valueError (message : String)
deriving DecidableEq

/-- {lit}`int(text, 16)`. -/
def int16 (text : String) : Except PyError Int :=
  match int text 16 with
  | some value => .ok value
  | none => .error (.invalidLiteral text)

/-! ## Bits and activation -/

/-- {lit}`extract_bits`. -/
def extractBits (hexValue : String) : Except PyError String := do
  let value ← int16 hexValue
  let mask : Int := 0b00000000111111111111111100000000
  let result := Int.land value mask >>> 8
  return hex result

/-- The value to subtract, matched on the two indices. -/
def decrement (indexLow indexHigh : Int) : Int :=
  if indexLow = 0x0 then
    if indexHigh = 1 then 0x29 else if indexHigh = 2 then 0xc else 0
  else if indexLow = 0x1 then
    if indexHigh = 0 then 0xe else if indexHigh = 1 then 0x26 else 0
  else if indexLow = 0x2 then
    if indexHigh = 0 then 0x1a else if indexHigh = 1 then 0x22 else 0
  else if indexLow = 0x3 then
    if indexHigh = 0 then 0x22 else if indexHigh = 1 then 0x1e else 0
  else if indexLow = 0x4 then
    if indexHigh = 0 then 0x27 else if indexHigh = 1 then 0x1a else 0
  else if indexLow = 0x5 then
    if indexHigh = 0 then 0x2b else if indexHigh = 1 then 0x16 else 0
  else if indexLow = 0x6 then
    if indexHigh = 0 then 0x2c else if indexHigh = 1 then 0x12 else 0
  else if indexLow = 0x7 then
    if indexHigh = 0 then 0x2b else if indexHigh = 1 then 0xf else 0
  else 0

/-- {lit}`relu2gelu`. -/
def relu2gelu (hexValue : String) : Except PyError String := do
  let value ← int16 hexValue
  let maskLow : Int := 0b11100000
  let indexLow := Int.land value maskLow >>> 5
  let maskHigh : Int := 0b1111111100000000
  let indexHigh := Int.land value maskHigh >>> 8
  let newValue := value - decrement indexLow indexHigh
  return hex newValue

/-! ## Matrix product -/

/-- A matrix argument: a list of rows, at least one. -/
abbrev HexMatrix :=
  { rows : List (List String) // rows ≠ [] }

/-- {lit}`shape[1]` of an array of rows. -/
def columns {α : Type*} (rows : List (List α)) : Nat :=
  (rows.headD []).length

/-- {lit}`np.array(rows, dtype=int)`, an array of signed 64-bit integers. -/
def npArray (rows : List (List Int)) : Except PyError (List (List Int)) :=
  if ∃ row ∈ rows, row.length ≠ columns rows then .error .inhomogeneous
  else if ∃ row ∈ rows, ∃ x ∈ row, x < -2 ^ 63 ∨ 2 ^ 63 ≤ x then .error .overflow
  else .ok rows

/-- {lit}`np.dot` on arrays of signed 64-bit integers, which wrap around. -/
def npDot (a b : List (List Int)) : List (List Int) :=
  a.map fun row => (List.range (columns b)).map fun j =>
    ((List.zipWith (fun x (other : List Int) => x * other.getD j 0) row b).sum).bmod (2 ^ 64)

/-- {lit}`np.vectorize(hex)`. -/
def vectorizeHex (rows : List (List Int)) : Except PyError (List (List String)) :=
  if rows.flatten = [] then .error .emptyVectorize
  else .ok (rows.map (·.map hex))

/-- {lit}`hex_matrix_multiply`. -/
def hexMatrixMultiply (matrix1 matrix2 : HexMatrix) :
    Except PyError (List (List String)) := do
  let decMatrix1 ← npArray (← matrix1.val.mapM (·.mapM int16))
  let decMatrix2 ← npArray (← matrix2.val.mapM (·.mapM int16))
  if columns decMatrix1 ≠ decMatrix2.length then
    throw (.valueError ("The number of columns in the first matrix must equal the number " ++
      "of rows in the second matrix."))
  vectorizeHex (npDot decMatrix1 decMatrix2)

/-- {lit}`cal_gelu_result_hex`: the prediction for two matrices. -/
def calGeluResultHex (matrix1 matrix2 : HexMatrix) :
    Except PyError (List (List String)) := do
  let product ← hexMatrixMultiply matrix1 matrix2
  let calResultHex ← product.mapM (·.mapM extractBits)
  calResultHex.mapM (·.mapM relu2gelu)

/-! ## Bits and activation of a natural number -/

/-- {lit}`int(hex(value), 16)` is the value. -/
theorem int16_hex (value : Int) : int16 (hex value) = .ok value := by
  rw [int16, int_hex]

/-- A field of a natural number, cut out with a shifted mask. -/
private theorem land_shiftRight (value width shift : Nat) :
    Int.land (value : Int) (((2 ^ width - 1) <<< shift : Nat) : Int) >>> shift =
      ((value / 2 ^ shift % 2 ^ width : Nat) : Int) := by
  have hnat : (value &&& ((2 ^ width - 1) <<< shift)) >>> shift =
      value / 2 ^ shift % 2 ^ width := by
    rw [Nat.shiftRight_and_distrib, Nat.shiftLeft_shiftRight, Nat.and_two_pow_sub_one_eq_mod,
      Nat.shiftRight_eq_div_pow]
  rw [← hnat]
  rfl

/-- {lit}`extract_bits` cuts eight bits off and keeps sixteen. -/
theorem extractBits_hex (value : Nat) :
    extractBits (hex value) = .ok (hex (value / 256 % 65536 : Nat)) := by
  have hfield := land_shiftRight value 16 8
  simp only [extractBits, int16_hex]
  exact congrArg (fun x : Int => Except.ok (hex x)) hfield

/-- {lit}`relu2gelu` subtracts the entry of the table. -/
theorem relu2gelu_hex (value : Nat) :
    relu2gelu (hex value) =
      .ok (hex (value - decrement (value / 32 % 8 : Nat) (value / 256 % 256 : Nat))) := by
  have hlow := land_shiftRight value 3 5
  have hhigh := land_shiftRight value 8 8
  simp only [relu2gelu, int16_hex]
  exact congrArg₂ (fun low high : Int => Except.ok (hex (value - decrement low high)))
    hlow hhigh

/-! ## Matrices of words -/

section Matrices

variable {m k n : Nat}

/-- The rows of a matrix. -/
def rowsOf {α : Type*} (f : Fin m → Fin n → α) : List (List α) :=
  List.ofFn fun i => List.ofFn (f i)

/-- The strings of the matrix, in whatever spelling, are numerals of these words. -/
def Spells (matrix : HexMatrix) (words : Fin m → Fin n → BitVec 16) : Prop :=
  matrix.val.mapM (·.mapM int16) = .ok (rowsOf fun i j => ((words i j).toNat : Int))

/-- A matrix of words in bare hexadecimal digits, as the encoder of the module
writes them. -/
def hexMatrix (hm : 0 < m) (words : Fin m → Fin n → BitVec 16) : HexMatrix :=
  ⟨rowsOf fun i j => String.ofList (Nat.toDigits 16 (words i j).toNat), by
    intro hnil
    have := congrArg List.length hnil
    simp [rowsOf] at this
    omega⟩

/-- The exact entry of the product. -/
def dotProduct (words1 : Fin m → Fin k → BitVec 16) (words2 : Fin k → Fin n → BitVec 16)
    (i : Fin m) (j : Fin n) : Nat :=
  ∑ l, (words1 i l).toNat * (words2 l j).toNat

/-- A loop without an exception returns what its steps return. -/
private theorem mapM_ofFn {ε α β : Type*} {f : α → Except ε β} {a : Fin n → α}
    {b : Fin n → β} (h : ∀ i, f (a i) = .ok (b i)) :
    (List.ofFn a).mapM f = .ok (List.ofFn b) := by
  induction n with
  | zero => rfl
  | succ n ih =>
      rw [List.ofFn_succ, List.ofFn_succ, List.mapM_cons, h 0, ih fun i => h i.succ]
      rfl

/-- An operation that succeeds on every entry succeeds on the matrix. -/
theorem mapM_rowsOf {ε α β : Type*} {f : α → Except ε β} {a : Fin m → Fin n → α}
    {b : Fin m → Fin n → β} (h : ∀ i j, f (a i j) = .ok (b i j)) :
    (rowsOf a).mapM (·.mapM f) = .ok (rowsOf b) :=
  mapM_ofFn fun i => mapM_ofFn (h i)

/-- The matrix spells its words. -/
theorem hexMatrix_spells (hm : 0 < m) (words : Fin m → Fin n → BitVec 16) :
    Spells (hexMatrix hm words) words := by
  apply mapM_rowsOf
  intro i j
  rw [int16, int_toDigits (by decide) (by decide)]

/-- A matrix given by rows has the columns of its rows. -/
theorem columns_rowsOf {α : Type*} (hm : 0 < m) (f : Fin m → Fin n → α) :
    columns (rowsOf f) = n := by
  cases m with
  | zero => exact absurd hm (lt_irrefl 0)
  | succ m => rw [rowsOf, List.ofFn_succ, columns, List.headD_cons, List.length_ofFn]

/-- {lit}`np.array` takes numbers of sixty-four bits. -/
theorem npArray_rowsOf (hm : 0 < m) {f : Fin m → Fin n → Int}
    (hrange : ∀ i j, -2 ^ 63 ≤ f i j ∧ f i j < 2 ^ 63) :
    npArray (rowsOf f) = .ok (rowsOf f) := by
  have hrows : ¬∃ row ∈ rowsOf f, row.length ≠ columns (rowsOf f) := by
    rintro ⟨row, hrow, hne⟩
    obtain ⟨i, rfl⟩ := List.mem_ofFn.mp hrow
    exact hne (by rw [columns_rowsOf hm, List.length_ofFn])
  have hentries : ¬∃ row ∈ rowsOf f, ∃ x ∈ row, x < -2 ^ 63 ∨ 2 ^ 63 ≤ x := by
    rintro ⟨row, hrow, x, hx, hout⟩
    obtain ⟨i, rfl⟩ := List.mem_ofFn.mp hrow
    obtain ⟨j, rfl⟩ := List.mem_ofFn.mp hx
    have := hrange i j
    omega
  rw [npArray, if_neg hrows, if_neg hentries]

/-- Two rows are combined entry by entry. -/
private theorem zipWith_ofFn {α β γ : Type*} (f : α → β → γ) (a : Fin n → α)
    (b : Fin n → β) :
    List.zipWith f (List.ofFn a) (List.ofFn b) = List.ofFn fun i => f (a i) (b i) := by
  apply List.ext_getElem
  · simp
  · intro i _ _
    simp

/-- {lit}`np.dot` computes modulo two to the power of sixty-four. -/
theorem npDot_rowsOf (hk : 0 < k) (a : Fin m → Fin k → Int) (b : Fin k → Fin n → Int) :
    npDot (rowsOf a) (rowsOf b) =
      rowsOf fun i j => (∑ l, a i l * b l j).bmod (2 ^ 64) := by
  rw [npDot, columns_rowsOf hk]
  apply List.ext_getElem
  · simp [rowsOf]
  · intro i _ _
    apply List.ext_getElem
    · simp [rowsOf]
    · intro j hj _
      have hjn : j < n := by simpa [rowsOf] using hj
      simp [rowsOf, zipWith_ofFn, List.sum_ofFn, hjn]

/-- {lit}`np.vectorize(hex)` spells every entry. -/
theorem vectorizeHex_rowsOf (hm : 0 < m) (hn : 0 < n) (f : Fin m → Fin n → Int) :
    vectorizeHex (rowsOf f) = .ok (rowsOf fun i j => hex (f i j)) := by
  have hne : (rowsOf f).flatten ≠ [] := by
    intro hnil
    have hrow := List.flatten_eq_nil_iff.mp hnil (List.ofFn (f ⟨0, hm⟩))
      (List.mem_ofFn.mpr ⟨_, rfl⟩)
    have := congrArg List.length hrow
    simp at this
    omega
  rw [vectorizeHex, if_neg hne]
  congr 1
  simp [rowsOf, List.map_ofFn, Function.comp_def]

/-- The product of two matrices of words, as long as the exact dot products fit. -/
theorem hexMatrixMultiply_eq (hm : 0 < m) (hk : 0 < k) (hn : 0 < n)
    {matrix1 matrix2 : HexMatrix} {words1 : Fin m → Fin k → BitVec 16}
    {words2 : Fin k → Fin n → BitVec 16} (h1 : Spells matrix1 words1)
    (h2 : Spells matrix2 words2) (hfit : ∀ i j, dotProduct words1 words2 i j < 2 ^ 63) :
    hexMatrixMultiply matrix1 matrix2 =
      .ok (rowsOf fun i j => hex (dotProduct words1 words2 i j)) := by
  have hword : ∀ w : BitVec 16, -2 ^ 63 ≤ (w.toNat : Int) ∧ (w.toNat : Int) < 2 ^ 63 := by
    intro w
    omega
  have harray1 := npArray_rowsOf hm fun i j => hword (words1 i j)
  have harray2 := npArray_rowsOf hk fun i j => hword (words2 i j)
  have hshape : columns (rowsOf fun i j => ((words1 i j).toNat : Int)) =
      (rowsOf fun i j => ((words2 i j).toNat : Int)).length := by
    rw [columns_rowsOf hm, rowsOf, List.length_ofFn]
  have hentry : ∀ i j, (∑ l, ((words1 i l).toNat : Int) * (words2 l j).toNat).bmod (2 ^ 64) =
      (dotProduct words1 words2 i j : Int) := by
    intro i j
    have hcast : ∑ l, ((words1 i l).toNat : Int) * (words2 l j).toNat =
        (dotProduct words1 words2 i j : Int) := by
      simp [dotProduct]
    have := hfit i j
    rw [hcast, Int.bmod_eq_of_le (by omega) (by omega)]
  simp only [Spells] at h1 h2
  simp only [hexMatrixMultiply, h1, h2, harray1, harray2, hshape, npDot_rowsOf hk,
    vectorizeHex_rowsOf hm hn, hentry, bind, Except.bind, ne_eq, not_true_eq_false, if_false]

/-- The whole prediction: the middle sixteen bits of every dot product, less the
entry of the table. -/
theorem calGeluResultHex_eq (hm : 0 < m) (hk : 0 < k) (hn : 0 < n)
    {matrix1 matrix2 : HexMatrix} {words1 : Fin m → Fin k → BitVec 16}
    {words2 : Fin k → Fin n → BitVec 16} (h1 : Spells matrix1 words1)
    (h2 : Spells matrix2 words2) (hfit : ∀ i j, dotProduct words1 words2 i j < 2 ^ 63) :
    calGeluResultHex matrix1 matrix2 = .ok (rowsOf fun i j =>
      let bits := dotProduct words1 words2 i j / 256 % 65536
      hex (bits - decrement (bits / 32 % 8 : Nat) (bits / 256 % 256 : Nat))) := by
  have hbits := mapM_rowsOf fun i j => extractBits_hex (dotProduct words1 words2 i j)
  have hgelu := mapM_rowsOf fun i j =>
    relu2gelu_hex (dotProduct words1 words2 i j / 256 % 65536)
  simp only [calGeluResultHex, hexMatrixMultiply_eq hm hk hn h1 h2 hfit, bind, Except.bind,
    hbits, hgelu]

end Matrices

end Software
end AcceleratorSoc
