import Mathlib.Algebra.Order.Floor.Ring
import Mathlib.Data.Nat.Digits.Defs
import Mathlib.Tactic.FieldSimp
import Mathlib.Tactic.Linarith
import Mathlib.Tactic.NormNum
import AcceleratorSoc.Python.Numeral

/-!
# Rounding and binary strings of the Python interpreter

The built-in functions {lit}`round(x)`, on exact numbers, and
{lit}`format(value, '0nb')`, which spells a number with at least {lit}`n` binary
digits.

Main results:

- Theorem {lit}`abs_roundHalfEven_sub_le`: rounding moves a number by at most one half.
- Theorem {lit}`int_formatBinary`: a padded binary string reads back.
- Theorem {lit}`formatBinary_binaryValue`: a binary string is the padded spelling of its
  value.
-/

namespace AcceleratorSoc
namespace Python

/-! ## Rounding -/

section Round

variable {K : Type*} [Field K] [LinearOrder K] [IsStrictOrderedRing K] [FloorRing K]

/-- {lit}`round(x)`: the nearest integer, the even one half way between two. -/
def roundHalfEven (x : K) : Int :=
  if Int.fract x < 1 / 2 then ⌊x⌋
  else if 1 / 2 < Int.fract x then ⌊x⌋ + 1
  else if ⌊x⌋ % 2 = 0 then ⌊x⌋
  else ⌊x⌋ + 1

/-- Integers stay. -/
@[simp]
theorem roundHalfEven_intCast (n : Int) : roundHalfEven (n : K) = n := by
  simp [roundHalfEven]

/-- Rounding moves a number by at most one half. -/
theorem abs_roundHalfEven_sub_le (x : K) : |(roundHalfEven x : K) - x| ≤ 1 / 2 := by
  have hsplit : (⌊x⌋ : K) = x - Int.fract x := by
    rw [Int.self_sub_fract]
  have hlow := Int.fract_nonneg x
  have hhigh := Int.fract_lt_one x
  have hdown : Int.fract x ≤ 1 / 2 → |(⌊x⌋ : K) - x| ≤ 1 / 2 := by
    intro h
    rw [hsplit, abs_le]
    constructor <;> linarith
  have hup : 1 / 2 ≤ Int.fract x → |((⌊x⌋ + 1 : Int) : K) - x| ≤ 1 / 2 := by
    intro h
    rw [Int.cast_add, hsplit, Int.cast_one, abs_le]
    constructor <;> linarith
  rw [roundHalfEven]
  split_ifs with hlt hgt heven
  · exact hdown hlt.le
  · exact hup hgt.le
  · exact hdown (not_lt.mp hgt)
  · exact hup (not_lt.mp hlt)

end Round

/-! ## Binary strings -/

/-- {lit}`format(value, '0nb')` for the width {lit}`n`. -/
def formatBinary (width : Nat) (value : Int) : String :=
  if value < 0 then
    String.ofList ('-' :: (Nat.toDigits 2 value.natAbs).leftpad (width - 1) '0')
  else String.ofList ((Nat.toDigits 2 value.natAbs).leftpad width '0')

/-- Every character is a binary digit. -/
def IsBinary (cs : List Char) : Prop :=
  ∀ c ∈ cs, c = '0' ∨ c = '1'

instance (cs : List Char) : Decidable (IsBinary cs) :=
  inferInstanceAs (Decidable (∀ c ∈ cs, _))

/-- Value of a binary digit. -/
def bit (c : Char) : Nat :=
  if c = '1' then 1 else 0

/-- Value of a string of binary digits. -/
def binaryValue (cs : List Char) : Nat :=
  Nat.ofDigits 2 (cs.map bit).reverse

section Binary

variable {cs cs' : List Char} {width n : Nat}

/-- A bit is zero or one. -/
theorem bit_lt (c : Char) : bit c < 2 := by
  unfold bit
  split <;> decide

/-- So are the digits of a string. -/
private theorem mem_bits_lt (cs : List Char) : ∀ d ∈ (cs.map bit).reverse, d < 2 := by
  intro d hd
  rw [List.mem_reverse, List.mem_map] at hd
  rcases hd with ⟨c, _, rfl⟩
  exact bit_lt c

/-- The first character has the highest weight. -/
theorem binaryValue_cons (c : Char) (cs : List Char) :
    binaryValue (c :: cs) = bit c * 2 ^ cs.length + binaryValue cs := by
  rw [binaryValue, List.map_cons, List.reverse_cons, Nat.ofDigits_append, Nat.ofDigits_singleton,
    List.length_reverse, List.length_map, ← binaryValue, Nat.add_comm, Nat.mul_comm]

/-- The value is less than the power of the length. -/
theorem binaryValue_lt (cs : List Char) : binaryValue cs < 2 ^ cs.length := by
  have hlt := Nat.ofDigits_lt_base_pow_length (by decide) (mem_bits_lt cs)
  rwa [List.length_reverse, List.length_map] at hlt

/-- Binary strings of one length are determined by their values. -/
theorem eq_of_binaryValue_eq (h : IsBinary cs) (h' : IsBinary cs')
    (hlen : cs.length = cs'.length) (hval : binaryValue cs = binaryValue cs') : cs = cs' := by
  have hdigits := Nat.ofDigits_inj_of_len_eq (by decide) (by simpa using hlen) (mem_bits_lt cs)
    (mem_bits_lt cs') hval
  rw [List.reverse_inj] at hdigits
  have hback : ∀ l : List Char, IsBinary l → (l.map bit).map Nat.digitChar = l := by
    intro l hl
    rw [List.map_map]
    refine (List.map_congr_left fun c hc => ?_).trans (List.map_id l)
    rcases hl c hc with rfl | rfl <;> rfl
  rw [← hback cs h, ← hback cs' h', hdigits]

/-- Reading a string of binary digits accumulates its value. -/
theorem readDigits_binary (h : IsBinary cs) (acc : Nat) :
    readDigits 2 acc true cs = some (acc * 2 ^ cs.length + binaryValue cs) := by
  induction cs generalizing acc with
  | nil => simp [readDigits, binaryValue]
  | cons c cs ih =>
      have hdigit : digitOf 2 c = some (bit c) ∧ c ≠ '_' := by
        rcases h c List.mem_cons_self with rfl | rfl <;> exact ⟨rfl, by decide⟩
      rw [readDigits, if_neg hdigit.2, hdigit.1, Option.bind_some,
        ih fun c' hc' => h c' (List.mem_cons_of_mem c hc'), binaryValue_cons, List.length_cons,
        pow_succ]
      congr 1
      ring

/-- A string of binary digits reads as its value. -/
theorem int_binary (h : IsBinary cs) (hne : cs ≠ []) :
    int (String.ofList cs) 2 = some (binaryValue cs : Int) := by
  refine int_of_digits (by decide) ?_ ?_
  · intro c hc
    rcases h c hc with rfl | rfl
    · exact ⟨0, by decide, rfl⟩
    · exact ⟨1, by decide, rfl⟩
  · cases cs with
    | nil => exact absurd rfl hne
    | cons c cs =>
        -- The flag of the first digit does not matter.
        have hflag : readDigits 2 0 false (c :: cs) = readDigits 2 0 true (c :: cs) := by
          rcases h c List.mem_cons_self with rfl | rfl <;> rfl
        rw [hflag, readDigits_binary h, Nat.zero_mul, Nat.zero_add]

/-- Binary digits are zeros and ones. -/
theorem isBinary_toDigits (n : Nat) : IsBinary (Nat.toDigits 2 n) := by
  refine forall_mem_toDigits (P := fun c => c = '0' ∨ c = '1') (by decide) ?_
  intro d hd
  interval_cases d
  · exact Or.inl rfl
  · exact Or.inr rfl

/-- The digits of a number, padded with zeros, are binary. -/
theorem isBinary_leftpad (width n : Nat) :
    IsBinary ((Nat.toDigits 2 n).leftpad width '0') := by
  intro c hc
  rw [List.leftpad, List.mem_append] at hc
  rcases hc with hpad | hdigit
  · exact Or.inl (List.eq_of_mem_replicate hpad)
  · exact isBinary_toDigits n c hdigit

/-- Padding does not change the value. -/
theorem binaryValue_leftpad (width n : Nat) :
    binaryValue ((Nat.toDigits 2 n).leftpad width '0') = n := by
  have hdigits : binaryValue (Nat.toDigits 2 n) = n := by
    have hread := int_binary (isBinary_toDigits n) Nat.toDigits_ne_nil
    rw [int_toDigits (by decide) (by decide), Option.some_inj] at hread
    exact_mod_cast hread.symm
  rw [List.leftpad]
  generalize width - (Nat.toDigits 2 n).length = zeros
  induction zeros with
  | zero => exact hdigits
  | succ zeros ih => rw [List.replicate_succ, List.cons_append, binaryValue_cons, ih]; simp [bit]

/-- {lit}`format` pads with zeros up to the width. -/
theorem formatBinary_natCast (width n : Nat) :
    formatBinary width n = String.ofList ((Nat.toDigits 2 n).leftpad width '0') := by
  rw [formatBinary, if_neg (by omega), Int.natAbs_natCast]

/-- A value that fits has exactly the width. -/
theorem length_leftpad_toDigits (hpos : 0 < width) (h : n < 2 ^ width) :
    ((Nat.toDigits 2 n).leftpad width '0').length = width := by
  rw [List.length_leftpad, Nat.max_eq_left]
  exact (Nat.length_toDigits_le_iff (by decide) hpos).mpr h

/-- A padded binary string reads back. -/
theorem int_formatBinary (width n : Nat) : int (formatBinary width n) 2 = some (n : Int) := by
  have hne : (Nat.toDigits 2 n).leftpad width '0' ≠ [] := by
    rw [List.leftpad]
    exact List.append_ne_nil_of_right_ne_nil _ Nat.toDigits_ne_nil
  rw [formatBinary_natCast, int_binary (isBinary_leftpad width n) hne, binaryValue_leftpad]

/-- A binary string is the padded spelling of its value. -/
theorem formatBinary_binaryValue (h : IsBinary cs) (hne : cs ≠ []) :
    formatBinary cs.length (binaryValue cs) = String.ofList cs := by
  rw [formatBinary_natCast]
  congr 1
  exact eq_of_binaryValue_eq (isBinary_leftpad _ _) h
    (length_leftpad_toDigits (List.length_pos_iff.mpr hne) (binaryValue_lt cs))
    (binaryValue_leftpad _ _)

end Binary

end Python
end AcceleratorSoc
