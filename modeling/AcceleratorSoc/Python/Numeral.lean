import Mathlib.Tactic.IntervalCases

/-!
# Numerals of the Python interpreter

The built-in functions {lit}`int(text, base)` and {lit}`hex(value)`, on ASCII text.
A numeral may carry blanks around it, a sign, a base prefix and single underscores
between its digits.

Main results:

- Theorem {lit}`int_of_digits`: a list of digits has its value.
- Theorem {lit}`int_toDigits`: digits without a prefix read back.
- Theorem {lit}`int_hex`: what {lit}`hex` writes reads back.
-/

namespace AcceleratorSoc
namespace Python

/-! ## Reading -/

/-- Value of a digit character; letters of either case count from ten. -/
def digitValue (c : Char) : Option Nat :=
  if '0' ≤ c ∧ c ≤ '9' then some (c.toNat - 48)
  else if 'a' ≤ c ∧ c ≤ 'z' then some (c.toNat - 87)
  else if 'A' ≤ c ∧ c ≤ 'Z' then some (c.toNat - 55)
  else none

/-- Value of a character that is a digit of the base. -/
def digitOf (base : Nat) (c : Char) : Option Nat :=
  (digitValue c).filter (· < base)

/-- Digits, the most significant one first, with single underscores between them.
The flag tells whether the last character was a digit. -/
def readDigits (base : Nat) : Nat → Bool → List Char → Option Nat
  | acc, afterDigit, [] => if afterDigit then some acc else none
  | acc, afterDigit, c :: cs =>
      if c = '_' then
        if afterDigit then readDigits base acc false cs else none
      else
        (digitOf base c).bind fun d => readDigits base (base * acc + d) true cs

/-- The letter of a base prefix. -/
def baseLetter (base : Nat) : Option Char :=
  if base = 2 then some 'b'
  else if base = 8 then some 'o'
  else if base = 16 then some 'x'
  else none

/-- Drops one underscore, which may stand between a base prefix and the digits. -/
def dropUnderscore : List Char → List Char
  | [] => []
  | c :: cs => if c = '_' then cs else c :: cs

/-- Drops a base prefix. -/
def dropPrefix (base : Nat) : List Char → List Char
  | [] => []
  | [c] => [c]
  | z :: c :: cs =>
      if z = '0' ∧ baseLetter base = some c.toLower then dropUnderscore cs
      else z :: c :: cs

/-- An unsigned numeral. -/
def readUnsigned (base : Nat) (cs : List Char) : Option Nat :=
  readDigits base 0 false (dropPrefix base cs)

/-- The blanks that may stand around a numeral. -/
def isSpace (c : Char) : Bool :=
  c == ' ' || (9 ≤ c.toNat && c.toNat ≤ 13)

/-- Drops blanks on both sides. -/
def strip (cs : List Char) : List Char :=
  ((cs.dropWhile isSpace).reverse.dropWhile isSpace).reverse

/-- {lit}`int(text, base)`; {lit}`none` is the {lit}`ValueError` of the
interpreter. -/
def int (text : String) (base : Nat) : Option Int :=
  match strip text.toList with
  | [] => none
  | c :: cs =>
      if c = '-' then (readUnsigned base cs).map fun n : Nat => -(n : Int)
      else if c = '+' then (readUnsigned base cs).map fun n : Nat => (n : Int)
      else (readUnsigned base (c :: cs)).map fun n : Nat => (n : Int)

/-! ## Writing -/

/-- {lit}`hex(value)`. -/
def hex (value : Int) : String :=
  String.ofList ((if value < 0 then ['-'] else []) ++
    '0' :: 'x' :: Nat.toDigits 16 value.natAbs)

/-! ## Digits read back -/

variable {base n d : Nat}

/-- A digit is read as it is written. -/
theorem digitOf_digitChar (hbase : base ≤ 16) (hd : d < base) :
    digitOf base d.digitChar = some d := by
  have hvalue : digitValue d.digitChar = some d := by
    have hlt : d < 16 := by omega
    interval_cases d <;> rfl
  rw [digitOf, hvalue, Option.filter_some, decide_eq_true hd, if_pos rfl]

/-- No digit is an underscore, a blank or a sign. -/
private theorem digitChar_plain (hd : d < 16) :
    d.digitChar ≠ '_' ∧ isSpace d.digitChar = false ∧ d.digitChar ≠ '-' ∧
      d.digitChar ≠ '+' := by
  interval_cases d <;> decide

/-- A property of the digit characters holds along a numeral. -/
theorem forall_mem_toDigits {P : Char → Prop} (hbase : 1 < base)
    (h : ∀ d < base, P d.digitChar) : ∀ c ∈ Nat.toDigits base n, P c := by
  induction n using Nat.base_induction base hbase with
  | single m hm =>
      intro c hc
      rw [Nat.toDigits_of_lt_base hm, List.mem_singleton] at hc
      exact hc ▸ h m hm
  | digit m k hk hm ih =>
      intro c hc
      rw [← Nat.toDigits_append_toDigits hbase hm hk, Nat.toDigits_of_lt_base hk,
        List.mem_append, List.mem_singleton] at hc
      rcases hc with hc | rfl
      · exact ih c hc
      · exact h k hk

/-- It is read in front of others as well. -/
private theorem readDigits_digitChar (hbase : base ≤ 16) (hd : d < base) (acc : Nat)
    (afterDigit : Bool) (cs : List Char) :
    readDigits base acc afterDigit (d.digitChar :: cs) =
      readDigits base (base * acc + d) true cs := by
  rw [readDigits, if_neg (digitChar_plain (by omega)).1, digitOf_digitChar hbase hd,
    Option.bind_some]

/-- Reading a numeral from its start accumulates its value. -/
theorem readDigits_toDigits (hlow : 1 < base) (hbase : base ≤ 16) (afterDigit : Bool)
    (cs : List Char) :
    readDigits base 0 afterDigit (Nat.toDigits base n ++ cs) =
      readDigits base n true cs := by
  induction n using Nat.base_induction base hlow generalizing cs with
  | single m hm =>
      rw [Nat.toDigits_of_lt_base hm, List.singleton_append,
        readDigits_digitChar hbase hm, Nat.mul_zero, Nat.zero_add]
  | digit m k hk hm ih =>
      rw [← Nat.toDigits_append_toDigits hlow hm hk, Nat.toDigits_of_lt_base hk,
        List.append_assoc, ih, List.singleton_append, readDigits_digitChar hbase hk]

/-- No prefix letter is a digit of its base. -/
private theorem toLower_digitChar_ne (hd : d < base) :
    baseLetter base ≠ some d.digitChar.toLower := by
  unfold baseLetter
  split_ifs with hbinary hoctal hhex
  · subst hbinary
    interval_cases d <;> decide
  · subst hoctal
    interval_cases d <;> decide
  · subst hhex
    interval_cases d <;> decide
  · simp

/-- A bare numeral carries no prefix. -/
private theorem dropPrefix_of_digits {cs : List Char}
    (h : ∀ c ∈ cs, baseLetter base ≠ some c.toLower) : dropPrefix base cs = cs := by
  match cs with
  | [] => rfl
  | [_] => rfl
  | z :: c :: rest =>
      rw [dropPrefix, if_neg]
      rintro ⟨_, hletter⟩
      exact h c (by simp) hletter

/-- Without spaces there is nothing to strip. -/
private theorem strip_of_forall {cs : List Char} (h : ∀ c ∈ cs, isSpace c = false) :
    strip cs = cs := by
  have hdrop : ∀ l : List Char, (∀ c ∈ l, isSpace c = false) → l.dropWhile isSpace = l := by
    intro l hl
    cases l with
    | nil => rfl
    | cons c l => rw [List.dropWhile_cons_of_neg (by simp [hl c])]
  rw [strip, hdrop cs h, hdrop cs.reverse fun c hc => h c (List.mem_reverse.mp hc),
    List.reverse_reverse]

/-- A list of digits has the value that {lit}`readDigits` finds. -/
theorem int_of_digits {cs : List Char} (hbase : base ≤ 16)
    (h : ∀ c ∈ cs, ∃ d < base, c = d.digitChar) (hread : readDigits base 0 false cs = some n) :
    int (String.ofList cs) base = some (n : Int) := by
  have hplain : ∀ c ∈ cs, isSpace c = false ∧ c ≠ '-' ∧ c ≠ '+' ∧
      baseLetter base ≠ some c.toLower := by
    intro c hc
    rcases h c hc with ⟨d, hd, rfl⟩
    exact ⟨(digitChar_plain (by omega)).2.1, (digitChar_plain (by omega)).2.2.1,
      (digitChar_plain (by omega)).2.2.2, toLower_digitChar_ne hd⟩
  have hunsigned : readUnsigned base cs = some n := by
    rw [readUnsigned, dropPrefix_of_digits fun c hc => (hplain c hc).2.2.2, hread]
  rw [int, String.toList_ofList, strip_of_forall fun c hc => (hplain c hc).1]
  cases cs with
  | nil => exact absurd hread (by simp [readDigits])
  | cons c cs =>
      have hc := hplain c List.mem_cons_self
      simp only [hc.2.1, hc.2.2.1, if_false, hunsigned, Option.map_some]

/-- A bare numeral, in any base up to sixteen, reads back. -/
theorem int_toDigits (hlow : 1 < base) (hbase : base ≤ 16) :
    int (String.ofList (Nat.toDigits base n)) base = some (n : Int) := by
  have hread := readDigits_toDigits (n := n) hlow hbase false []
  rw [List.append_nil, readDigits, if_pos rfl] at hread
  exact int_of_digits hbase (forall_mem_toDigits hlow fun d hd => ⟨d, hd, rfl⟩) hread

/-- A prefixed numeral is read back. -/
private theorem readUnsigned_prefixed :
    readUnsigned 16 ('0' :: 'x' :: Nat.toDigits 16 n) = some n := by
  have hread := @readDigits_toDigits 16 n (by decide) (by decide) false []
  rw [List.append_nil] at hread
  have hdrop : dropPrefix 16 ('0' :: 'x' :: Nat.toDigits 16 n) = Nat.toDigits 16 n := by
    rw [dropPrefix, if_pos (by decide)]
    cases hdigits : Nat.toDigits 16 n with
    | nil => rfl
    | cons c cs =>
        have hc := forall_mem_toDigits (n := n) (P := fun c => c ≠ '_') (by decide)
          (fun d hd => (digitChar_plain hd).1) c (by rw [hdigits]; exact List.mem_cons_self)
        rw [dropUnderscore, if_neg hc]
  rw [readUnsigned, hdrop, hread, readDigits, if_pos rfl]

/-- What {lit}`hex` writes reads back. -/
theorem int_hex (value : Int) : int (hex value) 16 = some value := by
  have hplain : ∀ c ∈ '0' :: 'x' :: Nat.toDigits 16 value.natAbs, isSpace c = false := by
    intro c hc
    rcases List.mem_cons.mp hc with rfl | hc
    · rfl
    · rcases List.mem_cons.mp hc with rfl | hc
      · rfl
      · exact forall_mem_toDigits (P := fun c => isSpace c = false) (by decide)
          (fun d hd => (digitChar_plain hd).2.1) c hc
  rw [int, hex, String.toList_ofList]
  by_cases hneg : value < 0
  · have hminus : ∀ c ∈ '-' :: '0' :: 'x' :: Nat.toDigits 16 value.natAbs,
        isSpace c = false := by
      intro c hc
      rcases List.mem_cons.mp hc with rfl | hc
      · rfl
      · exact hplain c hc
    rw [if_pos hneg, List.singleton_append, strip_of_forall hminus]
    simp only [if_true, readUnsigned_prefixed, Option.map_some, Option.some.injEq]
    omega
  · rw [if_neg hneg, List.nil_append, strip_of_forall hplain]
    simp only [show '0' ≠ '-' by decide, show '0' ≠ '+' by decide, if_false,
      readUnsigned_prefixed, Option.map_some, Option.some.injEq]
    omega

end Python
end AcceleratorSoc
