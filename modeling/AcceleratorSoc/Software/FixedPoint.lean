import Mathlib.Data.Nat.Bitwise
import Mathlib.Data.Rat.Floor
import AcceleratorSoc.Python.Builtins
import AcceleratorSoc.Software.TestGelu

/-!
# The fixed-point codec

{lit}`float32_to_fixed16` and {lit}`fixed16_to_float32` of {lit}`test_gelu.py`, over
exact numbers.  Both use the 16-bit two's complement pattern of 256 times the number.
The encoder spells the pattern in hexadecimal without padding, the decoder takes
sixteen binary digits only.

Main results:

- Theorem {lit}`float32ToFixed16_eq` and {lit}`fixed16ToFloat32_eq`: both functions, from
  the pattern.
- Theorem {lit}`fixed16_codec`: the two are inverse to each other but for the spelling of
  the pattern.
-/

namespace AcceleratorSoc
namespace Software

open Python

/-- {lit}`int(text, 2)`. -/
def int2 (text : String) : Except PyError Int :=
  match int text 2 with
  | some value => .ok value
  | none => .error (.invalidLiteral text)

/-- {lit}`float32_to_fixed16`. -/
def float32ToFixed16 (num : ℚ) : Except PyError String := do
  let scaledNum := num * 256
  let fixedNum := roundHalfEven scaledNum
  if fixedNum ≥ 65536 ∨ fixedNum ≤ -65536 then
    throw (.valueError "The number after scaling is too large to fit in 16 bits.")
  if fixedNum < -32768 ∨ fixedNum > 32767 then
    throw (.valueError "The number is out of range for a 16-bit signed integer.")
  let binaryString := formatBinary 16 (Int.land fixedNum 0xFFFF)
  let value ← int2 binaryString
  return String.ofList ((hex value).toList.drop 2)

/-- {lit}`fixed16_to_float32`. -/
def fixed16ToFloat32 (fixed : String) : Except PyError ℚ := do
  if fixed.toList.length ≠ 16 ∨ ¬ IsBinary fixed.toList then
    throw (.valueError "Input must be a 16-bit binary string.")
  if fixed.toList.head? = some '1' then
    let value ← int2 fixed
    let fixedNum := -(Int.xor value 0xFFFF + 1)
    return (fixedNum : ℚ) / 256
  else
    let fixedNum ← int2 fixed
    return (fixedNum : ℚ) / 256

/-! ## Two's complement -/

/-- The 16-bit pattern of a number. -/
def pattern (v : Int) : Nat :=
  (v % 2 ^ 16).toNat

/-- The number a 16-bit pattern stands for. -/
def signed (n : Nat) : Int :=
  if n < 2 ^ 15 then n else n - 2 ^ 16

/-- A pattern has sixteen bits. -/
theorem pattern_lt (v : Int) : pattern v < 2 ^ 16 := by
  rw [pattern]
  omega

/-- A pattern is read back as the number that it encodes. -/
theorem signed_pattern {v : Int} (hlow : -2 ^ 15 ≤ v) (hhigh : v < 2 ^ 15) :
    signed (pattern v) = v := by
  rw [signed, pattern]
  split_ifs <;> omega

/-- The number that a pattern is read as is encoded by it. -/
theorem pattern_signed {n : Nat} (h : n < 2 ^ 16) : pattern (signed n) = n := by
  rw [signed, pattern]
  split_ifs <;> omega

/-- Patterns are read as numbers in range. -/
theorem signed_bounds {n : Nat} (h : n < 2 ^ 16) : -2 ^ 15 ≤ signed n ∧ signed n < 2 ^ 15 := by
  rw [signed]
  split_ifs <;> omega

/-- The bits of a negative number under a mask of ones. -/
private theorem ldiff_mask (w m : Nat) :
    Nat.ldiff (2 ^ w - 1) m = 2 ^ w - (m % 2 ^ w + 1) := by
  apply Nat.eq_of_testBit_eq
  intro i
  rw [Nat.testBit_ldiff, Nat.testBit_two_pow_sub_one,
    Nat.testBit_two_pow_sub_succ (Nat.mod_lt _ (Nat.two_pow_pos w)), Nat.testBit_mod_two_pow]
  cases decide (i < w) <;> simp

/-- The bits of a number under a mask of ones. -/
theorem land_mask (v : Int) : Int.land v 0xFFFF = (pattern v : Int) := by
  rw [pattern]
  cases v with
  | ofNat m =>
      have hbits : m &&& 0xFFFF = m % 2 ^ 16 := Nat.and_two_pow_sub_one_eq_mod m 16
      calc
        Int.land (m : Int) 0xFFFF = ((m &&& 0xFFFF : Nat) : Int) := rfl
        _ = _ := by
          rw [hbits, Int.ofNat_eq_natCast]
          omega
  | negSucc m =>
      have hbits : Nat.ldiff 0xFFFF m = 2 ^ 16 - (m % 2 ^ 16 + 1) := ldiff_mask 16 m
      calc
        Int.land (Int.negSucc m) 0xFFFF = ((Nat.ldiff 0xFFFF m : Nat) : Int) := rfl
        _ = _ := by
          rw [hbits, Int.negSucc_eq]
          omega

/-- Flipping all sixteen bits of a pattern. -/
theorem xor_mask {n : Nat} (h : n < 2 ^ 16) : Int.xor (n : Int) 0xFFFF = 2 ^ 16 - (n + 1) := by
  have hbits : n ^^^ 0xFFFF = 2 ^ 16 - (n + 1) := by
    apply Nat.eq_of_testBit_eq
    intro i
    have hmask : Nat.testBit 0xFFFF i = decide (i < 16) := Nat.testBit_two_pow_sub_one 16 i
    rw [Nat.testBit_xor, hmask, Nat.testBit_two_pow_sub_succ h]
    by_cases hi : i < 16
    · simp [hi]
    · have hzero : n.testBit i = false :=
        Nat.testBit_lt_two_pow (Nat.lt_of_lt_of_le h (Nat.pow_le_pow_right (by decide) (by omega)))
      simp [hi, hzero]
  calc
    Int.xor (n : Int) 0xFFFF = ((n ^^^ 0xFFFF : Nat) : Int) := rfl
    _ = _ := by
      rw [hbits]
      omega

/-! ## Both functions, from the pattern -/

/-- The unpadded hexadecimal spelling of a pattern. -/
def hexPattern (n : Nat) : String :=
  String.ofList (Nat.toDigits 16 n)

/-- The encoder raises on numbers outside the range. -/
theorem float32ToFixed16_eq_error {x : ℚ}
    (h : roundHalfEven (x * 256) < -2 ^ 15 ∨ 2 ^ 15 ≤ roundHalfEven (x * 256)) :
    ∃ e, float32ToFixed16 x = .error e := by
  by_cases hlarge : roundHalfEven (x * 256) ≥ 65536 ∨ roundHalfEven (x * 256) ≤ -65536
  · refine ⟨.valueError "The number after scaling is too large to fit in 16 bits.", ?_⟩
    simp only [float32ToFixed16, if_pos hlarge]
    rfl
  · have hrange : roundHalfEven (x * 256) < -32768 ∨ roundHalfEven (x * 256) > 32767 := by omega
    refine ⟨.valueError "The number is out of range for a 16-bit signed integer.", ?_⟩
    simp only [float32ToFixed16, if_neg hlarge, if_pos hrange]
    rfl

/-- The encoder spells the pattern of the rounded number. -/
theorem float32ToFixed16_eq {x : ℚ} (hlow : -2 ^ 15 ≤ roundHalfEven (x * 256))
    (hhigh : roundHalfEven (x * 256) < 2 ^ 15) :
    float32ToFixed16 x = .ok (hexPattern (pattern (roundHalfEven (x * 256)))) := by
  have hlarge : ¬ (roundHalfEven (x * 256) ≥ 65536 ∨ roundHalfEven (x * 256) ≤ -65536) := by
    omega
  have hrange : ¬ (roundHalfEven (x * 256) < -32768 ∨ roundHalfEven (x * 256) > 32767) := by
    omega
  have hread : int2 (formatBinary 16 (Int.land (roundHalfEven (x * 256)) 0xFFFF)) =
      .ok (pattern (roundHalfEven (x * 256)) : Int) := by
    rw [int2, land_mask, int_formatBinary]
  have hspell : String.ofList ((hex (pattern (roundHalfEven (x * 256)) : Int)).toList.drop 2) =
      hexPattern (pattern (roundHalfEven (x * 256))) := by
    rw [hex, if_neg (by omega), List.nil_append, String.toList_ofList, Int.natAbs_natCast]
    rfl
  simp only [float32ToFixed16, if_neg hlarge, if_neg hrange, hread]
  exact congrArg Except.ok hspell

/-- The decoder raises on anything but sixteen binary digits. -/
theorem fixed16ToFloat32_eq_error {s : String}
    (h : s.toList.length ≠ 16 ∨ ¬ IsBinary s.toList) :
    fixed16ToFloat32 s = .error (.valueError "Input must be a 16-bit binary string.") := by
  simp only [fixed16ToFloat32, if_pos h]
  rfl

/-- A pattern whose first digit is one is negative. -/
theorem head_eq_one_iff {cs : List Char} (hlen : cs.length = 16) :
    cs.head? = some '1' ↔ 2 ^ 15 ≤ binaryValue cs := by
  cases cs with
  | nil => simp at hlen
  | cons c cs =>
      have hrest := binaryValue_lt cs
      have hlen' : cs.length = 15 := by simpa using hlen
      rw [hlen'] at hrest
      rw [List.head?_cons, Option.some_inj, binaryValue_cons, hlen', bit]
      split_ifs with hc
      · exact ⟨fun _ => by omega, fun _ => hc⟩
      · exact ⟨fun h => absurd h hc, fun h => by omega⟩

/-- The decoder divides the number that the pattern stands for. -/
theorem fixed16ToFloat32_eq {s : String} (hlen : s.toList.length = 16)
    (hbinary : IsBinary s.toList) :
    fixed16ToFloat32 s = .ok ((signed (binaryValue s.toList) : ℚ) / 256) := by
  have hne : s.toList ≠ [] := by
    rw [← List.length_pos_iff, hlen]
    decide
  have hvalid : ¬ (s.toList.length ≠ 16 ∨ ¬ IsBinary s.toList) := by
    rw [not_or, not_not, not_not]
    exact ⟨hlen, hbinary⟩
  have hread : int2 s = .ok (binaryValue s.toList : Int) := by
    have hint := int_binary hbinary hne
    rw [String.ofList_toList] at hint
    rw [int2, hint]
  have hlt := binaryValue_lt s.toList
  rw [hlen] at hlt
  by_cases hhead : s.toList.head? = some '1'
  · have hneg : -(Int.xor (binaryValue s.toList : Int) 0xFFFF + 1) =
        signed (binaryValue s.toList) := by
      have hhalf := (head_eq_one_iff hlen).mp hhead
      rw [xor_mask hlt, signed, if_neg (by omega)]
      omega
    simp only [fixed16ToFloat32, if_neg hvalid, if_pos hhead, hread, ← hneg]
    rfl
  · have hpos : (binaryValue s.toList : Int) = signed (binaryValue s.toList) := by
      rw [head_eq_one_iff hlen] at hhead
      rw [signed, if_pos (by omega)]
    simp only [fixed16ToFloat32, if_neg hvalid, if_neg hhead, hread, ← hpos]
    rfl

/-! ## The codec -/

/-- A pattern in hexadecimal, spelled with sixteen binary digits:
{lit}`format(int(text, 16), '016b')`. -/
def spellBinary (text : String) : Option String :=
  (int text 16).map (formatBinary 16)

/-- The hexadecimal string, spelled in binary. -/
theorem spellBinary_hexPattern (n : Nat) :
    spellBinary (hexPattern n) = some (formatBinary 16 n) := by
  rw [spellBinary, hexPattern, int_toDigits (by decide) (by decide), Option.map_some]

/-- The decoder takes the binary spelling of every pattern. -/
theorem fixed16ToFloat32_formatBinary {n : Nat} (h : n < 2 ^ 16) :
    fixed16ToFloat32 (formatBinary 16 n) = .ok ((signed n : ℚ) / 256) := by
  have hlist : (formatBinary 16 n).toList = (Nat.toDigits 2 n).leftpad 16 '0' := by
    rw [formatBinary_natCast, String.toList_ofList]
  have hdecode := @fixed16ToFloat32_eq (formatBinary 16 n)
    (by rw [hlist]; exact length_leftpad_toDigits (by decide) h)
    (by rw [hlist]; exact isBinary_leftpad 16 n)
  rw [hdecode, hlist, binaryValue_leftpad]

/-- The decoder takes no spelling of at most four digits. -/
theorem fixed16ToFloat32_hexPattern {n : Nat} (h : n < 2 ^ 16) :
    fixed16ToFloat32 (hexPattern n) =
      .error (.valueError "Input must be a 16-bit binary string.") := by
  apply fixed16ToFloat32_eq_error
  have hlen := (@Nat.length_toDigits_le_iff 16 n 4 (by decide) (by decide)).mpr h
  rw [hexPattern, String.toList_ofList]
  left
  omega

/-- Decoding moves a number by what rounding moved it. -/
theorem abs_decoded_sub_le (x : ℚ) : |(roundHalfEven (x * 256) : ℚ) / 256 - x| ≤ 1 / 512 := by
  have hround := abs_roundHalfEven_sub_le (x * 256)
  have hscale : (roundHalfEven (x * 256) : ℚ) / 256 - x =
      ((roundHalfEven (x * 256) : ℚ) - x * 256) / 256 := by
    ring
  rw [hscale, abs_div, abs_of_pos (by norm_num : (0 : ℚ) < 256)]
  linarith

/-- The encoder raises exactly outside the range of a signed 16-bit number. -/
theorem float32ToFixed16_raises_iff (x : ℚ) :
    (∃ e, float32ToFixed16 x = .error e) ↔
      roundHalfEven (x * 256) < -2 ^ 15 ∨ 2 ^ 15 ≤ roundHalfEven (x * 256) := by
  refine ⟨?_, float32ToFixed16_eq_error⟩
  rintro ⟨e, he⟩
  by_contra hrange
  rw [float32ToFixed16_eq (by omega) (by omega)] at he
  exact absurd he (by simp)

/-- What the encoder returns is the pattern of the rounded number in hexadecimal; the
decoder rejects it, and decodes it, respelled, to a number half a step away at most. -/
theorem decode_of_encoded {x : ℚ} {s : String} (hs : float32ToFixed16 x = .ok s) :
    s = hexPattern (pattern (roundHalfEven (x * 256))) ∧
      (∃ e, fixed16ToFloat32 s = .error e) ∧
        ∃ t y, spellBinary s = some t ∧ fixed16ToFloat32 t = .ok y ∧ |y - x| ≤ 1 / 512 ∧
          ∀ n : Int, 256 * x = n → y = x := by
  have hrange : ¬ (roundHalfEven (x * 256) < -2 ^ 15 ∨ 2 ^ 15 ≤ roundHalfEven (x * 256)) := by
    rw [← float32ToFixed16_raises_iff, hs]
    simp
  rw [not_or, not_lt, not_le] at hrange
  rw [float32ToFixed16_eq hrange.1 hrange.2, Except.ok.injEq] at hs
  have hlt := pattern_lt (roundHalfEven (x * 256))
  have hdecode := fixed16ToFloat32_formatBinary hlt
  rw [signed_pattern hrange.1 hrange.2] at hdecode
  rw [← hs]
  refine ⟨rfl, ⟨_, fixed16ToFloat32_hexPattern hlt⟩, _, _, spellBinary_hexPattern _, hdecode,
    abs_decoded_sub_le x, ?_⟩
  intro n hn
  rw [mul_comm x 256, hn, roundHalfEven_intCast, ← hn]
  ring

/-- A pattern that the decoder accepts is encoded as itself, respelled. -/
theorem encode_of_decoded {s : String} {y : ℚ} (hy : fixed16ToFloat32 s = .ok y) :
    ∃ t, float32ToFixed16 y = .ok t ∧ spellBinary t = some s := by
  have hvalid : ¬ (s.toList.length ≠ 16 ∨ ¬ IsBinary s.toList) := by
    intro hinvalid
    rw [fixed16ToFloat32_eq_error hinvalid] at hy
    exact absurd hy (by simp)
  rw [not_or, not_not, not_not] at hvalid
  rcases hvalid with ⟨hlen, hbinary⟩
  rw [fixed16ToFloat32_eq hlen hbinary, Except.ok.injEq] at hy
  have hlt := binaryValue_lt s.toList
  rw [hlen] at hlt
  have hround : roundHalfEven (y * 256) = signed (binaryValue s.toList) := by
    rw [← hy, div_mul_cancel₀ _ (by norm_num), roundHalfEven_intCast]
  have hbounds := signed_bounds hlt
  have hencode := @float32ToFixed16_eq y (hround ▸ hbounds.1) (hround ▸ hbounds.2)
  rw [hround, pattern_signed hlt] at hencode
  have hne : s.toList ≠ [] := by
    rw [← List.length_pos_iff, hlen]
    decide
  have hback := formatBinary_binaryValue hbinary hne
  rw [hlen, String.ofList_toList] at hback
  exact ⟨_, hencode, by rw [spellBinary_hexPattern, hback]⟩

/-- The codec.  The encoder raises exactly outside the range of a signed 16-bit number.
Otherwise it returns the two's complement pattern in hexadecimal without padding, which
the decoder rejects as it stands and decodes in its binary spelling to within half a step;
and the binary spelling of what the encoder makes of a decoded pattern is that pattern
again. -/
theorem fixed16_codec :
    (∀ x : ℚ, (∃ e, float32ToFixed16 x = .error e) ↔
        roundHalfEven (256 * x) < -32768 ∨ 32767 < roundHalfEven (256 * x)) ∧
      (∀ x s, float32ToFixed16 x = .ok s →
        s = hexPattern (pattern (roundHalfEven (256 * x))) ∧
          (∃ e, fixed16ToFloat32 s = .error e) ∧
            ∃ t y, spellBinary s = some t ∧ fixed16ToFloat32 t = .ok y ∧ |y - x| ≤ 1 / 512 ∧
              ∀ n : Int, 256 * x = n → y = x) ∧
      ∀ s y, fixed16ToFloat32 s = .ok y →
        ∃ t, float32ToFixed16 y = .ok t ∧ spellBinary t = some s := by
  refine ⟨?_, ?_, fun s y => encode_of_decoded⟩
  · intro x
    rw [float32ToFixed16_raises_iff, mul_comm 256 x]
    omega
  · intro x s hs
    have hdecoded := decode_of_encoded hs
    rwa [mul_comm x 256] at hdecoded

/-- One is encoded as a hexadecimal number, which the decoder rejects, and the pattern
of one does not come back as itself. -/
theorem codec_of_one :
    float32ToFixed16 1 = .ok "100" ∧ (∃ e, fixed16ToFloat32 "100" = .error e) ∧
      fixed16ToFloat32 "0000000100000000" = .ok 1 ∧
        float32ToFixed16 1 ≠ .ok "0000000100000000" := by
  have hround : roundHalfEven ((1 : ℚ) * 256) = 256 := by
    rw [one_mul]
    exact roundHalfEven_intCast 256
  have hencode : float32ToFixed16 1 = .ok "100" := by
    rw [float32ToFixed16_eq (by rw [hround]; decide) (by rw [hround]; decide), hround]
    rfl
  refine ⟨hencode, ⟨_, fixed16ToFloat32_eq_error (Or.inl (by decide))⟩, ?_, ?_⟩
  · have hspell : formatBinary 16 (256 : Nat) = "0000000100000000" := rfl
    have hvalue : signed 256 = 256 := rfl
    rw [← hspell, fixed16ToFloat32_formatBinary (by decide), hvalue]
    norm_num
  · rw [hencode]
    decide

end Software
end AcceleratorSoc
