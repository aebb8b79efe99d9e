import Mathlib.Data.BitVec
import AcceleratorSoc.Clocked.Run

/-!
# The multi-cycle adder

{lit}`adder` adds two words byte by byte in four stages.  All its registers are
assigned without blocking: every stage reads the registers as they were before the
edge.  Stage zero therefore adds the low bytes of the operands of the previous
pass, and stage three puts out the top byte of the previous pass.

The register {lit}`carry` is reset and never used again; it is left out.

Main results:

- Theorem {lit}`assemble_exact`: bytes added with their true carries make up the
  33-bit sum.
- Theorem {lit}`assemble_eq_add_iff`: when bytes from two passes do.
-/

namespace AcceleratorSoc
namespace Adder

open Clocked

/-! ## Byte sums -/

/-- Nine-bit sum of the bytes of two words from bit {lit}`lsb` on, and a carry. -/
def byteSum (lsb : Nat) (x y : BitVec 32) (carry : BitVec 9) : BitVec 9 :=
  (x.extractLsb' lsb 8).setWidth 9 + (y.extractLsb' lsb 8).setWidth 9 + carry

/-- Bit eight of a byte sum. -/
def carryOf (s : BitVec 9) : BitVec 9 :=
  (s.extractLsb' 8 1).setWidth 9

/-- The low bytes of four byte sums, put together. -/
def assemble (sum31_24 sum23_16 sum15_8 sum7_0 : BitVec 9) : BitVec 32 :=
  sum31_24.extractLsb' 0 8 ++ sum23_16.extractLsb' 0 8 ++ sum15_8.extractLsb' 0 8 ++
    sum7_0.extractLsb' 0 8

/-- The carry is the ninth bit of a byte sum. -/
theorem toNat_carryOf (s : BitVec 9) : (carryOf s).toNat = s.toNat / 256 := by
  have hs := s.isLt
  simp only [carryOf, BitVec.toNat_setWidth, BitVec.extractLsb'_toNat,
    Nat.shiftRight_eq_div_pow]
  omega

/-- A byte sum as a number. -/
theorem toNat_byteSum (lsb : Nat) (x y : BitVec 32) {carry : BitVec 9} (h : carry.toNat ≤ 1) :
    (byteSum lsb x y carry).toNat =
      x.toNat / 2 ^ lsb % 256 + y.toNat / 2 ^ lsb % 256 + carry.toNat := by
  simp only [byteSum, BitVec.toNat_add, BitVec.toNat_setWidth, BitVec.extractLsb'_toNat,
    Nat.shiftRight_eq_div_pow]
  omega

/-- A carry is at most one. -/
theorem toNat_carryOf_le (s : BitVec 9) : (carryOf s).toNat ≤ 1 := by
  have hs := s.isLt
  rw [toNat_carryOf]
  omega

/-- The sum of two bytes and the carry of the byte below. -/
theorem toNat_byteSum_carryOf (lsb : Nat) (x y : BitVec 32) (s : BitVec 9) :
    (byteSum lsb x y (carryOf s)).toNat =
      x.toNat / 2 ^ lsb % 256 + y.toNat / 2 ^ lsb % 256 + s.toNat / 256 := by
  rw [toNat_byteSum lsb x y (toNat_carryOf_le s), toNat_carryOf]

/-- A byte put below a word. -/
private theorem toNat_append_byte {w : Nat} (x : BitVec w) (s : BitVec 9) :
    (x ++ s.extractLsb' 0 8).toNat = x.toNat * 2 ^ 8 + s.toNat % 256 := by
  rw [BitVec.toNat_append, ← Nat.shiftLeft_add_eq_or_of_lt (BitVec.isLt _),
    Nat.shiftLeft_eq]
  simp

/-- The assembled sum as a number. -/
theorem toNat_assemble (sum31_24 sum23_16 sum15_8 sum7_0 : BitVec 9) :
    (assemble sum31_24 sum23_16 sum15_8 sum7_0).toNat =
      sum31_24.toNat % 256 * 2 ^ 24 + sum23_16.toNat % 256 * 2 ^ 16 +
        sum15_8.toNat % 256 * 2 ^ 8 + sum7_0.toNat % 256 := by
  have htop : (sum31_24.extractLsb' 0 8).toNat = sum31_24.toNat % 256 := by
    simp
  rw [assemble, toNat_append_byte, toNat_append_byte, toNat_append_byte, htop]
  omega

/-- The sums of the upper bytes of two words over a given sum of their low bytes. -/
def sum15_8 (x y : BitVec 32) (sum7_0 : BitVec 9) : BitVec 9 :=
  byteSum 8 x y (carryOf sum7_0)

/-- Third byte, on the carry of the second. -/
def sum23_16 (x y : BitVec 32) (sum7_0 : BitVec 9) : BitVec 9 :=
  byteSum 16 x y (carryOf (sum15_8 x y sum7_0))

/-- Top byte, on the carry of the third. -/
def sum31_24 (x y : BitVec 32) (sum7_0 : BitVec 9) : BitVec 9 :=
  byteSum 24 x y (carryOf (sum23_16 x y sum7_0))

/-- Bytes added with their true carries make up the 33-bit sum. -/
theorem assemble_exact (x y : BitVec 32) :
    x.toNat + y.toNat = (sum31_24 x y (byteSum 0 x y 0)).toNat * 2 ^ 24 +
      (sum23_16 x y (byteSum 0 x y 0)).toNat % 256 * 2 ^ 16 +
      (sum15_8 x y (byteSum 0 x y 0)).toNat % 256 * 2 ^ 8 +
      (byteSum 0 x y 0).toNat % 256 := by
  have hdigits : ∀ z : BitVec 32, z.toNat = z.toNat / 2 ^ 24 % 256 * 2 ^ 24 +
      z.toNat / 2 ^ 16 % 256 * 2 ^ 16 + z.toNat / 2 ^ 8 % 256 * 2 ^ 8 +
      z.toNat / 2 ^ 0 % 256 := by
    intro z
    have hz := z.isLt
    omega
  have h7 := toNat_byteSum 0 x y (by decide : (0 : BitVec 9).toNat ≤ 1)
  have h15 := toNat_byteSum_carryOf 8 x y (byteSum 0 x y 0)
  have h23 := toNat_byteSum_carryOf 16 x y (sum15_8 x y (byteSum 0 x y 0))
  have h31 := toNat_byteSum_carryOf 24 x y (sum23_16 x y (byteSum 0 x y 0))
  rw [hdigits x, hdigits y]
  rw [← sum15_8] at h15
  rw [← sum23_16] at h23
  rw [← sum31_24] at h31
  generalize x.toNat / 2 ^ 0 % 256 = x0, y.toNat / 2 ^ 0 % 256 = y0,
    x.toNat / 2 ^ 8 % 256 = x1, y.toNat / 2 ^ 8 % 256 = y1,
    x.toNat / 2 ^ 16 % 256 = x2, y.toNat / 2 ^ 16 % 256 = y2,
    x.toNat / 2 ^ 24 % 256 = x3, y.toNat / 2 ^ 24 % 256 = y3 at *
  generalize (byteSum 0 x y 0) = s7 at *
  have hc : (0 : BitVec 9).toNat = 0 := rfl
  rw [hc] at h7
  rw [h31]
  omega

section Digits

variable {p q r p' q' r' : Nat}

/-- A number has its bytes in one way only. -/
private theorem digits_unique {s s' : Nat} (hp : p < 256) (hp' : p' < 256) (hq : q < 256)
    (hq' : q' < 256) (hr : r < 256) (hr' : r' < 256)
    (h : s * 2 ^ 24 + r * 2 ^ 16 + q * 2 ^ 8 + p =
      s' * 2 ^ 24 + r' * 2 ^ 16 + q' * 2 ^ 8 + p') :
    p = p' ∧ q = q' ∧ r = r' ∧ s = s' := by
  omega

/-- Cutting to a word cuts the top byte. -/
theorem digits_mod (s : Nat) (hp : p < 256) (hq : q < 256) (hr : r < 256) :
    (s * 2 ^ 24 + r * 2 ^ 16 + q * 2 ^ 8 + p) % 2 ^ 32 =
      s % 256 * 2 ^ 24 + r * 2 ^ 16 + q * 2 ^ 8 + p := by
  omega

/-- The top byte is what lies above the lower three. -/
theorem digits_div (s : Nat) (hp : p < 256) (hq : q < 256) (hr : r < 256) :
    (s * 2 ^ 24 + r * 2 ^ 16 + q * 2 ^ 8 + p) / 2 ^ 24 = s := by
  omega

/-- A sum of two bytes and a carry determines the carry. -/
private theorem carry_unique {c d : Nat} (hc : c < 512) (hd : d < 512)
    (hlow : c % 256 = d % 256) (h : (p + q + c / 256) % 256 = (p + q + d / 256) % 256) :
    c = d := by
  omega

end Digits

/-- A top byte and a low byte sum from elsewhere make up the sum of two words
exactly when they are the top byte and the low byte sum of the two words. -/
theorem assemble_eq_add_iff (x y : BitVec 32) (top low : BitVec 9) :
    assemble top (sum23_16 x y low) (sum15_8 x y low) low = x + y ↔
      low = byteSum 0 x y 0 ∧ top.toNat % 256 = (x + y).toNat / 2 ^ 24 := by
  have hlt : ∀ n, n % 256 < 256 := fun n => Nat.mod_lt n (by decide)
  have hsum : (x + y).toNat = (sum31_24 x y (byteSum 0 x y 0)).toNat % 256 * 2 ^ 24 +
      (sum23_16 x y (byteSum 0 x y 0)).toNat % 256 * 2 ^ 16 +
      (sum15_8 x y (byteSum 0 x y 0)).toNat % 256 * 2 ^ 8 +
      (byteSum 0 x y 0).toNat % 256 := by
    rw [BitVec.toNat_add, assemble_exact]
    exact digits_mod _ (hlt _) (hlt _) (hlt _)
  have htop : (x + y).toNat / 2 ^ 24 = (sum31_24 x y (byteSum 0 x y 0)).toNat % 256 := by
    rw [hsum]
    exact digits_div _ (hlt _) (hlt _) (hlt _)
  rw [htop, ← BitVec.toNat_inj, toNat_assemble, hsum]
  constructor
  · intro h
    rcases digits_unique (hlt _) (hlt _) (hlt _) (hlt _) (hlt _) (hlt _) h with ⟨h7, h15, _, htop⟩
    refine ⟨?_, htop⟩
    -- Equal second bytes force equal carries out of the first ones.
    rw [sum15_8, sum15_8, toNat_byteSum_carryOf, toNat_byteSum_carryOf] at h15
    exact BitVec.eq_of_toNat_eq (carry_unique low.isLt (byteSum 0 x y 0).isLt h7 h15)
  · rintro ⟨hlow, htop⟩
    rw [hlow, htop]

/-! ## Registers -/

/-- Every register that is read or put out. -/
structure AdderState where
  operand1Reg : BitVec 32
  operand2Reg : BitVec 32
  sum7_0 : BitVec 9
  sum15_8 : BitVec 9
  sum23_16 : BitVec 9
  sum31_24 : BitVec 9
  out : BitVec 32
  stage : BitVec 2
  overflow : Bool

/-- The input ports sampled at a clock edge. -/
structure AdderInput where
  enable : Bool
  in1 : BitVec 32
  in2 : BitVec 32

namespace AdderState

/-- The registers while {lit}`rst_n` is low. -/
def reset : AdderState where
  operand1Reg := 0
  operand2Reg := 0
  sum7_0 := 0
  sum15_8 := 0
  sum23_16 := 0
  sum31_24 := 0
  out := 0
  stage := 0
  overflow := false

/-- The stage machine at an enabled edge. -/
def advance (s : AdderState) (i : AdderInput) : AdderState :=
  if s.stage = 0 then
    { s with
      operand1Reg := i.in1
      operand2Reg := i.in2
      sum7_0 := byteSum 0 s.operand1Reg s.operand2Reg 0
      stage := 1 }
  else if s.stage = 1 then
    { s with
      sum15_8 := byteSum 8 s.operand1Reg s.operand2Reg (carryOf s.sum7_0)
      stage := 2 }
  else if s.stage = 2 then
    { s with
      sum23_16 := byteSum 16 s.operand1Reg s.operand2Reg (carryOf s.sum15_8)
      stage := 3 }
  else if s.stage = 3 then
    { s with
      sum31_24 := byteSum 24 s.operand1Reg s.operand2Reg (carryOf s.sum23_16)
      out := assemble s.sum31_24 s.sum23_16 s.sum15_8 s.sum7_0
      stage := 0 }
  else s

/-- One rising clock edge. -/
def step (s : AdderState) (i : AdderInput) : AdderState :=
  if i.enable then { s.advance i with overflow := s.sum31_24.getLsbD 8 } else s

/-- Without {lit}`enable` nothing changes. -/
theorem step_of_disabled (s : AdderState) {i : AdderInput} (h : i.enable = false) :
    s.step i = s := by
  simp [step, h]

end AdderState

/-- {lit}`adder` out of reset, cycle by cycle. -/
def adderRun (inp : Nat → AdderInput) : Nat → AdderState :=
  run AdderState.step AdderState.reset inp

/-- One cycle of a run. -/
theorem adderRun_succ (inp : Nat → AdderInput) (n : Nat) :
    adderRun inp (n + 1) = (adderRun inp n).step (inp n) :=
  rfl

end Adder
end AcceleratorSoc
