import Mathlib.Data.BitVec

/-!
# The GELU stage

Combinational activation stage of {lit}`cnn_core`.  A 32-bit accumulator is read
as an unsigned Q16.16 number; from one eighth up to two and one eighth the stage
subtracts one of sixteen table entries, selected by the integer part and the top
three fraction bits, and everywhere else it passes the accumulator through.

The source writes the block sixteen times, once for each accumulator, with the
same text up to the index; {lit}`gelu` is that text.

Main results:

- Definition {lit}`geluArm`: one arm of the case statement.
- Definition {lit}`gelu`: the stage as a function of one accumulator.
-/

namespace AcceleratorSoc
namespace CnnCore

/-- The 32-bit words of the bus, the buffers and the accumulators. -/
abbrev Word :=
  BitVec 32

/-- Subtracted from one eighth on. -/
def delta01 : BitVec 16 := 0x0e00

/-- Subtracted from two eighths on. -/
def delta02 : BitVec 16 := 0x1a00

/-- Subtracted from three eighths on. -/
def delta03 : BitVec 16 := 0x2200

/-- Subtracted from four eighths on. -/
def delta04 : BitVec 16 := 0x2700

/-- Subtracted from five eighths on. -/
def delta05 : BitVec 16 := 0x2b00

/-- Subtracted from six eighths on. -/
def delta06 : BitVec 16 := 0x2c00

/-- Subtracted from seven eighths on. -/
def delta07 : BitVec 16 := 0x2b00

/-- Subtracted from one on. -/
def delta10 : BitVec 16 := 0x2900

/-- Subtracted from one and one eighth on. -/
def delta11 : BitVec 16 := 0x2600

/-- Subtracted from one and two eighths on. -/
def delta12 : BitVec 16 := 0x2200

/-- Subtracted from one and three eighths on. -/
def delta13 : BitVec 16 := 0x1e00

/-- Subtracted from one and four eighths on. -/
def delta14 : BitVec 16 := 0x1a00

/-- Subtracted from one and five eighths on. -/
def delta15 : BitVec 16 := 0x1600

/-- Subtracted from one and six eighths on. -/
def delta16 : BitVec 16 := 0x1200

/-- Subtracted from one and seven eighths on. -/
def delta17 : BitVec 16 := 0x0f00

/-- Subtracted from two on, up to two and one eighth. -/
def delta20 : BitVec 16 := 0x0c00

/-- {lit}`result[31:16]`, the integer part. -/
def integerPart (result : Word) : BitVec 16 :=
  result.extractLsb' 16 16

/-- {lit}`result[15:13]`, the eighth of a unit the fraction lies in. -/
def fractionEighth (result : Word) : BitVec 3 :=
  result.extractLsb' 13 3

/-- An arm of the case statement: one delta inside each of two units. -/
def geluArm (result : Word) (unit₀ : BitVec 16) (delta₀ : BitVec 16)
    (unit₁ : BitVec 16) (delta₁ : BitVec 16) : Word :=
  if integerPart result = unit₀ then result - delta₀.setWidth 32
  else if integerPart result = unit₁ then result - delta₁.setWidth 32
  else result

/-- The case block of one {lit}`gelu_rc` wire. -/
def gelu (result : Word) : Word :=
  if fractionEighth result = 0b000 then geluArm result 0x01 delta10 0x02 delta20
  else if fractionEighth result = 0b001 then geluArm result 0x00 delta01 0x01 delta11
  else if fractionEighth result = 0b010 then geluArm result 0x00 delta02 0x01 delta12
  else if fractionEighth result = 0b011 then geluArm result 0x00 delta03 0x01 delta13
  else if fractionEighth result = 0b100 then geluArm result 0x00 delta04 0x01 delta14
  else if fractionEighth result = 0b101 then geluArm result 0x00 delta05 0x01 delta15
  else if fractionEighth result = 0b110 then geluArm result 0x00 delta06 0x01 delta16
  else if fractionEighth result = 0b111 then geluArm result 0x00 delta07 0x01 delta17
  else result

end CnnCore
end AcceleratorSoc
