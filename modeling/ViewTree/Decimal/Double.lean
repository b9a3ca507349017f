/-!
# Finite binary fractions

A double is kept as its sixty-four bits. Only finite ones occur: reading a decimal that is too
large gives none.
-/

namespace ViewTree

/-- A finite double, by its bits. -/
structure Double where
  bits : UInt64
deriving DecidableEq, Inhabited

namespace Double

/-- The weight of the sign bit. -/
def signBit : Nat := 0x8000000000000000

/-- The weight of the lowest exponent bit, which is also that of the leading bit that the fraction
leaves out. -/
def leadingBit : Nat := 0x10000000000000

/-- The bits of a machine number. -/
def ofFloat (f : Float) : Double :=
  ⟨f.toBits⟩

/-- The machine number. -/
def toFloat (d : Double) : Float :=
  Float.ofBits d.bits

/-- The sign bit is set. -/
def negative (d : Double) : Bool :=
  d.bits.toNat / signBit == 1

/-- The eleven bits of the exponent. -/
def exponentField (d : Double) : Nat :=
  d.bits.toNat / leadingBit % 2048

/-- The fifty-two bits of the fraction. -/
def fractionField (d : Double) : Nat :=
  d.bits.toNat % leadingBit

/-- The magnitude is `mantissa · 2 ^ (scale - 1074)`. -/
def mantissa (d : Double) : Nat :=
  if d.exponentField = 0 then d.fractionField else leadingBit + d.fractionField

/-- The magnitude is `mantissa · 2 ^ (scale - 1074)`. -/
def scale (d : Double) : Nat :=
  d.exponentField - 1

/-- Either of the two zeros. -/
def isZero (d : Double) : Bool :=
  d.mantissa == 0

/-- Numeric equality: the two zeros are equal, other doubles only to themselves. -/
def sameNumber (a b : Double) : Bool :=
  a.bits == b.bits || (a.isZero && b.isZero)

/-- The exponent of an infinity is all ones. -/
def isFinite (d : Double) : Bool :=
  d.exponentField != 2047

/-- The double nearest to `digits · 10 ^ (-places)`, with a sign; none when it is out of range. -/
def ofDecimal? (negative : Bool) (digits places : Nat) : Option Double :=
  let d := ofFloat (Float.ofScientific digits true places)
  if d.isFinite then some (if negative then ⟨d.bits ||| 0x8000000000000000⟩ else d) else none

end Double

end ViewTree
