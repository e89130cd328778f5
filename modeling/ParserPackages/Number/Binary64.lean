/-! # Binary floating point in 64 bits

A number is its bit pattern. Magnitudes are exact ratios of naturals, and every operation rounds
its exact result once, to the nearest number and to the even one of two. Powers are written with
`Nat.pow`, so that what they mean does not depend on the instances at hand. -/

namespace ParserPackages

/-- The bits of a double: sign, eleven bits of exponent, fifty-two of fraction. -/
structure Binary64 where
  bits : UInt64
  deriving DecidableEq, Repr

/-- An exact non-negative ratio; the denominator is positive in every use. -/
structure Ratio where
  num : Nat
  den : Nat
  deriving DecidableEq, Repr

namespace Ratio

/-- `mantissa · 2 ^ exponent`. -/
def ofBinary (mantissa : Nat) (exponent : Int) : Ratio :=
  match exponent with
  | .ofNat e => ⟨mantissa * Nat.pow 2 e, 1⟩
  | .negSucc e => ⟨mantissa, Nat.pow 2 (e + 1)⟩

/-- `mantissa · 10 ^ exponent`. -/
def ofDecimal (mantissa : Nat) (exponent : Int) : Ratio :=
  match exponent with
  | .ofNat e => ⟨mantissa * Nat.pow 10 e, 1⟩
  | .negSucc e => ⟨mantissa, Nat.pow 10 (e + 1)⟩

def mul (a b : Ratio) : Ratio := ⟨a.num * b.num, a.den * b.den⟩

def div (a b : Ratio) : Ratio := ⟨a.num * b.den, a.den * b.num⟩

/-- The quotient of two naturals, rounded to the nearest and to the even one of two. -/
def roundQuotient (num den : Nat) : Nat :=
  let q := num / den
  let r := num % den
  if den < 2 * r || (2 * r == den && q % 2 == 1) then q + 1 else q

/-- The bits of the nearest magnitude. Past the largest one they are those of infinity. -/
def nearestBits (a : Ratio) : Nat :=
  if a.num = 0 then 0
  else
    -- the ratio lies in [2 ^ (e + 52), 2 ^ (e + 54)) unless e is held at the least exponent
    let e := max (-1074 : Int) ((a.num.log2 : Int) - a.den.log2 - 53)
    let scaled := a.div (ofBinary 1 e)
    let e' := if Nat.pow 2 53 ≤ scaled.num / scaled.den then e + 1 else e
    let fitted := a.div (ofBinary 1 e')
    min 0x7FF0000000000000 ((e' + 1074).toNat * Nat.pow 2 52 + roundQuotient fitted.num fitted.den)

end Ratio

namespace Binary64

def isNegative (x : Binary64) : Bool := x.bits.toNat / Nat.pow 2 63 == 1

def exponentBits (x : Binary64) : Nat := x.bits.toNat / Nat.pow 2 52 % Nat.pow 2 11

def fractionBits (x : Binary64) : Nat := x.bits.toNat % Nat.pow 2 52

def isFinite (x : Binary64) : Bool := x.exponentBits != 2047

/-- The integer `m` of the magnitude `m · 2 ^ q`. -/
def mantissa (x : Binary64) : Nat :=
  if x.exponentBits = 0 then x.fractionBits else Nat.pow 2 52 + x.fractionBits

/-- The integer `q` of the magnitude `m · 2 ^ q`. -/
def exponent (x : Binary64) : Int :=
  if x.exponentBits = 0 then -1074 else x.exponentBits - 1075

def magnitude (x : Binary64) : Ratio := .ofBinary x.mantissa x.exponent

def ofRatio (negative : Bool) (a : Ratio) : Binary64 :=
  ⟨UInt64.ofNat ((if negative then Nat.pow 2 63 else 0) + a.nearestBits)⟩

/-- The number nearest to `± mantissa · 10 ^ exponent`. -/
def ofDecimal (negative : Bool) (mantissa : Nat) (exponent : Int) : Binary64 :=
  ofRatio negative (.ofDecimal mantissa exponent)

def mulMagnitude (x y : Binary64) : Binary64 := ofRatio false (x.magnitude.mul y.magnitude)

def divMagnitude (x y : Binary64) : Binary64 := ofRatio false (x.magnitude.div y.magnitude)

def withSign (negative : Bool) (x : Binary64) : Binary64 :=
  ⟨UInt64.ofNat ((if negative then Nat.pow 2 63 else 0) + x.bits.toNat % Nat.pow 2 63)⟩

def isZero (x : Binary64) : Bool := x.bits.toNat % Nat.pow 2 63 == 0

end Binary64
end ParserPackages
