import ParserPackages.Number.Binary64

/-! # Decimal numerals

The parts of a written number, and the two ways of turning them into a double: `nearest` rounds
the exact value once, `scaled` keeps the leading digits that fit in 64 bits and scales them by
powers of ten in double arithmetic. -/

namespace ParserPackages

def digitValue (c : Char) : Nat := c.toNat - 48

def digitsValue (cs : List Char) : Nat := cs.foldl (fun n c => n * 10 + digitValue c) 0

/-- A written number: sign, digits before and after the point, and the exponent. -/
structure Numeral where
  negative : Bool
  whole : List Char
  fraction : List Char
  exponent : Int
  deriving DecidableEq, Repr

namespace Numeral

/-- The longest part whose value stays below `2 ^ 64`, starting from `n`, and what is left. -/
def fittingDigits (n : Nat) : List Char → Nat × List Char
  | [] => (n, [])
  | c :: cs =>
    let next := n * 10 + digitValue c
    if next < Nat.pow 2 64 then fittingDigits next cs else (n, c :: cs)

/-- Multiplies by `10 ^ exponent` with one rounding, or with a second division by `10 ^ 308` for
the smallest numbers. Fails beyond the largest double. -/
def scaleBy : Nat → Binary64 → Int → Option Binary64
  | 0, x, _ => some x
  | steps + 1, x, exponent =>
    if exponent.natAbs ≤ 308 then
      let power := Binary64.ofDecimal false 1 exponent.natAbs
      if exponent < 0 then some (x.divMagnitude power)
      else
        let product := x.mulMagnitude power
        if product.isFinite then some product else none
    else if x.isZero then some x
    else if exponent < 0 then
      scaleBy steps (x.divMagnitude (Binary64.ofDecimal false 1 308)) (exponent + 308)
    else none

/-- The double of the leading digits, scaled by a power of ten. Whole digits that no longer fit
only raise the exponent, and fraction digits that no longer fit are ignored. -/
def scaled (n : Numeral) : Option Binary64 :=
  let (first, surplus) := fittingDigits 0 n.whole
  let (significand, ignored) := fittingDigits first n.fraction
  let used := n.fraction.length - ignored.length
  let exponent := n.exponent + surplus.length - used
  (scaleBy 4 (Binary64.ofDecimal false significand 0) exponent).map (·.withSign n.negative)

/-- The double nearest to the exact value; infinite beyond the largest one. Magnitudes far outside
the range of doubles are settled by the position of the first digit. -/
def nearest (n : Numeral) : Binary64 :=
  let digits := (n.whole ++ n.fraction).dropWhile (· == '0')
  let exponent := n.exponent - n.fraction.length
  let point := exponent + digits.length
  if digits.isEmpty ∨ point < -400 then Binary64.ofDecimal n.negative 0 0
  else if 400 < point then Binary64.ofDecimal n.negative 1 400
  else Binary64.ofDecimal n.negative (digitsValue digits) exponent

end Numeral
end ParserPackages
