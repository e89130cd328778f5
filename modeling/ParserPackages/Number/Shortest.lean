import ParserPackages.Number.Binary64

/-! # Shortest decimals

The fewest digits that read back as the same number: on the decimal grids of one, two, … seventeen
digits, the first that has a point closer to the number than to its neighbours. -/

namespace ParserPackages.Binary64

/-- A decimal `digits · 10 ^ exponent`. -/
structure Decimal where
  digits : Nat
  exponent : Int
  deriving DecidableEq, Repr

/-- How often ten goes into the number before the point: `10 ^ (k - 1) ≤ a < 10 ^ k`. -/
def pointPosition (a : Ratio) : Int :=
  if a.den ≤ a.num then (Nat.toDigits 10 (a.num / a.den)).length
  else 1 - ((Nat.toDigits 10 ((a.den - 1) / a.num)).length : Int)

/-- `a ≤ b`, or `a < b` when `strict`. -/
def within (strict : Bool) (a b : Ratio) : Bool :=
  let left := a.num * b.den
  let right := b.num * a.den
  if strict then left < right else left ≤ right

def distance (a b : Ratio) : Ratio :=
  let left := a.num * b.den
  let right := b.num * a.den
  ⟨(left - right) + (right - left), a.den * b.den⟩

/-- The half-way points to the neighbours below and above. -/
def bounds (x : Binary64) : Ratio × Ratio :=
  let m := x.mantissa
  let below := if x.fractionBits = 0 ∧ 1 < x.exponentBits then 1 else 2
  (.ofBinary (4 * m - below) (x.exponent - 2), .ofBinary (4 * m + 2) (x.exponent - 2))

/-- The grid points next to the number that read back as it, of which the nearer is taken, and the
even one of two. -/
def onGrid (x : Binary64) (exponent : Int) : Option Decimal :=
  let v := x.magnitude
  let (low, high) := x.bounds
  let strict := x.mantissa % 2 == 1
  let scaled := v.div (.ofDecimal 1 exponent)
  let floor := scaled.num / scaled.den
  let reads (d : Nat) : Bool :=
    within strict low (.ofDecimal d exponent) && within strict (.ofDecimal d exponent) high
  let nearer (a b : Nat) : Bool :=
    within true (distance v (.ofDecimal a exponent)) (distance v (.ofDecimal b exponent))
  match reads floor, reads (floor + 1) with
  | false, false => none
  | true, false => some ⟨floor, exponent⟩
  | false, true => some ⟨floor + 1, exponent⟩
  | true, true =>
    if nearer floor (floor + 1) then some ⟨floor, exponent⟩
    else if nearer (floor + 1) floor then some ⟨floor + 1, exponent⟩
    else if floor % 2 = 0 then some ⟨floor, exponent⟩
    else some ⟨floor + 1, exponent⟩

/-- Tries `count` grids, from that of the given exponent to finer ones. -/
def firstGrid (x : Binary64) : Nat → Int → Decimal
  | 0, exponent => ⟨0, exponent⟩
  | count + 1, exponent => (x.onGrid exponent).getD (firstGrid x count (exponent - 1))

/-- The shortest decimal that reads back as a number other than zero. -/
def shortest (x : Binary64) : Decimal :=
  x.firstGrid 17 (pointPosition x.magnitude - 1)

/-- The decimal exponents of the numbers that are written without an exponent. -/
structure PlainRange where
  least : Int
  past : Int

/-- Numbers from `1e-5` up to `1e16` are written with a point and at least one decimal, all others
with a signed exponent. -/
def plainRange : PlainRange := ⟨-5, 16⟩

/-- A decimal fraction with at least one place, from digits and the position of the point. -/
def positional (digits : List Char) (point : Int) : List Char :=
  if point ≤ 0 then
    ['0', '.'] ++ List.replicate (-point).toNat '0' ++ digits
  else
    let k := point.toNat
    if digits.length ≤ k then
      digits ++ List.replicate (k - digits.length) '0' ++ ['.', '0']
    else digits.take k ++ '.' :: digits.drop k

def scientific (digits : List Char) (exponent : Int) : List Char :=
  digits.take 1 ++ (if digits.length ≤ 1 then [] else '.' :: digits.drop 1) ++
    ['e', if exponent < 0 then '-' else '+'] ++ Nat.toDigits 10 exponent.natAbs

def toText (x : Binary64) : String :=
  let sign := if x.isNegative then ['-'] else []
  if x.isZero then String.ofList (sign ++ ['0', '.', '0'])
  else
    let d := x.shortest
    let all := Nat.toDigits 10 d.digits
    let digits := (all.reverse.dropWhile (· == '0')).reverse
    let point := d.exponent + all.length
    let e := point - 1
    if plainRange.least ≤ e ∧ e < plainRange.past then
      String.ofList (sign ++ positional digits point)
    else String.ofList (sign ++ scientific digits e)

end ParserPackages.Binary64
