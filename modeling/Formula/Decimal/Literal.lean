import Formula.Binary64.Basic

/-!
# Decimal literals

A literal is an optional sign, digits with at most one point and at least one digit before or
after it, and optionally `e` or `E` with an exponent that may have a sign of its own.  `read?`
reads a text as a literal or refuses it, and `toFloat?` rounds the literal's exact value to the
nearest double.  A literal whose value rounds past the largest finite double has no double.
-/

namespace Formula.Decimal

/-- The decimal literal of value `± digits * 10 ^ exponent`. -/
structure Literal where
  negative : Bool
  digits : Nat
  exponent : Int
  deriving DecidableEq, Repr

/-- The natural number that a list of decimal digits writes. -/
def ofDigits (ds : List Char) : Nat :=
  ds.foldl (fun n d => 10 * n + (d.toNat - '0'.toNat)) 0

/-- The power of ten with the given exponent. -/
def tens (exponent : Nat) : Nat := Nat.pow 10 exponent

namespace Literal

/-- Splits off an optional sign, and tells whether it is a minus. -/
def readSign : List Char → Bool × List Char
  | '-' :: rest => (true, rest)
  | '+' :: rest => (false, rest)
  | text => (false, text)

/-- Reads the end of a literal: nothing, or a mark, an optional sign and at least one digit. -/
def readExponent? : List Char → Option Int
  | [] => some 0
  | mark :: rest =>
    let (negative, ds) := readSign rest
    if (mark = 'e' ∨ mark = 'E') ∧ ds ≠ [] ∧ ds.all Char.isDigit then
      some (if negative then -(ofDigits ds) else ofDigits ds)
    else none

/-- Splits off the digits after an optional point. -/
def readFraction : List Char → List Char × List Char
  | '.' :: rest => (rest.takeWhile Char.isDigit, rest.dropWhile Char.isDigit)
  | text => ([], text)

/-- The literal that a text writes, if it writes one. -/
def read? (text : List Char) : Option Literal :=
  let (negative, unsigned) := readSign text
  let whole := unsigned.takeWhile Char.isDigit
  let (fraction, rest) := readFraction (unsigned.dropWhile Char.isDigit)
  if whole = [] ∧ fraction = [] then none
  else (readExponent? rest).map fun exponent =>
    ⟨negative, ofDigits (whole ++ fraction), exponent - fraction.length⟩

/-- The literal's absolute value as a quotient of naturals. -/
def quotient (l : Literal) : Nat × Nat :=
  if 0 ≤ l.exponent then (l.digits * tens l.exponent.toNat, 1)
  else (l.digits, tens (-l.exponent).toNat)

/--
The index of the double nearest to the literal's absolute value, if it is finite.  The first tests
settle the literals whose exponent alone decides, so that no power of ten grows without bound:
`10 ^ 400` is past every finite double, and `digits < 2 ^ (log2 digits + 1)` together with
`10 ^ exponent ≤ 2 ^ (3 * exponent)` puts the value below half of the least positive double.
-/
def index? (l : Literal) : Option Nat :=
  if l.digits = 0 then some 0
  else if 400 ≤ l.exponent then none
  else if (l.digits.log2 + 1076 : Int) ≤ -3 * l.exponent then some 0
  else
    let (num, den) := l.quotient
    let k := Binary64.nearestIndex num den
    if k < Binary64.infinite then some k else none

/-- The finite double nearest to the literal's value; zero keeps the literal's sign. -/
def toFloat? (l : Literal) : Option Float :=
  l.index?.map (Binary64.ofIndex l.negative)

end Literal

/-- The finite double that a text writes, if it writes a literal and the literal has one. -/
def read? (text : String) : Option Float :=
  (Literal.read? text.toList).bind Literal.toFloat?

end Formula.Decimal
