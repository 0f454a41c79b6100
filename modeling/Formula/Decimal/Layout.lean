import Formula.Decimal.Shortest

/-!
# Doubles as text

Two layouts of the shortest digits.  `text` is always positional and writes whole numbers without
a point.  `pointedText` marks whole numbers by `.0` and writes values below `10⁻⁴` or from `10¹⁶`
on with an exponent.  Both write `NaN`, `inf` and `-inf`, and keep the sign of zero.
-/

namespace Formula.Decimal

/-- The decimal digits of a natural number. -/
def digitsOf (n : Nat) : List Char := Nat.toDigits 10 n

namespace Scaled

/-- Digits without an exponent, with `wholeEnd` after the digits of a whole number. -/
def positional (s : Scaled) (wholeEnd : List Char) : List Char :=
  let ds := digitsOf s.digits
  if 0 ≤ s.exponent then ds ++ List.replicate s.exponent.toNat '0' ++ wholeEnd
  else
    let places := (-s.exponent).toNat
    let padded := List.replicate (places + 1 - ds.length) '0' ++ ds
    padded.take (padded.length - places) ++ '.' :: padded.drop (padded.length - places)

/-- The power of ten of the first digit. -/
def leading (s : Scaled) : Int := s.exponent + (digitsOf s.digits).length - 1

/-- One digit before the point, and an exponent. -/
def scientific (s : Scaled) : List Char :=
  let mantissa := match digitsOf s.digits with
    | first :: second :: rest => first :: '.' :: second :: rest
    | ds => ds
  mantissa ++ 'e' :: (toString s.leading).toList

end Scaled

/-- Writes a double from a layout of zero and a layout of the positive finite ones. -/
def layout (zero : List Char) (positive : Scaled → List Char) (v : Float) : List Char :=
  let k := Binary64.index v
  if Binary64.infinite < k then "NaN".toList
  else
    let unsigned :=
      if k = 0 then zero
      else if k = Binary64.infinite then "inf".toList
      else positive (shortest k)
    if Binary64.isNegative v then '-' :: unsigned else unsigned

/-- The positional text of a double. -/
def text (v : Float) : String :=
  .ofList (layout ['0'] (·.positional []) v)

/-- The text of a double with a point or an exponent. -/
def pointedText (v : Float) : String :=
  .ofList (layout ['0', '.', '0']
    (fun s => if -4 ≤ s.leading ∧ s.leading < 16 then s.positional ['.', '0'] else s.scientific) v)

end Formula.Decimal
