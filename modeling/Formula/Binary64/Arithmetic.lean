import Formula.Binary64.Basic

/-!
# Sums, products, and the fused product and sum

`fusedMulAdd a b c` is `a * b + c` computed exactly and rounded once.  Finite operands are integers
in units of `2⁻¹⁰⁷⁴`, so their product and the sum are integers in units of `2⁻²¹⁴⁸`.  When `a` or
`b` is infinite or no number, rounding twice gives the same answer; when only `c` is, the answer is
`c`, however large the product.
-/

namespace Formula.Binary64

/-- The sum from the left, starting at negative zero, so that a sum of negative zeros is one. -/
def sum (vs : List Float) : Float := vs.foldl (· + ·) (-0)

/-- The product from the left. -/
def product (vs : List Float) : Float := vs.foldl (· * ·) 1

/-- The number of units of `2⁻¹⁰⁷⁴` in one. -/
def unitsPerOne : Nat := 1 <<< 1074

/-- A finite double as an integer, in units of `2⁻¹⁰⁷⁴`. -/
def units (v : Float) : Int :=
  if isNegative v then -(magnitude (index v)) else magnitude (index v)

/-- The double nearest to `n / den`, a tie to the even one; a quotient too large is infinite. -/
def nearest (n : Int) (den : Nat) : Float :=
  ofIndex (n < 0) (nearestIndex n.natAbs den)

/--
`a * b + c` for finite operands.  A sum of zero is negative only when the product and `c` are both
negative zeros; in every other case it is positive.
-/
def fusedMulAddFinite (a b c : Float) : Float :=
  let product := units a * units b
  let sum := product + units c * unitsPerOne
  if sum = 0 then
    ofIndex (product = 0 ∧ isNegative c ∧ isNegative a ≠ isNegative b) 0
  else nearest sum (unitsPerOne * unitsPerOne)

/-- `a * b + c` with one rounding. -/
def fusedMulAdd (a b c : Float) : Float :=
  if a.isFinite ∧ b.isFinite then
    if c.isFinite then fusedMulAddFinite a b c else c
  else a * b + c

end Formula.Binary64
