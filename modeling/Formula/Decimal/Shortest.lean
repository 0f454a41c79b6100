import Formula.Decimal.Literal

/-!
# The fewest digits that read back

A finite double is a decimal with finitely many digits, since `2⁻¹⁰⁷⁴ = 5¹⁰⁷⁴ / 10¹⁰⁷⁴`.  Cut after
its first `n` digits it has two neighbours on the grid of `n`-digit decimals, itself and the next
one up.  `shortest` takes the first `n` for which one of the two reads back as the double, and of
two that do the nearer one, the upper one on a tie.  Every answer reads back, because reading is
what the search tests.
-/

namespace Formula.Decimal

/-- A decimal `digits * 10 ^ exponent` without sign. -/
structure Scaled where
  digits : Nat
  exponent : Int
  deriving DecidableEq, Repr

namespace Scaled

/-- The literal with this value and a plus sign. -/
def toLiteral (s : Scaled) : Literal := ⟨false, s.digits, s.exponent⟩

/-- Whether the decimal reads as the double of index `k`. -/
def readsAs (s : Scaled) (k : Nat) : Bool := s.toLiteral.index? = some k

/-- The same value with a zero at the end of the digits moved to the exponent. -/
def dropZero (s : Scaled) : Scaled :=
  if s.digits % 10 = 0 then ⟨s.digits / 10, s.exponent + 1⟩ else s

end Scaled

/-- `5 ^ 1074`, the factor between units of `2⁻¹⁰⁷⁴` and units of `10⁻¹⁰⁷⁴`. -/
def fives : Nat := Nat.pow 5 1074

/-- The exact value of the double of index `k`, in units of `10⁻¹⁰⁷⁴`. -/
def expansion (k : Nat) : Nat := Binary64.magnitude k * fives

/--
The number of decimal digits of `n`, which has to be positive and below `2 ^ 10000`.  The estimate
takes `0.30102` for the logarithm of two, and is one too small at most.
-/
def digitCount (n : Nat) : Nat :=
  let estimate := n.log2 * 30102 / 100000 + 1
  if tens estimate ≤ n then estimate + 1 else estimate

/-- The neighbour of `exact` on the grid of multiples of `10 ^ dropped` that reads as index `k`. -/
def gridPoint? (k exact dropped : Nat) : Option Scaled :=
  let step := tens dropped
  let lower : Scaled := ⟨exact / step, dropped - 1074⟩
  let upper : Scaled := ⟨exact / step + 1, dropped - 1074⟩
  let near := if 2 * (exact % step) < step then lower else upper
  let far := if 2 * (exact % step) < step then upper else lower
  if near.readsAs k then some near
  else if far.readsAs k then some far
  else none

/-- The shortest decimal that reads as the double of index `k`, for a positive finite double. -/
def shortest (k : Nat) : Scaled :=
  let exact := expansion k
  let count := digitCount exact
  match (List.range 17).findSome? fun n => gridPoint? k exact (count - (n + 1)) with
  | some found => found.dropZero
  | none => ⟨exact, -1074⟩

end Formula.Decimal
