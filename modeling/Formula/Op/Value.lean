import Formula.Binary64.Arithmetic
import Formula.Op.Basic

/-!
# Numeric rules

The value of each operation on doubles.  `compute?` has a value exactly when the operand count fits
(`compute?_isSome`), so on an expression built within the arities the default of `value` is not met.
-/

namespace Formula.Op

open Binary64 (sum product fusedMulAdd)

/-- The value of an operation on as many operands as it takes. -/
def compute? : Op → List Float → Option Float
  | signum, [a] => some (if 0 ≤ a then 1 else -1)
  | add, [a, b] => some (a + b)
  | sub, [a, b] => some (a - b)
  | mul, [a, b] => some (a * b)
  | div, [a, b] => some (a / b)
  | neg, [a] => some (-a)
  | mulAdd, [a, b, c] => some (fusedMulAdd a b c)
  | hypot, [a, b] => some (a * a + b * b)
  | hmean, [a, b] => some (2 / (1 / a + 1 / b))
  | arithMean, v :: vs => some (sum (v :: vs) / .ofNat (v :: vs).length)
  | geomMean, v :: vs => some ((product (v :: vs)).abs.pow (1 / .ofNat (v :: vs).length))
  | harmMean, v :: vs => some (.ofNat (v :: vs).length / sum ((v :: vs).map (1 / ·)))
  | _, _ => none

/--
Whether there is a value depends on the operand count alone, and for each operation it is the count
that `arity` accepts.  The patterns of `compute?` and the arities are written apart; this ties them.
-/
theorem compute?_isSome (o : Op) (vs : List Float) :
    (o.compute? vs).isSome = o.arity.accepts vs.length := by
  rcases vs with _ | ⟨a, _ | ⟨b, _ | ⟨c, _ | ⟨d, vs⟩⟩⟩⟩ <;> cases o <;>
    simp [compute?, arity, Arity.accepts]

/-- The value of an operation, no number when the operand count does not fit. -/
def value (o : Op) (vs : List Float) : Float := (o.compute? vs).getD (0 / 0)

end Formula.Op
