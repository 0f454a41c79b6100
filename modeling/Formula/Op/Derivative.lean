import Formula.Term

/-!
# Derivative rules

The derivative of an operation, composed of its operands and their derivatives.  Nothing is
evaluated and nothing is simplified.  A rule is the same for every kind of variable, so it serves
expressions as well as terms over the nodes of a store.
-/

namespace Formula.Op

open Term (square product sum power)

variable {α : Type}

/--
The products of the operands in which one operand is replaced by its derivative, for each operand
in turn.
-/
def partialProducts (args : List (Term α × Term α)) : List (Term α) :=
  args.mapIdx fun i (_, d) => product ((args.map (·.1)).set i d)

/--
The derivative of the term `self`, an operation on operands that come paired with their
derivatives.  There is none for `signum`, nor for an operand count that does not fit.
-/
def derivative (o : Op) (self : Term α) (args : List (Term α × Term α)) : Option (Term α) :=
  match o, args with
  | add, [(_, a'), (_, b')] => some (a' + b')
  | sub, [(_, a'), (_, b')] => some (a' - b')
  | mul, [(a, a'), (b, b')] => some (a' * b + b' * a)
  | div, [(a, a'), (b, b')] => some ((a' * b - b' * a) / square b)
  | neg, [(_, a')] => some (-a')
  | mulAdd, [(a, a'), (b, b'), (_, c')] => some (a' * b + a * b' + c')
  | hypot, [(a, a'), (b, b')] => some (.const 2 * (a * a' + b * b'))
  | hmean, [(a, a'), (b, b')] =>
    some ((a' / square a + b' / square b) * (square self / .const 2))
  | arithMean, _ :: _ => some (.op .arithMean (args.map (·.2)))
  | geomMean, _ :: rest =>
    let sign : Term α := .op .signum [product (args.map (·.1))]
    some (.op .arithMean (partialProducts args) / (sign * power self rest.length))
  | harmMean, _ :: _ =>
    let terms := args.map fun (a, a') => a' / square a
    some (sum terms * (square self / .const (.ofNat args.length)))
  | _, _ => none

/-- Whether the rule mentions the term that it differentiates. -/
def mentionsSelf : Op → Bool
  | hmean | geomMean | harmMean => true
  | _ => false

theorem derivative_isSome (o : Op) (self : Term α) (args : List (Term α × Term α)) :
    (o.derivative self args).isSome = (o.isDifferentiable && o.arity.accepts args.length) := by
  rcases args with _ | ⟨⟨a, a'⟩, _ | ⟨⟨b, b'⟩, _ | ⟨⟨c, c'⟩, _ | ⟨d, args⟩⟩⟩⟩ <;> cases o <;>
    simp [derivative, isDifferentiable, arity, Arity.accepts]

/-- A rule that does not mention the term itself does not depend on it. -/
theorem derivative_self_irrelevant {o : Op} (h : o.mentionsSelf = false) (self self' : Term α)
    (args : List (Term α × Term α)) : o.derivative self args = o.derivative self' args := by
  rcases args with _ | ⟨⟨a, a'⟩, _ | ⟨⟨b, b'⟩, _ | ⟨⟨c, c'⟩, _ | ⟨d, args⟩⟩⟩⟩ <;> cases o <;>
    simp_all [derivative, mentionsSelf]

end Formula.Op
