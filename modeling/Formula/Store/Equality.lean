import Formula.Store.Basic

/-!
# Equality of shared expressions

Two nodes are equal if they are the same node, or if they are alike: equal constants, the same
variable, or the same operation on equal operands.  Constants are compared as numbers, so no number
differs from itself unless its node is the same.
-/

namespace Formula

/-- Whether a node is the operation `o` on operands that pass the given tests, one for each. -/
def Kind.agrees (o : Op) (tests : List (Nat → Bool)) : Kind → Bool
  | .op o' args => o = o' && tests.length = args.length && (tests.zip args).all fun (t, a) => t a
  | _ => false

namespace Store

/-- Whether two nodes are equal. -/
def equal (s : Store) (i j : Nat) : Bool :=
  s.fold (β := Nat → Bool)
    (fun i c j => i = j || match s.kind j with
      | .const c' => c == c'
      | _ => false)
    (fun i v j => i = j || s.kind j = .var v)
    (fun i o tests j => i = j || (s.kind j).agrees o tests)
    i j

/-- Whether two nodes are alike, be they the same or not. -/
def alike (s : Store) (i j : Nat) : Bool :=
  match s.kind i with
  | .const c => match s.kind j with
    | .const c' => c == c'
    | _ => false
  | .var v => s.kind j = .var v
  | .op o args => (s.kind j).agrees o (args.map s.equal)

theorem equal_eq (s : Store) (i j : Nat) : s.equal i j = (decide (i = j) || s.alike i j) := by
  unfold equal alike
  cases h : s.kind i with
  | const c => rw [fold_const _ _ _ h]
  | var v => rw [fold_var _ _ _ h]
  | op o args => rw [fold_op _ _ _ h]; rfl

end Store

end Formula
