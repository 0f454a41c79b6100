import Formula.Op.Basic

/-!
# Terms and expressions

A term is a constant, a variable, or an operation on terms, over any kind of variable.  An
expression is a term over `x`, `y` and `z`; a derivative rule is written with terms over whatever
stands for its operands.  `Term.fold` replaces each constructor by a function, and its equation
`fold_op` says so for operations.
-/

namespace Formula

/-- A term whose variables are of type `α`. -/
inductive Term (α : Type) where
  | const (value : Float)
  | var (v : α)
  | op (o : Op) (args : List (Term α))

namespace Term

variable {α β : Type}

/-- To prove a statement of all terms, prove it of an operation from its operands. -/
@[elab_as_elim, induction_eliminator]
theorem rec_mem {motive : Term α → Prop} (const : ∀ c, motive (.const c))
    (var : ∀ v, motive (.var v)) (op : ∀ o args, (∀ t ∈ args, motive t) → motive (.op o args)) :
    ∀ t, motive t
  | .const c => const c
  | .var v => var v
  | .op o args => op o args fun t _ => rec_mem const var op t

mutual

/-- Replaces constants, variables and operations by functions, from the leaves up. -/
def fold (const : Float → β) (var : α → β) (op : Op → List β → β) : Term α → β
  | .const c => const c
  | .var v => var v
  | .op o args => op o (foldAll const var op args)

/-- The results of `fold` on each of a list of terms. -/
def foldAll (const : Float → β) (var : α → β) (op : Op → List β → β) : List (Term α) → List β
  | [] => []
  | t :: ts => fold const var op t :: foldAll const var op ts

end

section

variable (const : Float → β) (var : α → β) (op : Op → List β → β)

theorem foldAll_eq_map (ts : List (Term α)) :
    foldAll const var op ts = ts.map (fold const var op) := by
  induction ts with
  | nil => rfl
  | cons t ts ih => rw [foldAll, ih, List.map_cons]

@[simp] theorem fold_const (c : Float) : fold const var op (.const c) = const c := rfl

@[simp] theorem fold_var (v : α) : fold const var op (.var v) = var v := rfl

@[simp] theorem fold_op (o : Op) (args : List (Term α)) :
    fold const var op (.op o args) = op o (args.map (fold const var op)) := by
  rw [fold, foldAll_eq_map]

end

instance : Add (Term α) := ⟨fun a b => .op .add [a, b]⟩
instance : Sub (Term α) := ⟨fun a b => .op .sub [a, b]⟩
instance : Mul (Term α) := ⟨fun a b => .op .mul [a, b]⟩
instance : Div (Term α) := ⟨fun a b => .op .div [a, b]⟩
instance : Neg (Term α) := ⟨fun a => .op .neg [a]⟩

/-- Joins terms from the left.  A single term stays as it is. -/
def join (combine : Term α → Term α → Term α) : List (Term α) → Term α
  | [] => .const 0
  | t :: ts => ts.foldl combine t

/-- The sum of terms, joined from the left. -/
def sum (ts : List (Term α)) : Term α := join (· + ·) ts

/-- The product of terms, joined from the left. -/
def product (ts : List (Term α)) : Term α := join (· * ·) ts

/-- A term times itself. -/
def square (t : Term α) : Term α := t * t

/-- The product of `n` copies of a term; the constant one if there are none. -/
def power (t : Term α) : Nat → Term α
  | 0 => .const 1
  | n + 1 => product (List.replicate (n + 1) t)

end Term

end Formula
