import Formula.Term
import Formula.Var

/-!
# Expressions

An expression is a term over `x`, `y` and `z`.  Here are the questions about its top, its depth and
the variables in it.
-/

namespace Formula

/-- A term over `x`, `y` and `z`. -/
abbrev Expr := Term Var

namespace Expr

/-- The value of a constant. -/
def asConst? : Expr → Option Float
  | .const c => some c
  | _ => none

/-- The variable that is the whole expression. -/
def asVar? : Expr → Option Var
  | .var v => some v
  | _ => none

/-- The operation at the top. -/
def op? : Expr → Option Op
  | .op o _ => some o
  | _ => none

/-- The operands of the operation at the top; a leaf has none. -/
def operands : Expr → List Expr
  | .op _ args => args
  | _ => []

/-- The operation that a sign stands for on the given operands, if it takes that many. -/
def operation? (sign : String) (args : List Expr) : Option Expr :=
  (Op.fitting? sign args.length).map fun o => .op o args

/-- The number of nodes on a longest path from the top; a leaf has depth one. -/
def depth (e : Expr) : Nat :=
  e.fold (fun _ => 1) (fun _ => 1) fun _ depths => 1 + depths.foldr max 0

/-- Whether a variable occurs. -/
def mentions (e : Expr) (v : Var) : Bool :=
  e.fold (fun _ => false) (fun w => w = v) fun _ found => found.any id

theorem mentions_op (o : Op) (args : List Expr) (v : Var) :
    mentions (.op o args) v = args.any (mentions · v) := by
  rw [mentions, Term.fold_op, List.any_map]
  rfl

end Expr

end Formula
