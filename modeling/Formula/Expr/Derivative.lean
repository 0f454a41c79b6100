import Formula.Error
import Formula.Expr.Basic
import Formula.Op.Derivative

/-!
# Derivatives of expressions

`diff` applies the rule of each operation to its operands and their derivatives, from the leaves
up.  An operation without a rule is reported before its operands are looked at, and of several the
first from the left.
-/

namespace Formula

/-- The variable with a given name. -/
def Var.read (name : String) : Except Error Var :=
  match Var.ofName? name with
  | some v => .ok v
  | none => .error (.unboundVariable name)

namespace Expr

mutual

/-- The derivative by `v`. -/
def diff (v : Var) : Expr → Except Error Expr
  | .const _ => .ok (.const 0)
  | .var w => .ok (.const (if w = v then 1 else 0))
  | .op o args =>
    if o.isDifferentiable then do
      let ds ← diffAll v args
      match o.derivative (.op o args) (args.zip ds) with
      | some d => .ok d
      | none => .error (.notDifferentiable o)
    else .error (.notDifferentiable o)

/-- The derivatives of several expressions, or the first error. -/
def diffAll (v : Var) : List Expr → Except Error (List Expr)
  | [] => .ok []
  | e :: es => do
    let d ← diff v e
    let ds ← diffAll v es
    return d :: ds

end

/-- The derivative by the variable of the given name. -/
def diffBy (name : String) (e : Expr) : Except Error Expr := do
  diff (← Var.read name) e

/--
The derivatives by each name in turn, each of the one before.  The error that ends them, if any, is
the second part.
-/
def diffChain (e : Expr) : List String → List Expr × Option Error
  | [] => ([], none)
  | name :: names =>
    match diffBy name e with
    | .ok d =>
      let (ds, err) := diffChain d names
      (d :: ds, err)
    | .error err => ([], some err)

/-- The derivatives by the three variables. -/
def gradient (e : Expr) : Except Error (Triple Expr) := do
  return ⟨← diff .x e, ← diff .y e, ← diff .z e⟩

end Expr

end Formula
