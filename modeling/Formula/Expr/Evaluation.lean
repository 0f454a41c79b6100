import Formula.Error
import Formula.Expr.Basic
import Formula.Op.Value

/-!
# Evaluation

`eval` takes a value for each variable.  `evalWith` takes values by name, reads those of the
variables that occur, and fails at the first occurrence, from the left, whose name has none.
-/

namespace Formula.Expr

/-- The value at a point. -/
def eval (e : Expr) (p : Point) : Float :=
  e.fold id p.get Op.value

theorem eval_op (o : Op) (args : List Expr) (p : Point) :
    eval (.op o args) p = o.value (args.map (eval · p)) :=
  Term.fold_op ..

/-- The values at several points. -/
def evalAt (e : Expr) (points : List Point) : List Float :=
  points.map e.eval

/-- The values of several expressions at several points, a row for each expression. -/
def evalTable (es : List Expr) (points : List Point) : List (List Float) :=
  es.map (evalAt · points)

/-- The value under named bindings. -/
def evalWith (e : Expr) (binding : String → Option Float) : Except Error Float :=
  e.fold .ok
    (fun v => match binding v.name with
      | some value => .ok value
      | none => .error (.unboundVariable v.name))
    fun o args => do return o.value (← args.mapM id)

theorem evalWith_op (o : Op) (args : List Expr) (binding : String → Option Float) :
    evalWith (.op o args) binding = (do return o.value (← args.mapM (evalWith · binding))) := by
  rw [evalWith, Term.fold_op, List.mapM_map]
  rfl

end Formula.Expr
