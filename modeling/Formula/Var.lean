/-!
# The three variables

Every expression is over `x`, `y` and `z`.  A `Triple` holds one thing for each of them: a point, a
gradient, or what a node remembers by variable.
-/

namespace Formula

/-- A variable. -/
inductive Var where
  | x
  | y
  | z
  deriving DecidableEq, Repr

namespace Var

/-- The variables in order. -/
def all : List Var := [x, y, z]

/-- The place of a variable in a triple. -/
def index : Var → Nat
  | x => 0
  | y => 1
  | z => 2

/-- How a variable is written. -/
def name : Var → String
  | x => "x"
  | y => "y"
  | z => "z"

/-- The variable that a name stands for. -/
def ofName? (name : String) : Option Var :=
  all.find? (·.name = name)

theorem ofName?_name (v : Var) : ofName? v.name = some v := by
  cases v <;> rfl

theorem ofName?_eq_some_iff {name : String} {v : Var} : ofName? name = some v ↔ v.name = name := by
  constructor
  · intro h
    simpa using List.find?_some h
  · rintro rfl
    exact ofName?_name v

end Var

/-- One thing for each variable. -/
structure Triple (α : Type) where
  x : α
  y : α
  z : α
  deriving DecidableEq, Repr

namespace Triple

variable {α β : Type}

/-- The same thing for each variable. -/
def replicate (a : α) : Triple α := ⟨a, a, a⟩

/-- The thing for one variable. -/
def get (t : Triple α) : Var → α
  | .x => t.x
  | .y => t.y
  | .z => t.z

/-- Replaces the thing for one variable. -/
def set (t : Triple α) (v : Var) (a : α) : Triple α :=
  match v with
  | .x => { t with x := a }
  | .y => { t with y := a }
  | .z => { t with z := a }

/-- The things in the order of the variables. -/
def toList (t : Triple α) : List α := [t.x, t.y, t.z]

@[simp] theorem get_replicate (a : α) (v : Var) : (replicate a).get v = a := by
  cases v <;> rfl

theorem get_set (t : Triple α) (v w : Var) (a : α) :
    (t.set v a).get w = if w = v then a else t.get w := by
  cases v <;> cases w <;> rfl

end Triple

/-- A value for each variable. -/
abbrev Point := Triple Float

end Formula
