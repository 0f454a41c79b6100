/-!
# Operations

The twelve operations, the signs that write them, and how many operands each takes.  `mulAdd` has
two signs; everything the library writes uses the first.  `hypot` is the sum of two squares, without
a root.
-/

namespace Formula

/-- How many operands an operation takes. -/
inductive Arity where
  /-- As many as said. -/
  | exactly (count : Nat)
  /-- One or more. -/
  | several
  deriving DecidableEq, Repr

namespace Arity

/-- Whether an operand count fits. -/
def accepts : Arity → Nat → Bool
  | exactly count, n => n = count
  | several, n => 1 ≤ n

/-- The arity in words. -/
def text : Arity → String
  | exactly count => toString count
  | several => "at least 1"

end Arity

/-- An operation. -/
inductive Op where
  | signum
  | add
  | sub
  | mul
  | div
  | neg
  | mulAdd
  | hypot
  | hmean
  | arithMean
  | geomMean
  | harmMean
  deriving DecidableEq, Repr

namespace Op

/-- Every operation. -/
def all : List Op :=
  [signum, add, sub, mul, div, neg, mulAdd, hypot, hmean, arithMean, geomMean, harmMean]

/-- The sign that the library writes. -/
def sign : Op → String
  | signum => "sign"
  | add => "+"
  | sub => "-"
  | mul => "*"
  | div => "/"
  | neg => "negate"
  | mulAdd => "*+"
  | hypot => "hypot"
  | hmean => "hmean"
  | arithMean => "arith-mean"
  | geomMean => "geom-mean"
  | harmMean => "harm-mean"

/-- The other signs that may be read. -/
def aliases : Op → List String
  | mulAdd => ["madd"]
  | _ => []

/-- Every sign of the operation, the written one first. -/
def signs (o : Op) : List String := o.sign :: o.aliases

/-- The operation that a sign stands for. -/
def ofSign? (sign : String) : Option Op :=
  all.find? fun o => sign ∈ o.signs

/-- Every sign that may be read, sorted. -/
def allSigns : List String :=
  (all.flatMap signs).mergeSort (· ≤ ·)

/-- How many operands the operation takes. -/
def arity : Op → Arity
  | signum | neg => .exactly 1
  | add | sub | mul | div | hypot | hmean => .exactly 2
  | mulAdd => .exactly 3
  | arithMean | geomMean | harmMean => .several

/-- Whether the operation has a derivative rule. -/
def isDifferentiable : Op → Bool
  | signum => false
  | _ => true

/-- The operation that a sign stands for, if it takes the given number of operands. -/
def fitting? (sign : String) (count : Nat) : Option Op :=
  (ofSign? sign).filter fun o => o.arity.accepts count

theorem mem_all (o : Op) : o ∈ all := by
  cases o <;> decide

theorem ofSign?_of_mem {o : Op} : ∀ sign ∈ o.signs, ofSign? sign = some o := by
  cases o <;> decide

theorem mem_signs_of_ofSign? {o : Op} {sign : String} (h : ofSign? sign = some o) :
    sign ∈ o.signs := by
  simpa using List.find?_some h

/-- A description of the operation, with its signs and its arity. -/
def describe (o : Op) : String :=
  let quoted := o.signs.map fun s => "\"" ++ s ++ "\""
  let arity := match o.arity with
    | .exactly count => "Fixed(" ++ toString count ++ ")"
    | .several => "Variadic"
  "Operation \x7b signs: [" ++ ", ".intercalate quoted ++ "], arity: " ++ arity ++ " \x7d"

end Op

end Formula
