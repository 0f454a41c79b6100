import Std.Data.HashMap
import Formula.Decimal.Layout
import Formula.Store.Basic

/-!
# Descriptions of shared expressions

`describe` writes every node of an expression with a number, so that the text shows which
occurrences are the same node.  `identities` gives the numbers alone, for several expressions at
once.  Nodes are numbered by first appearance.
-/

namespace Formula

/-- The numbers `0, 1, 2, …` of things in the order in which they appear first. -/
structure Numbering where
  numbers : Std.HashMap Nat Nat := {}

namespace Numbering

/-- Gives a number to a thing that has none. -/
def see (n : Numbering) (thing : Nat) : Numbering :=
  ⟨n.numbers.insertIfNew thing n.numbers.size⟩

/-- The numbering of a list of things. -/
def ofList (things : List Nat) : Numbering := things.foldl see {}

/-- The number of a thing, zero if it has not appeared. -/
def number (n : Numbering) (thing : Nat) : Nat := n.numbers.getD thing 0

end Numbering

namespace Kind

/-- A constant in a description. -/
def describeConst (c : Float) : String := "Constant(" ++ Decimal.pointedText c ++ ")"

/-- A variable in a description. -/
def describeVar (v : Var) : String := "Variable(" ++ v.name.toUpper ++ ")"

/-- An operation in a description, on operands that are described already. -/
def describeOp (o : Op) (args : List String) : String :=
  "Operation \x7b sign: \"" ++ o.sign ++ "\", args: [" ++ ", ".intercalate args ++ "] \x7d"

end Kind

namespace Store

/-- The node numbers of several expressions, each in the order of `occurrences`. -/
def identities (s : Store) (roots : List Nat) : List (List Nat) :=
  let occurrences := roots.map s.occurrences
  let numbering := Numbering.ofList occurrences.flatten
  occurrences.map (·.map numbering.number)

/-- A text that shows the kinds of the nodes of an expression, and which of them are the same. -/
def describe (s : Store) (root : Nat) : String :=
  let numbering := Numbering.ofList (s.occurrences root)
  let node := fun i kind =>
    "Expr \x7b id: " ++ toString (numbering.number i) ++ ", kind: " ++ kind ++ " \x7d"
  s.fold (fun i c => node i (Kind.describeConst c)) (fun i v => node i (Kind.describeVar v))
    (fun i o args => node i (Kind.describeOp o args)) root

/-- What happened, in words, with nodes numbered by first appearance. -/
def log (s : Store) : List (Level × String) :=
  let events := s.events.toList
  let numbering := Numbering.ofList (events.filterMap Event.node?)
  events.map fun e => (e.level, e.text fun i => toString (numbering.number i))

end Store

end Formula
