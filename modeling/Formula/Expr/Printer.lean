import Formula.Decimal.Layout
import Formula.Expr.Basic

/-!
# Expressions as text

`render` writes every operation in brackets, in either notation: its sign stands before its operands
or after them.  `flat` writes operands before signs without brackets.  Words are separated by single
spaces, constants are positional decimals, and an operation is written by its first sign.
-/

namespace Formula

/-- Where the sign of an operation stands in its brackets. -/
inductive Notation where
  | signFirst
  | signLast
  deriving DecidableEq, Repr

namespace Notation

/-- The usual name of the notation. -/
def name : Notation → String
  | signFirst => "prefix"
  | signLast => "postfix"

/-- What is written in the brackets.  A space stands before a last sign in any case. -/
def content : Notation → String → List String → String
  | signFirst, sign, operands => " ".intercalate (sign :: operands)
  | signLast, sign, operands => " ".intercalate operands ++ " " ++ sign

end Notation

namespace Expr

/-- The text in brackets, the sign first or last. -/
def render (n : Notation) (e : Expr) : String :=
  e.fold Decimal.text Var.name fun o args => "(" ++ n.content o.sign args ++ ")"

/-- The text without brackets, each sign after its operands. -/
def flat (e : Expr) : String :=
  e.fold Decimal.text Var.name fun o args => " ".intercalate (args ++ [o.sign])

end Expr

end Formula
