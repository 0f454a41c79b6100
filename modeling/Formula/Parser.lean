import Formula.Expr.Derivative
import Formula.Expr.Evaluation
import Formula.Expr.Printer
import Formula.Token

/-!
# Reading expressions

A bracket is read by recursive descent: `bracket` reads one after its opening token and hands its
items to `close`, `content` collects the items up to the closing token.  Both return what is left
with a proof that it is shorter.  The descent sees what the tokens say and their numbers, never
their places, so it cannot depend on white space; `parse` turns the number of a blamed token into
its place.  The first fault met ends the reading.  `evalText` and `diffText` read a text and compute
with its expression in one step.
-/

namespace Formula

/-- One thing between the brackets. -/
inductive Item where
  | operand (e : Expr)
  /-- A sign, which waits for its bracket to close. -/
  | operator (o : Op)

/-- A fault and the number of the token to blame. -/
structure Blame where
  fault : Fault
  token : Nat
  deriving DecidableEq, Repr

namespace Notation

/-- The bracket that a misplaced sign lacks. -/
def missingBracket : Notation → Fault
  | signFirst => .missingOpening
  | signLast => .missingClosing

/-- Whether a sign may stand between two tokens. -/
def admitsSign (n : Notation) (before after : Option Lexeme) : Bool :=
  match n with
  | signFirst => before = some .opening
  | signLast => after = some .closing

/-- Splits the items of a bracket into the one in the place of the sign and the others. -/
def takeSign (n : Notation) (items : List Item) : Option (Item × List Item) :=
  match n with
  | signFirst => items.head?.map fun item => (item, items.tail)
  | signLast => items.getLast?.map fun item => (item, items.dropLast)

end Notation

/-- How to read: the notation, and how deep brackets may be nested. -/
structure Parser where
  order : Notation := .signFirst
  maxDepth : Nat := 512
  deriving DecidableEq, Repr

namespace Parser

/-- A word as an item, if it is a variable, a number, or a sign in a place that admits one. -/
def readWord (n : Notation) (before after : Option Lexeme) (word : String) : Except Fault Item :=
  match Var.ofName? word with
  | some v => .ok (.operand (.var v))
  | none =>
    match Decimal.read? word with
    | some c => .ok (.operand (.const c))
    | none =>
      match Op.ofSign? word with
      | some o => if n.admitsSign before after then .ok (.operator o) else .error n.missingBracket
      | none => .error (.unknownWord word)

/-- The operands among the items that are left when the sign is taken off. -/
def operands (n : Notation) (items : List Item) : Except Fault (List Expr) :=
  items.mapM fun
    | .operand e => .ok e
    | .operator _ => .error n.missingBracket

/-- The expression that the items of a bracket make. -/
def close (n : Notation) (items : List Item) : Except Fault Expr :=
  match n.takeSign items with
  | none => .error .emptyBracket
  | some (.operand e, _) => .error (.signExpected (n = .signFirst) (e.render n))
  | some (.operator o, items) => do
    let args ← operands n items
    if o.arity.accepts args.length then .ok (.op o args)
    else .error (.operandCount o.sign o.arity args.length)

/-- Numbered tokens, fewer than `size`. -/
abbrev Fewer (size : Nat) := { rest : List (Lexeme × Nat) // rest.length < size }

mutual

/--
Reads the rest of a bracket that token `place` opens, as the `depth`-th bracket around it.  The last
token of all has the number `last`.
-/
def bracket (p : Parser) (last depth place : Nat) (rest : List (Lexeme × Nat)) :
    Except Blame (Expr × Fewer rest.length) :=
  if p.maxDepth < depth then .error ⟨.tooDeep p.maxDepth, place⟩
  else
    match content p last depth .opening [] rest.length rest (Nat.le_refl _) with
    | .error blame => .error blame
    | .ok (items, after) =>
      match close p.order items with
      | .error fault => .error ⟨fault, place⟩
      | .ok e => .ok (e, after)
termination_by (rest.length, 1)

/-- Reads items up to a closing token.  `read` are those read before, last first. -/
def content (p : Parser) (last depth : Nat) (before : Lexeme) (read : List Item) (size : Nat)
    (rest : List (Lexeme × Nat)) (h : rest.length ≤ size) :
    Except Blame (List Item × Fewer size) :=
  match rest with
  | [] => .error ⟨.unclosedBracket, last⟩
  | (.closing, _) :: rest => .ok (read.reverse, ⟨rest, h⟩)
  | (.opening, place) :: rest =>
    match bracket p last (depth + 1) place rest with
    | .error blame => .error blame
    | .ok (e, ⟨after, shorter⟩) =>
      content p last depth .closing (.operand e :: read) size after
        (Nat.le_of_lt (Nat.lt_trans shorter h))
  | (.word w, place) :: rest =>
    match readWord p.order (some before) (rest.head?.map Prod.fst) w with
    | .error fault => .error ⟨fault, place⟩
    | .ok item => content p last depth (.word w) (item :: read) size rest (Nat.le_of_lt h)
termination_by (rest.length, 0)

end

/-- Reads one expression from the front of all the tokens, and returns what is left. -/
def expression (p : Parser) (last : Nat) :
    List (Lexeme × Nat) → Except Blame (Expr × List (Lexeme × Nat))
  | [] => .error ⟨.emptyInput, 0⟩
  | (.opening, place) :: rest => do
    let (e, after) ← bracket p last 1 place rest
    return (e, after.val)
  | (.closing, place) :: _ => .error ⟨.missingOpening, place⟩
  | (.word w, place) :: rest =>
    match readWord p.order none (rest.head?.map Prod.fst) w with
    | .error fault => .error ⟨fault, place⟩
    | .ok (.operator _) => .error ⟨p.order.missingBracket, place⟩
    | .ok (.operand e) => .ok (e, rest)

/--
The expression that a list of tokens writes.  When the last token closes a bracket and the first
opens none, an opening bracket is missing, whatever stands between.
-/
def parseLexemes (p : Parser) (lexemes : List Lexeme) : Except Blame Expr :=
  if lexemes.head? ≠ some .opening ∧ lexemes.getLast? = some .closing then
    .error ⟨.missingOpening, 0⟩
  else do
    match ← p.expression (lexemes.length - 1) lexemes.zipIdx with
    | (e, []) => .ok e
    | (_, (lexeme, place) :: rest) =>
      let symbols := lexeme.text :: rest.map (·.1.text)
      .error ⟨.trailing (" ".intercalate symbols), place⟩

/-- The place of a token in a text, the start of the text if there is no such token. -/
def placeOf (tokens : List Token) (token : Nat) : Text.Span :=
  match tokens[token]? with
  | some t => t.span
  | none => .single 0

/-- The expression that a text writes. -/
def parse (p : Parser) (text : String) : Except ParseError Expr :=
  let tokens := Token.scan text
  match p.parseLexemes (tokens.map (·.lexeme)) with
  | .ok e => .ok e
  | .error blame => .error ⟨blame.fault, text, placeOf tokens blame.token⟩

/-! ### From text to result -/

/-- Reads an expression, with the error as an error of the whole library. -/
def read (p : Parser) (text : String) : Except Error Expr :=
  (p.parse text).mapError .parse

/-- The value at a point of the expression that a text writes. -/
def evalText (p : Parser) (text : String) (point : Point) : Except Error Float := do
  return (← p.read text).eval point

/-- The derivative of the expression that a text writes, in the same notation. -/
def diffText (p : Parser) (text name : String) : Except Error String := do
  return (← (← p.read text).diffBy name).render p.order

end Parser

end Formula
