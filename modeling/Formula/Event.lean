import Formula.Parser

/-!
# What the library reports while it works

One event for each text that is read, and one for each time the derivative of an operation is asked
for: either the node remembers it, or it is built.
-/

namespace Formula

/-- How much an event matters. -/
inductive Level where
  | trace
  | debug
  deriving DecidableEq, Repr

namespace Level

/-- The usual name of the level. -/
def name : Level → String
  | trace => "trace"
  | debug => "debug"

end Level

/-- Something that happened.  Nodes are given by their numbers in the store. -/
inductive Event where
  | accepted (order : Notation) (input : String) (tokens : Nat)
  | rejected (order : Notation) (e : ParseError)
  /-- A node was asked for a derivative that it remembers. -/
  | recalled (node : Nat) (v : Var)
  /-- The derivative of a node was built, after those of its operands. -/
  | derived (node : Nat) (o : Op) (v : Var)
  deriving DecidableEq, Repr

namespace Event

/-- How much the event matters. -/
def level : Event → Level
  | rejected .. => .debug
  | _ => .trace

/-- The node that the event is about, if it is about one. -/
def node? : Event → Option Nat
  | recalled node _ => some node
  | derived node _ _ => some node
  | _ => none

/-- The event in words, with a name for each node. -/
def text (name : Nat → String) : Event → String
  | accepted order input tokens => s!"parsed {order.name} input '{input}' ({tokens} tokens)"
  | rejected order e => s!"{order.name} parse failed at offset {e.offset}: {e.message}"
  | recalled node v => s!"diff cache hit: node {name node} by {v.name}"
  | derived node o v => s!"diff cache miss: node {name node} ('{o.sign}') by {v.name}"

end Event

/-- The event of reading a text, with the outcome. -/
def Parser.event (p : Parser) (text : String) : Except ParseError Expr → Event
  | .ok _ => .accepted p.order text (Token.scan text).length
  | .error e => .rejected p.order e

end Formula
