import Formula.Expr.Evaluation
import Formula.Expr.Derivative
import Formula.Expr.Walk
import Formula.Store.Derivative
import Formula.Store.Description
import Formula.Store.Equality

/-!
# Sessions

A session is a store and names for some of its nodes.  A command builds an expression and names it,
or asks about named ones.  Names are looked up in the order in which the command gives them, before
anything else is looked at; a command that fails names nothing.
-/

namespace Formula

/-- Names of nodes, the latest meaning of a name first. -/
abbrev Names := List (String × Nat)

/-- A store with names. -/
structure Session where
  store : Store := {}
  names : Names := []

/-- What can be asked of a session.  Commands that build name the result `target`. -/
inductive Command where
  | parse (target : String) (p : Parser) (text : String)
  | constant (target : String) (value : Float)
  | byName (target : String) (name : String)
  /-- An operation on named expressions. -/
  | operation (target : String) (sign : String) (args : List String)
  /-- Another name for the same node. -/
  | clone (target source : String)
  /-- A new node of the same kind, on the same operands. -/
  | rebuild (target source : String)
  /-- The operand at a place. -/
  | operand (target source : String) (place : Nat)
  /-- The derivative by the variable of a given name. -/
  | diff (target source : String) (name : String)
  | remembered (source : String)
  | compare (a b : String)
  | identities (sources : List String)
  | eval (source : String) (p : Point)
  | evalWith (source : String) (binding : String → Option Float)
  | inspect (source : String)
  | visits (source : String) (skip : List String)
  | describe (source : String)

/-- What a command answers. -/
inductive Reply where
  /-- The expression that was built and named. -/
  | built (e : Expr)
  | nothing
  | failed (e : Error)
  | unnamed (name : String)
  | flags (t : Triple Bool)
  | comparison (same equal alike : Bool)
  | numbers (rows : List (List Nat))
  | value (v : Float)
  | expr (e : Expr)
  | visits (vs : List Visit)
  | text (t : String)

namespace Session

/-- The session before any command. -/
def empty : Session := {}

/-- Names a node of a store, in a session that goes on with that store. -/
def name (names : Names) (target : String) : Nat × Store → Reply × Session
  | (i, s) => (.built (s.expr i), ⟨s, (target, i) :: names⟩)

/-- Goes on with the node of a name, if there is one. -/
def withNode (s : Session) (source : String) (act : Nat → Reply × Session) : Reply × Session :=
  match s.names.lookup source with
  | some i => act i
  | none => (.unnamed source, s)

/-- Goes on with the nodes of several names, if each has one. -/
def withNodes (s : Session) (sources : List String) (act : List Nat → Reply × Session) :
    Reply × Session :=
  match sources with
  | [] => act []
  | source :: rest => s.withNode source fun i => s.withNodes rest fun is => act (i :: is)

/-- Answers a question about a named expression. -/
def ask (s : Session) (source : String) (answer : Nat → Reply) : Reply × Session :=
  s.withNode source fun i => (answer i, s)

/-- What a session answers to a command, and the session afterwards. -/
def run (s : Session) : Command → Reply × Session
  | .parse target p text =>
    let outcome := p.parse text
    let store := s.store.note (p.event text outcome)
    match outcome with
    | .ok e => name s.names target (store.addExpr e)
    | .error e => (.failed (.parse e), { s with store })
  | .constant target value => name s.names target (s.store.add (.const value))
  | .byName target text =>
    match Var.read text with
    | .ok v => name s.names target (s.store.add (.var v))
    | .error e => (.failed e, s)
  | .operation target sign args => s.withNodes args fun is =>
    match Op.fitting? sign is.length with
    | some o => name s.names target (s.store.add (.op o is))
    | none => (.nothing, s)
  | .clone target source => s.withNode source fun i => name s.names target (i, s.store)
  | .rebuild target source =>
    s.withNode source fun i => name s.names target (s.store.add (s.store.kind i))
  | .operand target source place => s.withNode source fun i =>
    match (s.store.kind i).operands[place]? with
    | some a => name s.names target (a, s.store)
    | none => (.nothing, s)
  | .diff target source text => s.withNode source fun i =>
    match Var.read text with
    | .error e => (.failed e, s)
    | .ok v =>
      match s.store.diff v i with
      | (.ok d, store) => name s.names target (d, store)
      | (.error e, store) => (.failed e, { s with store })
  | .remembered source => s.ask source fun i => .flags (s.store.remembered i)
  | .compare a b => s.withNode a fun i => s.ask b fun j =>
    .comparison (i = j) (s.store.equal i j) (s.store.alike i j)
  | .identities sources => s.withNodes sources fun is => (.numbers (s.store.identities is), s)
  | .eval source p => s.ask source fun i => .value ((s.store.expr i).eval p)
  | .evalWith source binding => s.ask source fun i =>
    match (s.store.expr i).evalWith binding with
    | .ok v => .value v
    | .error e => .failed e
  | .inspect source => s.ask source fun i => .expr (s.store.expr i)
  | .visits source skip => s.ask source fun i => .visits ((s.store.expr i).visits skip)
  | .describe source => s.ask source fun i => .text (s.store.describe i)

/-- The replies to commands, each with the number of events by then, and the last session. -/
def runAll (s : Session) : List Command → List (Reply × Nat) × Session
  | [] => ([], s)
  | c :: cs =>
    let (reply, s) := s.run c
    let events := s.store.events.size
    let (replies, s) := s.runAll cs
    ((reply, events) :: replies, s)

/-- Cuts a list at the given places, which count from its start. -/
def cut {α : Type} (done : Nat) : List Nat → List α → List (List α)
  | [], _ => []
  | place :: places, xs =>
    xs.take (place - done) :: cut place places (xs.drop (place - done))

/-- The replies to commands from an empty session, each with what happened meanwhile. -/
def transcript (commands : List Command) : List (Reply × List (Level × String)) :=
  let (replies, s) := empty.runAll commands
  (replies.map Prod.fst).zip (cut 0 (replies.map Prod.snd) s.store.log)

end Session

end Formula
