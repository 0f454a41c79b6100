import Formula.Expr.Basic

/-!
# Walks over an expression

A walk visits every occurrence before those in its operands, and threads a state of the visitor's
choice.  At an operation the visitor decides whether its operands are visited.  `nodeCount` is a
walk that counts, `vars` one that collects, and `visits` one that records what it meets, except below
the operations with the given signs.  A walk adds to the state that it starts from, so the count of
an operation is that of its operands (`nodeCount_op`), and a variable is collected when it occurs
(`vars_eq_filter`).
-/

namespace Formula

/-- What to do at each kind of node. -/
structure Visitor (σ : Type) where
  const : Float → σ → σ
  var : Var → σ → σ
  /-- Gets the operation and its operands, and tells whether to visit them. -/
  op : Op → List Expr → σ → σ × Bool

/-- What a walk meets. -/
inductive Visit where
  | const (c : Float)
  | var (v : Var)
  | op (o : Op) (count : Nat)
  deriving DecidableEq

namespace Visitor

/-- Counts every visit. -/
def counter : Visitor Nat where
  const _ n := n + 1
  var _ n := n + 1
  op _ _ n := (n + 1, true)

/-- Marks the variables that it meets. -/
def collector : Visitor (Triple Bool) where
  const _ found := found
  var v found := found.set v true
  op _ _ found := (found, true)

/-- Records every visit, the last first, and stays above operations whose sign is in `skip`. -/
def recorder (skip : List String) : Visitor (List Visit) where
  const c seen := .const c :: seen
  var v seen := .var v :: seen
  op o args seen := (.op o args.length :: seen, o.sign ∉ skip)

end Visitor

namespace Expr

mutual

/-- Walks over the expression from a state, and returns the last state. -/
def walk {σ : Type} (visitor : Visitor σ) : Expr → σ → σ
  | .const c, state => visitor.const c state
  | .var v, state => visitor.var v state
  | .op o args, state =>
    let (state, descend) := visitor.op o args state
    if descend then walkAll visitor args state else state

/-- Walks over several expressions, each from where the one before ended. -/
def walkAll {σ : Type} (visitor : Visitor σ) : List Expr → σ → σ
  | [], state => state
  | e :: es, state => walkAll visitor es (walk visitor e state)

end

/-- The number of constants, variables and operations, each occurrence counted. -/
def nodeCount (e : Expr) : Nat := e.walk .counter 0

/-- The variables that occur, in the order `x`, `y`, `z`. -/
def vars (e : Expr) : List Var :=
  Var.all.filter (e.walk .collector (.replicate false)).get

/-- What a walk meets that stays above the operations with the given signs. -/
def visits (skip : List String) (e : Expr) : List Visit :=
  (e.walk (.recorder skip) []).reverse

mutual

theorem walk_counter : ∀ (e : Expr) (n : Nat), e.walk .counter n = n + e.nodeCount
  | .const _, _ => rfl
  | .var _, _ => rfl
  | .op o args, n => by
    -- the walk over the operands starts one later than the walk over all
    show walkAll .counter args (n + 1) = n + walkAll .counter args (0 + 1)
    rw [walkAll_counter, walkAll_counter, Nat.zero_add, Nat.add_assoc]

theorem walkAll_counter : ∀ (es : List Expr) (n : Nat),
    walkAll .counter es n = n + (es.map nodeCount).foldr (· + ·) 0
  | [], _ => rfl
  | e :: es, n => by
    rw [walkAll, walkAll_counter es, walk_counter e, List.map_cons, List.foldr_cons, Nat.add_assoc]

end

theorem nodeCount_op (o : Op) (args : List Expr) :
    nodeCount (.op o args) = 1 + (args.map nodeCount).foldr (· + ·) 0 :=
  walkAll_counter args 1

mutual

theorem walk_collector (v : Var) : ∀ (e : Expr) (found : Triple Bool),
    (e.walk .collector found).get v = (found.get v || e.mentions v)
  | .const _, found => (Bool.or_false (found.get v)).symm
  | .var w, found => by
    show (found.set w true).get v = (found.get v || decide (w = v))
    rw [Triple.get_set]
    by_cases same : v = w <;> simp [same, eq_comm]
  | .op o args, found => by
    rw [mentions_op]
    exact walkAll_collector v args found

theorem walkAll_collector (v : Var) : ∀ (es : List Expr) (found : Triple Bool),
    (walkAll .collector es found).get v = (found.get v || es.any (mentions · v))
  | [], found => (Bool.or_false (found.get v)).symm
  | e :: es, found => by
    rw [walkAll, walkAll_collector v es, walk_collector v e, List.any_cons, Bool.or_assoc]

end

/-- The variables that a walk collects are those that occur. -/
theorem vars_eq_filter (e : Expr) : e.vars = Var.all.filter e.mentions :=
  List.filter_congr fun v _ => by rw [walk_collector, Triple.get_replicate, Bool.false_or]

end Expr

end Formula
