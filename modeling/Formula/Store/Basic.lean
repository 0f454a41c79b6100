import Formula.Event
import Formula.Expr.Basic

/-!
# Shared expressions

A store is a growing array of nodes, each a constant, a variable, or an operation on earlier nodes.
An expression in the store is the number of its node, so one node may occur in many places, and
what it remembers it remembers in all of them: for each variable, its derivative once it was built.
A number outside the store reads as the constant zero.

`fold` goes over the expression that a node stands for, from the leaves up; `fold_op` is its
equation.  It ends because operands come earlier, which is a field of the store.
-/

namespace Formula

/-- What a node is. -/
inductive Kind where
  | const (c : Float)
  | var (v : Var)
  | op (o : Op) (args : List Nat)
  deriving DecidableEq

namespace Kind

/-- The nodes that an operation is on. -/
def operands : Kind → List Nat
  | op _ args => args
  | _ => []

/-- Leaves out operands that are not below `n`. -/
def below (n : Nat) : Kind → Kind
  | op o args => op o (args.filter (· < n))
  | k => k

theorem lt_of_mem_operands_below {n a : Nat} {k : Kind} (h : a ∈ (k.below n).operands) : a < n := by
  cases k <;> simp_all [below, operands]

theorem below_eq_self {n : Nat} {k : Kind} (h : ∀ a ∈ k.operands, a < n) : k.below n = k := by
  cases k <;> simp_all [below, operands]

end Kind

/-- A node and the derivatives that it remembers. -/
structure Node where
  kind : Kind
  derivatives : Triple (Option Nat) := .replicate none
  deriving DecidableEq

namespace Node

/-- The kind of a node in an array, the constant zero if there is no such node. -/
def kindIn (nodes : Array Node) (i : Nat) : Kind :=
  (nodes[i]?.map (·.kind)).getD (.const 0)

/-- The derivative that a node in an array remembers. -/
def derivativeIn? (nodes : Array Node) (i : Nat) (v : Var) : Option Nat :=
  nodes[i]?.bind (·.derivatives.get v)

/-- The node that remembers one derivative more. -/
def remember (node : Node) (v : Var) (d : Nat) : Node :=
  { node with derivatives := node.derivatives.set v (some d) }

theorem kindIn_push (nodes : Array Node) (node : Node) (i : Nat) :
    kindIn (nodes.push node) i = if i = nodes.size then node.kind else kindIn nodes i := by
  unfold kindIn
  rw [Array.getElem?_push]
  split <;> rfl

theorem kindIn_modify_remember (nodes : Array Node) (j : Nat) (v : Var) (d i : Nat) :
    kindIn (nodes.modify j (·.remember v d)) i = kindIn nodes i := by
  unfold kindIn
  rw [Array.getElem?_modify]
  split <;> cases nodes[i]? <;> rfl

end Node

/-- Nodes over earlier nodes, and what happened to them so far. -/
structure Store where
  nodes : Array Node := #[]
  events : Array Event := #[]
  ordered : ∀ i, ∀ a ∈ (Node.kindIn nodes i).operands, a < i := by simp [Node.kindIn, Kind.operands]

namespace Store

/-- The number of nodes. -/
def size (s : Store) : Nat := s.nodes.size

/-- What a node is. -/
def kind (s : Store) (i : Nat) : Kind := Node.kindIn s.nodes i

theorem lt_of_mem_args {s : Store} {i a : Nat} {o : Op} {args : List Nat}
    (h : s.kind i = .op o args) (ha : a ∈ args) : a < i :=
  s.ordered i a (by rw [show Node.kindIn s.nodes i = _ from h]; exact ha)

/-- The derivative that a node remembers. -/
def derivative? (s : Store) (i : Nat) (v : Var) : Option Nat := Node.derivativeIn? s.nodes i v

/-- Whether a node remembers its derivative, for each variable. -/
def remembered (s : Store) (i : Nat) : Triple Bool :=
  let has := fun v => (s.derivative? i v).isSome
  ⟨has .x, has .y, has .z⟩

/-- Notes an event. -/
def note (s : Store) (e : Event) : Store := { s with events := s.events.push e }

/-- A new node, which remembers nothing.  Operands that are not in the store are left out. -/
def add (s : Store) (k : Kind) : Nat × Store :=
  (s.size,
    { s with
      nodes := s.nodes.push ⟨k.below s.size, .replicate none⟩
      ordered := by
        intro i a h
        rw [Node.kindIn_push] at h
        split at h
        · next same => exact same ▸ Kind.lt_of_mem_operands_below h
        · exact s.ordered i a h })

/-- Makes a node remember a derivative, in place of what it remembered. -/
def remember (s : Store) (i : Nat) (v : Var) (d : Nat) : Store :=
  { s with
    nodes := s.nodes.modify i (·.remember v d)
    ordered := by
      intro j a h
      rw [Node.kindIn_modify_remember] at h
      exact s.ordered j a h }

mutual

/-- Adds a term, with `leaf` for its variables.  Every constant and operation is a new node. -/
def plant {α : Type} (leaf : α → Store → Nat × Store) (s : Store) : Term α → Nat × Store
  | .const c => s.add (.const c)
  | .var v => leaf v s
  | .op o args =>
    let (roots, s) := plantAll leaf s args
    s.add (.op o roots)

/-- Adds several terms, from the left. -/
def plantAll {α : Type} (leaf : α → Store → Nat × Store) (s : Store) :
    List (Term α) → List Nat × Store
  | [] => ([], s)
  | t :: ts =>
    let (root, s) := plant leaf s t
    let (roots, s) := plantAll leaf s ts
    (root :: roots, s)

end

/-- Adds an expression, with a new node for each occurrence in it. -/
def addExpr (s : Store) (e : Expr) : Nat × Store :=
  s.plant (fun v s => s.add (.var v)) e

/-- Adds a term over nodes of the store, which are not copied. -/
def addTerm (s : Store) (t : Term Nat) : Nat × Store :=
  s.plant (fun i s => (i, s)) t

section fold

variable {β : Type} (const : Nat → Float → β) (var : Nat → Var → β) (op : Nat → Op → List β → β)

/-- Replaces the nodes of an expression by functions of their numbers, from the leaves up. -/
def fold (s : Store) (i : Nat) : β :=
  match h : s.kind i with
  | .const c => const i c
  | .var v => var i v
  | .op o args => op i o (args.attach.map fun ⟨a, ha⟩ =>
      have : a < i := lt_of_mem_args h ha
      s.fold a)
termination_by i

theorem fold_const {s : Store} {i : Nat} {c : Float} (h : s.kind i = .const c) :
    s.fold const var op i = const i c := by
  rw [fold]
  split <;> simp_all

theorem fold_var {s : Store} {i : Nat} {v : Var} (h : s.kind i = .var v) :
    s.fold const var op i = var i v := by
  rw [fold]
  split <;> simp_all

theorem fold_op {s : Store} {i : Nat} {o : Op} {args : List Nat} (h : s.kind i = .op o args) :
    s.fold const var op i = op i o (args.map (s.fold const var op)) := by
  rw [fold]
  split <;> simp_all

end fold

/-- The expression that a node stands for. -/
def expr (s : Store) (i : Nat) : Expr :=
  s.fold (fun _ c => .const c) (fun _ v => .var v) (fun _ o args => .op o args) i

/-- The nodes of an expression, each occurrence before those in its operands. -/
def occurrences (s : Store) (i : Nat) : List Nat :=
  s.fold (fun i _ => [i]) (fun i _ => [i]) (fun i _ below => i :: below.flatten) i

end Store

end Formula
