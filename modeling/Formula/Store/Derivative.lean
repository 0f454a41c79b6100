import Formula.Op.Derivative
import Formula.Store.Basic

/-!
# Remembered derivatives

`diff` differentiates an expression of the store.  An operation that remembers the derivative
answers with it; another one differentiates its operands from the left, builds the derivative by the
operation's rule, and remembers it.  Leaves remember nothing: each time their derivative is a new
constant.  When an operand cannot be differentiated, what was built before stays remembered.

A rule that mentions the differentiated operation is given a new node with the same operands, so
that no node remembers a derivative in which it occurs itself.
-/

namespace Formula.Store

/-- Keeps `d` as a derivative unless there is one already; returns the one that is kept. -/
def keep (s : Store) (i : Nat) (v : Var) (d : Nat) : Nat × Store :=
  match s.derivative? i v with
  | some kept => (kept, s)
  | none => (d, s.remember i v d)

/-- Builds the derivative of operation `i` from those of its operands, and keeps it. -/
def derive (s : Store) (v : Var) (i : Nat) (o : Op) (args ds : List Nat) :
    Except Error Nat × Store :=
  let (self, s) := if o.mentionsSelf then s.add (.op o args) else (i, s)
  match o.derivative (.var self) ((args.zip ds).map fun (a, d) => (.var a, .var d)) with
  | none => (.error (.notDifferentiable o), s)
  | some t =>
    let (d, s) := s.addTerm t
    let (kept, s) := s.keep i v d
    (.ok kept, s)

mutual

/-- The derivative of node `i` by `v`, and the store afterwards. -/
def diff (v : Var) (s : Store) (i : Nat) : Except Error Nat × Store :=
  match h : s.kind i with
  | .const _ =>
    let (d, s) := s.add (.const 0)
    (.ok d, s)
  | .var w =>
    let (d, s) := s.add (.const (if w = v then 1 else 0))
    (.ok d, s)
  | .op o args =>
    match s.derivative? i v with
    | some d => (.ok d, s.note (.recalled i v))
    | none =>
      if o.isDifferentiable then
        match diffAll v i s args fun _ => lt_of_mem_args h with
        | (.error e, s) => (.error e, s)
        | (.ok ds, s) => (s.note (.derived i o v)).derive v i o args ds
      else (.error (.notDifferentiable o), s)
termination_by (i, 1, 0)

/-- The derivatives of nodes below `bound`, from the left, up to the first error. -/
def diffAll (v : Var) (bound : Nat) (s : Store) (args : List Nat) (h : ∀ a ∈ args, a < bound) :
    Except Error (List Nat) × Store :=
  match args with
  | [] => (.ok [], s)
  | a :: rest =>
    have : a < bound := h a (by simp)
    match diff v s a with
    | (.error e, s) => (.error e, s)
    | (.ok d, s) =>
      match diffAll v bound s rest fun b hb => h b (by simp [hb]) with
      | (.error e, s) => (.error e, s)
      | (.ok ds, s) => (.ok (d :: ds), s)
termination_by (bound, 0, args.length)

end

end Formula.Store
