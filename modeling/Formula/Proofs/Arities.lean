import Formula.Proofs.Checked
import Formula.Proofs.Sessions

/-!
# Operand counts in a session

In every session each operation has as many operands as it takes, those in remembered derivatives
included.  So the checked rules do not slip on any node: differentiating with them is
differentiating (`Checked.diff_eq`), whether it succeeds or fails, and so is evaluating.
-/

namespace Formula

namespace Checked

open Store (lt_of_mem_args)

/-! ### Checked differentiation -/

/-- The node that a rule is given for the operation that it differentiates. -/
def selfNode (s : Store) (i : Nat) (o : Op) (args : List Nat) : Checked (Nat × Store) := do
  if o.mentionsSelf then
    accept o args.length
    return s.add (.op o args)
  else return (i, s)

/-- Builds the derivative of operation `i` by a rule, and keeps it. -/
def derive (rule : Rule Nat) (s : Store) (v : Var) (i : Nat) (o : Op) (args ds : List Nat) :
    Checked (Except Error Nat × Store) := do
  let (self, s) ← selfNode s i o args
  let t ← rule (.var self) (args.map .var) (ds.map .var)
  let (d, s) := s.addTerm t
  let (kept, s) := s.keep i v d
  return (.ok kept, s)

mutual

/-- The derivative of node `i` by `v`, and the store afterwards. -/
def diff (v : Var) (s : Store) (i : Nat) : Checked (Except Error Nat × Store) :=
  match h : s.kind i with
  | .const _ =>
    let (d, s) := s.add (.const 0)
    .ok (.ok d, s)
  | .var w =>
    let (d, s) := s.add (.const (if w = v then 1 else 0))
    .ok (.ok d, s)
  | .op o args =>
    match s.derivative? i v with
    | some d => .ok (.ok d, s.note (.recalled i v))
    | none =>
      match rule? o with
      | none => .ok (.error (.notDifferentiable o), s)
      | some rule => do
        match ← diffAll v i s args fun _ => lt_of_mem_args h with
        | (.error e, s) => return (.error e, s)
        | (.ok ds, s) => derive rule (s.note (.derived i o v)) v i o args ds
termination_by (i, 1, 0)

/-- The derivatives of nodes below `bound`, from the left, up to the first error. -/
def diffAll (v : Var) (bound : Nat) (s : Store) (args : List Nat) (h : ∀ a ∈ args, a < bound) :
    Checked (Except Error (List Nat) × Store) :=
  match args with
  | [] => .ok (.ok [], s)
  | a :: rest => do
    have : a < bound := h a (by simp)
    match ← diff v s a with
    | (.error e, s) => return (.error e, s)
    | (.ok d, s) =>
      match ← diffAll v bound s rest fun b hb => h b (by simp [hb]) with
      | (.error e, s) => return (.error e, s)
      | (.ok ds, s) => return (.ok (d :: ds), s)
termination_by (bound, 0, args.length)

end

variable {s : Store} {v : Var} {i : Nat} {o : Op} {args ds : List Nat} {rule : Rule Nat}

theorem selfNode_eq (count : o.arity.accepts args.length) :
    selfNode s i o args = .ok (if o.mentionsSelf then s.add (.op o args) else (i, s)) := by
  unfold selfNode
  split
  · rw [accept_eq count]
    rfl
  · rfl

theorem derive_eq (h : rule? o = some rule) (count : o.arity.accepts args.length)
    (length : ds.length = args.length) :
    derive rule s v i o args ds = .ok (s.derive v i o args ds) := by
  rw [derive, selfNode_eq count, Store.derive]
  generalize (if o.mentionsSelf then s.add (.op o args) else (i, s)) = node
  obtain ⟨self, s₁⟩ := node
  have counts : o.arity.accepts (args.map Term.var : List (Term Nat)).length := by
    rwa [List.length_map]
  have lengths : (ds.map Term.var : List (Term Nat)).length = (args.map Term.var).length := by
    simpa using length
  obtain ⟨t, checked, plain⟩ := rule?_eq h counts lengths (.var self)
  have plain : o.derivative (.var self)
      ((args.zip ds).map fun x => (Term.var x.1, Term.var x.2)) = some t := by
    rwa [List.zip_map] at plain
  change (rule (.var self) (args.map .var) (ds.map .var) >>= _) = _
  rw [checked]
  dsimp only
  rw [plain]
  rfl

/-! ### One node -/

theorem diff_const {c : Float} (h : s.kind i = .const c) : diff v s i = .ok (s.diff v i) := by
  rw [Store.diff_const h, diff]
  split <;> simp_all

theorem diff_var {w : Var} (h : s.kind i = .var w) : diff v s i = .ok (s.diff v i) := by
  rw [Store.diff_var h, diff]
  split <;> simp_all

theorem diff_recalled {d : Nat} (h : s.kind i = .op o args)
    (recalled : s.derivative? i v = some d) : diff v s i = .ok (s.diff v i) := by
  rw [Store.diff_recalled h recalled, diff]
  split <;> simp_all

theorem diff_refused (h : s.kind i = .op o args) (empty : s.derivative? i v = none)
    (refused : rule? (α := Nat) o = none) : diff v s i = .ok (s.diff v i) := by
  have refused' : o.isDifferentiable = false := by
    rw [← rule?_isSome (α := Nat), refused]
    rfl
  rw [Store.diff_refused h empty refused', diff]
  split <;> simp_all

theorem diff_derived (h : s.kind i = .op o args) (empty : s.derivative? i v = none)
    (hrule : rule? o = some rule) :
    diff v s i = (do
      match ← diffAll v i s args fun _ => lt_of_mem_args h with
      | (.error e, s) => return (.error e, s)
      | (.ok ds, s) => derive rule (s.note (.derived i o v)) v i o args ds) := by
  rw [diff]
  split
  · simp_all
  · simp_all
  · next o' args' h' =>
    obtain ⟨rfl, rfl⟩ := Kind.op.inj (h.symm.trans h')
    rw [empty]
    dsimp only
    rw [hrule]

/-! ### All nodes -/

mutual

/-- Differentiating a node does not slip. -/
theorem diff_eq (v : Var) (s : Store) (i : Nat) (hs : s.Sound) : diff v s i = .ok (s.diff v i) := by
  cases kind : s.kind i with
  | const c => exact diff_const kind
  | var w => exact diff_var kind
  | op o args =>
    cases recalled : s.derivative? i v with
    | some d => exact diff_recalled kind recalled
    | none =>
      cases rule : rule? o with
      | none => exact diff_refused kind recalled rule
      | some rule' =>
        have differentiable : o.isDifferentiable := by
          rw [← rule?_isSome (α := Nat), rule]
          rfl
        have hi : i < s.size := Store.lt_size_of_kind_op kind
        have below : ∀ a ∈ args, a < i := fun _ => lt_of_mem_args kind
        have operands := diffAll_eq v i s args below hi hs
        have agrees := Store.diffAll_agrees v i s args below hi hs
        rw [diff_derived kind recalled rule, operands,
          Store.diff_derived kind recalled differentiable]
        generalize Store.diffAll v i s args below = result at agrees ⊢
        obtain ⟨e | ds, s₁⟩ := result
        · rfl
        -- The operand count is the invariant, the number of derivatives that of the plain recursion.
        · have length : ds.length = args.length := by
            simpa using Expr.length_of_diffAll agrees.answer.symm
          exact derive_eq rule (hs.fits i o args kind) length
termination_by (i, 1, 0)

theorem diffAll_eq (v : Var) (bound : Nat) (s : Store) (args : List Nat)
    (h : ∀ a ∈ args, a < bound) (hbound : bound < s.size) (hs : s.Sound) :
    diffAll v bound s args h = .ok (Store.diffAll v bound s args h) := by
  match args with
  | [] =>
    rw [diffAll, Store.diffAll]
  | a :: rest =>
    have below : a < bound := h a (by simp)
    have head := diff_eq v s a hs
    have agrees := Store.diff_agrees v s a hs
    rw [diffAll, Store.diffAll, head]
    generalize s.diff v a = result at agrees ⊢
    obtain ⟨e | d, s₁⟩ := result
    · rfl
    · have tail := diffAll_eq v bound s₁ rest (fun b hb => h b (by simp [hb]))
        (Nat.lt_of_lt_of_le hbound agrees.grows.size_le) agrees.sound
      change (diffAll v bound s₁ rest _ >>= _) = _
      rw [tail]
      dsimp only
      generalize Store.diffAll v bound s₁ rest _ = result
      obtain ⟨e | ds, s₂⟩ := result <;> rfl
termination_by (bound, 0, args.length)

end

end Checked

/-- The items of a bracket make an operation or nothing, with as many operands as it takes. -/
theorem Parser.operation_of_close {n : Notation} {items : List Item} {e : Expr}
    (h : close n items = .ok e) :
    ∃ o args, e = .op o args ∧ o.arity.accepts args.length := by
  unfold close at h
  split at h
  · cases h
  · cases h
  · next o rest _ =>
    cases operands : operands n rest with
    | error fault => simp [operands, bind, Except.bind] at h
    | ok args =>
      rw [operands] at h
      change (if o.arity.accepts args.length then _ else _) = _ at h
      split at h
      · next count => exact ⟨o, args, (Except.ok.inj h).symm, count⟩
      · cases h

/--
Every operation of a session has as many operands as it takes, whatever built it: a text, a request
by sign, or a derivative rule.  So nothing slips when a node is evaluated or differentiated, however
often: the checked rules give what the rules give.
-/
theorem Session.operand_counts_hold (commands : List Command) :
    let s := (empty.runAll commands).2.store
    (∀ i o args, s.kind i = .op o args → o.arity.accepts args.length) ∧
      (∀ i p, Checked.eval (s.expr i) p = .ok ((s.expr i).eval p)) ∧
      (∀ i binding, (Checked.evalWith (s.expr i) binding).run = .ok ((s.expr i).evalWith binding)) ∧
      (∀ v i, Checked.diff v s i = .ok (s.diff v i)) ∧
      (∀ sign count o, Op.fitting? sign count = some o → o.arity.accepts count) ∧
      ∀ n items e, Parser.close n items = .ok e →
        ∃ o args, e = .op o args ∧ o.arity.accepts args.length := by
  intro s
  have sound : s.Sound := (runAll_sound .empty commands).store
  refine ⟨sound.fits, fun i p => Checked.eval_eq (sound.expr_fits i) p,
    fun i binding => Checked.evalWith_eq (sound.expr_fits i) binding,
    fun v i => Checked.diff_eq v s i sound, fun sign count o fitting => ?_,
    fun n items e => Parser.operation_of_close⟩
  exact (Option.filter_eq_some_iff.1 fitting).2

theorem Session.operand_counts_hold_partlyDerived :
    let s := (empty.runAll partlyDerived).2.store
    s.kind 6 = .op .neg [5] ∧ Op.neg.arity.accepts 1 ∧
      (s.diff .x 3).1 = .error (.notDifferentiable .signum) ∧
        Checked.diff .x s 3 = .ok (s.diff .x 3) ∧ Checked.diff .y s 1 = .ok (s.diff .y 1) := by
  intro s
  obtain ⟨counts, -, -, checked, -⟩ := operand_counts_hold partlyDerived
  have built : s.kind 6 = .op .neg [5] := congrArg (Store.kind · 6) store_partlyDerived
  exact ⟨built, counts 6 .neg [5] built, refused_partlyDerived .x, checked .x 3, checked .y 1⟩

end Formula
