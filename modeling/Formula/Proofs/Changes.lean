import Formula.Proofs.Outcomes

/-!
# What a request changes

A request fills empty places for derivatives by its variable, and changes nothing else that was
there.  When it succeeds, the operations of the expression are filled.  When it fails, a `signum` was
in the way: `FaultPath` goes down to it, each time by the first operand in whose expression a
`signum` occurs.  The walk that `Outcome` describes takes the same way, so what it leaves filled are
the operations of the operands before the path (`FaultPath.mem_visited_iff`).
-/

namespace Formula

theorem Op.isDifferentiable_iff {o : Op} : o.isDifferentiable ↔ o ≠ .signum := by
  cases o <;> simp [isDifferentiable]

namespace Outcome

theorem operation_ok_iff {i : Nat} {o : Op} {rs : List Outcome} :
    (operation i o rs).ok ↔ o.isDifferentiable ∧ ∀ r ∈ rs, r.ok := by
  refine ⟨fun h => ⟨?_, (operation_of_ok h).1⟩, fun ⟨differentiable, all⟩ =>
    operation_ok differentiable all⟩
  by_contra refused
  rw [operation, if_neg refused] at h
  cases h

/-- Requests stop behind the first that fails. -/
theorem mem_sequence_of_failed {before : List Outcome} {r : Outcome}
    (passed : ∀ r ∈ before, r.ok) (failed : r.ok = false) (after : List Outcome) :
    (sequence (before ++ r :: after)).ok = false ∧
      ∀ j, j ∈ (sequence (before ++ r :: after)).visited ↔
        (∃ r ∈ before, j ∈ r.visited) ∨ j ∈ r.visited := by
  induction before with
  | nil => simp [sequence, failed]
  | cons first before ih =>
    obtain ⟨ok, rest⟩ := List.forall_mem_cons.1 passed
    obtain ⟨stopped, mem⟩ := ih rest
    rw [List.cons_append, sequence, if_pos ok]
    refine ⟨stopped, fun j => ?_⟩
    rw [List.mem_append, mem, List.exists_mem_cons_iff, or_assoc]

end Outcome

namespace Store

variable {s s' : Store} {v : Var} {i j : Nat}

/-- A request succeeds when there is no `signum` in the expression. -/
theorem outcome_ok_iff : (s.outcome i).ok ↔ ¬ (s.expr i).uses .signum := by
  induction i using Nat.strongRecOn with
  | ind i ih =>
    cases kind : s.kind i with
    | const c =>
      rw [outcome_leaf (v := .x) (congrArg _ kind), expr_const kind]
      exact iff_of_true rfl nofun
    | var w =>
      rw [outcome_leaf (v := .x) (congrArg _ kind), expr_var kind]
      exact iff_of_true rfl nofun
    | op o args =>
      rw [outcome_op kind, Outcome.operation_ok_iff, Op.isDifferentiable_iff, expr_op kind,
        Term.uses_op, not_or, List.forall_mem_map]
      refine and_congr_right fun _ => ?_
      simp only [List.mem_map, not_exists, not_and, forall_exists_index, and_imp,
        forall_apply_eq_imp_iff₂]
      exact forall₂_congr fun a ha => ih a (lt_of_mem_args kind ha)

/-! ### The way to the fault -/

/--
The way down from a node to a `signum`, each time by the first operand in whose expression one
occurs.  The nodes on the way are `path`, and the operands that stand before it are `passed`.
-/
inductive FaultPath (s : Store) : Nat → List Nat → List Nat → Prop
  | here {i : Nat} {args : List Nat} (kind : s.kind i = .op .signum args) : FaultPath s i [i] []
  | down {i a : Nat} {o : Op} {before after path passed : List Nat}
      (kind : s.kind i = .op o (before ++ a :: after)) (other : o ≠ .signum)
      (without : ∀ b ∈ before, ¬ (s.expr b).uses .signum) (occurs : (s.expr a).uses .signum)
      (rest : FaultPath s a path passed) : FaultPath s i (i :: path) (before ++ passed)

/-- The node is an operation in the expression of another one. -/
def OperationIn (s : Store) (i j : Nat) : Prop := j ∈ s.occurrences i ∧ (s.kind j).isOperation

theorem mem_visited_iff_of_ok (h : (s.outcome i).ok) :
    j ∈ (s.outcome i).visited ↔ s.OperationIn i j := by
  rw [mem_visited_of_ok h, OperationIn, Kind.isOperation_iff]

/-- Where a `signum` occurs, the way leads to one. -/
theorem exists_faultPath (h : (s.expr i).uses .signum) :
    ∃ path passed, s.FaultPath i path passed := by
  induction i using Nat.strongRecOn with
  | ind i ih =>
    cases kind : s.kind i with
    | const c =>
      rw [expr_const kind] at h
      cases h
    | var w =>
      rw [expr_var kind] at h
      cases h
    | op o args =>
      by_cases same : o = .signum
      · subst same
        exact ⟨_, _, .here kind⟩
      · rw [expr_op kind, Term.uses_op] at h
        obtain ⟨e, he, occurs⟩ := h.resolve_left same
        obtain ⟨b, hb, rfl⟩ := List.mem_map.1 he
        obtain ⟨a, found⟩ := Option.isSome_iff_exists.1
          (List.find?_isSome.2 ⟨b, hb, occurs⟩ :
            (args.find? fun a => (s.expr a).uses .signum).isSome)
        obtain ⟨used, before, after, rfl, none⟩ := List.find?_eq_some_iff_append.1 found
        obtain ⟨path, passed, rest⟩ := ih a (lt_of_mem_args kind (by simp)) used
        exact ⟨_, _, .down kind same (fun b hb => by simpa using none b hb) used rest⟩

namespace FaultPath

variable {path passed : List Nat}

/-- On the whole path there is a `signum` ahead. -/
theorem uses (h : s.FaultPath i path passed) : ∀ j ∈ path, (s.expr j).uses .signum := by
  induction h with
  | here kind =>
    rw [List.forall_mem_singleton, expr_op kind, Term.uses_op]
    exact .inl rfl
  | down kind _ _ occurs _ ih =>
    refine List.forall_mem_cons.2 ⟨?_, ih⟩
    rw [expr_op kind, Term.uses_op]
    exact .inr ⟨_, List.mem_map_of_mem (by simp), occurs⟩

theorem lt_size (h : s.FaultPath i path passed) : ∀ j ∈ path, j < s.size := by
  induction h with
  | here kind => exact List.forall_mem_singleton.2 (lt_size_of_kind_op kind)
  | down kind _ _ _ _ ih => exact List.forall_mem_cons.2 ⟨lt_size_of_kind_op kind, ih⟩

/-- The walk takes the same way, and visits the operations before it. -/
theorem mem_visited_iff (h : s.FaultPath i path passed) :
    j ∈ (s.outcome i).visited ↔ ∃ b ∈ passed, s.OperationIn b j := by
  induction h with
  | here kind =>
    rw [outcome_op kind]
    simp [Outcome.operation, Op.isDifferentiable]
  | @down i a o before after path passed kind other without occurs rest ih =>
    have ok : ∀ b ∈ before, (s.outcome b).ok := fun b hb => outcome_ok_iff.2 (without b hb)
    have failed : (s.outcome a).ok = false := by
      rw [← Bool.not_eq_true, outcome_ok_iff]
      exact not_not_intro occurs
    obtain ⟨stopped, mem⟩ := Outcome.mem_sequence_of_failed (List.forall_mem_map.2 ok) failed
      (after.map s.outcome)
    have visited : (∃ r ∈ before.map s.outcome, j ∈ r.visited) ↔
        ∃ b ∈ before, s.OperationIn b j := by
      simp only [List.mem_map, exists_exists_and_eq_and]
      exact exists_congr fun b => and_congr_right fun hb => mem_visited_iff_of_ok (ok b hb)
    rw [outcome_op kind, List.map_append, List.map_cons, Outcome.operation,
      if_pos (Op.isDifferentiable_iff.2 other), stopped, if_neg Bool.false_ne_true, mem, ih, visited]
    simp only [List.mem_append, or_and_right, exists_or]

end FaultPath

/-- What remembers a derivative has no `signum` in its expression. -/
theorem Settled.not_uses {d : Nat} (hs : s.Settled) (found : s.derivative? i v = some d) :
    ¬ (s.expr i).uses .signum :=
  outcome_ok_iff.1 (hs.outcome found).1

/-- A request leaves alone what is remembered by other variables. -/
theorem Leaves.unchanged {visited : List Nat} (h : Leaves v s s' visited) (grows : Grows s s')
    {w : Var} (other : w ≠ v) (j : Nat) : s'.derivative? j w = s.derivative? j w := by
  cases found : s.derivative? j w with
  | some d => exact grows.kept j w d found
  | none =>
    have still := (h j w).not
    simpa [found, other] using still

end Store

/--
What a request for the derivative of `n` by `v` changes in any session, whether it succeeds or fails.
Nodes stay what they are, and remember what they did; only derivatives by `v` are remembered in
addition.  A request that succeeds leaves every operation in the expression with its derivative, and
adds no other.  A request that fails has met a `signum` on the fault path: it adds the derivatives of
the operations in the operands before the path, and no others, and none on the path itself.
-/
theorem Session.changes_of_diff (commands : List Command) (v : Var) (n : Nat) :
    let s := (empty.runAll commands).2.store
    let s' := (s.diff v n).2
    (∀ j < s.size, s'.kind j = s.kind j) ∧
      (∀ j w, w ≠ v → s'.derivative? j w = s.derivative? j w) ∧
      (∀ j w d, s.derivative? j w = some d → s'.derivative? j w = some d) ∧
      (∀ d, (s.diff v n).1 = .ok d → ∀ j,
        (s'.derivative? j v).isSome ↔ (s.derivative? j v).isSome ∨ s.OperationIn n j) ∧
      ∀ e, (s.diff v n).1 = .error e →
        (∃ path passed, s.FaultPath n path passed) ∧
          ∀ path passed, s.FaultPath n path passed →
            (∀ j, (s'.derivative? j v).isSome ↔
              (s.derivative? j v).isSome ∨ ∃ b ∈ passed, s.OperationIn b j) ∧
            ∀ j ∈ path, s'.derivative? j v = none := by
  intro s s'
  have sound : s.Sound := sound_runAll commands
  have settled : s.Settled := settled_runAll commands
  have course : s.Diffs v n (s.diff v n).1 s' := Store.diff_diffs v s n sound
  have grows : s.Grows s' := course.steps.grows
  obtain ⟨ok, leaves⟩ := course.outcome settled
  have filled (j : Nat) : (s'.derivative? j v).isSome ↔
      (s.derivative? j v).isSome ∨ j ∈ (s.outcome n).visited := by
    simpa using leaves j v
  refine ⟨grows.kind_eq, fun j w other => leaves.unchanged grows other j, grows.kept,
    fun d answer j => ?_, fun e answer => ⟨?_, fun path passed fault => ⟨fun j => ?_, ?_⟩⟩⟩
  · rw [answer] at ok
    rw [filled, Store.mem_visited_iff_of_ok ok.symm]
  · rw [answer] at ok
    refine Store.exists_faultPath (Classical.not_not.1 fun absent => ?_)
    rw [Store.outcome_ok_iff.2 absent] at ok
    cases ok
  · rw [filled, fault.mem_visited_iff]
  · intro j hj
    cases found : s'.derivative? j v with
    | none => rfl
    | some d =>
      have absent := (settled.steps course.steps).not_uses found
      rw [grows.expr_eq (fault.lt_size j hj)] at absent
      exact absurd (fault.uses j hj) absent

/-- The request by `y` is refused at node 2, after node 1 has its derivative. -/
theorem Session.changes_of_diff_partlyDerived :
    let s := (empty.runAll partlyDerived).2.store
    let s' := (s.diff .y 3).2
    (s.diff .y 3).1 = .error (.notDifferentiable .signum) ∧ s.FaultPath 3 [3, 2] [1] ∧
      s'.derivative? 1 .x = some 6 ∧ s.derivative? 1 .y = none ∧ (s'.derivative? 1 .y).isSome ∧
        s'.derivative? 2 .y = none ∧ s'.derivative? 3 .y = none := by
  intro s s'
  have store : s = .partlyDerived := store_partlyDerived
  have path : s.FaultPath 3 [3, 2] [1] := by
    have sum : Store.partlyDerived.kind 3 = .op .add ([1] ++ 2 :: []) := rfl
    have sign : Store.partlyDerived.kind 2 = .op .signum [1] := rfl
    rw [store]
    exact .down sum (by decide) (by decide +kernel) (by decide +kernel) (.here sign)
  have negation : s.OperationIn 1 1 := by
    have kind : Store.partlyDerived.kind 1 = .op .neg [0] := rfl
    rw [store]
    exact ⟨(Store.mem_occurrences_op kind).2 (.inl rfl), rfl⟩
  have refused := refused_partlyDerived .y
  obtain ⟨-, -, kept, -, failed⟩ := changes_of_diff partlyDerived .y 3
  obtain ⟨filled, empty⟩ := (failed _ refused).2 _ _ path
  exact ⟨refused, path, kept 1 .x 6 remembered_partlyDerived, by rw [store]; rfl,
    (filled 1).2 (.inr ⟨1, List.mem_singleton_self 1, negation⟩), empty 2 (by decide),
    empty 3 (by decide)⟩

end Formula
