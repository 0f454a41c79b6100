import Formula.Expr.Derivative
import Formula.Proofs.Substitution

/-!
# The plain recursion

How the derivative of an operation comes from those of its operands, in both directions, and when
there is one: an expression with as many operands everywhere as it should have is refused exactly
when `signum` occurs in it (`diff_cases`).  What is kept by every rule is kept by differentiation
(`diff_induction`, `diff_every`).
-/

namespace Formula.Expr

theorem diff_op_of_rule {v : Var} {o : Op} {es ds : List Expr} {d : Expr}
    (differentiable : o.isDifferentiable) (h : diffAll v es = .ok ds)
    (rule : o.derivative (.op o es) (es.zip ds) = some d) : diff v (.op o es) = .ok d := by
  simp only [diff, if_pos differentiable, h, bind, Except.bind, rule]

theorem diff_op_of_error {v : Var} {o : Op} {es : List Expr} {e : Error}
    (differentiable : o.isDifferentiable) (h : diffAll v es = .error e) :
    diff v (.op o es) = .error e := by
  rw [diff, if_pos differentiable, h]
  rfl

theorem diff_op_of_refused {v : Var} {o : Op} {es : List Expr} (h : o.isDifferentiable = false) :
    diff v (.op o es) = .error (.notDifferentiable o) := by
  simp [diff, h]

theorem diffAll_cons_ok {v : Var} {e : Expr} {es ds : List Expr} (h : diffAll v (e :: es) = .ok ds) :
    ∃ d ds', diff v e = .ok d ∧ diffAll v es = .ok ds' ∧ ds = d :: ds' := by
  rw [diffAll] at h
  cases head : diff v e with
  | error err => simp [head, bind, Except.bind] at h
  | ok d =>
    cases tail : diffAll v es with
    | error err => simp [head, tail, bind, Except.bind] at h
    | ok ds' =>
      rw [head, tail] at h
      exact ⟨d, ds', rfl, rfl, (Except.ok.inj h).symm⟩

theorem length_of_diffAll {v : Var} {es ds : List Expr} (h : diffAll v es = .ok ds) :
    ds.length = es.length := by
  induction es generalizing ds with
  | nil =>
    obtain rfl := Except.ok.inj h
    rfl
  | cons e es ih =>
    obtain ⟨d, ds', -, tail, rfl⟩ := diffAll_cons_ok h
    exact congrArg Nat.succ (ih tail)

/-- Each expression comes with its own derivative. -/
theorem diff_of_mem_zip {v : Var} {es ds : List Expr} (h : diffAll v es = .ok ds) :
    ∀ x ∈ es.zip ds, diff v x.1 = .ok x.2 := by
  induction es generalizing ds with
  | nil => exact List.forall_mem_nil _
  | cons e es ih =>
    obtain ⟨d, ds', head, tail, rfl⟩ := diffAll_cons_ok h
    exact List.forall_mem_cons.2 ⟨head, ih tail⟩

/-- A derivative of an operation was built by its rule. -/
theorem rule_of_diff_op {v : Var} {o : Op} {es : List Expr} {d : Expr}
    (h : diff v (.op o es) = .ok d) :
    ∃ ds, diffAll v es = .ok ds ∧ o.derivative (.op o es) (es.zip ds) = some d := by
  rw [diff] at h
  split at h
  · cases all : diffAll v es with
    | error err => simp [all, bind, Except.bind] at h
    | ok ds =>
      refine ⟨ds, rfl, ?_⟩
      cases rule : o.derivative (.op o es) (es.zip ds) with
      | none => simp [all, rule, bind, Except.bind] at h
      | some d' =>
        simp only [all, rule, bind, Except.bind, Except.ok.injEq] at h
        rw [h]
  · cases h

/--
To relate expressions to their derivatives, relate leaves to theirs, and operations whose operands
are related to theirs to what the rule builds.
-/
theorem diff_induction {v : Var} {R : Expr → Expr → Prop} (const : ∀ c, R (.const c) (.const 0))
    (var : ∀ w, R (.var w) (.const (if w = v then 1 else 0)))
    (op : ∀ o es ds d, ds.length = es.length → (∀ x ∈ es.zip ds, R x.1 x.2) →
      o.derivative (.op o es) (es.zip ds) = some d → R (.op o es) d)
    {e d : Expr} (h : diff v e = .ok d) : R e d := by
  induction e using Term.rec_mem generalizing d with
  | const c =>
    obtain rfl := Except.ok.inj h
    exact const c
  | var w =>
    obtain rfl := Except.ok.inj h
    exact var w
  | op o es ih =>
    obtain ⟨ds, all, rule⟩ := rule_of_diff_op h
    refine op o es ds d (length_of_diffAll all) (fun x hx => ?_) rule
    exact ih x.1 (List.of_mem_zip hx).1 (diff_of_mem_zip all x hx)

/-- A derivative passes the tests that the expression passes, if what rules add does. -/
theorem diff_every {const : Float → Bool} {op : Op → Nat → Bool} {v : Var} {e d : Expr}
    (zero : const 0) (one : const 1) (admits : ∀ o n, op o n → o.Admits n const op)
    (he : e.every const op) (h : diff v e = .ok d) : d.every const op := by
  refine diff_induction (R := fun e d => e.every const op → d.every const op) (fun _ _ => zero)
    (fun w _ => ?_) (fun o es ds d length operands rule hself => ?_) h he
  · split
    · exact one
    · exact zero
  · obtain ⟨here, below⟩ := Term.every_op.1 hself
    have counted : (es.zip ds).length = es.length := by simp [length]
    refine Op.derivative_every (counted ▸ admits o _ here) hself (fun x hx => ?_) rule
    have passed := below x.1 (List.of_mem_zip hx).1
    exact ⟨passed, operands x hx passed⟩

theorem diff_fits {v : Var} {e d : Expr} (he : e.fits) (h : diff v e = .ok d) : d.fits :=
  diff_every rfl rfl (fun o n _ => o.admits_fits n) he h

theorem diffAll_cases {v : Var} {es : List Expr}
    (h : ∀ e ∈ es, e.uses .signum = false ∧ (∃ d, diff v e = .ok d) ∨
      e.uses .signum ∧ diff v e = .error (.notDifferentiable .signum)) :
    (∀ e ∈ es, e.uses .signum = false) ∧ (∃ ds, diffAll v es = .ok ds) ∨
      (∃ e ∈ es, e.uses .signum) ∧ diffAll v es = .error (.notDifferentiable .signum) := by
  induction es with
  | nil => exact .inl ⟨List.forall_mem_nil _, [], rfl⟩
  | cons e es ih =>
    obtain ⟨he, hes⟩ := List.forall_mem_cons.1 h
    rcases he with ⟨smooth, d, hd⟩ | ⟨used, err⟩
    · rcases ih hes with ⟨smooths, ds, hds⟩ | ⟨⟨e', he', used⟩, err⟩
      · refine .inl ⟨List.forall_mem_cons.2 ⟨smooth, smooths⟩, d :: ds, ?_⟩
        rw [diffAll, hd, hds]
        rfl
      · refine .inr ⟨⟨e', List.mem_cons_of_mem e he', used⟩, ?_⟩
        rw [diffAll, hd, err]
        rfl
    · refine .inr ⟨⟨e, List.mem_cons_self, used⟩, ?_⟩
      rw [diffAll, err]
      rfl

/-- An expression without `signum` has a derivative, and one with `signum` is refused for it. -/
theorem diff_cases {e : Expr} (fits : e.fits) (v : Var) :
    e.uses .signum = false ∧ (∃ d, diff v e = .ok d) ∨
      e.uses .signum ∧ diff v e = .error (.notDifferentiable .signum) := by
  induction e using Term.rec_mem with
  | const c => exact .inl ⟨rfl, _, rfl⟩
  | var w => exact .inl ⟨rfl, _, rfl⟩
  | op o args ih =>
    obtain ⟨count, operands⟩ := Term.fits_op.1 fits
    by_cases differentiable : o.isDifferentiable
    · have other : o ≠ .signum := by
        rintro rfl
        cases differentiable
      rcases diffAll_cases fun e he => ih e he (operands e he) with ⟨smooth, ds, hds⟩ | ⟨used, err⟩
      · obtain ⟨d, rule⟩ := Option.isSome_iff_exists.1 (show
          (o.derivative (.op o args) (args.zip ds)).isSome by
            rw [Op.derivative_isSome, differentiable]
            simpa [length_of_diffAll hds] using count)
        refine .inl ⟨?_, d, diff_op_of_rule differentiable hds rule⟩
        rw [← Bool.not_eq_true, Term.uses_op]
        rintro (same | ⟨e, he, used⟩)
        · exact other same
        · rw [smooth e he] at used
          cases used
      · exact .inr ⟨Term.uses_op.2 (.inr used), diff_op_of_error differentiable err⟩
    · have refused : o.isDifferentiable = false := Bool.not_eq_true _ ▸ differentiable
      obtain rfl : o = .signum := by
        cases o <;> first | rfl | cases refused
      exact .inr ⟨Term.uses_op.2 (.inl rfl), diff_op_of_refused refused⟩

theorem exists_diff {e : Expr} (fits : e.fits) (unsigned : ¬ e.uses .signum) (v : Var) :
    ∃ d, diff v e = .ok d :=
  (diff_cases fits v).elim And.right fun refused => absurd refused.1 unsigned

theorem diff_refused {e : Expr} (fits : e.fits) (used : e.uses .signum) (v : Var) :
    diff v e = .error (.notDifferentiable .signum) :=
  (diff_cases fits v).elim (fun built => absurd built.1 (by simp [used])) And.right

end Formula.Expr
