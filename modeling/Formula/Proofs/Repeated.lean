import Formula.Proofs.Sessions

/-!
# Differentiating again and again

The rule of the geometric mean writes a `signum`, no other rule does, and no rule writes a geometric
mean.  Expressions with neither are therefore closed under differentiation (`smooth_of_diff`).  No
rule drops the derivative of an operand, so a geometric mean leaves a `signum` in the derivative
wherever it stands (`uses_signum_of_diff`), and there is no second derivative.
-/

namespace Formula

namespace Expr

/-- Neither `signum` nor a geometric mean occurs. -/
def Smooth (e : Expr) : Prop := ¬ e.uses .signum ∧ ¬ e.uses .geomMean

theorem smooth_iff {e : Expr} : e.Smooth ↔
    e.every (fun _ => true && true) fun o _ => decide (o ≠ .signum) && decide (o ≠ .geomMean) := by
  rw [Smooth, Bool.not_eq_true, Bool.not_eq_true, Term.uses_eq_false_iff, Term.uses_eq_false_iff,
    Term.every_and]

/-- Of the operations that rules write, only the `signum` of the geometric mean is not smooth. -/
theorem smooth_of_diff {v : Var} {e d : Expr} (smooth : e.Smooth) (h : diff v e = .ok d) :
    d.Smooth := by
  rw [smooth_iff] at smooth ⊢
  refine diff_every rfl rfl (fun o n here => ?_) smooth h
  refine ⟨fun _ _ => rfl, by decide, rfl, fun _ => rfl, ?_⟩
  rintro rfl
  cases here

/-- The rule of the geometric mean divides by a product with a `signum`. -/
theorem uses_signum_of_rule {self d : Expr} {args : List (Expr × Expr)}
    (rule : Op.derivative .geomMean self args = some d) : d.uses .signum := by
  cases args with
  | nil => cases rule
  | cons x args =>
    obtain rfl := Option.some.inj rule
    rw [← Bool.not_eq_false, Term.uses_eq_false_iff]
    intro passed
    have sign := (Term.every_mul.1 (Term.every_div.1 passed).2.2).2.1
    cases (Term.every_op.1 sign).1

/-- What occurs in the derivative of an operand occurs in that of the operation. -/
theorem uses_of_rule {o o' : Op} {self d : Expr} {args : List (Expr × Expr)}
    (rule : o.derivative self args = some d) {x : Expr × Expr} (hx : x ∈ args)
    (used : x.2.uses o') : d.uses o' := by
  rw [← Bool.not_eq_false, Term.uses_eq_false_iff]
  intro unused
  have unused' := Op.every_of_derivative rule unused x hx
  rw [← Term.uses_eq_false_iff, used] at unused'
  cases unused'

theorem uses_signum_of_diff {v : Var} {e d : Expr} (used : e.uses .geomMean)
    (h : diff v e = .ok d) : d.uses .signum := by
  refine diff_induction (R := fun e d => e.uses .geomMean → d.uses .signum) nofun nofun
    (fun o es ds d length operands rule used => ?_) h used
  rcases Term.uses_op.1 used with rfl | ⟨e, he, used⟩
  · exact uses_signum_of_rule rule
  · obtain ⟨i, hi, rfl⟩ := List.getElem_of_mem he
    have hx : (es[i], ds[i]) ∈ es.zip ds :=
      List.mem_iff_getElem.2 ⟨i, by simp [length, hi], List.getElem_zip⟩
    exact uses_of_rule rule hx (operands _ hx used)

/-- The derivative by several variables in turn, each time of the derivative before. -/
def diffInTurn (vs : List Var) (e : Expr) : Except Error Expr := vs.foldlM (fun e v => e.diff v) e

theorem diffInTurn_cons {v : Var} {e d : Expr} (h : diff v e = .ok d) (vs : List Var) :
    diffInTurn (v :: vs) e = diffInTurn vs d := by
  rw [diffInTurn, List.foldlM_cons, h]
  rfl

/-- A smooth expression can be differentiated any number of times. -/
theorem diffInTurn_of_smooth {e : Expr} (fits : e.fits) (smooth : e.Smooth) (vs : List Var) :
    ∃ d, diffInTurn vs e = .ok d := by
  induction vs generalizing e with
  | nil => exact ⟨e, rfl⟩
  | cons v vs ih =>
    obtain ⟨d, hd⟩ := exists_diff fits smooth.1 v
    rw [diffInTurn_cons hd]
    exact ih (diff_fits fits hd) (smooth_of_diff smooth hd)

/-- After a geometric mean was differentiated, the `signum` is in the way. -/
theorem diff_diff_of_geomMean {e : Expr} (fits : e.fits) (unsigned : ¬ e.uses .signum)
    (used : e.uses .geomMean) (v w : Var) :
    ∃ d, diff v e = .ok d ∧ diff w d = .error (.notDifferentiable .signum) := by
  obtain ⟨d, hd⟩ := exists_diff fits unsigned v
  exact ⟨d, hd, diff_refused (diff_fits fits hd) (uses_signum_of_diff used hd) w⟩

/-- A second derivative exists, and all later ones do, exactly for smooth expressions. -/
theorem exists_diffInTurn_iff {e : Expr} (fits : e.fits) (v w : Var) (vs : List Var) :
    (∃ d, diffInTurn (v :: w :: vs) e = .ok d) ↔ e.Smooth := by
  refine ⟨?_, fun smooth => diffInTurn_of_smooth fits smooth _⟩
  rintro ⟨d, h⟩
  have unsigned : ¬ e.uses .signum := by
    intro used
    rw [diffInTurn, List.foldlM_cons, diff_refused fits used] at h
    cases h
  refine ⟨unsigned, fun used => ?_⟩
  obtain ⟨d', first, second⟩ := diff_diff_of_geomMean fits unsigned used v w
  rw [diffInTurn_cons first, diffInTurn, List.foldlM_cons, second] at h
  cases h

end Expr

namespace Store

variable {s : Store}

/--
The derivative of a node by several variables in turn, each time of the node before, up to the first
error, and the store afterwards.
-/
def diffInTurn (s : Store) (i : Nat) : List Var → Except Error Nat × Store
  | [] => (.ok i, s)
  | v :: vs =>
    match s.diff v i with
    | (.error e, s) => (.error e, s)
    | (.ok d, s) => s.diffInTurn d vs

/-- What nodes remember by then does not show. -/
theorem diffInTurn_eq_plain (hs : s.Sound) (i : Nat) (vs : List Var) :
    (s.diffInTurn i vs).1.map (s.diffInTurn i vs).2.expr = (s.expr i).diffInTurn vs := by
  induction vs generalizing s i with
  | nil => rfl
  | cons v vs ih =>
    have agrees := diff_agrees v s i hs
    rw [diffInTurn]
    generalize s.diff v i = result at agrees ⊢
    obtain ⟨e | d, s'⟩ := result
    · have refused : (s.expr i).diff v = .error e := agrees.answer.symm
      rw [Expr.diffInTurn, List.foldlM_cons, refused]
      rfl
    · rw [Expr.diffInTurn_cons agrees.answer.symm]
      exact ih agrees.sound d

end Store

/--
In any session, a node can be differentiated twice or more often exactly when neither `signum` nor a
geometric mean occurs in its expression.  With a geometric mean and no `signum` the first derivative
exists, and the second is refused because of a `signum`, whatever the variables are.
-/
theorem Session.diffInTurn_ok_iff (commands : List Command) (i : Nat) (v w : Var) (vs : List Var) :
    let s := (empty.runAll commands).2.store
    ((∃ d, (s.diffInTurn i (v :: w :: vs)).1 = .ok d) ↔
        ¬ (s.expr i).uses .signum ∧ ¬ (s.expr i).uses .geomMean) ∧
      (¬ (s.expr i).uses .signum → (s.expr i).uses .geomMean →
        ∃ d s', s.diff v i = (.ok d, s') ∧ (s'.diff w d).1 = .error (.notDifferentiable .signum)) := by
  intro s
  have sound : s.Sound := (runAll_sound Sound.empty commands).store
  have fits := sound.expr_fits i
  constructor
  · have plain := Store.diffInTurn_eq_plain sound i (v :: w :: vs)
    rw [← Expr.Smooth, ← Expr.exists_diffInTurn_iff fits v w vs, ← plain]
    cases (s.diffInTurn i (v :: w :: vs)).1 <;> simp [Except.map]
  · intro unsigned used
    obtain ⟨e, first, second⟩ := Expr.diff_diff_of_geomMean fits unsigned used v w
    obtain ⟨d, s', answer, sound', rfl⟩ := (first ▸ Store.diff_agrees v s i sound).exists_built
    exact ⟨d, s', answer, (second ▸ Store.diff_agrees w s' d sound').refused⟩

theorem Session.diffInTurn_ok_iff_partlyDerived :
    let s := (empty.runAll partlyDerived).2.store
    (∃ d, (s.diffInTurn 1 [.x, .y]).1 = .ok d) ∧ (¬ ∃ d, (s.diffInTurn 3 [.x, .y]).1 = .ok d) ∧
      ∃ d s', s.diff .x 4 = (.ok d, s') ∧
        (s'.diff .y d).1 = .error (.notDifferentiable .signum) := by
  intro s
  have store : s = .partlyDerived := store_partlyDerived
  have negation : ¬ (s.expr 1).uses .signum ∧ ¬ (s.expr 1).uses .geomMean := by
    rw [store]
    decide +kernel
  have mean : ¬ (s.expr 4).uses .signum ∧ (s.expr 4).uses .geomMean := by
    rw [store]
    decide +kernel
  exact ⟨(diffInTurn_ok_iff partlyDerived 1 .x .y []).1.2 negation,
    fun twice => ((diffInTurn_ok_iff partlyDerived 3 .x .y []).1.1 twice).1 uses_partlyDerived,
    (diffInTurn_ok_iff partlyDerived 4 .x .y []).2 mean.1 mean.2⟩

end Formula
