import Mathlib.Data.List.Basic
import Formula.Expr.Evaluation
import Formula.Expr.Walk

/-!
# Evaluation under bindings

An evaluation reads the variables that occur and no others.  Under named bindings it fails at the
first occurrence, from the left, of a variable without a value; if there is none, its value is the
value at the point that the bindings make (`evalWith_eq`).  Only occurrences matter for the value at
a point (`eval_congr`), so every point that agrees with the bindings on them will do.
-/

namespace Formula

theorem Var.mem_all (v : Var) : v ∈ all := by
  cases v <;> decide

/-- The point with the bound values, and zero for what is not bound. -/
def Triple.ofBinding (binding : String → Option Float) : Point :=
  let value := fun v : Var => (binding v.name).getD 0
  ⟨value .x, value .y, value .z⟩

theorem Triple.get_ofBinding (binding : String → Option Float) (v : Var) :
    (ofBinding binding).get v = (binding v.name).getD 0 := by
  cases v <;> rfl

/-- Results that are collected fail with the first of their failures. -/
theorem mapM_eq_elim {α β γ ε : Type} {f : α → Except ε β} {fault : α → Option γ} {err : γ → ε}
    {value : α → β} {xs : List α}
    (h : ∀ x ∈ xs, f x = (fault x).elim (.ok (value x)) fun c => .error (err c)) :
    xs.mapM f = (xs.findSome? fault).elim (.ok (xs.map value)) fun c => .error (err c) := by
  induction xs with
  | nil => rfl
  | cons x xs ih =>
    obtain ⟨head, tail⟩ := List.forall_mem_cons.1 h
    rw [List.mapM_cons, head, ih tail, List.findSome?_cons]
    cases fault x with
    | some c => rfl
    | none => cases xs.findSome? fault <;> rfl

namespace Expr

/-- The variables of an expression from the left, each occurrence of its own. -/
def varOccurrences (e : Expr) : List Var :=
  e.fold (fun _ => []) (fun v => [v]) fun _ found => found.flatten

/-- The first occurrence of a variable without a value. -/
def firstUnbound? (binding : String → Option Float) (e : Expr) : Option Var :=
  e.varOccurrences.find? fun v => (binding v.name).isNone

theorem varOccurrences_op (o : Op) (args : List Expr) :
    varOccurrences (.op o args) = (args.map varOccurrences).flatten :=
  Term.fold_op ..

theorem firstUnbound?_op (binding : String → Option Float) (o : Op) (args : List Expr) :
    firstUnbound? binding (.op o args) = args.findSome? (firstUnbound? binding) := by
  rw [firstUnbound?, varOccurrences_op, List.find?_flatten, List.findSome?_map]
  rfl

/-- The value is one at a point, unless a variable that occurs is unbound. -/
theorem evalWith_eq (e : Expr) (binding : String → Option Float) :
    e.evalWith binding = (e.firstUnbound? binding).elim (.ok (e.eval (.ofBinding binding)))
      fun v => .error (.unboundVariable v.name) := by
  induction e using Term.rec_mem with
  | const c => rfl
  | var v =>
    have value : eval (.var v) (.ofBinding binding) = (binding v.name).getD 0 :=
      Triple.get_ofBinding binding v
    rw [value, evalWith, Term.fold_var, firstUnbound?, varOccurrences, Term.fold_var,
      List.find?_cons]
    cases binding v.name <;> rfl
  | op o args ih =>
    rw [evalWith_op, mapM_eq_elim ih, firstUnbound?_op, eval_op]
    cases args.findSome? (firstUnbound? binding) <;> rfl

/-- Neither `z` nor `y` is bound, and `z` occurs first. -/
example :
    evalWith (.op .add [.var .x, .op .neg [.op .mul [.var .z, .var .y]]])
      (fun name => if name = "x" then some 1 else none) = .error (.unboundVariable "z") := by
  rfl

/-- Points that agree on the variables that occur give the same value. -/
theorem eval_congr {e : Expr} {p q : Point} (h : ∀ v ∈ e.varOccurrences, p.get v = q.get v) :
    e.eval p = e.eval q := by
  induction e using Term.rec_mem with
  | const c => rfl
  | var v => exact h v (List.mem_singleton_self v)
  | op o args ih =>
    rw [varOccurrences_op, List.forall_mem_flatten, List.forall_mem_map] at h
    rw [eval_op, eval_op, List.map_congr_left fun e he => ih e he (h e he)]

theorem mentions_iff {e : Expr} {v : Var} : e.mentions v ↔ v ∈ e.varOccurrences := by
  induction e using Term.rec_mem with
  | const c => simp [mentions, varOccurrences]
  | var w => simp [mentions, varOccurrences, eq_comm]
  | op o args ih =>
    rw [mentions_op, varOccurrences_op, List.any_eq_true, List.mem_flatten]
    simp only [List.mem_map, exists_exists_and_eq_and]
    exact exists_congr fun e => and_congr_right (ih e)

theorem mem_vars_iff {e : Expr} {v : Var} : v ∈ e.vars ↔ v ∈ e.varOccurrences := by
  rw [vars_eq_filter, List.mem_filter, mentions_iff, and_iff_right (Var.mem_all v)]

theorem firstUnbound?_eq_none_iff {e : Expr} {binding : String → Option Float} :
    e.firstUnbound? binding = none ↔ ∀ v ∈ e.vars, ∃ c, binding v.name = some c := by
  simp only [firstUnbound?, List.find?_eq_none, mem_vars_iff, ← Option.isSome_iff_exists]
  exact forall₂_congr fun v _ => by rw [Bool.not_eq_true, Option.isNone_eq_false_iff]

/--
Under named bindings there is a value exactly when every variable that occurs has one.  It is then
the value at every point that agrees with the bindings on these variables, as nothing else is read.
Otherwise the first occurrence without a value is reported.
-/
theorem evalWith_reads_vars (e : Expr) (binding : String → Option Float) :
    ((∃ value, e.evalWith binding = .ok value) ↔ ∀ v ∈ e.vars, ∃ c, binding v.name = some c) ∧
      (∀ p : Point, (∀ v ∈ e.vars, binding v.name = some (p.get v)) →
        e.evalWith binding = .ok (e.eval p)) ∧
      (∀ p q : Point, (∀ v ∈ e.vars, p.get v = q.get v) → e.eval p = e.eval q) ∧
      ∀ err, e.evalWith binding = .error err →
        ∃ v, e.varOccurrences.find? (fun v => (binding v.name).isNone) = some v ∧
          err = .unboundVariable v.name := by
  have same (p q : Point) (h : ∀ v ∈ e.vars, p.get v = q.get v) : e.eval p = e.eval q :=
    eval_congr fun v hv => h v (mem_vars_iff.2 hv)
  refine ⟨?_, fun p agrees => ?_, same, fun err failed => ?_⟩
  · rw [← firstUnbound?_eq_none_iff, evalWith_eq]
    cases e.firstUnbound? binding <;> simp
  · have bound : e.firstUnbound? binding = none :=
      firstUnbound?_eq_none_iff.2 fun v hv => ⟨_, agrees v hv⟩
    rw [evalWith_eq, bound]
    refine congrArg Except.ok (same _ _ fun v hv => ?_)
    rw [Triple.get_ofBinding, agrees v hv]
    rfl
  · rw [evalWith_eq] at failed
    cases first : e.firstUnbound? binding with
    | none =>
      rw [first] at failed
      cases failed
    | some v =>
      rw [first] at failed
      exact ⟨v, first, (Except.error.inj failed).symm⟩

end Expr

end Formula
