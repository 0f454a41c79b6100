import Formula.Proofs.Exact
import Formula.Proofs.Plain
import Formula.Proofs.Slopes
import Formula.Proofs.Substitution

/-!
# Symbolic derivatives are derivatives

`Tangent` says that a term has a value at a point and that this value is the slope of another term
along a path through the point.  Each derivative rule keeps it, so an expression that is regular
at a point has the value of its symbolic derivative as its partial derivative there
(`diff_hasDerivAt`).
-/

namespace Formula

namespace Term

variable {α : Type} {path : ℝ → α → ℝ} {x : ℝ}

/-- At `x` both terms are regular, and `d` is the slope of `t` along the path. -/
structure Tangent (path : ℝ → α → ℝ) (x : ℝ) (t d : Term α) : Prop where
  operand : t.Regular (path x)
  regular : d.Regular (path x)
  slope : HasDerivAt (fun τ => t.exact (path τ)) (d.exact (path x)) x

namespace Tangent

/-! ### Operations with a fixed number of operands -/

theorem const (c : Float) : Tangent path x (.const c) (.const 0) where
  operand := .const c
  regular := .const 0
  slope := by
    rw [exact_const, Binary64.toReal_zero]
    exact hasDerivAt_const x _

section

variable {a a' b b' c c' : Term α} (ha : Tangent path x a a') (hb : Tangent path x b b')
  (hc : Tangent path x c c')

include ha

theorem div_square_regular (nonzero : a.exact (path x) ≠ 0) : (a' / square a).Regular (path x) := by
  apply ha.regular.div ha.operand.square
  rw [exact_square]
  exact pow_ne_zero 2 nonzero

theorem neg : Tangent path x (-a) (-a') where
  operand := ha.operand.neg
  regular := ha.regular.neg
  slope := by
    simp only [exact_neg]
    exact ha.slope.neg

include hb

theorem add : Tangent path x (a + b) (a' + b') where
  operand := ha.operand.add hb.operand
  regular := ha.regular.add hb.regular
  slope := by
    simp only [exact_add]
    exact ha.slope.add hb.slope

theorem sub : Tangent path x (a - b) (a' - b') where
  operand := ha.operand.sub hb.operand
  regular := ha.regular.sub hb.regular
  slope := by
    simp only [exact_sub]
    exact ha.slope.sub hb.slope

theorem mul : Tangent path x (a * b) (a' * b + b' * a) where
  operand := ha.operand.mul hb.operand
  regular := (ha.regular.mul hb.operand).add (hb.regular.mul ha.operand)
  slope := by
    simp only [exact_mul, exact_add]
    exact (ha.slope.mul hb.slope).congr_deriv (by ring)

theorem div (nonzero : b.exact (path x) ≠ 0) :
    Tangent path x (a / b) ((a' * b - b' * a) / square b) where
  operand := ha.operand.div hb.operand nonzero
  regular := by
    apply ((ha.regular.mul hb.operand).sub (hb.regular.mul ha.operand)).div hb.operand.square
    rw [exact_square]
    exact pow_ne_zero 2 nonzero
  slope := by
    simp only [exact_mul, exact_sub, exact_div, exact_square]
    exact (ha.slope.div hb.slope nonzero).congr_deriv (by ring)

theorem hypot : Tangent path x (.op .hypot [a, b]) (.const 2 * (a * a' + b * b')) where
  operand := regular_op.2 ⟨trivial, by simp [ha.operand, hb.operand]⟩
  regular := .mul (.const 2) ((ha.operand.mul ha.regular).add (hb.operand.mul hb.regular))
  slope := by
    simp only [exact_op, exact_mul, exact_add, exact_const, Binary64.toReal_two]
    exact ((ha.slope.pow 2).add (hb.slope.pow 2)).congr_deriv (by push_cast; ring)

theorem hmean (ha₀ : a.exact (path x) ≠ 0) (hb₀ : b.exact (path x) ≠ 0)
    (sum₀ : 1 / a.exact (path x) + 1 / b.exact (path x) ≠ 0) :
    Tangent path x (.op .hmean [a, b])
      ((a' / square a + b' / square b) * (square (.op .hmean [a, b]) / .const 2)) := by
  have self : (Term.op .hmean [a, b]).Regular (path x) :=
    regular_op.2 ⟨⟨ha₀, hb₀, sum₀⟩, by simp [ha.operand, hb.operand]⟩
  refine ⟨self, .mul ?_ (.div self.square (.const 2) ?_), ?_⟩
  · exact (ha.div_square_regular ha₀).add (hb.div_square_regular hb₀)
  · rw [exact_const, Binary64.toReal_two]
    exact two_ne_zero
  · simp only [exact_op, exact_mul, exact_add, exact_div, exact_square, exact_const,
      Binary64.toReal_two, List.map_cons, List.map_nil, Op.exact, one_div] at sum₀ ⊢
    have reciprocals := (ha.slope.inv ha₀).add (hb.slope.inv hb₀)
    refine (hasDerivAt_const_div reciprocals sum₀ 2).congr_deriv ?_
    rw [Pi.add_apply, Pi.inv_apply, Pi.inv_apply]
    ring

include hc

theorem mulAdd : Tangent path x (.op .mulAdd [a, b, c]) (a' * b + a * b' + c') where
  operand := regular_op.2 ⟨trivial, by simp [ha.operand, hb.operand, hc.operand]⟩
  regular := ((ha.regular.mul hb.operand).add (ha.operand.mul hb.regular)).add hc.regular
  slope := by
    simp only [exact_op, exact_mul, exact_add]
    exact (ha.slope.mul hb.slope).add hc.slope

end

theorem exact_partialProducts (point : α → ℝ) (args : List (Term α × Term α)) :
    (Op.partialProducts args).map (exact point) = args.mapIdx fun i p =>
      ((args.map fun q => q.1.exact point).set i (p.2.exact point)).prod := by
  refine List.ext_getElem (by simp [Op.partialProducts]) fun i hi hi' => ?_
  rw [List.length_mapIdx] at hi'
  have several : (args.map (·.1)).set i args[i].2 ≠ [] := by
    rw [Ne, List.set_eq_nil_iff, List.map_eq_nil_iff]
    rintro rfl
    cases hi'
  simp only [Op.partialProducts, List.getElem_map, List.getElem_mapIdx]
  rw [exact_product several, List.map_set, List.map_map]
  rfl

/-! ### Means of any number of operands -/

section

variable {args : List (Term α × Term α)} (hargs : ∀ p ∈ args, Tangent path x p.1 p.2)

include hargs

theorem operands_regular : ∀ t ∈ args.map (·.1), t.Regular (path x) :=
  List.forall_mem_map.2 fun p hp => (hargs p hp).operand

theorem derivatives_regular : ∀ t ∈ args.map (·.2), t.Regular (path x) :=
  List.forall_mem_map.2 fun p hp => (hargs p hp).regular

theorem arithMean :
    Tangent path x (.op .arithMean (args.map (·.1))) (.op .arithMean (args.map (·.2))) where
  operand := regular_op.2 ⟨by cases args <;> trivial, operands_regular hargs⟩
  regular := regular_op.2 ⟨by cases args <;> trivial, derivatives_regular hargs⟩
  slope := by
    have sum := hasDerivAt_list_sum fun p hp => (hargs p hp).slope
    simp only [exact_op, Op.exact, List.map_map, List.length_map]
    exact sum.div_const _

theorem harmMean (narrow : args.length ≤ 2 ^ 53) (several : args ≠ [])
    (nonzero : ∀ p ∈ args, p.1.exact (path x) ≠ 0)
    (sum₀ : (args.map fun p => 1 / p.1.exact (path x)).sum ≠ 0) :
    Tangent path x (.op .harmMean (args.map (·.1)))
      (sum (args.map fun (a, a') => a' / square a) *
        (square (.op .harmMean (args.map (·.1))) / .const (.ofNat args.length))) := by
  have count : (args.length : ℝ) ≠ 0 := Nat.cast_ne_zero.2 (List.length_pos_iff.2 several).ne'
  have self : (Term.op .harmMean (args.map (·.1))).Regular (path x) := by
    refine regular_op.2 ⟨?_, operands_regular hargs⟩
    rw [List.map_map]
    refine ⟨List.forall_mem_map.2 nonzero, ?_⟩
    rw [List.map_map]
    exact sum₀
  refine ⟨self, .mul (.sum ?_) (.div self.square (.const _) ?_), ?_⟩
  · exact List.forall_mem_map.2 fun p hp => (hargs p hp).div_square_regular (nonzero p hp)
  · rw [exact_const, Binary64.toReal_ofNat narrow]
    exact count
  · have reciprocals := hasDerivAt_list_sum fun p hp => (hargs p hp).slope.inv (nonzero p hp)
    simp only [exact_op, exact_mul, exact_div, exact_sum, exact_square, exact_const,
      Binary64.toReal_ofNat narrow, Op.exact, List.map_map, List.length_map, one_div] at sum₀ ⊢
    refine (hasDerivAt_const_div reciprocals sum₀ args.length).congr_deriv ?_
    rw [List.sum_neg, List.map_map]
    congr 3
    funext p
    simp [neg_div]

theorem partialProducts_regular : ∀ t ∈ Op.partialProducts args, t.Regular (path x) := by
  intro t ht
  obtain ⟨us, rfl, among⟩ := Op.eq_product_of_mem_partialProducts ht
  apply Regular.product
  intro u hu
  obtain ⟨p, hp, rfl | rfl⟩ := among u hu
  · exact (hargs p hp).operand
  · exact (hargs p hp).regular

theorem geomMean (several : args ≠ []) (nonzero : (args.map fun p => p.1.exact (path x)).prod ≠ 0) :
    Tangent path x (.op .geomMean (args.map (·.1)))
      (.op .arithMean (Op.partialProducts args) /
        (.op .signum [product (args.map (·.1))] *
          power (.op .geomMean (args.map (·.1))) (args.length - 1))) := by
  have nonempty : args.map (·.1) ≠ [] := by simpa using several
  have product_eq : (product (args.map (·.1))).exact (path x) =
      (args.map fun p => p.1.exact (path x)).prod := by
    rw [exact_product nonempty, List.map_map]
    rfl
  have self_eq (point : α → ℝ) : (Term.op .geomMean (args.map (·.1))).exact point =
      |(args.map fun p => p.1.exact point).prod| ^ (1 / args.length : ℝ) := by
    rw [exact_op, List.map_map, Op.exact, List.length_map]
    rfl
  have self : (Term.op .geomMean (args.map (·.1))).Regular (path x) := by
    refine regular_op.2 ⟨?_, operands_regular hargs⟩
    rw [List.map_map]
    exact nonzero
  have sign : (Term.op .signum [product (args.map (·.1))]).Regular (path x) :=
    regular_op.2 ⟨trivial, List.forall_mem_singleton.2 (.product (operands_regular hargs))⟩
  have partials : (Term.op .arithMean (Op.partialProducts args)).Regular (path x) :=
    regular_op.2 ⟨by trivial, partialProducts_regular hargs⟩
  refine ⟨self, .div partials (sign.mul (self.power _)) ?_, ?_⟩
  · rw [exact_mul, exact_power, self_eq, exact_op, List.map_singleton, product_eq, Op.exact]
    refine mul_ne_zero ?_ (pow_ne_zero _ (Real.rpow_pos_of_pos (abs_pos.2 nonzero) _).ne')
    split <;> norm_num
  · obtain ⟨n, count⟩ : ∃ n, args.length = n + 1 :=
      Nat.exists_eq_succ_of_ne_zero (List.length_pos_iff.2 several).ne'
    have root := hasDerivAt_root (hasDerivAt_list_prod fun p hp => (hargs p hp).slope) nonzero n
    rw [exact_div, exact_mul, exact_power, self_eq, exact_op, exact_op, List.map_singleton,
      product_eq, Op.exact, Op.exact, exact_partialProducts, List.length_mapIdx]
    simp only [self_eq, count, Nat.add_sub_cancel]
    exact root

end

end Tangent

end Term

open Term in
/-- Every derivative rule turns derivatives of operands into a derivative of the operation. -/
theorem Op.derivative_tangent {α : Type} {path : ℝ → α → ℝ} {x : ℝ} {o : Op}
    {args : List (Term α × Term α)} {d : Term α} (hargs : ∀ p ∈ args, Tangent path x p.1 p.2)
    (here : o.Regular ((args.map (·.1)).map (Term.exact (path x)))) (narrow : args.length ≤ 2 ^ 53)
    (rule : o.derivative (.op o (args.map (·.1))) args = some d) :
    Tangent path x (.op o (args.map (·.1))) d := by
  unfold derivative at rule
  split at rule <;> simp only [Option.some.injEq, reduceCtorEq] at rule <;> subst rule
  case h_9 => exact .arithMean hargs
  case h_10 =>
    rw [List.map_map] at here
    exact .geomMean hargs (List.cons_ne_nil _ _) here
  case h_11 =>
    obtain ⟨nonzero, sum₀⟩ := here
    rw [List.map_map] at nonzero sum₀
    rw [List.map_map] at sum₀
    exact .harmMean hargs narrow (List.cons_ne_nil _ _)
      (fun p hp => nonzero _ (List.mem_map_of_mem hp)) sum₀
  all_goals simp only [List.forall_mem_cons] at hargs
  case h_1 => exact hargs.1.add hargs.2.1
  case h_2 => exact hargs.1.sub hargs.2.1
  case h_3 => exact hargs.1.mul hargs.2.1
  case h_4 => exact hargs.1.div hargs.2.1 here
  case h_5 => exact hargs.1.neg
  case h_6 => exact hargs.1.mulAdd hargs.2.1 hargs.2.2.1
  case h_7 => exact hargs.1.hypot hargs.2.1
  case h_8 => exact hargs.1.hmean hargs.2.1 here.1 here.2.1 here.2.2

theorem Triple.set_get_self {α : Type} (p : Triple α) (v : Var) : p.set v (p.get v) = p := by
  cases v <;> rfl

namespace Expr

/-- The path that moves one variable has the symbolic derivative as its slope. -/
theorem tangent_of_diff {e d : Expr} {v : Var} {p : Triple ℝ} (narrow : e.narrow (2 ^ 53))
    (regular : e.Regular p.get) (h : e.diff v = .ok d) :
    e.Tangent (fun τ => (p.set v τ).get) (p.get v) d := by
  have here : (p.set v (p.get v)).get = p.get := by rw [p.set_get_self]
  induction e using Term.rec_mem generalizing d with
  | const c =>
    obtain rfl := Except.ok.inj h
    exact .const c
  | var w =>
    obtain rfl := Except.ok.inj h
    refine ⟨.var w, .const _, ?_⟩
    simp only [Term.exact_var, Triple.get_set]
    split
    · exact (hasDerivAt_id _).congr_deriv Binary64.toReal_one.symm
    · exact (hasDerivAt_const _ _).congr_deriv Binary64.toReal_zero.symm
  | op o args ih =>
    obtain ⟨count, operandsNarrow⟩ := Term.narrow_op.1 narrow
    obtain ⟨regularHere, operandsRegular⟩ := Term.regular_op.1 regular
    obtain ⟨ds, all, rule⟩ := rule_of_diff_op h
    have length : ds.length = args.length := length_of_diffAll all
    have operands : (args.zip ds).map (·.1) = args := List.map_fst_zip (by omega)
    have tangents : ∀ x ∈ args.zip ds,
        x.1.Tangent (fun τ => (p.set v τ).get) (p.get v) x.2 := fun x hx =>
      have mem : x.1 ∈ args := (List.of_mem_zip hx).1
      ih x.1 mem (operandsNarrow x.1 mem) (operandsRegular x.1 mem) (diff_of_mem_zip all x hx)
    have tangent := Op.derivative_tangent (o := o) (d := d) tangents
    rw [operands, here] at tangent
    exact tangent regularHere (by simp [length]; omega) rule

/--
The symbolic derivative is the partial derivative: at a point where the expression is regular it
has a value, and that value is the slope of the expression as the variable moves.
-/
theorem diff_hasDerivAt {e d : Expr} {v : Var} {p : Triple ℝ} (narrow : e.narrow (2 ^ 53))
    (regular : e.Regular p.get) (h : e.diff v = .ok d) :
    d.Regular p.get ∧
      HasDerivAt (fun τ => e.exact (p.set v τ).get) (d.exact p.get) (p.get v) := by
  obtain ⟨-, regular', slope⟩ := tangent_of_diff narrow regular h
  rw [p.set_get_self] at regular' slope
  exact ⟨regular', slope⟩

theorem diff_hasDerivAt_mean_of_quotient :
    let e : Expr := .op .geomMean [.var .x, .op .div [.var .y, .var .z]]
    let p : Triple ℝ := ⟨1, -2, 3⟩
    e.narrow (2 ^ 53) ∧ e.Regular p.get ∧ ∃ d, e.diff .y = .ok d ∧ d.Regular p.get ∧
      HasDerivAt (fun τ => e.exact (p.set .y τ).get) (d.exact p.get) (p.get .y) := by
  intro e p
  have quotient : (.op .div [.var .y, .var .z] : Expr).Regular p.get :=
    .op (by simp [Op.Regular, p, Triple.get]) (by simp [Term.Regular.var])
  have regular : e.Regular p.get :=
    .op (by simp [Op.Regular, Term.exact_op, Op.exact, p, Triple.get])
      (by simp [Term.Regular.var, quotient])
  exact ⟨rfl, regular, _, rfl, diff_hasDerivAt rfl regular rfl⟩

end Expr

end Formula
