import Mathlib.Analysis.Calculus.Deriv.Abs
import Mathlib.Analysis.Calculus.Deriv.Inv
import Mathlib.Analysis.SpecialFunctions.Pow.Deriv

/-!
# Slopes of sums, products and roots
-/

namespace Formula

variable {ι : Type} {x : ℝ}

/-- The derivative of a sum is the sum of the derivatives. -/
theorem hasDerivAt_list_sum {l : List ι} {f : ι → ℝ → ℝ} {f' : ι → ℝ}
    (h : ∀ a ∈ l, HasDerivAt (f a) (f' a) x) :
    HasDerivAt (fun τ => (l.map (f · τ)).sum) (l.map f').sum x := by
  induction l with
  | nil => exact hasDerivAt_const x 0
  | cons a l ih =>
    obtain ⟨ha, hl⟩ := List.forall_mem_cons.1 h
    simp only [List.map_cons, List.sum_cons]
    exact ha.add (ih hl)

theorem sum_mapIdx_mul_left (c : ℝ) (l : List ι) (f : ℕ → ι → ℝ) :
    (l.mapIdx fun i a => c * f i a).sum = c * (l.mapIdx f).sum := by
  induction l generalizing f with
  | nil => simp
  | cons a l ih => simp only [List.mapIdx_cons, List.sum_cons, ih, mul_add]

/-- The derivative of a product is a sum of products, with one factor replaced by its derivative. -/
theorem hasDerivAt_list_prod {l : List ι} {f : ι → ℝ → ℝ} {f' : ι → ℝ}
    (h : ∀ a ∈ l, HasDerivAt (f a) (f' a) x) :
    HasDerivAt (fun τ => (l.map (f · τ)).prod)
      (l.mapIdx fun i a => ((l.map (f · x)).set i (f' a)).prod).sum x := by
  induction l with
  | nil => exact hasDerivAt_const x 1
  | cons a l ih =>
    obtain ⟨ha, hl⟩ := List.forall_mem_cons.1 h
    simp only [List.map_cons, List.prod_cons, List.mapIdx_cons, List.set_cons_zero,
      List.set_cons_succ, List.sum_cons, sum_mapIdx_mul_left]
    exact ha.mul (ih hl)

/-- The derivative of a quotient by a function, in terms of that quotient. -/
theorem hasDerivAt_const_div {f : ℝ → ℝ} {f' : ℝ} (hf : HasDerivAt f f' x) (nonzero : f x ≠ 0)
    (c : ℝ) : HasDerivAt (fun τ => c / f τ) (-f' * ((c / f x) ^ 2 / c)) x := by
  apply ((hasDerivAt_const x c).div hf nonzero).congr_deriv
  field_simp
  ring

/-- The derivative of a root of the absolute value, as a quotient by a power of that root. -/
theorem hasDerivAt_root {f : ℝ → ℝ} {f' : ℝ} (hf : HasDerivAt f f' x) (nonzero : f x ≠ 0) (n : ℕ) :
    HasDerivAt (fun τ => |f τ| ^ (1 / (n + 1 : ℕ) : ℝ))
      (f' / (n + 1 : ℕ) /
        ((if 0 ≤ f x then 1 else -1) * (|f x| ^ (1 / (n + 1 : ℕ) : ℝ)) ^ n)) x := by
  have positive : 0 < |f x| := abs_pos.2 nonzero
  have count : ((n + 1 : ℕ) : ℝ) ≠ 0 := by positivity
  have power : (|f x| ^ (1 / (n + 1 : ℕ) : ℝ)) ^ n = (|f x| ^ (1 / (n + 1 : ℕ) - 1 : ℝ))⁻¹ := by
    rw [← Real.rpow_natCast, ← Real.rpow_mul positive.le, ← Real.rpow_neg positive.le]
    congr 1
    field_simp
    push_cast
    ring
  have slope := ((hasDerivAt_abs nonzero).comp x hf).rpow_const (p := 1 / (n + 1 : ℕ))
    (.inl positive.ne')
  have sign : (SignType.sign (f x) : ℝ) = if 0 ≤ f x then 1 else -1 := by
    rcases lt_or_gt_of_ne nonzero with negative | positive
    · simp [sign_neg negative, not_le.2 negative]
    · simp [sign_pos positive, positive.le]
  have unit : (SignType.sign (f x) : ℝ)⁻¹ = SignType.sign (f x) := by
    rw [sign]
    split <;> norm_num
  apply slope.congr_deriv
  rw [power, ← sign, Function.comp_apply, div_eq_mul_inv _ (_ * _), mul_inv, inv_inv, unit]
  ring

end Formula
