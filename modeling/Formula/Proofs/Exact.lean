import Formula.Proofs.Shape
import Formula.Proofs.Whole
import Mathlib.Analysis.SpecialFunctions.Pow.Real

/-!
# Terms as real functions

`Term.exact` reads a term in exact arithmetic: a finite double is the real number it stands for, and
nothing is rounded.  `Term.Regular` says that the point is one where every operation in the term is
smooth: no divisor is zero, and no geometric mean is over a product of zero.
-/

noncomputable section

namespace Formula

namespace Binary64

/-- The real number that a finite double is. -/
def toReal (v : Float) : ℝ := units v / unitsPerOne

theorem toReal_ofNat {n : Nat} (h : n ≤ 2 ^ 53) : toReal (.ofNat n) = n := by
  have positive : (unitsPerOne : ℝ) ≠ 0 := by
    rw [unitsPerOne_eq]
    positivity
  rw [toReal, units_ofNat h]
  push_cast
  exact mul_div_cancel_right₀ _ positive

@[simp] theorem toReal_zero : toReal 0 = 0 :=
  (toReal_ofNat (n := 0) (by omega)).trans Nat.cast_zero

@[simp] theorem toReal_one : toReal 1 = 1 :=
  (toReal_ofNat (n := 1) (by omega)).trans Nat.cast_one

@[simp] theorem toReal_two : toReal 2 = 2 :=
  (toReal_ofNat (n := 2) (by omega)).trans Nat.cast_two

end Binary64

namespace Op

/-- The exact value of an operation on as many operands as it takes. -/
def exact : Op → List ℝ → ℝ
  | signum, [a] => if 0 ≤ a then 1 else -1
  | add, [a, b] => a + b
  | sub, [a, b] => a - b
  | mul, [a, b] => a * b
  | div, [a, b] => a / b
  | neg, [a] => -a
  | mulAdd, [a, b, c] => a * b + c
  | hypot, [a, b] => a ^ 2 + b ^ 2
  | hmean, [a, b] => 2 / (1 / a + 1 / b)
  | arithMean, vs => vs.sum / vs.length
  | geomMean, vs => |vs.prod| ^ (1 / vs.length : ℝ)
  | harmMean, vs => vs.length / (vs.map (1 / ·)).sum
  | _, _ => 0

/-- Whether an operation divides by no zero, and is smooth, on the given operands. -/
def Regular : Op → List ℝ → Prop
  | div, [_, b] => b ≠ 0
  | hmean, [a, b] => a ≠ 0 ∧ b ≠ 0 ∧ 1 / a + 1 / b ≠ 0
  | geomMean, vs => vs.prod ≠ 0
  | harmMean, vs => (∀ a ∈ vs, a ≠ 0) ∧ (vs.map (1 / ·)).sum ≠ 0
  | _, _ => True

end Op

namespace Term

variable {α : Type} {point : α → ℝ}

/-- The exact value of a term at a point. -/
def exact (point : α → ℝ) (t : Term α) : ℝ := t.fold Binary64.toReal point Op.exact

/-- Whether every operation of a term is regular on the values of its operands. -/
inductive Regular (point : α → ℝ) : Term α → Prop
  | const (c : Float) : Regular point (.const c)
  | var (v : α) : Regular point (.var v)
  | op {o : Op} {args : List (Term α)} (here : o.Regular (args.map (exact point)))
      (below : ∀ t ∈ args, Regular point t) : Regular point (.op o args)

/-! ### Values -/

@[simp] theorem exact_const (c : Float) : (Term.const c).exact point = Binary64.toReal c := rfl

@[simp] theorem exact_var (v : α) : (Term.var v).exact point = point v := rfl

theorem exact_op (o : Op) (args : List (Term α)) :
    (Term.op o args).exact point = o.exact (args.map (exact point)) :=
  fold_op ..

@[simp] theorem exact_add (a b : Term α) : (a + b).exact point = a.exact point + b.exact point :=
  exact_op ..

@[simp] theorem exact_sub (a b : Term α) : (a - b).exact point = a.exact point - b.exact point :=
  exact_op ..

@[simp] theorem exact_mul (a b : Term α) : (a * b).exact point = a.exact point * b.exact point :=
  exact_op ..

@[simp] theorem exact_div (a b : Term α) : (a / b).exact point = a.exact point / b.exact point :=
  exact_op ..

@[simp] theorem exact_neg (a : Term α) : (-a).exact point = -a.exact point := exact_op ..

@[simp] theorem exact_square (a : Term α) : (square a).exact point = a.exact point ^ 2 := by
  rw [square, exact_mul, sq]

@[simp] theorem exact_sum (ts : List (Term α)) :
    (sum ts).exact point = (ts.map (exact point)).sum := by
  cases ts with
  | nil => exact Binary64.toReal_zero
  | cons t ts =>
    rw [sum, join, List.map_cons, List.sum_cons]
    induction ts generalizing t with
    | nil => simp
    | cons u ts ih => rw [List.foldl_cons, ih, exact_add, List.map_cons, List.sum_cons, add_assoc]

/-- The product of no terms is zero, so that this fails without operands. -/
theorem exact_product {ts : List (Term α)} (h : ts ≠ []) :
    (product ts).exact point = (ts.map (exact point)).prod := by
  obtain ⟨t, ts, rfl⟩ := List.exists_cons_of_ne_nil h
  rw [product, join, List.map_cons, List.prod_cons]
  clear h
  induction ts generalizing t with
  | nil => simp
  | cons u ts ih => rw [List.foldl_cons, ih, exact_mul, List.map_cons, List.prod_cons, mul_assoc]

@[simp] theorem exact_power (t : Term α) (n : Nat) :
    (power t n).exact point = t.exact point ^ n := by
  cases n with
  | zero => rw [power, exact_const, Binary64.toReal_one, pow_zero]
  | succ n => rw [power, exact_product (by simp), List.map_replicate, List.prod_replicate]

/-! ### Regular points -/

theorem regular_op {o : Op} {args : List (Term α)} :
    (Term.op o args).Regular point ↔
      o.Regular (args.map (exact point)) ∧ ∀ t ∈ args, t.Regular point := by
  constructor
  · rintro (_ | _ | ⟨here, below⟩)
    exact ⟨here, below⟩
  · rintro ⟨here, below⟩
    exact .op here below

section

variable {a b : Term α} (ha : a.Regular point) (hb : b.Regular point)

include ha hb

theorem Regular.add : (a + b).Regular point := regular_op.2 ⟨trivial, by simp [ha, hb]⟩

theorem Regular.sub : (a - b).Regular point := regular_op.2 ⟨trivial, by simp [ha, hb]⟩

theorem Regular.mul : (a * b).Regular point := regular_op.2 ⟨trivial, by simp [ha, hb]⟩

theorem Regular.div (nonzero : b.exact point ≠ 0) : (a / b).Regular point :=
  regular_op.2 ⟨nonzero, by simp [ha, hb]⟩

end

theorem Regular.neg {a : Term α} (ha : a.Regular point) : (-a).Regular point :=
  regular_op.2 ⟨trivial, by simp [ha]⟩

theorem Regular.square {a : Term α} (ha : a.Regular point) : (square a).Regular point := ha.mul ha

theorem Regular.sum {ts : List (Term α)} (hts : ∀ t ∈ ts, t.Regular point) :
    (sum ts).Regular point :=
  join_of_forall (.const 0) (fun _ _ => .add) hts

theorem Regular.product {ts : List (Term α)} (hts : ∀ t ∈ ts, t.Regular point) :
    (product ts).Regular point :=
  join_of_forall (.const 0) (fun _ _ => .mul) hts

theorem Regular.power {t : Term α} (ht : t.Regular point) (n : Nat) : (power t n).Regular point :=
  power_of_mul (.const 1) (fun _ _ => .mul) ht n

end Term

end Formula

end
