import Formula.Expr.Basic

/-!
# Shapes of terms

`every` runs a test over the constants of a term and another over its operations with their operand
counts.  The properties of trees that other modules ask for are its instances: `fits` says that every
operation has as many operands as it takes, `finite` that no constant is infinite or a NaN, `uses`
that an operation occurs, and `narrow` bounds the operand counts.  `width` is the least such bound.
-/

namespace Formula

/-- No operation is without operands. -/
theorem Op.ne_nil_of_accepts {α : Type} {o : Op} {args : List α}
    (h : o.arity.accepts args.length) : args ≠ [] := by
  rintro rfl
  cases o <;> cases h

/-- A number bounds a largest one when it bounds all. -/
theorem foldr_max_le_iff {m : Nat} {ns : List Nat} : ns.foldr max 0 ≤ m ↔ ∀ n ∈ ns, n ≤ m := by
  induction ns with
  | nil => simp
  | cons n ns ih => rw [List.foldr_cons, Nat.max_le, ih, List.forall_mem_cons]

end Formula

namespace Formula.Term

variable {α : Type}

/-- Whether every constant passes one test, and every operation with its operand count another. -/
def every (const : Float → Bool) (op : Op → Nat → Bool) (t : Term α) : Bool :=
  t.fold const (fun _ => true) fun o found => op o found.length && found.all id

/-- Whether every operation has as many operands as it takes. -/
def fits : Term α → Bool := every (fun _ => true) fun o count => o.arity.accepts count

/-- Whether every constant is a finite number. -/
def finite : Term α → Bool := every Float.isFinite fun _ _ => true

/-- Whether an operation occurs. -/
def uses (o : Op) (t : Term α) : Bool := !t.every (fun _ => true) fun o' _ => o' ≠ o

/-- Whether no operation has more operands than `bound`. -/
def narrow (bound : Nat) : Term α → Bool := every (fun _ => true) fun _ count => count ≤ bound

/-- The largest operand count of an operation; zero for a leaf. -/
def width (t : Term α) : Nat :=
  t.fold (fun _ => 0) (fun _ => 0) fun _ widths => max widths.length (widths.foldr max 0)

theorem every_op {const : Float → Bool} {op : Op → Nat → Bool} {o : Op} {args : List (Term α)} :
    (Term.op o args).every const op ↔ op o args.length ∧ ∀ t ∈ args, t.every const op := by
  simp [every]

@[simp] theorem every_const {const : Float → Bool} {op : Op → Nat → Bool} {c : Float} :
    (Term.const c : Term α).every const op = const c := rfl

@[simp] theorem every_var {const : Float → Bool} {op : Op → Nat → Bool} {v : α} :
    (Term.var v).every const op = true := rfl

theorem fits_op {o : Op} {args : List (Term α)} :
    (Term.op o args).fits ↔ o.arity.accepts args.length ∧ ∀ t ∈ args, t.fits :=
  every_op

theorem finite_op {o : Op} {args : List (Term α)} :
    (Term.op o args).finite ↔ ∀ t ∈ args, t.finite := by
  simp [finite, every_op]

theorem narrow_op {bound : Nat} {o : Op} {args : List (Term α)} :
    (Term.op o args).narrow bound ↔ args.length ≤ bound ∧ ∀ t ∈ args, t.narrow bound := by
  simp [narrow, every_op]

theorem width_op (o : Op) (args : List (Term α)) :
    (Term.op o args).width = max args.length ((args.map width).foldr max 0) := by
  rw [width, fold_op, List.length_map]
  rfl

theorem width_le_iff {bound : Nat} {t : Term α} : t.width ≤ bound ↔ t.narrow bound := by
  induction t with
  | const c => exact iff_of_true (Nat.zero_le bound) rfl
  | var v => exact iff_of_true (Nat.zero_le bound) rfl
  | op o args ih =>
    rw [width_op, narrow_op, Nat.max_le, foldr_max_le_iff, List.forall_mem_map]
    exact and_congr_right fun _ => forall₂_congr ih

theorem uses_op {o o' : Op} {args : List (Term α)} :
    (Term.op o' args).uses o ↔ o' = o ∨ ∃ t ∈ args, t.uses o := by
  simp only [uses, Bool.not_eq_true', ← Bool.not_eq_true, every_op]
  grind

theorem uses_eq_false_iff {o : Op} {t : Term α} :
    t.uses o = false ↔ t.every (fun _ => true) fun o' _ => o' ≠ o := by
  rw [uses, Bool.not_eq_false']

/-- Two pairs of tests are passed when both tests of each kind are. -/
theorem every_and {const const' : Float → Bool} {op op' : Op → Nat → Bool} {t : Term α} :
    t.every (fun c => const c && const' c) (fun o n => op o n && op' o n) ↔
      t.every const op ∧ t.every const' op' := by
  induction t with
  | const c => simp
  | var v => simp
  | op o args ih =>
    simp only [every_op, Bool.and_eq_true]
    rw [forall₂_congr ih]
    grind

/-! ### Terms that rules are composed of -/

section

variable {const : Float → Bool} {op : Op → Nat → Bool} {a b : Term α}

theorem every_two {o : Op} :
    (Term.op o [a, b]).every const op ↔ op o 2 ∧ a.every const op ∧ b.every const op := by
  simp [every_op]

@[simp] theorem every_add :
    (a + b).every const op ↔ op .add 2 ∧ a.every const op ∧ b.every const op := every_two

@[simp] theorem every_sub :
    (a - b).every const op ↔ op .sub 2 ∧ a.every const op ∧ b.every const op := every_two

@[simp] theorem every_mul :
    (a * b).every const op ↔ op .mul 2 ∧ a.every const op ∧ b.every const op := every_two

@[simp] theorem every_div :
    (a / b).every const op ↔ op .div 2 ∧ a.every const op ∧ b.every const op := every_two

@[simp] theorem every_neg : (-a).every const op ↔ op .neg 1 ∧ a.every const op :=
  every_op.trans (by simp)

@[simp] theorem every_square : (square a).every const op ↔ op .mul 2 ∧ a.every const op := by
  rw [square, every_mul, and_self]

end

/-- What joining two terms keeps, joining any number of them keeps. -/
theorem join_of_forall {P : Term α → Prop} (zero : P (.const 0))
    {combine : Term α → Term α → Term α} (step : ∀ a b, P a → P b → P (combine a b))
    {ts : List (Term α)} (h : ∀ t ∈ ts, P t) : P (join combine ts) := by
  cases ts with
  | nil => exact zero
  | cons t ts =>
    obtain ⟨ht, hts⟩ := List.forall_mem_cons.1 h
    exact List.foldlRecOn ts combine ht fun a ha u hu => step a u ha (hts u hu)

/-- What joined terms have as a whole, each of them has, if it is so for two. -/
theorem forall_of_join {P : Term α → Prop} {combine : Term α → Term α → Term α}
    (step : ∀ a b, P (combine a b) → P a ∧ P b) {ts : List (Term α)} (h : P (join combine ts)) :
    ∀ t ∈ ts, P t := by
  cases ts with
  | nil => exact List.forall_mem_nil _
  | cons t ts =>
    rw [join] at h
    induction ts generalizing t with
    | nil => exact List.forall_mem_singleton.2 h
    | cons u ts ih =>
      obtain ⟨first, rest⟩ := List.forall_mem_cons.1 (ih (combine t u) h)
      obtain ⟨ht, hu⟩ := step t u first
      exact List.forall_mem_cons.2 ⟨ht, List.forall_mem_cons.2 ⟨hu, rest⟩⟩

/-- What multiplication keeps, powers keep. -/
theorem power_of_mul {P : Term α → Prop} (one : P (.const 1))
    (mul : ∀ a b : Term α, P a → P b → P (a * b)) {t : Term α} (ht : P t) (n : Nat) :
    P (power t n) := by
  cases n with
  | zero => exact one
  | succ n =>
    refine List.foldlRecOn (List.replicate n t) (· * ·) ht fun a ha u hu => mul a u ha ?_
    rw [List.eq_of_mem_replicate hu]
    exact ht

section

variable {const : Float → Bool} {op : Op → Nat → Bool} {o : Op} {ts : List (Term α)}

theorem every_join (zero : const 0) (two : op o 2) (h : ∀ t ∈ ts, t.every const op) :
    (join (fun a b => .op o [a, b]) ts).every const op :=
  join_of_forall (P := fun t => t.every const op) zero
    (fun _ _ ha hb => every_two.2 ⟨two, ha, hb⟩) h

theorem forall_every_of_join (h : (join (fun a b => .op o [a, b]) ts).every const op) :
    ∀ t ∈ ts, t.every const op :=
  forall_of_join (P := fun t => t.every const op) (fun _ _ hab => (every_two.1 hab).2) h

theorem every_power (one : const 1) (mul : op .mul 2) {t : Term α} (ht : t.every const op)
    (n : Nat) : (power t n).every const op :=
  power_of_mul (P := fun t => t.every const op) one
    (fun _ _ ha hb => every_mul.2 ⟨mul, ha, hb⟩) ht n

end

end Formula.Term

namespace Formula.Expr

theorem depth_op (o : Op) (args : List Expr) :
    depth (.op o args) = 1 + (args.map depth).foldr max 0 := by
  rw [depth, Term.fold_op]; rfl

theorem one_le_depth (e : Expr) : 1 ≤ e.depth := by
  cases e with
  | const c => exact Nat.le_refl 1
  | var v => exact Nat.le_refl 1
  | op o args => rw [depth_op]; omega

theorem depth_op_le_iff {o : Op} {args : List Expr} {m : Nat} :
    depth (.op o args) ≤ m + 1 ↔ ∀ e ∈ args, e.depth ≤ m := by
  rw [depth_op, Nat.add_comm, Nat.add_le_add_iff_right, foldr_max_le_iff, List.forall_mem_map]

end Formula.Expr
