import Mathlib.Data.List.Forall2
import Formula.Expr.Evaluation
import Formula.Op.Derivative
import Formula.Proofs.Shape

/-!
# Checked rules

The rules of the operations once more, as a program carries them out that trusts its callers: it
reads operands and derivatives by their places, asserts the operand count of every operation that it
builds, counts down, and joins a list from its first term on.  What may go wrong in this is a `Slip`,
and a `Checked` result is there only if nothing slipped.

Operand counts matter: without operands every derivative rule slips (`rule?_nil`).  On as many
operands as the operation takes nothing slips, and the checked rules are the rules: `rule?_eq` for
derivatives, `value_eq` for numbers.  An expression that has as many operands everywhere as it should
is therefore evaluated without a slip (`eval_eq`, `evalWith_eq`).
-/

namespace Formula

/-- What may go wrong in a rule that trusts its caller. -/
inductive Slip where
  /-- A list is read at a place that it does not have. -/
  | outOfRange (place length : Nat)
  /-- An operation is built on a number of operands that it does not take. -/
  | operandCount (o : Op) (count : Nat)
  /-- One is taken from zero. -/
  | belowZero
  /-- There are no terms to join. -/
  | nothingToJoin

/-- A result, unless something slips. -/
abbrev Checked := Except Slip

namespace Checked

variable {α β : Type}

/-! ### What may slip -/

/-- The item at a place. -/
def item (xs : List β) (place : Nat) : Checked β :=
  match xs[place]? with
  | some x => .ok x
  | none => .error (.outOfRange place xs.length)

/-- One less. -/
def pred : Nat → Checked Nat
  | 0 => .error .belowZero
  | n + 1 => .ok n

/-- Asserts that an operation takes so many operands. -/
def accept (o : Op) (count : Nat) : Checked Unit :=
  if o.arity.accepts count then .ok () else .error (.operandCount o count)

/-- An operation, with its operand count asserted. -/
def operation (o : Op) (args : List (Term α)) : Checked (Term α) := do
  accept o args.length
  return .op o args

def add (a b : Term α) : Checked (Term α) := operation .add [a, b]

def sub (a b : Term α) : Checked (Term α) := operation .sub [a, b]

def mul (a b : Term α) : Checked (Term α) := operation .mul [a, b]

def div (a b : Term α) : Checked (Term α) := operation .div [a, b]

def neg (a : Term α) : Checked (Term α) := operation .neg [a]

def square (t : Term α) : Checked (Term α) := mul t t

/-- Joins terms from the left. -/
def join (combine : Term α → Term α → Checked (Term α)) : List (Term α) → Checked (Term α)
  | [] => .error .nothingToJoin
  | t :: ts => ts.foldlM combine t

def power (t : Term α) : Nat → Checked (Term α)
  | 0 => .ok (.const 1)
  | n + 1 => join mul (List.replicate (n + 1) t)

theorem item_eq {xs : List β} {place : Nat} (h : place < xs.length) :
    item xs place = .ok xs[place] := by
  rw [item, List.getElem?_eq_getElem h]

theorem accept_eq {o : Op} {count : Nat} (h : o.arity.accepts count) : accept o count = .ok () :=
  if_pos h

theorem operation_eq {o : Op} {args : List (Term α)} (h : o.arity.accepts args.length) :
    operation o args = .ok (.op o args) := by
  rw [operation, accept_eq h]
  rfl

theorem join_eq {combine : Term α → Term α → Checked (Term α)}
    {combine' : Term α → Term α → Term α} (h : ∀ a b, combine a b = .ok (combine' a b))
    {ts : List (Term α)} (nonempty : ts ≠ []) : join combine ts = .ok (Term.join combine' ts) := by
  cases ts with
  | nil => exact absurd rfl nonempty
  | cons t ts =>
    rw [join, Term.join]
    induction ts generalizing t with
    | nil => rfl
    | cons u ts ih =>
      rw [List.foldlM_cons, h]
      exact ih (combine' t u) (List.cons_ne_nil _ _)

theorem product_eq {ts : List (Term α)} (nonempty : ts ≠ []) :
    join mul ts = .ok (Term.product ts) :=
  join_eq (fun _ _ => rfl) nonempty

theorem sum_eq {ts : List (Term α)} (nonempty : ts ≠ []) : join add ts = .ok (Term.sum ts) :=
  join_eq (fun _ _ => rfl) nonempty

theorem power_eq (t : Term α) (n : Nat) : power t n = .ok (Term.power t n) := by
  cases n with
  | zero => rfl
  | succ n => exact product_eq (List.cons_ne_nil _ _)

/-- Several results are all there when each of them is. -/
theorem mapM_eq_ok_iff {ε γ : Type} {f : β → Except ε γ} {xs : List β} {ys : List γ} :
    xs.mapM f = .ok ys ↔ List.Forall₂ (fun x y => f x = .ok y) xs ys := by
  induction xs generalizing ys with
  | nil =>
    rw [List.mapM_nil, List.forall₂_nil_left_iff]
    exact ⟨fun h => (Except.ok.inj h).symm, fun h => h ▸ rfl⟩
  | cons x xs ih =>
    rw [List.mapM_cons, List.forall₂_cons_left_iff]
    constructor
    · intro h
      cases head : f x with
      | error err => simp [head, bind, Except.bind] at h
      | ok y =>
        cases tail : xs.mapM f with
        | error err => simp [head, tail, bind, Except.bind] at h
        | ok ys' =>
          rw [head, tail] at h
          exact ⟨y, ys', rfl, ih.1 tail, (Except.ok.inj h).symm⟩
    · rintro ⟨y, ys', head, tail, rfl⟩
      rw [head, ih.2 tail]
      rfl

/-- Reading a list place by place reads the list. -/
theorem mapM_range {f : Nat → Checked β} {n : Nat} {xs : List β} (length : xs.length = n)
    (h : ∀ place (inside : place < xs.length), f place = .ok xs[place]) :
    (List.range n).mapM f = .ok xs := by
  refine mapM_eq_ok_iff.2 (List.forall₂_iff_get.2 ⟨by simp [length], fun place _ inside => ?_⟩)
  simpa using h place inside

/-! ### Derivative rules -/

/-- The product of the operands in which the one at a place is replaced by its derivative. -/
def partialProduct (args ds : List (Term α)) (place : Nat) : Checked (Term α) := do
  let factors ← (List.range args.length).mapM fun i =>
    if i = place then item ds i else item args i
  join mul factors

/-- A rule is given the term that it differentiates, its operands, and their derivatives. -/
abbrev Rule (α : Type) := Term α → List (Term α) → List (Term α) → Checked (Term α)

/-- The derivative rule of an operation. -/
def rule? : Op → Option (Rule α)
  | .signum => none
  | .add => some fun _ _ ds => do add (← item ds 0) (← item ds 1)
  | .sub => some fun _ _ ds => do sub (← item ds 0) (← item ds 1)
  | .mul => some fun _ args ds => do
    add (← mul (← item ds 0) (← item args 1)) (← mul (← item ds 1) (← item args 0))
  | .div => some fun _ args ds => do
    let left ← mul (← item ds 0) (← item args 1)
    let right ← mul (← item ds 1) (← item args 0)
    div (← sub left right) (← square (← item args 1))
  | .neg => some fun _ _ ds => do neg (← item ds 0)
  | .mulAdd => some fun _ args ds => do
    let left ← mul (← item ds 0) (← item args 1)
    let right ← mul (← item args 0) (← item ds 1)
    add (← add left right) (← item ds 2)
  | .hypot => some fun _ args ds => do
    let left ← mul (← item args 0) (← item ds 0)
    let right ← mul (← item args 1) (← item ds 1)
    mul (.const 2) (← add left right)
  | .hmean => some fun self args ds => do
    let left ← div (← item ds 0) (← square (← item args 0))
    let right ← div (← item ds 1) (← square (← item args 1))
    mul (← add left right) (← div (← square self) (.const 2))
  | .arithMean => some fun _ _ ds => operation .arithMean ds
  | .geomMean => some fun self args ds => do
    let products ← (List.range args.length).mapM (partialProduct args ds)
    let sign ← operation .signum [← join mul args]
    div (← operation .arithMean products) (← mul sign (← power self (← pred args.length)))
  | .harmMean => some fun self args ds => do
    let terms ← (args.zip ds).mapM fun x => do div x.2 (← square x.1)
    mul (← join add terms) (← div (← square self) (.const (.ofNat args.length)))

theorem rule?_isSome (o : Op) : (rule? (α := α) o).isSome = o.isDifferentiable := by
  cases o <;> rfl

/--
Without operands every rule slips.  So what is proved below of the checked rules is due to the
operand counts, and would fail of an expression that does not have them.
-/
theorem rule?_nil {o : Op} {rule : Rule α} (h : rule? o = some rule) (self : Term α) :
    ∃ slip, rule self [] [] = .error slip := by
  cases o <;> cases h <;> exact ⟨_, rfl⟩

theorem partialProduct_eq {args ds : List (Term α)} (length : ds.length = args.length) {place : Nat}
    (inside : place < ds.length) :
    partialProduct args ds place = .ok (Term.product (args.set place ds[place])) := by
  have factors : ((List.range args.length).mapM fun i =>
      if i = place then item ds i else item args i) = .ok (args.set place ds[place]) := by
    refine mapM_range (List.length_set ..) fun i hi => ?_
    rw [List.length_set] at hi
    rw [List.getElem_set]
    split
    · next same =>
      subst same
      rw [if_pos rfl, item_eq]
    · next other => rw [if_neg (Ne.symm other), item_eq hi]
  rw [partialProduct, factors]
  refine product_eq fun empty => ?_
  rw [List.set_eq_nil_iff] at empty
  simp [length, empty] at inside

theorem partialProducts_eq {args ds : List (Term α)} (length : ds.length = args.length) :
    (List.range args.length).mapM (partialProduct args ds) =
      .ok (Op.partialProducts (args.zip ds)) := by
  have firsts : (args.zip ds).map Prod.fst = args := List.map_fst_zip (Nat.le_of_eq length.symm)
  have counted : (args.zip ds).length = ds.length := by simp [length]
  refine mapM_range (by rw [Op.partialProducts, List.length_mapIdx, counted, length])
    fun place inside => ?_
  rw [Op.partialProducts, List.length_mapIdx, counted] at inside
  rw [partialProduct_eq length inside]
  simp only [Op.partialProducts, List.getElem_mapIdx, List.getElem_zip, firsts]

theorem exists_zipped {as : List α} {bs : List β} (nonempty : as ≠ [])
    (length : bs.length = as.length) :
    ∃ x xs, (x :: xs).map Prod.fst = as ∧ (x :: xs).map Prod.snd = bs := by
  have firsts : (as.zip bs).map Prod.fst = as := List.map_fst_zip (Nat.le_of_eq length.symm)
  have seconds : (as.zip bs).map Prod.snd = bs := List.map_snd_zip (Nat.le_of_eq length)
  cases zipped : as.zip bs with
  | nil =>
    rw [zipped] at firsts
    exact absurd firsts.symm nonempty
  | cons x xs =>
    rw [zipped] at firsts seconds
    exact ⟨x, xs, firsts, seconds⟩

/-- On as many operands as the operation takes, the rule does not slip. -/
theorem rule?_eq {o : Op} {rule : Rule α} (h : rule? o = some rule) {args ds : List (Term α)}
    (count : o.arity.accepts args.length) (length : ds.length = args.length) (self : Term α) :
    ∃ t, rule self args ds = .ok t ∧ o.derivative self (args.zip ds) = some t := by
  have nonempty : args ≠ [] := Op.ne_nil_of_accepts count
  cases o with
  | signum => cases h
  | add | sub | mul | div | hypot | hmean =>
    obtain ⟨a, b, rfl⟩ := List.length_eq_two.1 (of_decide_eq_true count)
    obtain ⟨a', b', rfl⟩ := List.length_eq_two.1 length
    obtain rfl := Option.some.inj h
    exact ⟨_, rfl, rfl⟩
  | neg =>
    obtain ⟨a, rfl⟩ := List.length_eq_one_iff.1 (of_decide_eq_true count)
    obtain ⟨a', rfl⟩ := List.length_eq_one_iff.1 length
    obtain rfl := Option.some.inj h
    exact ⟨_, rfl, rfl⟩
  | mulAdd =>
    obtain ⟨a, b, c, rfl⟩ := List.length_eq_three.1 (of_decide_eq_true count)
    obtain ⟨a', b', c', rfl⟩ := List.length_eq_three.1 length
    obtain rfl := Option.some.inj h
    exact ⟨_, rfl, rfl⟩
  -- The means take any number of operands, so they are rewritten over the zipped list.
  | arithMean =>
    obtain ⟨x, pairs, rfl, rfl⟩ := exists_zipped nonempty length
    obtain rfl := Option.some.inj h
    rw [List.length_map] at count
    rw [← List.zip_of_prod rfl rfl]
    exact ⟨_, operation_eq (by rwa [List.length_map]), rfl⟩
  | geomMean =>
    obtain ⟨x, pairs, rfl, rfl⟩ := exists_zipped nonempty length
    obtain rfl := Option.some.inj h
    have products := partialProducts_eq length
    rw [← List.zip_of_prod rfl rfl] at products ⊢
    have mean : operation .arithMean (Op.partialProducts (x :: pairs)) = .ok _ :=
      operation_eq (by simp [Op.partialProducts, Op.arity, Arity.accepts])
    have lower : pred ((x :: pairs).map Prod.fst).length = .ok pairs.length := by
      rw [List.length_map]
      rfl
    refine ⟨_, ?_, rfl⟩
    dsimp only
    rw [products, product_eq nonempty, lower]
    dsimp only [bind, Except.bind]
    rw [mean, power_eq]
    rfl
  | harmMean =>
    obtain ⟨x, pairs, rfl, rfl⟩ := exists_zipped nonempty length
    obtain rfl := Option.some.inj h
    rw [← List.zip_of_prod rfl rfl]
    have terms : ((x :: pairs).mapM fun x => do div x.2 (← square x.1)) =
        .ok ((x :: pairs).map fun x => x.2 / Term.square x.1) :=
      mapM_eq_ok_iff.2 (List.forall₂_map_right_iff.2 (List.forall₂_same.2 fun _ _ => rfl))
    have joined : join add ((x :: pairs).map fun x => x.2 / Term.square x.1) = .ok _ :=
      sum_eq (List.cons_ne_nil _ _)
    refine ⟨_, ?_, rfl⟩
    dsimp only
    rw [← List.zip_of_prod rfl rfl, terms, List.length_map]
    dsimp only [bind, Except.bind]
    rw [joined]
    rfl

/-! ### Numeric rules -/

/-- The numeric rule of an operation. -/
def value (o : Op) (vs : List Float) : Checked Float :=
  match o with
  | .signum => do return if 0 ≤ (← item vs 0) then 1 else -1
  | .add => do return (← item vs 0) + (← item vs 1)
  | .sub => do return (← item vs 0) - (← item vs 1)
  | .mul => do return (← item vs 0) * (← item vs 1)
  | .div => do return (← item vs 0) / (← item vs 1)
  | .neg => do return -(← item vs 0)
  | .mulAdd => do return Binary64.fusedMulAdd (← item vs 0) (← item vs 1) (← item vs 2)
  | .hypot => do return (← item vs 0) * (← item vs 0) + (← item vs 1) * (← item vs 1)
  | .hmean => do return 2 / (1 / (← item vs 0) + 1 / (← item vs 1))
  | .arithMean => .ok (Binary64.sum vs / .ofNat vs.length)
  | .geomMean => .ok ((Binary64.product vs).abs.pow (1 / .ofNat vs.length))
  | .harmMean => .ok (.ofNat vs.length / Binary64.sum (vs.map (1 / ·)))

theorem value_eq {o : Op} {vs : List Float} (count : o.arity.accepts vs.length) :
    value o vs = .ok (o.value vs) := by
  have nonempty : vs ≠ [] := Op.ne_nil_of_accepts count
  cases o with
  | signum | neg =>
    obtain ⟨a, rfl⟩ := List.length_eq_one_iff.1 (of_decide_eq_true count)
    rfl
  | add | sub | mul | div | hypot | hmean =>
    obtain ⟨a, b, rfl⟩ := List.length_eq_two.1 (of_decide_eq_true count)
    rfl
  | mulAdd =>
    obtain ⟨a, b, c, rfl⟩ := List.length_eq_three.1 (of_decide_eq_true count)
    rfl
  | arithMean | geomMean | harmMean =>
    obtain ⟨v, vs, rfl⟩ := List.exists_cons_of_ne_nil nonempty
    rfl

/-! ### Evaluation -/

/-- The value at a point. -/
def eval (e : Expr) (p : Point) : Checked Float :=
  e.fold .ok (fun v => .ok (p.get v)) fun o values => do value o (← values.mapM id)

/-- The value under named bindings, or the first name that has none. -/
def evalWith (e : Expr) (binding : String → Option Float) : ExceptT Error Checked Float :=
  e.fold pure
    (fun v => match binding v.name with
      | some c => pure c
      | none => throw (.unboundVariable v.name))
    fun o values => do value o (← values.mapM id)

theorem eval_op (o : Op) (args : List Expr) (p : Point) :
    eval (.op o args) p = (do value o (← args.mapM (eval · p))) := by
  rw [eval, Term.fold_op, List.mapM_map]
  rfl

theorem evalWith_op (o : Op) (args : List Expr) (binding : String → Option Float) :
    evalWith (.op o args) binding = (do value o (← args.mapM (evalWith · binding))) := by
  rw [evalWith, Term.fold_op, List.mapM_map]
  rfl

theorem eval_eq {e : Expr} (fits : e.fits) (p : Point) : eval e p = .ok (e.eval p) := by
  induction e using Term.rec_mem with
  | const c => rfl
  | var v => rfl
  | op o args ih =>
    obtain ⟨count, operands⟩ := Term.fits_op.1 fits
    have values : args.mapM (eval · p) = .ok (args.map (Expr.eval · p)) :=
      mapM_eq_ok_iff.2 (List.forall₂_map_right_iff.2
        (List.forall₂_same.2 fun e he => ih e he (operands e he)))
    rw [eval_op, values, Expr.eval_op]
    exact value_eq (by rwa [List.length_map])

/-- Results that do not slip are collected without a slip. -/
theorem run_mapM {γ : Type} {f : β → ExceptT Error Checked γ} {g : β → Except Error γ}
    {xs : List β} (h : ∀ x ∈ xs, (f x).run = .ok (g x)) : (xs.mapM f).run = .ok (xs.mapM g) := by
  induction xs with
  | nil => rfl
  | cons x xs ih =>
    obtain ⟨hx, hxs⟩ := List.forall_mem_cons.1 h
    rw [List.mapM_cons, List.mapM_cons, ExceptT.run_bind, hx]
    cases g x with
    | error err => rfl
    | ok y =>
      change (xs.mapM f >>= fun ys => pure (y :: ys)).run = _
      rw [ExceptT.run_bind, ih hxs]
      cases xs.mapM g <;> rfl

theorem evalWith_eq {e : Expr} (fits : e.fits) (binding : String → Option Float) :
    (evalWith e binding).run = .ok (e.evalWith binding) := by
  induction e using Term.rec_mem with
  | const c => rfl
  | var v =>
    simp only [evalWith, Expr.evalWith, Term.fold_var]
    cases binding v.name <;> rfl
  | op o args ih =>
    obtain ⟨count, operands⟩ := Term.fits_op.1 fits
    have values := run_mapM fun e he => ih e he (operands e he)
    rw [evalWith_op, Expr.evalWith_op, ExceptT.run_bind, values]
    cases all : args.mapM (Expr.evalWith · binding) with
    | error err => rfl
    | ok vs =>
      have length := (mapM_eq_ok_iff.1 all).length_eq
      have value := value_eq (o := o) (length ▸ count)
      change (liftM (Checked.value o vs) : ExceptT Error Checked Float).run = _
      rw [value]
      rfl

end Checked

end Formula
