import Formula.Op.Derivative
import Formula.Proofs.Shape

/-!
# Substitution in derivative rules

A rule composes its operands and their derivatives and looks at none of them, so it commutes with
putting terms in the place of variables (`derivative_bind`).  The rule over the nodes of a store and
the rule over expressions are therefore one rule, and the variables of what a rule builds are
among those it was given (`derivative_map_val`).  What every constant and operation of the
operands and their derivatives is, those of what the rule builds are, if the few that it adds are
(`derivative_every`): so it builds only operations with as many operands as they take
(`derivative_fits`).  Of the derivatives none is dropped (`every_of_derivative`).
-/

namespace Formula

namespace Term

variable {α β γ : Type}

/-- Puts terms in the place of variables. -/
def bind (f : α → Term β) (t : Term α) : Term β := t.fold .const f .op

/-- Renames variables. -/
def map (f : α → β) (t : Term α) : Term β := t.bind (.var ∘ f)

section

variable (f : α → Term β)

@[simp] theorem bind_const (c : Float) : (Term.const c : Term α).bind f = .const c := rfl

@[simp] theorem bind_var (v : α) : (Term.var v).bind f = f v := rfl

@[simp] theorem bind_op (o : Op) (args : List (Term α)) :
    (Term.op o args).bind f = .op o (args.map (bind f)) := by
  rw [bind, fold_op]; rfl

@[simp] theorem bind_add (a b : Term α) : (a + b).bind f = a.bind f + b.bind f := bind_op f _ _

@[simp] theorem bind_sub (a b : Term α) : (a - b).bind f = a.bind f - b.bind f := bind_op f _ _

@[simp] theorem bind_mul (a b : Term α) : (a * b).bind f = a.bind f * b.bind f := bind_op f _ _

@[simp] theorem bind_div (a b : Term α) : (a / b).bind f = a.bind f / b.bind f := bind_op f _ _

@[simp] theorem bind_neg (a : Term α) : (-a).bind f = -a.bind f := bind_op f _ _

@[simp] theorem bind_square (a : Term α) : (square a).bind f = square (a.bind f) := bind_mul f a a

theorem bind_join {combine : Term α → Term α → Term α} {combine' : Term β → Term β → Term β}
    (h : ∀ a b, (combine a b).bind f = combine' (a.bind f) (b.bind f)) (ts : List (Term α)) :
    (join combine ts).bind f = join combine' (ts.map (bind f)) := by
  cases ts with
  | nil => rfl
  | cons t ts =>
    rw [join, List.map_cons, join]
    induction ts generalizing t with
    | nil => rfl
    | cons u ts ih => rw [List.foldl_cons, ih, List.map_cons, List.foldl_cons, h]

@[simp] theorem bind_sum (ts : List (Term α)) : (sum ts).bind f = sum (ts.map (bind f)) :=
  bind_join f (bind_add f) ts

@[simp] theorem bind_product (ts : List (Term α)) :
    (product ts).bind f = product (ts.map (bind f)) :=
  bind_join f (bind_mul f) ts

@[simp] theorem bind_power (t : Term α) (n : Nat) : (power t n).bind f = power (t.bind f) n := by
  cases n with
  | zero => rfl
  | succ n => rw [power, bind_product, List.map_replicate, power]

end

theorem bind_self (t : Term α) : t.bind .var = t := by
  induction t with
  | const c => rfl
  | var v => rfl
  | op o args ih => rw [bind_op, List.map_congr_left ih, List.map_id']

/-- Renaming before substitution is substitution of the renamed. -/
theorem bind_map (f : β → Term γ) (g : α → β) (t : Term α) : (t.map g).bind f = t.bind (f ∘ g) := by
  induction t with
  | const c => rfl
  | var v => rfl
  | op o args ih =>
    rw [map, bind_op, bind_op, bind_op, List.map_map]
    exact congrArg _ (List.map_congr_left ih)

end Term

namespace Term

variable {α : Type}

theorem fits_map {β : Type} {g : β → α} {t : Term β} : (t.map g).fits ↔ t.fits := by
  induction t with
  | const c => rfl
  | var v => rfl
  | op o args ih =>
    rw [map, bind_op, fits_op, fits_op, List.length_map, List.forall_mem_map]
    exact and_congr_right fun _ => forall₂_congr fun t ht => ih t ht

end Term

namespace Op

open Term

variable {α β : Type}

theorem partialProducts_bind (f : α → Term β) (args : List (Term α × Term α)) :
    (partialProducts args).map (bind f) =
      partialProducts (args.map (Prod.map (bind f) (bind f))) := by
  apply List.ext_getElem?
  intro i
  cases h : args[i]? <;> simp [partialProducts, h, List.map_set, Function.comp_def]

/-- A rule commutes with substitution. -/
theorem derivative_bind (f : α → Term β) (o : Op) (self : Term α) (args : List (Term α × Term α)) :
    (o.derivative self args).map (bind f) =
      o.derivative (self.bind f) (args.map (Prod.map (bind f) (bind f))) := by
  rcases args with _ | ⟨⟨a, a'⟩, _ | ⟨⟨b, b'⟩, _ | ⟨⟨c, c'⟩, _ | ⟨d, args⟩⟩⟩⟩ <;> cases o <;>
    simp [derivative, partialProducts_bind, Function.comp_def]

/-- A rule commutes with renaming. -/
theorem derivative_rename (f : α → β) (o : Op) (self : α) (as bs : List α) :
    o.derivative (.var (f self)) (((as.map f).zip (bs.map f)).map fun (a, d) => (.var a, .var d)) =
      (o.derivative (.var self) ((as.zip bs).map fun (a, d) => (.var a, .var d))).map
        (Term.map f) := by
  have natural := derivative_bind (.var ∘ f) o (.var self)
    ((as.zip bs).map fun (a, d) => (.var a, .var d))
  rw [Term.bind_var, List.map_map] at natural
  rw [List.zip_map, List.map_map]
  exact natural.symm

theorem derivative_nil (o : Op) (self : Term α) : o.derivative self [] = none := by
  cases o <;> rfl

theorem exists_cons_of_derivative {o : Op} {self t : Term α} {args : List (Term α × Term α)}
    (h : o.derivative self args = some t) : ∃ x rest, args = x :: rest := by
  cases args with
  | nil => rw [derivative_nil] at h; cases h
  | cons x rest => exact ⟨x, rest, rfl⟩

/-- The variables of what a rule builds are among those it was given. -/
theorem derivative_map_val {P : α → Prop} {o : Op} {self : α} {args : List (α × α)} {t : Term α}
    (hself : P self) (hargs : ∀ x ∈ args, P x.1 ∧ P x.2)
    (h : o.derivative (.var self) (args.map fun (a, d) => (.var a, .var d)) = some t) :
    ∃ t' : Term {a // P a}, t'.map Subtype.val = t := by
  let args' : List ({a // P a} × {a // P a}) :=
    args.attach.map fun ⟨x, hx⟩ => (⟨x.1, (hargs x hx).1⟩, ⟨x.2, (hargs x hx).2⟩)
  have natural := derivative_bind (.var ∘ Subtype.val) o (.var ⟨self, hself⟩)
    (args'.map fun (a, d) => (.var a, .var d))
  have forget : (args'.map fun (a, d) => (Term.var a, Term.var d)).map
      (Prod.map (Term.bind (.var ∘ Subtype.val)) (Term.bind (.var ∘ Subtype.val))) =
        args.map fun (a, d) => (.var a, .var d) := by
    rw [List.map_map, List.map_map]
    exact List.attach_map_val (f := fun x : α × α => (Term.var x.1, Term.var x.2))
  rw [forget, Term.bind_var] at natural
  rw [show (Term.var ∘ Subtype.val : {a // P a} → Term α) ⟨self, hself⟩ = .var self from rfl, h,
    Option.map_eq_some_iff] at natural
  obtain ⟨t', -, ht'⟩ := natural
  exact ⟨t', ht'⟩

/-- A partial product is one of operands and derivatives. -/
theorem eq_product_of_mem_partialProducts {args : List (Term α × Term α)} {t : Term α}
    (ht : t ∈ partialProducts args) :
    ∃ us, t = product us ∧ ∀ u ∈ us, ∃ x ∈ args, u = x.1 ∨ u = x.2 := by
  obtain ⟨i, hi, rfl⟩ := List.mem_mapIdx.1 ht
  refine ⟨_, rfl, fun u hu => ?_⟩
  rcases List.mem_or_eq_of_mem_set hu with hu | rfl
  · obtain ⟨x, hx, rfl⟩ := List.mem_map.1 hu
    exact ⟨x, hx, .inl rfl⟩
  · exact ⟨_, List.getElem_mem hi, .inr rfl⟩

/-! ### What rules are composed of -/

/--
The tests that pass what the rule of an operation on so many operands adds of its own: its constants,
and the operations that it applies.
-/
structure Admits (o : Op) (count : Nat) (const : Float → Bool) (op : Op → Nat → Bool) : Prop where
  constants : ∀ c ∈ [0, 1, 2, Float.ofNat count], const c
  binary : ∀ o' ∈ [add, sub, mul, div], op o' 2
  neg : op neg 1
  mean : 1 ≤ count → op arithMean count
  sign : o = geomMean → op signum 1

section

variable {const : Float → Bool} {op : Op → Nat → Bool} {o : Op} {self t : Term α}
  {args : List (Term α × Term α)}

theorem partialProducts_every (zero : const 0) (two : op mul 2)
    (hargs : ∀ x ∈ args, x.1.every const op ∧ x.2.every const op) :
    ∀ t ∈ partialProducts args, t.every const op := by
  intro t ht
  obtain ⟨us, rfl, among⟩ := eq_product_of_mem_partialProducts ht
  refine every_join zero two fun u hu => ?_
  obtain ⟨x, hx, rfl | rfl⟩ := among u hu
  · exact (hargs x hx).1
  · exact (hargs x hx).2

/-- What a rule builds passes the tests that the terms it is given pass, if its own additions do. -/
theorem derivative_every (admits : o.Admits args.length const op) (hself : self.every const op)
    (hargs : ∀ x ∈ args, x.1.every const op ∧ x.2.every const op)
    (h : o.derivative self args = some t) : t.every const op := by
  obtain ⟨constants, binary, neg, mean, sign⟩ := admits
  simp only [List.forall_mem_cons] at constants binary
  obtain ⟨zero, one, two, count, -⟩ := constants
  obtain ⟨add, sub, mul, div, -⟩ := binary
  have operands : ∀ t ∈ args.map (·.1), t.every const op :=
    List.forall_mem_map.2 fun x hx => (hargs x hx).1
  have derivatives : ∀ t ∈ args.map (·.2), t.every const op :=
    List.forall_mem_map.2 fun x hx => (hargs x hx).2
  cases o
  case arithMean =>
    obtain ⟨x, rest, rfl⟩ := exists_cons_of_derivative h
    obtain rfl := Option.some.inj h
    exact every_op.2 ⟨by rw [List.length_map]; exact mean (by simp), derivatives⟩
  case geomMean =>
    obtain ⟨x, rest, rfl⟩ := exists_cons_of_derivative h
    obtain rfl := Option.some.inj h
    have products := partialProducts_every zero mul hargs
    have numerator : (Term.op arithMean (partialProducts (x :: rest))).every const op :=
      every_op.2 ⟨by rw [partialProducts, List.length_mapIdx]; exact mean (by simp), products⟩
    have sign : (Term.op signum [product ((x :: rest).map (·.1))]).every const op :=
      every_op.2 ⟨sign rfl, List.forall_mem_singleton.2 (every_join zero mul operands)⟩
    exact every_div.2 ⟨div, numerator, every_mul.2 ⟨mul, sign, every_power one mul hself _⟩⟩
  case harmMean =>
    obtain ⟨x, rest, rfl⟩ := exists_cons_of_derivative h
    obtain rfl := Option.some.inj h
    refine every_mul.2 ⟨mul, every_join zero add (List.forall_mem_map.2 fun x hx => ?_), ?_⟩
    · exact every_div.2 ⟨div, (hargs x hx).2, every_square.2 ⟨mul, (hargs x hx).1⟩⟩
    · exact every_div.2 ⟨div, every_square.2 ⟨mul, hself⟩, count⟩
  case signum => simp [derivative] at h
  all_goals
    rcases args with _ | ⟨⟨a, a'⟩, _ | ⟨⟨b, b'⟩, _ | ⟨⟨c, c'⟩, _ | ⟨d, args⟩⟩⟩⟩ <;>
      simp only [derivative, Option.some.injEq, reduceCtorEq] at h
    subst h
    simp only [List.forall_mem_cons] at hargs
    simp [add, sub, mul, div, neg, two, hself, hargs]

/-- A rule drops none of the derivatives that it is given. -/
theorem every_of_derivative (h : o.derivative self args = some t) (ht : t.every const op) :
    ∀ x ∈ args, x.2.every const op := by
  cases o
  case arithMean =>
    obtain ⟨_, _, rfl⟩ := exists_cons_of_derivative h
    obtain rfl := Option.some.inj h
    exact fun x hx => (every_op.1 ht).2 _ (List.mem_map_of_mem hx)
  case geomMean =>
    obtain ⟨_, _, rfl⟩ := exists_cons_of_derivative h
    obtain rfl := Option.some.inj h
    intro x hx
    obtain ⟨i, hi, rfl⟩ := List.getElem_of_mem hx
    have product := (every_op.1 (every_div.1 ht).2.1).2 _ (List.mem_mapIdx.2 ⟨i, hi, rfl⟩)
    exact forall_every_of_join product _ (List.mem_set (by simpa using hi) _)
  case harmMean =>
    obtain ⟨_, _, rfl⟩ := exists_cons_of_derivative h
    obtain rfl := Option.some.inj h
    intro x hx
    have term := forall_every_of_join (every_mul.1 ht).2.1 _ (List.mem_map_of_mem hx)
    exact (every_div.1 term).2.1
  case signum => simp [derivative] at h
  all_goals
    rcases args with _ | ⟨⟨a, a'⟩, _ | ⟨⟨b, b'⟩, _ | ⟨⟨c, c'⟩, _ | ⟨d, args⟩⟩⟩⟩ <;>
      simp only [derivative, Option.some.injEq, reduceCtorEq] at h
    subst h
    simp only [List.forall_mem_cons]
    simp_all

end

theorem admits_fits (o : Op) (count : Nat) :
    o.Admits count (fun _ => true) fun o n => o.arity.accepts n where
  constants _ _ := rfl
  binary := by decide
  neg := rfl
  mean several := decide_eq_true several
  sign _ := rfl

/-- A rule builds only operations with as many operands as they take. -/
theorem derivative_fits {o : Op} {self : Term α} {args : List (Term α × Term α)} {t : Term α}
    (hself : self.fits) (hargs : ∀ x ∈ args, x.1.fits ∧ x.2.fits)
    (h : o.derivative self args = some t) : t.fits :=
  derivative_every (o.admits_fits args.length) hself hargs h

end Op

end Formula
