import Mathlib.Data.Set.Function
import Mathlib.Logic.Relator
import Formula.Proofs.Cycles

/-!
# Stores that are the same up to renaming

A `Correspondence` pairs nodes of two stores one to one, so that nodes that correspond are of the
same kind on nodes that correspond, and remember nodes that correspond.  It need not pair all nodes,
but what is reached from nodes that correspond corresponds.  So it is a renaming of everything that
is reached from them (`Correspondence.exists_renaming`).
-/

namespace Formula

/-- The same kind on renamed operands. -/
def Kind.rename (f : Nat → Nat) : Kind → Kind
  | op o args => op o (args.map f)
  | k => k

namespace Kind.Alike

variable {R : Nat → Nat → Prop} {k k' : Kind}

theorem flip (h : k.Alike R k') : k'.Alike (Function.swap R) k := by
  cases h with
  | const c => exact .const c
  | var v => exact .var v
  | op o operands => exact .op o operands.flip

theorem eq_rename {f : Nat → Nat} (h : k.Alike R k') (renames : ∀ j j', R j j' → f j = j') :
    k' = k.rename f := by
  cases h with
  | const c => rfl
  | var v => rfl
  | op o operands =>
    refine congrArg (Kind.op o) ?_
    induction operands with
    | nil => rfl
    | cons head _ ih => rw [List.map_cons, renames _ _ head, ih]

end Kind.Alike

namespace Store

variable {R : Nat → Nat → Prop} {s s' : Store} {roots roots' : Set Nat} {v : Var} {j j' k : Nat}

/-- The nodes that are reached through operands and remembered derivatives. -/
def reached (s : Store) (roots : Set Nat) : Set Nat :=
  {j | ∃ i ∈ roots, Relation.ReflTransGen s.Refers i j}

/-- Nodes of two stores that correspond, one to one. -/
structure Correspondence (R : Nat → Nat → Prop) (s s' : Store) : Prop where
  biUnique : Relator.BiUnique R
  alike : ∀ {j j'}, R j j' → (s.kind j).Alike R (s'.kind j')
  remembered : ∀ {j j'} (v : Var), R j j' → Option.Rel R (s.derivative? j v) (s'.derivative? j' v)

namespace Correspondence

theorem flip (h : Correspondence R s s') : Correspondence (Function.swap R) s' s where
  biUnique := ⟨fun _ _ _ h₁ h₂ => h.biUnique.2 h₁ h₂, fun _ _ _ h₁ h₂ => h.biUnique.1 h₁ h₂⟩
  alike related := (h.alike related).flip
  remembered {j j'} v related := by
    have remembered := h.remembered v related
    generalize s'.derivative? j v = x, s.derivative? j' v = y at remembered
    cases remembered with
    | some related => exact .some related
    | none => exact .none

/-- What one node refers to, the other refers to as well. -/
theorem exists_refers (h : Correspondence R s s') (related : R j j') (refers : s.Refers j k) :
    ∃ k', s'.Refers j' k' ∧ R k k' := by
  cases refers with
  | operand ha =>
    obtain ⟨a', ha', related⟩ := (h.alike related).exists_operand k ha
    exact ⟨a', .operand ha', related⟩
  | @derivative v _ found =>
    have remembered := h.remembered v related
    rw [found] at remembered
    generalize found' : s'.derivative? j' v = x at remembered
    cases remembered with
    | some related => exact ⟨_, .derivative found', related⟩

theorem exists_reached (h : Correspondence R s s')
    (matched : ∀ i ∈ roots, ∃ i' ∈ roots', R i i') (hj : j ∈ s.reached roots) :
    ∃ j' ∈ s'.reached roots', R j j' := by
  obtain ⟨i, hi, path⟩ := hj
  obtain ⟨i', hi', related⟩ := matched i hi
  induction path with
  | refl => exact ⟨i', ⟨i', hi', .refl⟩, related⟩
  | tail _ refers ih =>
    obtain ⟨j', ⟨r, hr, path⟩, related⟩ := ih
    obtain ⟨k', refers', related⟩ := h.exists_refers related refers
    exact ⟨k', ⟨r, hr, path.tail refers'⟩, related⟩

/-- The node that a relation pairs with `j`, and an arbitrary one if it pairs none. -/
noncomputable def partner (R : Nat → Nat → Prop) (j : Nat) : Nat := Classical.epsilon (R j)

theorem partner_eq (h : Correspondence R s s') (related : R j j') : partner R j = j' :=
  h.biUnique.2 (Classical.epsilon_spec ⟨j', related⟩) related

/-- Nodes that correspond are renamed to each other, with all that is reached from them. -/
theorem exists_renaming (h : Correspondence R s s') (matched : ∀ i ∈ roots, ∃ i' ∈ roots', R i i')
    (matched' : ∀ i' ∈ roots', ∃ i ∈ roots, R i i') :
    ∃ f : Nat → Nat, (∀ j j', R j j' → f j = j') ∧
      Set.BijOn f (s.reached roots) (s'.reached roots') ∧
        ∀ j ∈ s.reached roots, s'.kind (f j) = (s.kind j).rename f ∧
          ∀ v, s'.derivative? (f j) v = (s.derivative? j v).map f := by
  have renames (j j' : Nat) (related : R j j') : partner R j = j' := h.partner_eq related
  refine ⟨partner R, renames, ⟨fun j hj => ?_, fun j hj k hk same => ?_, fun j' hj' => ?_⟩,
    fun j hj => ?_⟩
  · obtain ⟨j', hj', related⟩ := h.exists_reached matched hj
    rwa [renames j j' related]
  · obtain ⟨j', -, related⟩ := h.exists_reached matched hj
    obtain ⟨k', -, related'⟩ := h.exists_reached matched hk
    rw [renames j j' related, renames k k' related'] at same
    subst same
    exact h.biUnique.1 related related'
  · obtain ⟨j, hj, related⟩ := h.flip.exists_reached matched' hj'
    exact ⟨j, hj, renames j j' related⟩
  · obtain ⟨j', -, related⟩ := h.exists_reached matched hj
    rw [renames j j' related]
    refine ⟨(h.alike related).eq_rename renames, fun v => ?_⟩
    have remembered := h.remembered v related
    generalize s.derivative? j v = x, s'.derivative? j' v = y at remembered
    cases remembered with
    | some related => rw [Option.map_some, renames _ _ related]
    | none => rfl

end Correspondence

end Store

end Formula
