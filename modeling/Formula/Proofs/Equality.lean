import Mathlib.Data.List.Forall2
import Mathlib.Logic.Relation
import Formula.Proofs.Growth
import Formula.Proofs.Numbers
import Formula.Proofs.Walks
import Formula.Store.Equality

/-!
# Equal nodes

Nodes are equal when they are the same, or are of like kind on equal operands (`equal_iff`).  By
induction on the first node this is an equivalence, NaNs included, and no later store sees it
otherwise.  Unfolded along paths, equality compares the tops of what occurs at one place in both
expressions, as long as the two have not met in one node (`equal_iff_places`).
-/

namespace Formula

/-- What is related to something related is related by way of it, list by list too. -/
theorem forall₂_comp {R R' : Nat → Nat → Prop} {as bs cs : List Nat} (h : List.Forall₂ R as bs)
    (h' : List.Forall₂ R' bs cs) : List.Forall₂ (Relation.Comp R R') as cs := by
  induction h generalizing cs with
  | nil =>
    cases h'
    exact .nil
  | cons head _ ih =>
    cases h' with
    | cons head' tail' => exact .cons ⟨_, head, head'⟩ (ih tail')

namespace Kind

/-- Equal constants, the same variable, or one operation on operands that are related one by one. -/
inductive Like (R : Nat → Nat → Prop) : Kind → Kind → Prop
  | const {c c' : Float} (same : c == c') : Like R (.const c) (.const c')
  | var (v : Var) : Like R (.var v) (.var v)
  | op (o : Op) {args args' : List Nat} (operands : List.Forall₂ R args args') :
      Like R (.op o args) (.op o args')

/-- Equal constants, the same variable, or one operation on as many operands. -/
def SameTop : Kind → Kind → Prop
  | .const c, .const c' => c == c'
  | .var v, .var w => v = w
  | .op o args, .op o' args' => o = o' ∧ args.length = args'.length
  | _, _ => False

variable {R R' : Nat → Nat → Prop} {k k' k'' : Kind}

theorem agrees_iff {o : Op} {test : Nat → Nat → Bool} {args : List Nat} :
    k.agrees o (args.map test) ↔
      ∃ args', k = .op o args' ∧ List.Forall₂ (test · ·) args args' := by
  cases k with
  | const c => simp [agrees]
  | var v => simp [agrees]
  | op o' args' =>
    simp only [agrees, List.length_map, Bool.and_eq_true, decide_eq_true_eq, List.all_eq_true,
      op.injEq, List.forall₂_iff_zip, List.zip_map_left, List.forall_mem_map]
    constructor
    · rintro ⟨⟨rfl, length⟩, tests⟩
      exact ⟨args', ⟨rfl, rfl⟩, length, fun h => tests _ h⟩
    · rintro ⟨_, ⟨rfl, rfl⟩, length, tests⟩
      exact ⟨⟨rfl, length⟩, fun _ h => tests h⟩

namespace Like

theorem mono (h : k.Like R k') (hR : ∀ a ∈ k.operands, ∀ b ∈ k'.operands, R a b → R' a b) :
    k.Like R' k' := by
  cases h with
  | const same => exact .const same
  | var v => exact .var v
  | op o operands =>
    obtain ⟨length, related⟩ := List.forall₂_iff_zip.1 operands
    refine .op o (List.forall₂_iff_zip.2 ⟨length, fun paired => ?_⟩)
    obtain ⟨ha, hb⟩ := List.of_mem_zip paired
    exact hR _ ha _ hb (related paired)

theorem symm (h : k.Like R k') : k'.Like (flip R) k := by
  cases h with
  | const same => exact .const (Binary64.beq_symm same)
  | var v => exact .var v
  | op o operands => exact .op o operands.flip

theorem comp (h : k.Like R k') (h' : k'.Like R' k'') : k.Like (Relation.Comp R R') k'' := by
  cases h with
  | const same =>
    cases h' with
    | const same' => exact .const (Binary64.beq_trans same same')
  | var v =>
    cases h'
    exact .var v
  | op o operands =>
    cases h' with
    | op _ operands' => exact .op o (forall₂_comp operands operands')

end Like

theorem SameTop.length_eq (h : k.SameTop k') : k.operands.length = k'.operands.length := by
  cases k <;> cases k' <;> first | exact h.2 | rfl | exact h.elim

/-- Nodes are of like kind when their tops agree and their operands are related at each place. -/
theorem like_iff : k.Like R k' ↔ k.SameTop k' ∧
    ∀ n a b : Nat, k.operands[n]? = some a → k'.operands[n]? = some b → R a b := by
  constructor
  · intro like
    cases like with
    | const same => exact ⟨same, nofun⟩
    | var v => exact ⟨rfl, nofun⟩
    | op o operands =>
      obtain ⟨length, related⟩ := List.forall₂_iff_get.1 operands
      refine ⟨⟨rfl, length⟩, fun n a b ha hb => ?_⟩
      obtain ⟨hn, rfl⟩ := List.getElem?_eq_some_iff.1 ha
      obtain ⟨hn', rfl⟩ := List.getElem?_eq_some_iff.1 hb
      exact related n hn hn'
  · rintro ⟨top, related⟩
    match k, k', top with
    | .const _, .const _, same => exact .const same
    | .var v, .var _, rfl => exact .var v
    | .op o args, .op _ args', ⟨rfl, length⟩ =>
      refine .op o (List.forall₂_iff_get.2 ⟨length, fun n hn hn' => ?_⟩)
      exact related n _ _ (List.getElem?_eq_getElem hn) (List.getElem?_eq_getElem hn')

end Kind

namespace Store

variable {s s' : Store} {i j k : Nat} {path : List Nat}

theorem alike_iff : s.alike i j ↔ (s.kind i).Like (s.equal · ·) (s.kind j) := by
  unfold alike
  cases kind : s.kind i with
  | const c =>
    dsimp only
    cases s.kind j with
    | const c' => exact ⟨.const, fun | .const same => same⟩
    | var v => exact iff_of_false Bool.false_ne_true nofun
    | op o args => exact iff_of_false Bool.false_ne_true nofun
  | var v =>
    rw [decide_eq_true_iff]
    constructor
    · intro same
      rw [same]
      exact .var v
    · generalize s.kind j = kind
      rintro ⟨⟩
      rfl
  | op o args =>
    rw [Kind.agrees_iff]
    constructor
    · rintro ⟨args', same, operands⟩
      rw [same]
      exact .op o operands
    · generalize s.kind j = kind
      rintro ⟨⟩
      exact ⟨_, rfl, ‹_›⟩

theorem equal_iff : s.equal i j ↔ i = j ∨ (s.kind i).Like (s.equal · ·) (s.kind j) := by
  rw [equal_eq, Bool.or_eq_true, decide_eq_true_iff, alike_iff]

theorem equal_refl (s : Store) (i : Nat) : s.equal i i :=
  equal_iff.2 (.inl rfl)

theorem equal_symm (h : s.equal i j) : s.equal j i := by
  induction i using Nat.strongRecOn generalizing j with
  | ind i ih =>
    rcases equal_iff.1 h with rfl | like
    · exact h
    · have turned : (s.kind i).Like (flip (s.equal · ·)) (s.kind j) :=
        like.mono fun a ha b _ same => ih a (s.ordered i a ha) same
      exact equal_iff.2 (.inr turned.symm)

theorem equal_trans (h : s.equal i j) (h' : s.equal j k) : s.equal i k := by
  induction i using Nat.strongRecOn generalizing j k with
  | ind i ih =>
    rcases equal_iff.1 h with rfl | like
    · exact h'
    rcases equal_iff.1 h' with rfl | like'
    · exact h
    refine equal_iff.2 (.inr ((like.comp like').mono ?_))
    rintro a ha b - ⟨c, first, second⟩
    exact ih a (s.ordered i a ha) first second

/-- Nodes stay as equal as they are. -/
theorem Grows.equal_iff (h : Grows s s') (hi : i < s.size) (hj : j < s.size) :
    s'.equal i j ↔ s.equal i j := by
  induction i using Nat.strongRecOn generalizing j with
  | ind i ih =>
    have below (a : Nat) (ha : a ∈ (s.kind i).operands) (b : Nat) (hb : b ∈ (s.kind j).operands) :
        s'.equal a b ↔ s.equal a b :=
      ih a (s.ordered i a ha) (Nat.lt_trans (s.ordered i a ha) hi)
        (Nat.lt_trans (s.ordered j b hb) hj)
    rw [Store.equal_iff, Store.equal_iff, h.kind_eq i hi, h.kind_eq j hj]
    refine or_congr_right ⟨fun like => ?_, fun like => ?_⟩
    · exact like.mono fun a ha b hb => (below a ha b hb).1
    · exact like.mono fun a ha b hb => (below a ha b hb).2

/-! ### Places -/

/-- On the way to a place, the place included, two expressions do not meet in one node. -/
def Apart (s : Store) (i j : Nat) (path : List Nat) : Prop :=
  ∀ above, above <+: path → s.nodeAt? i above ≠ s.nodeAt? j above

theorem apart_cons {n a b : Nat} (ha : (s.kind i).operands[n]? = some a)
    (hb : (s.kind j).operands[n]? = some b) :
    s.Apart i j (n :: path) ↔ i ≠ j ∧ s.Apart a b path := by
  constructor
  · intro apart
    refine ⟨by simpa using apart [] List.nil_prefix, fun above le => ?_⟩
    simpa [ha, hb] using apart (n :: above) (List.cons_prefix_cons.2 ⟨rfl, le⟩)
  · rintro ⟨top, apart⟩ above le
    cases above with
    | nil => simpa using top
    | cons m above =>
      obtain ⟨rfl, le'⟩ := List.cons_prefix_cons.1 le
      simpa [ha, hb] using apart above le'

/--
Nodes are equal when the tops agree at every place that both expressions reach without meeting in
one node.
-/
theorem equal_iff_places : s.equal i j ↔ ∀ path, s.Apart i j path →
    ∃ a b, s.nodeAt? i path = some a ∧ s.nodeAt? j path = some b ∧
      (s.kind a).SameTop (s.kind b) := by
  constructor
  · intro equal path apart
    induction path generalizing i j with
    | nil =>
      have different : i ≠ j := by simpa using apart [] List.nil_prefix
      have like := (equal_iff.1 equal).resolve_left different
      exact ⟨i, j, nodeAt?_nil, nodeAt?_nil, (Kind.like_iff.1 like).1⟩
    | cons n path ih =>
      have different : i ≠ j := by simpa using apart [] List.nil_prefix
      obtain ⟨top, below⟩ := Kind.like_iff.1 ((equal_iff.1 equal).resolve_left different)
      have reached := apart (n :: path) List.prefix_rfl
      -- Tops that agree have as many operands, so both expressions go on or neither does.
      by_cases hn : n < (s.kind i).operands.length
      · have ha := List.getElem?_eq_getElem hn
        have hb := List.getElem?_eq_getElem (Nat.lt_of_lt_of_eq hn top.length_eq)
        have deeper := ih (below n _ _ ha hb) ((apart_cons ha hb).1 apart).2
        simpa only [nodeAt?_cons, ha, hb, Option.bind_some] using deeper
      · have hn' : ¬ n < (s.kind j).operands.length := top.length_eq ▸ hn
        simp [hn, hn'] at reached
  · intro h
    induction i using Nat.strongRecOn generalizing j with
    | ind i ih =>
      by_cases same : i = j
      · exact equal_iff.2 (.inl same)
      obtain ⟨_, _, hi, hj, top⟩ := h [] fun above le => by
        simpa [List.prefix_nil.1 le] using same
      obtain rfl := Option.some.inj (nodeAt?_nil.symm.trans hi)
      obtain rfl := Option.some.inj (nodeAt?_nil.symm.trans hj)
      refine equal_iff.2 (.inr (Kind.like_iff.2 ⟨top, fun n a b ha hb => ?_⟩))
      refine ih a (s.ordered _ a (List.mem_of_getElem? ha)) fun path apart => ?_
      simpa only [nodeAt?_cons, ha, hb, Option.bind_some] using
        h (n :: path) ((apart_cons ha hb).2 ⟨same, apart⟩)

end Store

end Formula
