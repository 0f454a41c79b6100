import Mathlib.Data.List.Forall2
import Formula.Proofs.Growth

/-!
# What a rule builds

Planting a term only adds nodes, and they remember nothing (`Enlarges.plant`).  The new nodes are
the same up to renaming wherever the term is planted: the `k`-th new node of one store and the
`k`-th of another are of one kind, on operands that correspond (`plantOver_twins`).  For the nodes
that a rule builds this says two things.  Two stores in which operands and their derivatives
correspond get nodes that correspond (`build_twins`).  And the nodes are on each other, on operands
and on derivatives of operands alone (`build_closed`), which is the case where both stores are the
same.

`build` is the part of `derive` before the derivative is kept.
-/

namespace Formula

section

variable {α β : Type} {R : α → β → Prop} {as : List α} {bs : List β}

/-- Every member of a list has a partner in one that it is related to. -/
theorem exists_partner (h : List.Forall₂ R as bs) : ∀ a ∈ as, ∃ b, (a, b) ∈ as.zip bs ∧ R a b := by
  induction h with
  | nil => exact List.forall_mem_nil _
  | @cons a b as bs head _ ih =>
    refine List.forall_mem_cons.2 ⟨⟨b, List.mem_cons_self, head⟩, fun a' ha' => ?_⟩
    obtain ⟨b', paired, related⟩ := ih a' ha'
    exact ⟨b', List.mem_cons_of_mem _ paired, related⟩

theorem exists_partner_left (h : List.Forall₂ R as bs) :
    ∀ b ∈ bs, ∃ a, (a, b) ∈ as.zip bs ∧ R a b := by
  induction h with
  | nil => exact List.forall_mem_nil _
  | @cons a b as bs head _ ih =>
    refine List.forall_mem_cons.2 ⟨⟨a, List.mem_cons_self, head⟩, fun b' hb' => ?_⟩
    obtain ⟨a', paired, related⟩ := ih b' hb'
    exact ⟨a', List.mem_cons_of_mem _ paired, related⟩

end

/-- The same kind, on operands that are related one by one. -/
inductive Kind.Alike (R : Nat → Nat → Prop) : Kind → Kind → Prop
  | const (c : Float) : Alike R (.const c) (.const c)
  | var (v : Var) : Alike R (.var v) (.var v)
  | op (o : Op) {args args' : List Nat} (operands : List.Forall₂ R args args') :
      Alike R (.op o args) (.op o args')

theorem Kind.Alike.exists_operand {R : Nat → Nat → Prop} {k k' : Kind} (h : k.Alike R k') :
    ∀ a ∈ k.operands, ∃ a' ∈ k'.operands, R a a' := by
  cases h with
  | const c => simp [operands]
  | var v => simp [operands]
  | op o operands =>
    intro a ha
    obtain ⟨a', paired, related⟩ := exists_partner operands a ha
    exact ⟨a', (List.of_mem_zip paired).2, related⟩

namespace Store

variable {s s' s'' : Store} {i j : Nat} {v : Var} {k : Kind}

/-! ### Nodes that remember nothing -/

/-- Nodes were added that remember nothing, and nothing else happened. -/
structure Enlarges (s s' : Store) : Prop where
  size_le : s.size ≤ s'.size
  kind_eq : ∀ i < s.size, s'.kind i = s.kind i
  derivative?_eq : ∀ i v, s'.derivative? i v = s.derivative? i v
  events_eq : s'.events = s.events

namespace Enlarges

theorem refl (s : Store) : Enlarges s s := ⟨Nat.le_refl _, fun _ _ => rfl, fun _ _ => rfl, rfl⟩

theorem trans (h : Enlarges s s') (h' : Enlarges s' s'') : Enlarges s s'' where
  size_le := Nat.le_trans h.size_le h'.size_le
  kind_eq i hi := (h'.kind_eq i (Nat.lt_of_lt_of_le hi h.size_le)).trans (h.kind_eq i hi)
  derivative?_eq i v := (h'.derivative?_eq i v).trans (h.derivative?_eq i v)
  events_eq := h'.events_eq.trans h.events_eq

theorem add (s : Store) (k : Kind) : Enlarges s (s.add k).2 where
  size_le := by simp
  kind_eq i hi := by rw [kind_add, if_neg (Nat.ne_of_lt hi)]
  derivative?_eq _ _ := derivative?_add
  events_eq := rfl

theorem grows (h : Enlarges s s') : Grows s s' :=
  ⟨h.size_le, h.kind_eq, fun i v _ found => (h.derivative?_eq i v).trans found⟩

section

variable {α : Type} {leaf : α → Store → Nat × Store}

theorem plantAll {ts : List (Term α)} (h : ∀ t ∈ ts, ∀ s, Enlarges s (plant leaf s t).2)
    (s : Store) : Enlarges s (plantAll leaf s ts).2 := by
  induction ts generalizing s with
  | nil => exact .refl s
  | cons t ts ih => exact (h t (by simp) s).trans (ih (fun t' ht' => h t' (by simp [ht'])) _)

/-- Planting adds nodes and does nothing else. -/
theorem plant (hleaf : ∀ a s, Enlarges s (leaf a s).2) (t : Term α) (s : Store) :
    Enlarges s (plant leaf s t).2 := by
  induction t generalizing s with
  | const c => exact .add s _
  | var a => exact hleaf a s
  | op o args ih =>
    rw [Store.plant]
    exact (plantAll ih s).trans (.add _ _)

end

theorem addExpr (s : Store) (e : Expr) : Enlarges s (s.addExpr e).2 :=
  plant (fun v s => .add s (.var v)) e s

theorem addTerm (s : Store) (t : Term Nat) : Enlarges s (s.addTerm t).2 :=
  plant (fun _ s => .refl s) t s

end Enlarges

/-! ### Planting one term in two stores -/

/-- A node of each store, related to each other. -/
structure Matched (R : Nat → Nat → Prop) (s s' : Store) (a a' : Nat) : Prop where
  related : R a a'
  inside : a < s.size
  inside' : a' < s'.size

/-- The relation pairs the nodes that are added to the first store with those added to the other. -/
def InOrder (R : Nat → Nat → Prop) (s s' s₁ : Store) : Prop :=
  ∀ k, s.size + k < s₁.size → R (s.size + k) (s'.size + k)

/-- Two stores grow by as many nodes, which are alike in order. -/
structure Parallel (R : Nat → Nat → Prop) (s s' s₁ s₁' : Store) : Prop where
  left : Enlarges s s₁
  right : Enlarges s' s₁'
  size : s₁.size + s'.size = s₁'.size + s.size
  kinds : ∀ k, s.size + k < s₁.size → (s₁.kind (s.size + k)).Alike R (s₁'.kind (s'.size + k))

variable {R : Nat → Nat → Prop} {s₁ s₁' s₂ s₂' : Store}

theorem Matched.later {a a' : Nat} (h : Matched R s s' a a') (grown : Enlarges s s₁)
    (grown' : Enlarges s' s₁') : Matched R s₁ s₁' a a' :=
  ⟨h.related, Nat.lt_of_lt_of_le h.inside grown.size_le,
    Nat.lt_of_lt_of_le h.inside' grown'.size_le⟩

theorem forall_inside {as as' : List Nat} (h : List.Forall₂ (Matched R s s') as as') :
    (∀ a ∈ as, a < s.size) ∧ ∀ a ∈ as', a < s'.size := by
  induction h with
  | nil => exact ⟨List.forall_mem_nil _, List.forall_mem_nil _⟩
  | cons head _ ih =>
    exact ⟨List.forall_mem_cons.2 ⟨head.inside, ih.1⟩, List.forall_mem_cons.2 ⟨head.inside', ih.2⟩⟩

theorem forall_matched {as as' : List Nat} (h : List.Forall₂ R as as')
    (inside : ∀ a ∈ as, a < s.size) (inside' : ∀ a ∈ as', a < s'.size) :
    List.Forall₂ (Matched R s s') as as' := by
  induction h with
  | nil => exact .nil
  | cons head _ ih =>
    obtain ⟨ha, has⟩ := List.forall_mem_cons.1 inside
    obtain ⟨ha', has'⟩ := List.forall_mem_cons.1 inside'
    exact .cons ⟨head, ha, ha'⟩ (ih has has')

namespace Parallel

theorem refl (s s' : Store) : Parallel R s s' s s' :=
  ⟨.refl s, .refl s', Nat.add_comm .., fun k hk => absurd hk (by omega)⟩

theorem trans (h : Parallel R s s' s₁ s₁') (h' : Parallel R s₁ s₁' s₂ s₂') :
    Parallel R s s' s₂ s₂' where
  left := h.left.trans h'.left
  right := h.right.trans h'.right
  size := by have := h.size; have := h'.size; omega
  kinds k hk := by
    have size := h.size
    have le := h.left.size_le
    by_cases first : s.size + k < s₁.size
    · rw [h'.left.kind_eq _ first, h'.right.kind_eq _ (by omega)]
      exact h.kinds k first
    · have second := h'.kinds (s.size + k - s₁.size) (by omega)
      rwa [show s₁.size + (s.size + k - s₁.size) = s.size + k by omega,
        show s₁'.size + (s.size + k - s₁.size) = s'.size + k by omega] at second

/-- A new node in each store, on nodes that correspond. -/
theorem add {k k' : Kind} (alike : k.Alike R k') (inside : ∀ a ∈ k.operands, a < s.size)
    (inside' : ∀ a ∈ k'.operands, a < s'.size) :
    Parallel R s s' (s.add k).2 (s'.add k').2 where
  left := .add s k
  right := .add s' k'
  size := by simp only [size_add]; omega
  kinds n hn := by
    obtain rfl : n = 0 := by rw [size_add] at hn; omega
    rw [Nat.add_zero, Nat.add_zero, kind_add, kind_add, if_pos rfl, if_pos rfl,
      Kind.below_eq_self inside, Kind.below_eq_self inside']
    exact alike

/-- What is added after the first nodes is in order too. -/
theorem inOrder (h : Parallel R s s' s₁ s₁') (order : InOrder R s s' s₂) :
    InOrder R s₁ s₁' s₂ := by
  intro k hk
  have size := h.size
  have le := h.left.size_le
  have related := order (s₁.size - s.size + k) (by omega)
  rwa [show s.size + (s₁.size - s.size + k) = s₁.size + k by omega,
    show s'.size + (s₁.size - s.size + k) = s₁'.size + k by omega] at related

end Parallel

theorem InOrder.of_size_le (h : InOrder R s s' s₂) (le : s₁.size ≤ s₂.size) : InOrder R s s' s₁ :=
  fun k hk => h k (Nat.lt_of_lt_of_le hk le)

/-- Two stores got a node each, and what it is on, in parallel. -/
structure Twins (R : Nat → Nat → Prop) (s s' : Store) (result result' : Nat × Store) : Prop where
  root : Matched R result.2 result'.2 result.1 result'.1
  grown : Parallel R s s' result.2 result'.2

theorem twins_add {k k' : Kind} (alike : k.Alike R k') (inside : ∀ a ∈ k.operands, a < s.size)
    (inside' : ∀ a ∈ k'.operands, a < s'.size)
    (order : InOrder R s s' (s.add k).2) : Twins R s s' (s.add k) (s'.add k') where
  root := ⟨order 0 (by simp), by simp, by simp⟩
  grown := .add alike inside inside'

section

variable {α : Type} {g g' : α → Nat}

/-- Plants a term whose variables stand for nodes of the store. -/
abbrev plantOver (g : α → Nat) : Store → Term α → Nat × Store := plant fun a s => (g a, s)

/-- The same for several terms. -/
abbrev plantAllOver (g : α → Nat) : Store → List (Term α) → List Nat × Store :=
  plantAll fun a s => (g a, s)

theorem addTerm_map (g : α → Nat) (s : Store) (t : Term α) :
    s.addTerm (t.map g) = s.plantOver g t :=
  plant_map g t s

theorem plantAllOver_twins {ts : List (Term α)}
    (h : ∀ t ∈ ts, ∀ s s', (∀ a, Matched R s s' (g a) (g' a)) →
      InOrder R s s' (s.plantOver g t).2 → Twins R s s' (s.plantOver g t) (s'.plantOver g' t))
    (s s' : Store) (leaves : ∀ a, Matched R s s' (g a) (g' a))
    (order : InOrder R s s' (s.plantAllOver g ts).2) :
    List.Forall₂ (Matched R (s.plantAllOver g ts).2 (s'.plantAllOver g' ts).2)
        (s.plantAllOver g ts).1 (s'.plantAllOver g' ts).1 ∧
      Parallel R s s' (s.plantAllOver g ts).2 (s'.plantAllOver g' ts).2 := by
  induction ts generalizing s s' with
  | nil => exact ⟨.nil, .refl s s'⟩
  | cons t ts ih =>
    have grown (g : α → Nat) (s : Store) : Enlarges s (s.plantAllOver g ts).2 :=
      .plantAll (fun t _ s => .plant (fun _ s => .refl s) t s) s
    have head := h t (by simp) s s' leaves (order.of_size_le (grown g _).size_le)
    obtain ⟨roots, tail⟩ := ih (fun t' ht' => h t' (by simp [ht'])) _ _
      (fun a => (leaves a).later head.grown.left head.grown.right) (head.grown.inOrder order)
    exact ⟨.cons (head.root.later (grown g _) (grown g' _)) roots, head.grown.trans tail⟩

/-- Planted in two stores over nodes that correspond, a term adds nodes that correspond. -/
theorem plantOver_twins (t : Term α) (s s' : Store) (leaves : ∀ a, Matched R s s' (g a) (g' a))
    (order : InOrder R s s' (s.plantOver g t).2) :
    Twins R s s' (s.plantOver g t) (s'.plantOver g' t) := by
  induction t generalizing s s' with
  | const c => exact twins_add (.const c) (by simp [Kind.operands]) (by simp [Kind.operands]) order
  | var a => exact ⟨leaves a, .refl s s'⟩
  | op o args ih =>
    rw [plantOver, plant] at order ⊢
    obtain ⟨roots, grown⟩ := plantAllOver_twins ih s s' leaves (order.of_size_le (by simp))
    have alike := Kind.Alike.op o (roots.imp fun _ _ h => h.related)
    have last := twins_add alike (forall_inside roots).1 (forall_inside roots).2
      (grown.inOrder order)
    exact ⟨last.root, grown.trans last.grown⟩

end

/-! ### Building a derivative -/

/-- The node that a rule is given for the operation that it differentiates. -/
def selfNode (s : Store) (i : Nat) (o : Op) (args : List Nat) : Nat × Store :=
  if o.mentionsSelf then s.add (.op o args) else (i, s)

/-- The derivative that the rule of operation `i` builds, if it has one, and the store with it. -/
def build (s : Store) (i : Nat) (o : Op) (args ds : List Nat) : Option (Nat × Store) :=
  let (self, s) := s.selfNode i o args
  (o.derivative (.var self) ((args.zip ds).map fun (a, d) => (.var a, .var d))).map s.addTerm

variable {o : Op} {args ds args' ds' : List Nat} {d d' : Nat} {result result' : Nat × Store}

theorem build_eq_some_iff :
    s.build i o args ds = some result ↔
      ∃ t, o.derivative (.var (s.selfNode i o args).1)
          ((args.zip ds).map fun (a, d) => (.var a, .var d)) = some t ∧
        (s.selfNode i o args).2.addTerm t = result :=
  Option.map_eq_some_iff

theorem derive_of_build (h : s.build i o args ds = some (d, s'))
    (empty : s'.derivative? i v = none) :
    s.derive v i o args ds = (.ok d, s'.remember i v d) := by
  unfold build selfNode at h
  unfold derive
  generalize (if o.mentionsSelf then s.add (.op o args) else (i, s)) = self at h ⊢
  obtain ⟨t, rule, planted⟩ := Option.map_eq_some_iff.1 h
  dsimp only
  rw [rule]
  dsimp only
  rw [planted]
  simp only [keep, empty]

theorem build_isSome (differentiable : o.isDifferentiable)
    (count : o.arity.accepts args.length) (length : ds.length = args.length) :
    (s.build i o args ds).isSome := by
  rw [build, Option.isSome_map, Op.derivative_isSome, differentiable]
  simpa [length] using count

theorem differentiable_of_build (h : s.build i o args ds = some result) : o.isDifferentiable := by
  have built := Option.isSome_of_eq_some h
  rw [build, Option.isSome_map, Op.derivative_isSome, Bool.and_eq_true] at built
  exact built.1

theorem selfNode_enlarges (s : Store) (i : Nat) (o : Op) (args : List Nat) :
    Enlarges s (s.selfNode i o args).2 := by
  unfold selfNode
  split
  · exact .add s _
  · exact .refl s

theorem build_enlarges (h : s.build i o args ds = some result) : Enlarges s result.2 := by
  obtain ⟨t, -, rfl⟩ := build_eq_some_iff.1 h
  exact (selfNode_enlarges s i o args).trans (.addTerm _ t)

/-- A rule that does not mention the operation does not depend on its node. -/
theorem build_self_irrelevant (h : o.mentionsSelf = false) :
    s.build i o args ds = s.build j o args ds := by
  simp only [build, selfNode, h, Bool.false_eq_true, if_false]
  rw [Op.derivative_self_irrelevant h]

/-- Related lists are the two sides of a list of related pairs. -/
theorem exists_pairs {P : Nat → Nat → Prop} {as as' : List Nat} (h : List.Forall₂ P as as') :
    ∃ ps : List {x : Nat × Nat // P x.1 x.2}, ps.map (·.1.1) = as ∧ ps.map (·.1.2) = as' := by
  induction h with
  | nil => exact ⟨[], rfl, rfl⟩
  | @cons a a' _ _ head _ ih =>
    obtain ⟨ps, rfl, rfl⟩ := ih
    exact ⟨⟨(a, a'), head⟩ :: ps, rfl, rfl⟩

/-- A rule over nodes of two stores that correspond builds nodes that correspond. -/
theorem rule_twins {self self' : Nat} {t t' : Term Nat} (selves : Matched R s s' self self')
    (operands : List.Forall₂ (Matched R s s') args args')
    (derivatives : List.Forall₂ (Matched R s s') ds ds')
    (rule : o.derivative (.var self) ((args.zip ds).map fun (a, d) => (.var a, .var d)) = some t)
    (rule' :
      o.derivative (.var self') ((args'.zip ds').map fun (a, d) => (.var a, .var d)) = some t')
    (order : InOrder R s s' (s.addTerm t).2) : Twins R s s' (s.addTerm t) (s'.addTerm t') := by
  obtain ⟨as, rfl, rfl⟩ := exists_pairs operands
  obtain ⟨bs, rfl, rfl⟩ := exists_pairs derivatives
  let pair : {x : Nat × Nat // Matched R s s' x.1 x.2} := ⟨(self, self'), selves⟩
  -- Both terms are one term over pairs, seen from the left and from the right.
  have left := Op.derivative_rename (·.1.1) o pair as bs
  have right := Op.derivative_rename (·.1.2) o pair as bs
  rw [rule] at left
  rw [rule'] at right
  obtain ⟨u, both, rfl⟩ := Option.map_eq_some_iff.1 left.symm
  rw [both, Option.map_some, Option.some.injEq] at right
  rw [right, addTerm_map, addTerm_map]
  rw [addTerm_map] at order
  exact plantOver_twins u s s' (fun x => x.2) order

/-- In two stores whose operands and derivatives correspond, a rule builds nodes that correspond. -/
theorem build_twins (operands : List.Forall₂ (Matched R s s') args args')
    (derivatives : List.Forall₂ (Matched R s s') ds ds')
    (h : s.build i o args ds = some result) (h' : s'.build j o args' ds' = some result')
    (order : InOrder R s s' result.2) : Twins R s s' result result' := by
  cases mentioned : o.mentionsSelf with
  | true =>
    obtain ⟨t, rule, rfl⟩ := build_eq_some_iff.1 h
    obtain ⟨t', rule', rfl⟩ := build_eq_some_iff.1 h'
    simp only [selfNode, mentioned, if_true] at rule rule' order ⊢
    have later := Enlarges.addTerm (s.add (.op o args)).2 t
    have alike := Kind.Alike.op o (operands.imp fun _ _ h => h.related)
    have self := twins_add alike (forall_inside operands).1 (forall_inside operands).2
      (order.of_size_le later.size_le)
    have transfer (as as' : List Nat) (h : List.Forall₂ (Matched R s s') as as') :=
      h.imp fun _ _ m => m.later self.grown.left self.grown.right
    have built := rule_twins self.root (transfer _ _ operands) (transfer _ _ derivatives) rule rule'
      (self.grown.inOrder order)
    exact ⟨built.root, self.grown.trans built.grown⟩
  | false =>
    cases operands with
    | nil =>
      obtain ⟨t, rule, -⟩ := build_eq_some_iff.1 h
      rw [List.zip_nil_left, List.map_nil, Op.derivative_nil] at rule
      cases rule
    | @cons a a' args args' head tail =>
      rw [build_self_irrelevant mentioned (j := a)] at h
      rw [build_self_irrelevant mentioned (j := a')] at h'
      obtain ⟨t, rule, rfl⟩ := build_eq_some_iff.1 h
      obtain ⟨t', rule', rfl⟩ := build_eq_some_iff.1 h'
      simp only [selfNode, mentioned, Bool.false_eq_true, if_false] at rule rule' order ⊢
      exact rule_twins head (.cons head tail) derivatives rule rule' order

/-- A node and itself, if a rule can refer to it: it is new, an operand or the derivative of one. -/
def AtHand (s : Store) (args ds : List Nat) (c c' : Nat) : Prop :=
  c = c' ∧ (s.size ≤ c ∨ c ∈ args ∨ c ∈ ds)

/--
What a rule builds is on what it built before, on operands and on derivatives of operands, and it is
one of these itself.
-/
theorem build_closed (h : s.build i o args ds = some result) (inside : ∀ a ∈ args, a < s.size)
    (inside' : ∀ d ∈ ds, d < s.size) :
    (result.1 < result.2.size ∧ (s.size ≤ result.1 ∨ result.1 ∈ args ∨ result.1 ∈ ds)) ∧
      ∀ b, s.size ≤ b → ∀ c ∈ (result.2.kind b).operands, s.size ≤ c ∨ c ∈ args ∨ c ∈ ds := by
  -- the rule is compared with itself, so both stores are the same
  have operands : List.Forall₂ (Matched (AtHand s args ds) s s) args args :=
    List.forall₂_same.2 fun a ha => ⟨⟨rfl, .inr (.inl ha)⟩, inside a ha, inside a ha⟩
  have derivatives : List.Forall₂ (Matched (AtHand s args ds) s s) ds ds :=
    List.forall₂_same.2 fun d hd => ⟨⟨rfl, .inr (.inr hd)⟩, inside' d hd, inside' d hd⟩
  have twins := build_twins operands derivatives h h fun k _ => ⟨rfl, .inl (Nat.le_add_right ..)⟩
  refine ⟨⟨twins.root.inside, twins.root.related.2⟩, fun b hb c hc => ?_⟩
  by_cases new : b < result.2.size
  · have alike := twins.grown.kinds (b - s.size) (by omega)
    rw [Nat.add_sub_cancel' hb] at alike
    obtain ⟨_, -, -, known⟩ := alike.exists_operand c hc
    exact known
  · rw [kind_eq_const_of_size_le (Nat.not_lt.1 new)] at hc
    cases hc

end Store

end Formula
