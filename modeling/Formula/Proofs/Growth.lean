import Formula.Expr.Derivative
import Formula.Proofs.Substitution
import Formula.Store.Derivative

/-!
# Growing stores

A store only grows: nodes are added and derivatives are remembered, but no node changes what it is
and no remembered derivative is lost (`Grows`).  The expression of a node depends on what is below it
alone, so it stays the same in every later store (`Grows.expr_eq`).

`Sound` is what every operation keeps: each operation node has as many operands as it takes, and
what a node remembers is its derivative, the one that the recursion on expressions builds.  Adding
a node, remembering a derivative and planting a term are shown here to keep it; `Planted` says what
planting returns.
-/

namespace Formula.Store

variable {s s' s'' : Store} {i j : Nat} {v w : Var} {d : Nat} {k : Kind}

/-! ### What each operation does to nodes and memories -/

theorem kind_eq_const_of_size_le (h : s.size ≤ i) : s.kind i = .const 0 := by
  simp [kind, Node.kindIn, Array.getElem?_eq_none h]

theorem derivative?_eq_none_of_size_le (h : s.size ≤ i) : s.derivative? i v = none := by
  simp [derivative?, Node.derivativeIn?, Array.getElem?_eq_none h]

theorem lt_size_of_derivative? (h : s.derivative? i v = some d) : i < s.size := by
  apply Nat.lt_of_not_le
  intro outside
  rw [derivative?_eq_none_of_size_le outside] at h
  cases h

theorem lt_size_of_kind_op {o : Op} {args : List Nat} (h : s.kind i = .op o args) : i < s.size := by
  apply Nat.lt_of_not_le
  intro outside
  rw [kind_eq_const_of_size_le outside] at h
  cases h

@[simp] theorem size_note (e : Event) : (s.note e).size = s.size := rfl

@[simp] theorem kind_note (e : Event) : (s.note e).kind i = s.kind i := rfl

@[simp] theorem derivative?_note (e : Event) : (s.note e).derivative? i v = s.derivative? i v := rfl

@[simp] theorem fst_add : (s.add k).1 = s.size := rfl

@[simp] theorem size_add : (s.add k).2.size = s.size + 1 := Array.size_push ..

theorem kind_add : (s.add k).2.kind i = if i = s.size then k.below s.size else s.kind i :=
  Node.kindIn_push ..

@[simp] theorem derivative?_add : (s.add k).2.derivative? i v = s.derivative? i v := by
  simp only [derivative?, Node.derivativeIn?, add, Array.getElem?_push]
  split
  · next same => simp [same]
  · rfl

@[simp] theorem size_remember : (s.remember i v d).size = s.size := Array.size_modify ..

@[simp] theorem kind_remember : (s.remember i v d).kind j = s.kind j :=
  Node.kindIn_modify_remember ..

theorem derivative?_remember (h : i < s.size) :
    (s.remember i v d).derivative? j w = if j = i ∧ w = v then some d else s.derivative? j w := by
  have inside : s.nodes[i]? = some s.nodes[i] := Array.getElem?_eq_getElem h
  simp only [derivative?, Node.derivativeIn?, remember, Array.getElem?_modify]
  by_cases same : i = j
  · subst same
    simp [inside, Node.remember, Triple.get_set]
  · simp [same, Ne.symm same]

theorem operands_inside {o : Op} {args : List Nat} (h : s.kind i = .op o args) :
    ∀ a ∈ args, a < s.size :=
  fun _ ha => Nat.lt_trans (lt_of_mem_args h ha) (lt_size_of_kind_op h)

/-! ### Growth -/

/-- The later store has the nodes of the earlier one, and they remember what they did. -/
structure Grows (s s' : Store) : Prop where
  size_le : s.size ≤ s'.size
  kind_eq : ∀ i < s.size, s'.kind i = s.kind i
  kept : ∀ i v d, s.derivative? i v = some d → s'.derivative? i v = some d

namespace Grows

theorem refl (s : Store) : Grows s s := ⟨Nat.le_refl _, fun _ _ => rfl, fun _ _ _ h => h⟩

theorem trans (h : Grows s s') (h' : Grows s' s'') : Grows s s'' where
  size_le := Nat.le_trans h.size_le h'.size_le
  kind_eq i hi := (h'.kind_eq i (Nat.lt_of_lt_of_le hi h.size_le)).trans (h.kind_eq i hi)
  kept i v d remembered := h'.kept i v d (h.kept i v d remembered)

theorem note (s : Store) (e : Event) : Grows s (s.note e) :=
  ⟨Nat.le_refl _, fun _ _ => rfl, fun _ _ _ h => h⟩

theorem add (s : Store) (k : Kind) : Grows s (s.add k).2 where
  size_le := by simp
  kind_eq i hi := by rw [kind_add, if_neg (by omega)]
  kept i v d remembered := by rwa [derivative?_add]

theorem remember (hi : i < s.size) (empty : s.derivative? i v = none) :
    Grows s (s.remember i v d) where
  size_le := by simp
  kind_eq _ _ := kind_remember
  kept j w d' remembered := by
    rw [derivative?_remember hi, if_neg]
    · exact remembered
    · rintro ⟨rfl, rfl⟩
      rw [empty] at remembered
      cases remembered

/-- A fold sees the nodes below its root only. -/
theorem fold_eq {β : Type} (const : Nat → Float → β) (var : Nat → Var → β)
    (op : Nat → Op → List β → β) (h : Grows s s') :
    ∀ i < s.size, s'.fold const var op i = s.fold const var op i := by
  intro i hi
  induction i using Nat.strongRecOn with
  | ind i ih =>
    cases kind : s.kind i with
    | const c => rw [fold_const _ _ _ kind, fold_const _ _ _ ((h.kind_eq i hi).trans kind)]
    | var v => rw [fold_var _ _ _ kind, fold_var _ _ _ ((h.kind_eq i hi).trans kind)]
    | op o args =>
      rw [fold_op _ _ _ kind, fold_op _ _ _ ((h.kind_eq i hi).trans kind)]
      refine congrArg _ (List.map_congr_left fun a ha => ?_)
      have below : a < i := lt_of_mem_args kind ha
      exact ih a below (Nat.lt_trans below hi)

/-- The expression of a node stays the same. -/
theorem expr_eq (h : Grows s s') (hi : i < s.size) : s'.expr i = s.expr i :=
  h.fold_eq _ _ _ i hi

end Grows

theorem expr_const {c : Float} (h : s.kind i = .const c) : s.expr i = .const c :=
  fold_const _ _ _ h

theorem expr_var (h : s.kind i = .var v) : s.expr i = .var v := fold_var _ _ _ h

theorem expr_op {o : Op} {args : List Nat} (h : s.kind i = .op o args) :
    s.expr i = .op o (args.map s.expr) := by
  rw [expr, fold_op _ _ _ h]; rfl

theorem mem_occurrences_op {o : Op} {args : List Nat} (h : s.kind i = .op o args) :
    j ∈ s.occurrences i ↔ j = i ∨ ∃ a ∈ args, j ∈ s.occurrences a := by
  rw [occurrences, fold_op _ _ _ h, List.mem_cons, ← List.flatMap_def, List.mem_flatMap]
  rfl

/-- The expression of a new node, of a kind that is on nodes of the store. -/
theorem expr_add {o : Op} {args : List Nat} (h : ∀ a ∈ args, a < s.size) :
    (s.add (.op o args)).2.expr s.size = .op o (args.map s.expr) := by
  have kind : (s.add (.op o args)).2.kind s.size = .op o args := by
    rw [kind_add, if_pos rfl]
    exact Kind.below_eq_self h
  rw [expr_op kind]
  exact congrArg _ (List.map_congr_left fun a ha => (Grows.add s _).expr_eq (h a ha))

/-! ### Soundness -/

/-- Operations have as many operands as they take, and nodes remember their derivatives. -/
structure Sound (s : Store) : Prop where
  fits : ∀ i o args, s.kind i = .op o args → o.arity.accepts args.length
  remembered : ∀ i v d, s.derivative? i v = some d →
    d < s.size ∧ (s.expr i).diff v = .ok (s.expr d)

namespace Sound

theorem of_size_eq_zero (h : s.size = 0) : s.Sound where
  fits i _ _ kind := absurd (h ▸ lt_size_of_kind_op kind) (Nat.not_lt_zero i)
  remembered i _ _ found := absurd (h ▸ lt_size_of_derivative? found) (Nat.not_lt_zero i)

/-- A node that is sound about its own kind keeps a store sound that grows by nothing else. -/
theorem of_grows (hs : s.Sound) (grows : Grows s s')
    (fits : ∀ i o args, s.size ≤ i → s'.kind i = .op o args → o.arity.accepts args.length)
    (same : ∀ i v, s'.derivative? i v = s.derivative? i v) : s'.Sound where
  fits i o args h := by
    by_cases hi : i < s.size
    · exact hs.fits i o args ((grows.kind_eq i hi).symm.trans h)
    · exact fits i o args (Nat.not_lt.1 hi) h
  remembered i v d h := by
    rw [same] at h
    obtain ⟨hd, plain⟩ := hs.remembered i v d h
    rw [grows.expr_eq (lt_size_of_derivative? h), grows.expr_eq hd]
    exact ⟨Nat.lt_of_lt_of_le hd grows.size_le, plain⟩

theorem note (hs : s.Sound) (e : Event) : (s.note e).Sound :=
  hs.of_grows (.note s e) (fun i o args _ h => hs.fits i o args h) fun _ _ => rfl

theorem add (hs : s.Sound) (inside : ∀ a ∈ k.operands, a < s.size)
    (fits : ∀ o args, k = .op o args → o.arity.accepts args.length) : (s.add k).2.Sound := by
  refine hs.of_grows (.add s k) (fun i o args hi h => ?_) fun _ _ => derivative?_add
  rw [kind_add] at h
  split at h
  · rw [Kind.below_eq_self inside] at h
    exact fits o args h
  · exact hs.fits i o args h

theorem remember (hs : s.Sound) (hi : i < s.size) (hd : d < s.size)
    (empty : s.derivative? i v = none) (plain : (s.expr i).diff v = .ok (s.expr d)) :
    (s.remember i v d).Sound where
  fits j o args h := hs.fits j o args (kind_remember.symm.trans h)
  remembered j w d' h := by
    have grows : Grows s (s.remember i v d) := .remember hi empty
    rw [derivative?_remember hi] at h
    split at h
    · next same =>
      obtain ⟨rfl, rfl⟩ := same
      obtain rfl := Option.some.inj h
      rw [grows.expr_eq hi, grows.expr_eq hd, size_remember]
      exact ⟨hd, plain⟩
    · obtain ⟨hd', plain'⟩ := hs.remembered j w d' h
      rw [grows.expr_eq (lt_size_of_derivative? h), grows.expr_eq hd', size_remember]
      exact ⟨hd', plain'⟩

/-- Every expression of a sound store has as many operands everywhere as it should. -/
theorem expr_fits (hs : s.Sound) (i : Nat) : (s.expr i).fits := by
  induction i using Nat.strongRecOn with
  | ind i ih =>
    cases kind : s.kind i with
    | const c => rw [expr_const kind]; rfl
    | var v => rw [expr_var kind]; rfl
    | op o args =>
      rw [expr_op kind, Term.fits_op, List.length_map, List.forall_mem_map]
      exact ⟨hs.fits i o args kind, fun a ha => ih a (lt_of_mem_args kind ha)⟩

end Sound

/-! ### Planting -/

/-- What adding an expression returns: a node of a sound later store that stands for it. -/
structure Planted (s : Store) (result : Nat × Store) (e : Expr) : Prop where
  grows : Grows s result.2
  sound : result.2.Sound
  inside : result.1 < result.2.size
  expr : result.2.expr result.1 = e

/-- The same for several expressions. -/
structure PlantedAll (s : Store) (result : List Nat × Store) (es : List Expr) : Prop where
  grows : Grows s result.2
  sound : result.2.Sound
  inside : ∀ i ∈ result.1, i < result.2.size
  exprs : result.1.map result.2.expr = es

theorem planted_const (hs : s.Sound) (c : Float) : Planted s (s.add (.const c)) (.const c) where
  grows := .add s _
  sound := hs.add (by simp [Kind.operands]) nofun
  inside := by simp
  expr := expr_const (by simp [kind_add, Kind.below])

theorem planted_var (hs : s.Sound) (v : Var) : Planted s (s.add (.var v)) (.var v) where
  grows := .add s _
  sound := hs.add (by simp [Kind.operands]) nofun
  inside := by simp
  expr := expr_var (by simp [kind_add, Kind.below])

theorem planted_op (hs : s.Sound) {o : Op} {args : List Nat} (inside : ∀ a ∈ args, a < s.size)
    (fits : o.arity.accepts args.length) :
    Planted s (s.add (.op o args)) (.op o (args.map s.expr)) where
  grows := .add s _
  sound := hs.add inside fun o' args' h => by
    cases h
    exact fits
  inside := by simp
  expr := expr_add inside

section

variable {α : Type} {leaf : α → Store → Nat × Store} {f : α → Expr} {s₀ : Store}

theorem plantAll_planted {ts : List (Term α)}
    (h : ∀ t ∈ ts, ∀ s, Grows s₀ s → s.Sound → Planted s (plant leaf s t) (t.bind f)) (s : Store)
    (later : Grows s₀ s) (hs : s.Sound) :
    PlantedAll s (plantAll leaf s ts) (ts.map (Term.bind f)) := by
  induction ts generalizing s with
  | nil => exact ⟨.refl s, hs, by simp [plantAll], rfl⟩
  | cons t ts ih =>
    have head := h t (by simp) s later hs
    have tail := ih (fun t' ht' => h t' (by simp [ht'])) _ (later.trans head.grows) head.sound
    rw [plantAll]
    refine ⟨head.grows.trans tail.grows, tail.sound, ?_, ?_⟩
    · exact List.forall_mem_cons.2
        ⟨Nat.lt_of_lt_of_le head.inside tail.grows.size_le, tail.inside⟩
    · rw [List.map_cons, List.map_cons, tail.exprs, tail.grows.expr_eq head.inside, head.expr]

/-- Planting a term adds what the term is when its variables are what the leaves stand for. -/
theorem plant_planted
    (hleaf : ∀ a s, Grows s₀ s → s.Sound → Planted s (leaf a s) (f a)) (t : Term α)
    (fits : t.fits) (s : Store) (later : Grows s₀ s) (hs : s.Sound) :
    Planted s (plant leaf s t) (t.bind f) := by
  induction t generalizing s with
  | const c => exact planted_const hs c
  | var a => exact hleaf a s later hs
  | op o args ih =>
    obtain ⟨count, operands⟩ := Term.fits_op.1 fits
    have roots := plantAll_planted (fun t ht => ih t ht (operands t ht)) s later hs
    have length : (plantAll leaf s args).1.length = args.length := by
      simpa using congrArg List.length roots.exprs
    have root := planted_op roots.sound (o := o) roots.inside (by rwa [length])
    rw [plant, Term.bind_op, ← roots.exprs]
    exact ⟨roots.grows.trans root.grows, root.sound, root.inside, root.expr⟩

/-- Renaming the variables of a term is the same as renaming the leaves. -/
theorem plant_map {β : Type} (g : β → α) (t : Term β) (s : Store) :
    plant leaf s (t.map g) = plant (leaf ∘ g) s t := by
  induction t generalizing s with
  | const c => rfl
  | var a => rfl
  | op o args ih =>
    have roots : ∀ s, plantAll leaf s (args.map (Term.map g)) = plantAll (leaf ∘ g) s args := by
      induction args with
      | nil => exact fun s => rfl
      | cons t ts ihs =>
        intro s
        have tail := ihs fun t' ht' => ih t' (by simp [ht'])
        simp only [List.map_cons, plantAll, ih t (by simp), tail]
    rw [Term.map, Term.bind_op, plant, plant]
    exact congrArg (fun result : List Nat × Store => result.2.add (.op o result.1)) (roots s)

end

theorem addExpr_planted (hs : s.Sound) {e : Expr} (fits : e.fits) : Planted s (s.addExpr e) e := by
  have planted : Planted s (s.addExpr e) (e.bind .var) :=
    plant_planted (fun v s _ hs => planted_var hs v) e fits s (.refl s) hs
  rwa [Term.bind_self] at planted

/-- A term over nodes of the store is planted as the same term over their expressions. -/
theorem addTerm_planted (hs : s.Sound) {t : Term Nat} (fits : t.fits)
    (inside : ∃ t' : Term {i // i < s.size}, t'.map Subtype.val = t) :
    Planted s (s.addTerm t) (t.bind s.expr) := by
  obtain ⟨t', rfl⟩ := inside
  rw [addTerm, plant_map, Term.bind_map]
  have leaf (i : {i // i < s.size}) (s' : Store) (later : Grows s s') (hs' : s'.Sound) :
      Planted s' (i.1, s') (s.expr i.1) :=
    ⟨.refl s', hs', Nat.lt_of_lt_of_le i.2 later.size_le, later.expr_eq i.2⟩
  exact plant_planted leaf t' (Term.fits_map.1 fits) s (.refl s) hs

end Formula.Store
