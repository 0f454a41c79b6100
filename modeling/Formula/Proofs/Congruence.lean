import Formula.Proofs.Equality
import Formula.Proofs.Repeated
import Formula.Proofs.Runs

/-!
# Equality respects differentiation

A rule adds no constants but whole numbers, which equal themselves (`Applied.numbers`), so applied
to operands and derivatives that are equal one by one it builds nodes that are equal one by one
(`Applied.equal`).  By induction on the operation, equal operations that remember their derivatives
remember equal ones (`remembered_equal`), whichever requests filled their places and in which order.
Derivatives of leaves are new constants, but of equal value.
-/

namespace Formula

theorem Kind.Alike.like {R R' : Nat → Nat → Prop} {k k' : Kind} (h : k.Alike R k')
    (numbers : ∀ c, k = .const c → c == c) (hR : ∀ a ∈ k.operands, ∀ b, R a b → R' a b) :
    k.Like R' k' := by
  have like : k.Like R k' := by
    cases h with
    | const c => exact .const (numbers c rfl)
    | var v => exact .var v
    | op o operands => exact .op o operands
  exact like.mono fun a ha b _ => hR a ha b

theorem Kind.Like.slope?_eq {R : Nat → Nat → Prop} {k k' : Kind} (h : k.Like R k') (v : Var) :
    k.slope? v = k'.slope? v := by
  cases h <;> rfl

/-- The derivative of a leaf is a number. -/
theorem Kind.slope?_number {k : Kind} {v : Var} {c : Float} (h : k.slope? v = some c) : c == c := by
  cases k with
  | const _ =>
    obtain rfl := Option.some.inj h
    exact Binary64.ofNat_beq_self 0
  | var w =>
    obtain rfl := Option.some.inj h
    split
    · exact Binary64.ofNat_beq_self 1
    · exact Binary64.ofNat_beq_self 0
  | op o args => cases h

/-- A rule adds no constants but whole numbers. -/
theorem Op.admits_numbers (o : Op) (count : Nat) :
    o.Admits count (fun c => c == c) fun _ _ => true where
  constants := by
    have natural := Binary64.ofNat_beq_self
    exact List.forall_mem_cons.2 ⟨natural 0, List.forall_mem_cons.2 ⟨natural 1,
      List.forall_mem_cons.2 ⟨natural 2, List.forall_mem_singleton.2 (natural count)⟩⟩⟩
  binary _ _ := rfl
  neg := rfl
  mean _ := rfl
  sign _ := rfl

namespace Store

variable {S s s' s₁ s₂ request request' t t' : Store} {v : Var} {i j a a' d d' e e' : Nat} {k : Kind}
  {o o' : Op} {args args' ds ds' : List Nat}

/-! ### New constants -/

/-- No constant among the new nodes is a NaN. -/
def AddsNumbers (s s' : Store) : Prop :=
  ∀ b c, s.size ≤ b → b < s'.size → s'.kind b = .const c → c == c

namespace AddsNumbers

theorem refl (s : Store) : AddsNumbers s s :=
  fun _ _ old new _ => absurd new (Nat.not_lt.2 old)

theorem trans (h : AddsNumbers s s₁) (h' : AddsNumbers s₁ s₂) (grown : Enlarges s₁ s₂) :
    AddsNumbers s s₂ := by
  intro b c old new const
  by_cases first : b < s₁.size
  · exact h b c old first ((grown.kind_eq b first).symm.trans const)
  · exact h' b c (Nat.not_lt.1 first) new const

theorem add (number : ∀ c, k = .const c → c == c) : AddsNumbers s (s.add k).2 := by
  intro b c old new const
  rw [size_add] at new
  rw [kind_add, if_pos (by omega)] at const
  cases k with
  | const c' => exact Kind.const.inj const ▸ number c' rfl
  | var v => cases const
  | op o args => cases const

theorem plantAll {ts : List (Term Nat)} (h : ∀ u ∈ ts, ∀ s : Store, AddsNumbers s (s.addTerm u).2)
    (s : Store) : AddsNumbers s (Store.plantAll (fun i s => (i, s)) s ts).2 := by
  induction ts generalizing s with
  | nil => exact refl s
  | cons u ts ih =>
    obtain ⟨head, tail⟩ := List.forall_mem_cons.1 h
    exact (head s).trans (ih tail _) (.plantAll (fun u _ s => .addTerm s u) _)

/-- Planting a term adds the constants of the term. -/
theorem addTerm {u : Term Nat} (numbers : u.every (fun c => c == c) fun _ _ => true) (s : Store) :
    AddsNumbers s (s.addTerm u).2 := by
  induction u generalizing s with
  | const c => exact add fun c' same => Kind.const.inj same ▸ numbers
  | var i => exact refl s
  | op o us ih =>
    have operands := (Term.every_op.1 numbers).2
    exact (plantAll (fun u hu => ih u hu (operands u hu)) s).trans (add nofun) (.add _ _)

theorem build {result : Nat × Store} (h : s.build i o args ds = some result) :
    AddsNumbers s result.2 := by
  obtain ⟨u, rule, rfl⟩ := build_eq_some_iff.1 h
  have self : AddsNumbers s (s.selfNode i o args).2 := by
    unfold selfNode
    split
    · exact add nofun
    · exact refl s
  have numbers : u.every (fun c => c == c) fun _ _ => true := by
    refine Op.derivative_every (o.admits_numbers _) rfl (fun x hx => ?_) rule
    obtain ⟨y, -, rfl⟩ := List.mem_map.1 hx
    exact ⟨rfl, rfl⟩
  exact self.trans (addTerm numbers _) (.addTerm _ u)

end AddsNumbers

/-! ### Rules on equal operands -/

theorem Applied.numbers (h : Applied v request s i o args ds d s') : AddsNumbers s s' := by
  obtain ⟨s₁, built, rfl⟩ := h.built
  intro b c old new const
  rw [size_remember] at new
  rw [kind_remember] at const
  exact AddsNumbers.build built b c old new const

/-- Nodes that are added at the same place after `s` and after `t`, or equal nodes of `S`. -/
def Abreast (s s' t S : Store) (b b' : Nat) : Prop :=
  (∃ k, b = s.size + k ∧ b' = t.size + k ∧ s.size + k < s'.size) ∨ S.equal b b'

/-- Applied to equal operands and equal derivatives, a rule builds equal nodes. -/
theorem Applied.equal (h : Applied v request s i o args ds d s')
    (h' : Applied v request' t j o args' ds' d' t') (later : Grows s' S) (later' : Grows t' S)
    (operands : List.Forall₂ (S.equal · ·) args args')
    (derivatives : List.Forall₂ (S.equal · ·) ds ds') : S.equal d d' := by
  have operands' : List.Forall₂ (Abreast s s' t S) args args' := operands.imp fun _ _ => .inr
  have derivatives' : List.Forall₂ (Abreast s s' t S) ds ds' := derivatives.imp fun _ _ => .inr
  obtain ⟨root, size, alike⟩ := h.twins h' operands' derivatives' fun k hk => .inl ⟨k, rfl, rfl, hk⟩
  -- the `k`-th new nodes are on new nodes before the `k`-th and on nodes that are equal already
  have new (k : Nat) (hk : s.size + k < s'.size) : S.equal (s.size + k) (t.size + k) := by
    induction k using Nat.strongRecOn with
    | ind k ih =>
      refine equal_iff.2 (.inr ?_)
      rw [later.kind_eq _ hk, later'.kind_eq _ (by omega)]
      refine (alike k hk).like (fun c => h.numbers _ c (Nat.le_add_right ..) hk) ?_
      rintro b hb b' (⟨l, rfl, rfl, hl⟩ | same)
      · exact ih l (Nat.lt_of_add_lt_add_left (s'.ordered _ _ hb)) hl
      · exact same
  rcases root with ⟨k, rfl, rfl, hk⟩ | same
  · exact new k hk
  · exact same

theorem Applied.serves_later (h : Applied v request s i o args ds d s') (later : Grows s S) :
    List.Forall₂ (Serves request S v) args ds := by
  obtain ⟨length, serves⟩ := List.forall₂_iff_zip.1 h.serves
  refine List.forall₂_iff_zip.2 ⟨length, fun paired => ?_⟩
  obtain ⟨ha, he⟩ := List.of_mem_zip paired
  exact (serves paired).of_grows later (h.args_inside _ ha) (h.inside _ he)

/-! ### Derivatives of equal nodes -/

theorem slope?_eq (h : S.equal i j) : (S.kind i).slope? v = (S.kind j).slope? v := by
  rcases equal_iff.1 h with rfl | like
  · rfl
  · exact like.slope?_eq v

/-- What answers for equal nodes is equal, if what they remember is. -/
theorem Serves.equal (h : Serves request S v a e) (h' : Serves request' S v a' e')
    (same : S.equal a a') (remembered : ∀ b b', S.derivative? a v = some b →
      S.derivative? a' v = some b' → S.equal b b') : S.equal e e' := by
  have slopes := slope?_eq (v := v) same
  cases h with
  | remembered kind found =>
    cases h' with
    | remembered kind' found' => exact remembered e e' found found'
    | constant slope' _ _ =>
      rw [kind, slope'] at slopes
      cases slopes
  | constant slope _ made =>
    cases h' with
    | remembered kind' _ =>
      rw [kind', slope] at slopes
      cases slopes
    | constant slope' _ made' =>
      rw [slope, slope'] at slopes
      obtain rfl := Option.some.inj slopes
      refine equal_iff.2 (.inr ?_)
      rw [made, made']
      exact .const (Kind.slope?_number slope)

theorem derivatives_equal (operands : List.Forall₂ (S.equal · ·) args args')
    (serves : List.Forall₂ (Serves request S v) args ds)
    (serves' : List.Forall₂ (Serves request' S v) args' ds')
    (remembered : ∀ a ∈ args, ∀ a', S.equal a a' → ∀ b b', S.derivative? a v = some b →
      S.derivative? a' v = some b' → S.equal b b') : List.Forall₂ (S.equal · ·) ds ds' := by
  induction operands generalizing ds ds' with
  | nil =>
    cases serves
    cases serves'
    exact .nil
  | cons same _ ih =>
    cases serves with
    | cons head tail =>
      cases serves' with
      | cons head' tail' =>
        obtain ⟨first, rest⟩ := List.forall_mem_cons.1 remembered
        exact .cons (head.equal head' same (first _ same)) (ih tail tail' rest)

/-- Equal nodes remember equal derivatives. -/
theorem remembered_equal (steps : Steps s S) (fresh : s.size = 0) (equal : S.equal i j)
    (found : S.derivative? i v = some d) (found' : S.derivative? j v = some d') : S.equal d d' := by
  have unknown (n : Nat) : s.derivative? n v = none :=
    derivative?_eq_none_of_size_le (fresh ▸ Nat.zero_le n)
  induction i using Nat.strongRecOn generalizing j d d' with
  | ind i ih =>
    rcases equal_iff.1 equal with rfl | like
    · obtain rfl := Option.some.inj (found.symm.trans found')
      exact equal_refl S d
    · obtain ⟨_, _, _, o, args, ds, -, applied, later⟩ := steps.exists_applied (unknown i) found
      obtain ⟨_, _, _, o', args', ds', -, applied', later'⟩ :=
        steps.exists_applied (unknown j) found'
      have grows := applied.grows.trans later.grows
      have grows' := applied'.grows.trans later'.grows
      have kind := (grows.kind_eq i applied.lt_size).trans applied.kind
      rw [kind, (grows'.kind_eq j applied'.lt_size).trans applied'.kind] at like
      cases like with
      | op _ operands =>
        have derivatives := derivatives_equal operands (applied.serves_later grows)
          (applied'.serves_later grows') fun a ha a' same b b' found found' =>
            ih a (lt_of_mem_args kind ha) same found found'
        exact applied.equal applied' later.grows later'.grows operands derivatives

/-- The same operations occur in equal nodes. -/
theorem uses_of_equal (equal : s.equal i j) (used : (s.expr i).uses o) : (s.expr j).uses o := by
  induction i using Nat.strongRecOn generalizing j with
  | ind i ih =>
    rcases equal_iff.1 equal with rfl | like
    · exact used
    cases kind : s.kind i with
    | const c =>
      rw [expr_const kind] at used
      cases used
    | var w =>
      rw [expr_var kind] at used
      cases used
    | op o' args =>
      rw [kind] at like
      cases kind' : s.kind j <;> rw [kind'] at like <;> cases like
      next args' operands =>
      rw [expr_op kind, Term.uses_op] at used
      rw [expr_op kind', Term.uses_op]
      refine used.imp_right fun ⟨_, ht, used⟩ => ?_
      obtain ⟨a, ha, rfl⟩ := List.mem_map.1 ht
      obtain ⟨a', paired, same⟩ := exists_partner operands a ha
      exact ⟨_, List.mem_map_of_mem (List.of_mem_zip paired).2,
        ih a (lt_of_mem_args kind ha) same used⟩

/--
Of two equal nodes either both are refused a derivative, for the same reason, or the derivatives are
equal, whatever happens before the first request and between the two.
-/
theorem diff_equal (steps : Steps s₁ s) (fresh : s₁.size = 0) (sound : s.Sound) (hi : i < s.size)
    (hj : j < s.size) (equal : s.equal i j) (between : Steps (s.diff v i).2 t) (sound' : t.Sound) :
    (∃ e, (s.diff v i).1 = .error e ∧ (t.diff v j).1 = .error e) ∨
      ∃ d d', (s.diff v i).1 = .ok d ∧ (t.diff v j).1 = .ok d' ∧ (t.diff v j).2.equal d d' := by
  have agrees := diff_agrees v s i sound
  have agrees' := diff_agrees v t j sound'
  have course := diff_diffs v s i sound
  have course' := diff_diffs v t j sound'
  have grows : Grows s t := agrees.grows.trans between.grows
  rw [grows.expr_eq hj] at agrees'
  rcases Expr.diff_cases (sound.expr_fits i) v with ⟨unused, e, plain⟩ | ⟨used, plain⟩
  · have unused' : ¬ (s.expr j).uses .signum := fun used => by
      rw [uses_of_equal (equal_symm equal) used] at unused
      cases unused
    obtain ⟨e', plain'⟩ := Expr.exists_diff (sound.expr_fits j) unused' v
    rw [plain] at agrees
    rw [plain'] at agrees'
    obtain ⟨d, s', answer, -⟩ := agrees.exists_built
    obtain ⟨d', t', answer', -⟩ := agrees'.exists_built
    rw [answer] at course between ⊢
    rw [answer'] at course' ⊢
    have inside := Nat.lt_of_lt_of_le hi course.steps.grows.size_le
    have rest : Grows s' t' := between.grows.trans course'.steps.grows
    have serves := (course.serves hi).of_grows rest inside course.inside
    have serves' := course'.serves (Nat.lt_of_lt_of_le hj grows.size_le)
    have all : Steps s₁ t' := steps.trans (course.steps.trans (between.trans course'.steps))
    have same : t'.equal i j := ((course.steps.grows.trans rest).equal_iff hi hj).2 equal
    exact .inr ⟨d, d', rfl, rfl, serves.equal serves' same fun _ _ found found' =>
      remembered_equal all fresh same found found'⟩
  · have refused := Expr.diff_refused (sound.expr_fits j) (uses_of_equal equal used) v
    rw [plain] at agrees
    rw [refused] at agrees'
    exact .inl ⟨_, agrees.refused, agrees'.refused⟩

end Store

/--
In every session, equality of nodes is an equivalence, also where constants are NaNs.  It compares
the tops at every place that both expressions reach before they meet in one node.  Differentiation
respects it: after any commands, requests for equal nodes with any commands between them are refused
for the same reason or answered by equal nodes.
-/
theorem Session.equality_congruence (commands : List Command) :
    let s := (empty.runAll commands).2.store
    (∀ i, s.equal i i) ∧ (∀ i j, s.equal i j → s.equal j i) ∧
      (∀ i j k, s.equal i j → s.equal j k → s.equal i k) ∧
      (∀ i j, s.equal i j ↔ ∀ path, s.Apart i j path → ∃ a b, s.nodeAt? i path = some a ∧
        s.nodeAt? j path = some b ∧ (s.kind a).SameTop (s.kind b)) ∧
      ∀ i < s.size, ∀ j < s.size, s.equal i j → ∀ (v : Var) (names : Names),
        (∀ target k, (target, k) ∈ names → k < (s.diff v i).2.size) → ∀ more : List Command,
          let t := (runAll ⟨(s.diff v i).2, names⟩ more).2.store
          (∃ e, (s.diff v i).1 = .error e ∧ (t.diff v j).1 = .error e) ∨
            ∃ d d', (s.diff v i).1 = .ok d ∧ (t.diff v j).1 = .ok d' ∧
              (t.diff v j).2.equal d d' := by
  intro s
  have sound : s.Sound := sound_runAll commands
  refine ⟨s.equal_refl, fun _ _ => Store.equal_symm, fun _ _ _ => Store.equal_trans,
    fun _ _ => Store.equal_iff_places, fun i hi j hj equal v names named more => ?_⟩
  have session : Sound ⟨(s.diff v i).2, names⟩ := ⟨(Store.diff_agrees v s i sound).sound, named⟩
  exact Store.diff_equal (steps_runAll commands) rfl sound hi hj equal (runAll_steps session more)
    (runAll_sound session more).store

theorem Session.equality_congruence_over_nan :
    let s := (empty.runAll [.constant "n" (0 / 0), .constant "a" 0, .constant "b" (-0),
      .operation "p" "+" ["n", "a"], .operation "q" "+" ["n", "b"]]).2.store
    let t := (runAll ⟨(s.diff .x 3).2, [("q", 4)]⟩ [.diff "d" "q" "y"]).2.store
    3 < s.size ∧ 4 < s.size ∧ s.equal 3 4 ∧
      ((∃ e, (s.diff .x 3).1 = .error e ∧ (t.diff .x 4).1 = .error e) ∨
        ∃ d d', (s.diff .x 3).1 = .ok d ∧ (t.diff .x 4).1 = .ok d' ∧
          (t.diff .x 4).2.equal d d') := by
  intro s t
  have inside : 3 < s.size ∧ 4 < s.size := by decide +kernel
  have equal : s.equal 3 4 := by decide +kernel
  have named : ∀ target k, (target, k) ∈ [("q", 4)] → k < (s.diff .x 3).2.size := by
    intro target k bound
    obtain ⟨-, rfl⟩ := Prod.mk.inj (List.mem_singleton.1 bound)
    exact Nat.lt_of_lt_of_le inside.2 (Store.diff_agrees .x s 3 (sound_runAll _)).grows.size_le
  obtain ⟨-, -, -, -, derivatives⟩ := equality_congruence [.constant "n" (0 / 0), .constant "a" 0,
    .constant "b" (-0), .operation "p" "+" ["n", "a"], .operation "q" "+" ["n", "b"]]
  exact ⟨inside.1, inside.2, equal,
    derivatives 3 inside.1 4 inside.2 equal .x [("q", 4)] named [.diff "d" "q" "y"]⟩

end Formula
