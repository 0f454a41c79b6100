import Formula.Proofs.Growth
import Formula.Proofs.Plain

/-!
# Remembered derivatives are plain derivatives

Asking a node of a sound store for a derivative gives what the recursion on its expression gives,
whatever the nodes below remember, and leaves a sound store (`diff_agrees`).
-/

namespace Formula.Store

variable {s : Store} {v : Var} {i : Nat} {o : Op} {args ds : List Nat}

/-! ### One node -/

theorem diff_const {c : Float} (h : s.kind i = .const c) :
    s.diff v i = (.ok s.size, (s.add (.const 0)).2) := by
  rw [diff]
  split <;> simp_all

theorem diff_var {w : Var} (h : s.kind i = .var w) :
    s.diff v i = (.ok s.size, (s.add (.const (if w = v then 1 else 0))).2) := by
  rw [diff]
  split <;> simp_all

theorem diff_recalled {d : Nat} (h : s.kind i = .op o args) (recalled : s.derivative? i v = some d) :
    s.diff v i = (.ok d, s.note (.recalled i v)) := by
  rw [diff]
  split <;> simp_all

theorem diff_refused (h : s.kind i = .op o args) (empty : s.derivative? i v = none)
    (refused : o.isDifferentiable = false) : s.diff v i = (.error (.notDifferentiable o), s) := by
  rw [diff]
  split <;> simp_all

theorem diff_derived (h : s.kind i = .op o args) (empty : s.derivative? i v = none)
    (differentiable : o.isDifferentiable) :
    s.diff v i =
      match diffAll v i s args fun _ => lt_of_mem_args h with
      | (.error e, s) => (.error e, s)
      | (.ok ds, s) => (s.note (.derived i o v)).derive v i o args ds := by
  rw [diff]
  split
  · simp_all
  · simp_all
  · next o' args' h' =>
    obtain ⟨rfl, rfl⟩ := Kind.op.inj (h.symm.trans h')
    rw [empty]
    exact if_pos differentiable

/-! ### Agreement with the plain recursion -/

/-- An answer of the store stands for the plain answer, and the store stays sound. -/
structure Agrees (s : Store) (result : Except Error Nat × Store) (plain : Except Error Expr) :
    Prop where
  grows : Grows s result.2
  sound : result.2.Sound
  inside : ∀ d, result.1 = .ok d → d < result.2.size
  answer : result.1.map result.2.expr = plain

/-- The same for the answers of several nodes. -/
structure AgreesAll (s : Store) (result : Except Error (List Nat) × Store)
    (plain : Except Error (List Expr)) : Prop where
  grows : Grows s result.2
  sound : result.2.Sound
  inside : ∀ ds, result.1 = .ok ds → ∀ d ∈ ds, d < result.2.size
  answer : result.1.map (List.map result.2.expr) = plain

theorem Planted.agrees {result : Nat × Store} {e : Expr} (h : Planted s result e) :
    Agrees s (.ok result.1, result.2) (.ok e) where
  grows := h.grows
  sound := h.sound
  inside _ hd := Except.ok.inj hd ▸ h.inside
  answer := congrArg Except.ok h.expr

theorem Agrees.of_grows {s' : Store} {result : Except Error Nat × Store}
    {plain : Except Error Expr} (h : Agrees s' result plain) (grows : Grows s s') :
    Agrees s result plain :=
  ⟨grows.trans h.grows, h.sound, h.inside, h.answer⟩

theorem Agrees.exists_built {result : Except Error Nat × Store} {e : Expr}
    (h : Agrees s result (.ok e)) : ∃ d s', result = (.ok d, s') ∧ s'.Sound ∧ s'.expr d = e := by
  obtain ⟨_ | d, s'⟩ := result
  · cases h.answer
  · exact ⟨d, s', rfl, h.sound, Except.ok.inj h.answer⟩

theorem Agrees.refused {result : Except Error Nat × Store} {e : Error}
    (h : Agrees s result (.error e)) : result.1 = .error e := by
  obtain ⟨_ | d, s'⟩ := result
  · exact congrArg Except.error (Except.error.inj h.answer)
  · cases h.answer

/-- A derivative that is kept is the one that is there already, if there is one. -/
theorem keep_planted (hs : s.Sound) {d : Nat} (hi : i < s.size) (hd : d < s.size)
    (plain : (s.expr i).diff v = .ok (s.expr d)) : Planted s (s.keep i v d) (s.expr d) := by
  unfold keep
  cases kept : s.derivative? i v with
  | some kept' =>
    obtain ⟨inside, plain'⟩ := hs.remembered i v kept' kept
    exact ⟨.refl s, hs, inside, Except.ok.inj (plain'.symm.trans plain)⟩
  | none =>
    have grows : Grows s (s.remember i v d) := .remember hi kept
    exact ⟨grows, hs.remember hi hd kept plain, by simpa using hd, grows.expr_eq hd⟩

/-- The node that a rule is given for the differentiated operation stands for it. -/
theorem self_planted (hs : s.Sound) (h : s.kind i = .op o args) :
    Planted s (if o.mentionsSelf then s.add (.op o args) else (i, s)) (s.expr i) := by
  have hi : i < s.size := lt_size_of_kind_op h
  split
  · rw [expr_op h]
    exact planted_op hs (fun a ha => Nat.lt_trans (lt_of_mem_args h ha) hi) (hs.fits i o args h)
  · exact ⟨.refl s, hs, hi, rfl⟩

/-- A rule over nodes builds what the rule builds over their expressions. -/
theorem rule_planted {self : Nat} {t : Term Nat} (hs : s.Sound) (hself : self < s.size)
    (hargs : ∀ a ∈ args, a < s.size) (hds : ∀ d ∈ ds, d < s.size)
    (rule : o.derivative (.var self) ((args.zip ds).map fun (a, d) => (.var a, .var d)) = some t) :
    ∃ e, Planted s (s.addTerm t) e ∧
      o.derivative (s.expr self) ((args.map s.expr).zip (ds.map s.expr)) = some e := by
  have operands : ∀ x ∈ args.zip ds, x.1 < s.size ∧ x.2 < s.size := fun x hx =>
    ⟨hargs _ (List.of_mem_zip hx).1, hds _ (List.of_mem_zip hx).2⟩
  have fits : t.fits := by
    refine Op.derivative_fits rfl (fun x hx => ?_) rule
    obtain ⟨y, -, rfl⟩ := List.mem_map.1 hx
    exact ⟨rfl, rfl⟩
  have natural := Op.derivative_bind s.expr o (.var self)
    ((args.zip ds).map fun (a, d) => (.var a, .var d))
  rw [rule, List.map_map] at natural
  refine ⟨t.bind s.expr, addTerm_planted hs fits (Op.derivative_map_val hself operands rule), ?_⟩
  rw [List.zip_map, ← Term.bind_var s.expr self]
  exact natural.symm

theorem derive_agrees (hs : s.Sound) (h : s.kind i = .op o args)
    (differentiable : o.isDifferentiable) (length : ds.length = args.length)
    (inside : ∀ d ∈ ds, d < s.size)
    (plain : Expr.diffAll v (args.map s.expr) = .ok (ds.map s.expr)) :
    Agrees s (s.derive v i o args ds) ((s.expr i).diff v) := by
  have hi : i < s.size := lt_size_of_kind_op h
  have hargs : ∀ a ∈ args, a < s.size := fun a ha => Nat.lt_trans (lt_of_mem_args h ha) hi
  have self := self_planted hs h
  unfold derive
  generalize (if o.mentionsSelf then s.add (.op o args) else (i, s)) = result at self ⊢
  obtain ⟨self', s₁⟩ := result
  have same (j : Nat) (hj : j < s.size) : s₁.expr j = s.expr j := self.grows.expr_eq hj
  have later (j : Nat) (hj : j < s.size) : j < s₁.size := Nat.lt_of_lt_of_le hj self.grows.size_le
  obtain ⟨t, rule⟩ := Option.isSome_iff_exists.1 (show
    (o.derivative (.var self') ((args.zip ds).map fun (a, d) => (.var a, .var d))).isSome by
      rw [Op.derivative_isSome, differentiable]
      simpa [length] using hs.fits i o args h)
  obtain ⟨e, planted, rule'⟩ := rule_planted self.sound self.inside
    (fun a ha => later a (hargs a ha)) (fun d hd => later d (inside d hd)) rule
  have plain' : (s.expr i).diff v = .ok e := by
    rw [self.expr, List.map_congr_left fun a ha => same a (hargs a ha),
      List.map_congr_left fun d hd => same d (inside d hd), expr_op h] at rule'
    rw [expr_op h]
    exact Expr.diff_op_of_rule differentiable plain rule'
  have kept := keep_planted (v := v) planted.sound
    (Nat.lt_of_lt_of_le (later i hi) planted.grows.size_le) planted.inside
    (by rw [planted.grows.expr_eq (later i hi), same i hi, plain', planted.expr])
  dsimp only
  rw [rule, plain', ← planted.expr]
  exact kept.agrees.of_grows (self.grows.trans planted.grows)

/-! ### All nodes -/

mutual

/-- What remembered derivatives are used never shows in the answer. -/
theorem diff_agrees (v : Var) (s : Store) (i : Nat) (hs : s.Sound) :
    Agrees s (s.diff v i) ((s.expr i).diff v) := by
  cases kind : s.kind i with
  | const c =>
    rw [diff_const kind, expr_const kind, Expr.diff]
    exact (planted_const hs 0).agrees
  | var w =>
    rw [diff_var kind, expr_var kind, Expr.diff]
    exact (planted_const hs _).agrees
  | op o args =>
    cases recalled : s.derivative? i v with
    | some d =>
      obtain ⟨inside, plain⟩ := hs.remembered i v d recalled
      rw [diff_recalled kind recalled, plain]
      have grows : Grows s (s.note (.recalled i v)) := .note s _
      exact ⟨grows, hs.note _, fun d' hd' => Except.ok.inj hd' ▸ inside,
        congrArg Except.ok (grows.expr_eq inside)⟩
    | none =>
      by_cases differentiable : o.isDifferentiable
      · have operands := diffAll_agrees v i s args (fun _ => lt_of_mem_args kind)
          (lt_size_of_kind_op kind) hs
        rw [diff_derived kind recalled differentiable]
        generalize diffAll v i s args _ = result at operands ⊢
        obtain ⟨_ | ds, s₁⟩ := result
        · next e =>
          refine ⟨operands.grows, operands.sound, nofun, ?_⟩
          rw [expr_op kind, Expr.diff_op_of_error differentiable operands.answer.symm]
          rfl
        · have grows : Grows s (s₁.note (.derived i o v)) := operands.grows.trans (.note s₁ _)
          have hi : i < s.size := lt_size_of_kind_op kind
          have answer : Except.ok (ds.map s₁.expr) = Expr.diffAll v (args.map s.expr) :=
            operands.answer
          have same : args.map (s₁.note (.derived i o v)).expr = args.map s.expr :=
            List.map_congr_left fun a ha =>
              grows.expr_eq (Nat.lt_trans (lt_of_mem_args kind ha) hi)
          rw [← grows.expr_eq hi]
          refine (derive_agrees (operands.sound.note _) ((grows.kind_eq i hi).trans kind)
            differentiable ?_ (operands.inside ds rfl) ?_).of_grows grows
          · simpa using Expr.length_of_diffAll answer.symm
          · rw [same, List.map_congr_left fun d hd =>
              (Grows.note s₁ (.derived i o v)).expr_eq (operands.inside ds rfl d hd)]
            exact answer.symm
      · rw [diff_refused kind recalled (by simpa using differentiable), expr_op kind,
          Expr.diff_op_of_refused (by simpa using differentiable)]
        exact ⟨.refl s, hs, nofun, rfl⟩
termination_by (i, 1, 0)

theorem diffAll_agrees (v : Var) (bound : Nat) (s : Store) (args : List Nat)
    (h : ∀ a ∈ args, a < bound) (hbound : bound < s.size) (hs : s.Sound) :
    AgreesAll s (diffAll v bound s args h) (Expr.diffAll v (args.map s.expr)) := by
  match args with
  | [] =>
    rw [diffAll]
    exact ⟨.refl s, hs, fun ds hds => Except.ok.inj hds ▸ List.forall_mem_nil _, rfl⟩
  | a :: rest =>
    have below : a < bound := h a (by simp)
    have head := diff_agrees v s a hs
    rw [diffAll, List.map_cons, Expr.diffAll]
    generalize s.diff v a = result at head ⊢
    obtain ⟨_ | d, s₁⟩ := result
    · rw [← head.answer]
      exact ⟨head.grows, head.sound, nofun, rfl⟩
    · have tail := diffAll_agrees v bound s₁ rest (fun b hb => h b (by simp [hb]))
        (Nat.lt_of_lt_of_le hbound head.grows.size_le) head.sound
      have same : rest.map s₁.expr = rest.map s.expr :=
        List.map_congr_left fun b hb =>
          head.grows.expr_eq (Nat.lt_trans (h b (by simp [hb])) hbound)
      rw [same] at tail
      dsimp only
      generalize diffAll v bound s₁ rest _ = result at tail ⊢
      obtain ⟨_ | ds, s₂⟩ := result
      · rw [← head.answer, ← tail.answer]
        exact ⟨head.grows.trans tail.grows, tail.sound, nofun, rfl⟩
      · rw [← head.answer, ← tail.answer]
        have inside : d < s₁.size := head.inside d rfl
        refine ⟨head.grows.trans tail.grows, tail.sound, fun ds' hds' => ?_, ?_⟩
        · rw [← Except.ok.inj hds']
          exact List.forall_mem_cons.2
            ⟨Nat.lt_of_lt_of_le inside tail.grows.size_le, tail.inside ds rfl⟩
        · apply congrArg Except.ok
          rw [List.map_cons, tail.grows.expr_eq inside]
termination_by (bound, 0, args.length)

end

end Formula.Store
