import Mathlib.Logic.Relation
import Formula.Proofs.Building
import Formula.Proofs.Memo

/-!
# The course of a differentiation

`Diffs` says case by case what happens when a node is differentiated, with the stores in between:
the cases of `diff`, but as a relation, so that what holds of every differentiation is shown by
induction on its course.  `diff_diffs` is the one place where the recursion of `diff` is followed.
It also shows that nothing below an operation fills its place in the meantime, so that the rule is
applied while the operation remembers nothing, and what it builds is what is kept and answered
(`Applied`).

Seen from outside, a store moves by three kinds of steps (`Step`): nodes are added, something is
noted, or a rule is applied.  Every differentiation is a sequence of them (`Diffs.steps`).
-/

namespace Formula

namespace Kind

/-- Whether a node is an operation. -/
def isOperation : Kind → Bool
  | op _ _ => true
  | _ => false

/-- The derivative of a leaf. -/
def slope? (v : Var) : Kind → Option Float
  | const _ => some 0
  | var w => some (if w = v then 1 else 0)
  | op _ _ => none

theorem isOperation_iff {k : Kind} : k.isOperation ↔ ∃ o args, k = .op o args := by
  cases k <;> simp [isOperation]

theorem isOperation_of_slope? {k : Kind} {v : Var} {c : Float} (h : k.slope? v = some c) :
    k.isOperation = false := by
  cases k with
  | const | var => rfl
  | op => cases h

theorem leaf_or_op (v : Var) (k : Kind) :
    (∃ c, k.slope? v = some c) ∨ ∃ o args, k = .op o args := by
  cases k with
  | const c => exact .inl ⟨_, rfl⟩
  | var w => exact .inl ⟨_, rfl⟩
  | op o args => exact .inr ⟨o, args, rfl⟩

end Kind

/-- The node and the variable whose derivative is built, if that is what happened. -/
def Event.miss? : Event → Option (Nat × Var)
  | derived node _ v => some (node, v)
  | _ => none

namespace Store

variable {earlier request s s' s₀ s₁ : Store} {v w : Var} {i j a d : Nat} {o : Op}
  {args ds : List Nat}

theorem occurrences_leaf {c : Float} (h : (s.kind i).slope? v = some c) :
    s.occurrences i = [i] := by
  cases kind : s.kind i with
  | const c => exact fold_const _ _ _ kind
  | var w => exact fold_var _ _ _ kind
  | op o args =>
    rw [kind] at h
    cases h

/-! ### Applying a rule -/

/--
What answers for the derivative of `a`: what an operation remembers, or for a leaf a constant that
was made since the request.
-/
inductive Serves (request s : Store) (v : Var) (a d : Nat) : Prop
  | remembered {o : Op} {args : List Nat} (kind : s.kind a = .op o args)
      (found : s.derivative? a v = some d)
  | constant {c : Float} (slope : (s.kind a).slope? v = some c) (new : request.size ≤ d)
      (made : s.kind d = .const c)

/--
The derivative of operation `i` is asked for in `request`.  In `s` its rule is applied to
derivatives `ds` of the operands, and builds `d`, which `i` remembers in `s'` and which is the
answer.
-/
structure Applied (v : Var) (request s : Store) (i : Nat) (o : Op) (args ds : List Nat) (d : Nat)
    (s' : Store) : Prop where
  grown : Grows request s
  kind : s.kind i = .op o args
  empty : s.derivative? i v = none
  serves : List.Forall₂ (Serves request s v) args ds
  inside : ∀ d ∈ ds, d < s.size
  built : ∃ s₁, (s.note (.derived i o v)).build i o args ds = some (d, s₁) ∧
    s' = s₁.remember i v d
  answered : request.diff v i = (.ok d, s')

theorem Serves.of_grows (h : Serves request s v a d) (grows : Grows s s') (ha : a < s.size)
    (hd : d < s.size) : Serves request s' v a d := by
  cases h with
  | remembered kind found =>
    exact .remembered ((grows.kind_eq a ha).trans kind) (grows.kept a v d found)
  | constant slope new made =>
    exact .constant (by rwa [grows.kind_eq a ha]) new ((grows.kind_eq d hd).trans made)

theorem Serves.of_size_le (h : Serves request s v a d) (le : earlier.size ≤ request.size) :
    Serves earlier s v a d := by
  cases h with
  | remembered kind found => exact .remembered kind found
  | constant slope new made => exact .constant slope (Nat.le_trans le new) made

theorem Serves.found (h : Serves request s v a d) (operation : (s.kind a).isOperation) :
    s.derivative? a v = some d := by
  cases h with
  | remembered _ found => exact found
  | constant slope _ _ =>
    rw [Kind.isOperation_of_slope? slope] at operation
    cases operation

theorem Serves.made (h : Serves request s v a d) (leaf : (s.kind a).isOperation = false) :
    ∃ c, (s.kind a).slope? v = some c ∧ s.kind d = .const c := by
  cases h with
  | remembered kind _ =>
    rw [kind] at leaf
    cases leaf
  | constant slope _ made => exact ⟨_, slope, made⟩

namespace Applied

variable (h : Applied v request s i o args ds d s')

include h

theorem lt_size : i < s.size := lt_size_of_kind_op h.kind

theorem args_inside : ∀ a ∈ args, a < s.size := operands_inside h.kind

theorem differentiable : o.isDifferentiable := by
  obtain ⟨s₁, built, -⟩ := h.built
  exact differentiable_of_build built

/-- Each operand comes with its derivative. -/
theorem exists_derivative (ha : a ∈ args) : ∃ e, (a, e) ∈ args.zip ds ∧ Serves request s v a e :=
  exists_partner h.serves a ha

theorem exists_operand {e : Nat} (he : e ∈ ds) :
    ∃ a, (a, e) ∈ args.zip ds ∧ Serves request s v a e :=
  exists_partner_left h.serves e he

theorem derivative?_eq (j : Nat) (w : Var) :
    s'.derivative? j w = if j = i ∧ w = v then some d else s.derivative? j w := by
  obtain ⟨s₁, built, rfl⟩ := h.built
  have grown := build_enlarges built
  rw [derivative?_remember (Nat.lt_of_lt_of_le h.lt_size grown.size_le), grown.derivative?_eq,
    derivative?_note]

theorem kept : s'.derivative? i v = some d := by
  rw [h.derivative?_eq, if_pos ⟨rfl, rfl⟩]

theorem grows : Grows s s' := by
  obtain ⟨s₁, built, rfl⟩ := h.built
  have grown := build_enlarges built
  have empty : s₁.derivative? i v = none := (grown.derivative?_eq i v).trans h.empty
  exact ((Grows.note s _).trans grown.grows).trans
    (.remember (Nat.lt_of_lt_of_le h.lt_size grown.size_le) empty)

theorem events_eq : s'.events = s.events.push (.derived i o v) := by
  obtain ⟨s₁, built, rfl⟩ := h.built
  exact (build_enlarges built).events_eq

/-- The new nodes are on each other, on operands and on their derivatives alone. -/
theorem closed :
    (d < s'.size ∧ (s.size ≤ d ∨ d ∈ args ∨ d ∈ ds)) ∧
      ∀ b, s.size ≤ b → ∀ c ∈ (s'.kind b).operands, s.size ≤ c ∨ c ∈ args ∨ c ∈ ds := by
  obtain ⟨s₁, built, rfl⟩ := h.built
  simp only [size_remember, kind_remember]
  exact build_closed built h.args_inside h.inside

/-- The same rule in two stores, on operands and derivatives that correspond, builds twins. -/
theorem twins {R : Nat → Nat → Prop} {request' t t' : Store} {i' d' : Nat} {args' ds' : List Nat}
    (h' : Applied v request' t i' o args' ds' d' t') (operands : List.Forall₂ R args args')
    (derivatives : List.Forall₂ R ds ds') (order : InOrder R s t s') :
    R d d' ∧ s'.size + t.size = t'.size + s.size ∧ ∀ k, s.size + k < s'.size →
      (s'.kind (s.size + k)).Alike R (t'.kind (t.size + k)) := by
  have matched := forall_matched operands h.args_inside h'.args_inside
  have matched' := forall_matched derivatives h.inside h'.inside
  obtain ⟨s₁, built, rfl⟩ := h.built
  obtain ⟨t₁, built', rfl⟩ := h'.built
  have noted (as as' : List Nat) (h : List.Forall₂ (Matched R s t) as as') :
      List.Forall₂ (Matched R (s.note (.derived i o v)) (t.note (.derived i' o v))) as as' :=
    h.imp fun _ _ m => ⟨m.related, m.inside, m.inside'⟩
  have built := build_twins (noted _ _ matched) (noted _ _ matched') built built'
    fun k hk => order k (by simpa using hk)
  simp only [size_remember, kind_remember]
  exact ⟨built.root.related, built.grown.size, built.grown.kinds⟩

end Applied

/-! ### Steps of a store -/

/-- One step of a store. -/
inductive Step : Store → Store → Prop
  | enlarged {s s' : Store} (h : Enlarges s s') : Step s s'
  | noted {s : Store} (e : Event) (other : e.miss? = none) : Step s (s.note e)
  | applied {request s s' : Store} {v : Var} {i d : Nat} {o : Op} {args ds : List Nat}
      (h : Applied v request s i o args ds d s') : Step s s'

/-- Any number of steps. -/
abbrev Steps : Store → Store → Prop := Relation.ReflTransGen Step

theorem Step.grows (h : Step s s') : Grows s s' := by
  cases h with
  | enlarged h => exact h.grows
  | noted e _ => exact .note s e
  | applied h => exact h.grows

namespace Steps

section

variable {P : Store → Prop}

/-- What every step keeps, all of them keep. -/
theorem keeps (step : ∀ {s s'}, P s → Step s s' → P s') (h : Steps s s') (hs : P s) : P s' := by
  induction h with
  | refl => exact hs
  | tail _ last ih => exact step ih last

/-- What is so in the end and was not at first, some step has brought about. -/
theorem exists_step (h : Steps s s') (before : ¬ P s) (after : P s') :
    ∃ s₁ s₂, Steps s s₁ ∧ Step s₁ s₂ ∧ Steps s₂ s' ∧ ¬ P s₁ ∧ P s₂ := by
  induction h with
  | refl => exact absurd after before
  | @tail s₁ s₂ steps step ih =>
    by_cases already : P s₁
    · obtain ⟨t₁, t₂, first, made, rest, still⟩ := ih already
      exact ⟨t₁, t₂, first, made, rest.tail step, still⟩
    · exact ⟨s₁, s₂, steps, step, .refl, already, after⟩

end

theorem grows (h : Steps s s') : Grows s s' :=
  h.keeps (fun grows step => grows.trans step.grows) (.refl s)

end Steps

/-! ### The course of a differentiation -/

mutual

/-- Differentiating node `i` in the first store gives the answer and the second store. -/
inductive Diffs (v : Var) : Store → Nat → Except Error Nat → Store → Prop
  | leaf {s : Store} {i : Nat} {c : Float} (slope : (s.kind i).slope? v = some c) :
      Diffs v s i (.ok s.size) (s.add (.const c)).2
  | recalled {s : Store} {i d : Nat} {o : Op} {args : List Nat} (kind : s.kind i = .op o args)
      (found : s.derivative? i v = some d) (inside : d < s.size) :
      Diffs v s i (.ok d) (s.note (.recalled i v))
  | refused {s : Store} {i : Nat} {args : List Nat} (kind : s.kind i = .op .signum args) :
      Diffs v s i (.error (.notDifferentiable .signum)) s
  | failed {s s' : Store} {i : Nat} {o : Op} {args : List Nat} {e : Error}
      (kind : s.kind i = .op o args) (differentiable : o.isDifferentiable)
      (operands : DiffsAll v s args (.error e) s') : Diffs v s i (.error e) s'
  | built {s s₀ s' : Store} {i d : Nat} {o : Op} {args ds : List Nat}
      (kind : s.kind i = .op o args) (operands : DiffsAll v s args (.ok ds) s₀)
      (applied : Applied v s s₀ i o args ds d s') : Diffs v s i (.ok d) s'

/-- The same for several nodes, up to the first error. -/
inductive DiffsAll (v : Var) : Store → List Nat → Except Error (List Nat) → Store → Prop
  | nil {s : Store} : DiffsAll v s [] (.ok []) s
  | stop {s s' : Store} {a : Nat} {args : List Nat} {e : Error} (head : Diffs v s a (.error e) s') :
      DiffsAll v s (a :: args) (.error e) s'
  | pass {s s₁ s' : Store} {a d : Nat} {args : List Nat} {e : Error}
      (head : Diffs v s a (.ok d) s₁) (tail : DiffsAll v s₁ args (.error e) s') :
      DiffsAll v s (a :: args) (.error e) s'
  | cons {s s₁ s' : Store} {a d : Nat} {args ds : List Nat} (head : Diffs v s a (.ok d) s₁)
      (tail : DiffsAll v s₁ args (.ok ds) s') : DiffsAll v s (a :: args) (.ok (d :: ds)) s'

end

mutual

theorem Diffs.steps {v : Var} {s s' : Store} {i : Nat} {r : Except Error Nat} :
    Diffs v s i r s' → Steps s s'
  | .leaf _ => .single (.enlarged (.add _ _))
  | .recalled _ _ _ => .single (.noted _ rfl)
  | .refused _ => .refl
  | .failed _ _ operands => operands.steps
  | .built _ operands applied => operands.steps.tail (.applied applied)

theorem DiffsAll.steps {v : Var} {s s' : Store} {args : List Nat} {r : Except Error (List Nat)} :
    DiffsAll v s args r s' → Steps s s'
  | .nil => .refl
  | .stop head => head.steps
  | .pass head tail => head.steps.trans tail.steps
  | .cons head tail => head.steps.trans tail.steps

end

mutual

/-- Differentiating a node changes nothing that later nodes remember. -/
theorem Diffs.above {v : Var} {s s' : Store} {i j : Nat} {r : Except Error Nat} (hj : i < j)
    (w : Var) :
    Diffs v s i r s' → s'.derivative? j w = s.derivative? j w
  | .leaf _ => derivative?_add
  | .recalled _ _ _ => rfl
  | .refused _ => rfl
  | .failed kind _ operands =>
    operands.above (fun _ ha => Nat.lt_trans (lt_of_mem_args kind ha) hj) w
  | .built kind operands applied => by
    rw [applied.derivative?_eq, if_neg (by omega)]
    exact operands.above (fun _ ha => Nat.lt_trans (lt_of_mem_args kind ha) hj) w

theorem DiffsAll.above {v : Var} {s s' : Store} {j : Nat} {args : List Nat}
    {r : Except Error (List Nat)} (hj : ∀ a ∈ args, a < j) (w : Var) :
    DiffsAll v s args r s' → s'.derivative? j w = s.derivative? j w
  | .nil => rfl
  | .stop head => head.above (hj _ List.mem_cons_self) w
  | .pass head tail =>
    (tail.above (fun a ha => hj a (List.mem_cons_of_mem _ ha)) w).trans
      (head.above (hj _ List.mem_cons_self) w)
  | .cons head tail =>
    (tail.above (fun a ha => hj a (List.mem_cons_of_mem _ ha)) w).trans
      (head.above (hj _ List.mem_cons_self) w)

end

theorem Diffs.inside (h : Diffs v s i (.ok d) s') : d < s'.size := by
  cases h with
  | leaf _ => simp
  | recalled _ _ inside => exact inside
  | built _ _ applied => exact applied.closed.1.1

theorem Diffs.serves (h : Diffs v s i (.ok d) s') (hi : i < s.size) : Serves s s' v i d := by
  cases h with
  | leaf slope =>
    refine .constant (by rwa [kind_add, if_neg (Nat.ne_of_lt hi)]) (Nat.le_refl _) ?_
    rw [kind_add, if_pos rfl]
    rfl
  | recalled kind found _ => exact .remembered kind found
  | built _ _ applied =>
    exact .remembered ((applied.grows.kind_eq i applied.lt_size).trans applied.kind) applied.kept

theorem DiffsAll.serves {v : Var} {s s' : Store} {args ds : List Nat}
    (hargs : ∀ a ∈ args, a < s.size) :
    DiffsAll v s args (.ok ds) s' → List.Forall₂ (Serves s s' v) args ds
  | .nil => .nil
  | .cons head tail => by
    obtain ⟨ha, hrest⟩ := List.forall_mem_cons.1 hargs
    have size_le := head.steps.grows.size_le
    refine .cons ((head.serves ha).of_grows tail.steps.grows ?_ head.inside)
      ((tail.serves ?_).imp fun _ _ serves => serves.of_size_le size_le)
    · exact Nat.lt_of_lt_of_le ha size_le
    · exact fun b hb => Nat.lt_of_lt_of_le (hrest b hb) size_le

/-! ### Every differentiation has a course -/

mutual

theorem diff_diffs (v : Var) (s : Store) (i : Nat) (hs : s.Sound) :
    Diffs v s i (s.diff v i).1 (s.diff v i).2 := by
  cases kind : s.kind i with
  | const c =>
    rw [diff_const kind]
    exact .leaf (by rw [kind]; rfl)
  | var w =>
    rw [diff_var kind]
    exact .leaf (by rw [kind]; rfl)
  | op o args =>
    cases recalled : s.derivative? i v with
    | some d =>
      rw [diff_recalled kind recalled]
      exact .recalled kind recalled (hs.remembered i v d recalled).1
    | none =>
      by_cases differentiable : o.isDifferentiable
      · have hi : i < s.size := lt_size_of_kind_op kind
        have below : ∀ a ∈ args, a < i := fun _ => lt_of_mem_args kind
        have operands := diffAll_diffs v i s args below hi hs
        have agrees := diffAll_agrees v i s args below hi hs
        have request := diff_derived kind recalled differentiable
        generalize diffAll v i s args below = result at operands agrees request
        obtain ⟨e | ds, s₀⟩ := result
        · rw [request]
          exact .failed kind differentiable operands
        · have grows : Grows s s₀ := agrees.grows
          have kind₀ : s₀.kind i = .op o args := (grows.kind_eq i hi).trans kind
          have empty : s₀.derivative? i v = none := (operands.above below v).trans recalled
          have serves := operands.serves fun a ha => Nat.lt_trans (below a ha) hi
          obtain ⟨⟨d, s₁⟩, built⟩ := Option.isSome_iff_exists.1
            (build_isSome (s := s₀.note (.derived i o v)) (i := i) differentiable
              (hs.fits i o args kind) serves.length_eq.symm)
          have derived := derive_of_build built
            (((build_enlarges built).derivative?_eq i v).trans empty)
          dsimp only at request
          rw [derived] at request
          rw [request]
          exact .built kind operands ⟨grows, kind₀, empty, serves, agrees.inside ds rfl,
            ⟨s₁, built, rfl⟩, request⟩
      · rw [diff_refused kind recalled (by simpa using differentiable)]
        obtain rfl : o = .signum := by cases o <;> simp_all [Op.isDifferentiable]
        exact .refused kind
termination_by (i, 1, 0)

theorem diffAll_diffs (v : Var) (bound : Nat) (s : Store) (args : List Nat)
    (h : ∀ a ∈ args, a < bound) (hbound : bound < s.size) (hs : s.Sound) :
    DiffsAll v s args (diffAll v bound s args h).1 (diffAll v bound s args h).2 := by
  match args with
  | [] =>
    rw [diffAll]
    exact .nil
  | a :: rest =>
    have below : a < bound := h a (by simp)
    have head := diff_diffs v s a hs
    have agrees := diff_agrees v s a hs
    rw [diffAll]
    generalize s.diff v a = result at head agrees ⊢
    obtain ⟨e | d, s₁⟩ := result
    · exact .stop head
    · have tail := diffAll_diffs v bound s₁ rest (fun b hb => h b (by simp [hb]))
        (Nat.lt_of_lt_of_le hbound agrees.grows.size_le) agrees.sound
      dsimp only
      generalize diffAll v bound s₁ rest _ = result at tail ⊢
      obtain ⟨e | ds, s₂⟩ := result
      · exact .pass head tail
      · exact .cons head tail
termination_by (bound, 0, args.length)

end

end Store

end Formula
