import Formula.Proofs.Course
import Formula.Proofs.Sessions

/-!
# What sessions do to their stores

Whatever a command does to the store is a sequence of steps (`run_steps`), so the store of every
session comes from the empty one by steps (`steps_runAll`).  What a store may look like is shown by
induction on them, as it is here for what nodes remember (`Settled`): only operations with a rule
remember a derivative, and each operation below them remembers its own.
-/

namespace Formula

namespace Session

variable {s : Session} {target : String} {result : Nat × Store}

theorem name_steps (h : s.store.Steps result.2) :
    s.store.Steps (name s.names target result).2.store := h

theorem withNode_steps {source : String} {act : Nat → Reply × Session}
    (h : ∀ i, s.store.Steps (act i).2.store) : s.store.Steps (s.withNode source act).2.store := by
  unfold withNode
  split
  · exact h _
  · exact .refl

theorem withNodes_steps {sources : List String} {act : List Nat → Reply × Session}
    (h : ∀ is, s.store.Steps (act is).2.store) :
    s.store.Steps (s.withNodes sources act).2.store := by
  induction sources generalizing act with
  | nil => exact h []
  | cons source sources ih => exact withNode_steps fun i => ih fun is => h (i :: is)

theorem ask_steps {source : String} {answer : Nat → Reply} :
    s.store.Steps (s.ask source answer).2.store :=
  withNode_steps fun _ => .refl

theorem add_steps (k : Kind) : s.store.Steps (name s.names target (s.store.add k)).2.store :=
  name_steps (.single (.enlarged (.add _ k)))

theorem parse_steps {p : Parser} {text : String} :
    s.store.Steps (s.run (.parse target p text)).2.store := by
  have noted (outcome : Except ParseError Expr) :
      s.store.Steps (s.store.note (p.event text outcome)) :=
    .single (.noted _ (by cases outcome <;> rfl))
  rw [run]
  cases p.parse text with
  | error e => exact noted (.error e)
  | ok e => exact name_steps ((noted (.ok e)).tail (.enlarged (.addExpr _ e)))

theorem diff_steps (hs : s.store.Sound) {source text : String} :
    s.store.Steps (s.run (.diff target source text)).2.store := by
  apply withNode_steps
  intro i
  cases Var.read text with
  | error e => exact .refl
  | ok v =>
    have steps := (Store.diff_diffs v s.store i hs).steps
    dsimp only
    generalize s.store.diff v i = result at steps ⊢
    obtain ⟨_ | d, store⟩ := result
    · exact steps
    · exact name_steps steps

/-- What a command does to the store is a sequence of steps. -/
theorem run_steps (hs : s.store.Sound) (c : Command) : s.store.Steps (s.run c).2.store := by
  cases c with
  | parse target p text => exact parse_steps
  | constant target value => exact add_steps _
  | byName target text =>
    rw [run]
    cases Var.read text with
    | ok v => exact add_steps _
    | error e => exact .refl
  | operation target sign args =>
    apply withNodes_steps
    intro is
    cases Op.fitting? sign is.length with
    | none => exact .refl
    | some o => exact add_steps _
  | clone target source => exact withNode_steps fun i => name_steps .refl
  | rebuild target source => exact withNode_steps fun i => add_steps _
  | operand target source place =>
    apply withNode_steps
    intro i
    cases (s.store.kind i).operands[place]? with
    | none => exact .refl
    | some a => exact name_steps .refl
  | diff target source text => exact diff_steps hs
  | compare a b => exact withNode_steps fun _ => ask_steps
  | identities sources => exact withNodes_steps fun _ => .refl
  | remembered | eval | evalWith | inspect | visits | describe => exact ask_steps

/-- So is what a list of commands does. -/
theorem runAll_steps (hs : s.Sound) (commands : List Command) :
    s.store.Steps (s.runAll commands).2.store := by
  induction commands generalizing s with
  | nil => exact .refl
  | cons c cs ih => exact (run_steps hs.store c).trans (ih (run_sound hs c))

/-- Every store of a session comes from the empty one by steps. -/
theorem steps_runAll (commands : List Command) :
    empty.store.Steps (empty.runAll commands).2.store :=
  runAll_steps Sound.empty commands

theorem sound_runAll (commands : List Command) : (empty.runAll commands).2.store.Sound :=
  (runAll_sound Sound.empty commands).store

end Session

namespace Store

variable {request s s' : Store} {v : Var} {i d : Nat} {o : Op} {args : List Nat}

/-- Whatever a node remembers now and did not before, a rule has built for it meanwhile. -/
theorem Steps.exists_applied (h : Steps s s') (empty : s.derivative? i v = none)
    (found : s'.derivative? i v = some d) :
    ∃ request before after o args ds, Steps s before ∧
      Applied v request before i o args ds d after ∧ Steps after s' := by
  obtain ⟨s₁, s₂, first, step, rest, unknown, known⟩ := h.exists_step
    (P := fun s => s.derivative? i v = some d) (by simp [empty]) found
  cases step with
  | enlarged h => exact absurd ((h.derivative?_eq i v).symm.trans known) unknown
  | noted e _ => exact absurd known unknown
  | applied h =>
    rw [h.derivative?_eq] at known
    split at known
    · next same =>
      obtain ⟨rfl, rfl⟩ := same
      obtain rfl := Option.some.inj known
      exact ⟨_, _, _, _, _, _, first, h, rest⟩
    · exact absurd known unknown

/--
Only operations with a rule remember derivatives, which are nodes of the store, and the operations
that they are on remember theirs.
-/
structure Settled (s : Store) : Prop where
  inside : ∀ i v d, s.derivative? i v = some d → d < s.size
  below : ∀ i v d, s.derivative? i v = some d → ∃ o args, s.kind i = .op o args ∧
    o.isDifferentiable ∧
      ∀ a ∈ args, ∀ o' args', s.kind a = .op o' args' → (s.derivative? a v).isSome

namespace Settled

theorem of_size_eq_zero (h : s.size = 0) : s.Settled where
  inside i _ _ found := absurd (h ▸ lt_size_of_derivative? found) (Nat.not_lt_zero i)
  below i _ _ found := absurd (h ▸ lt_size_of_derivative? found) (Nat.not_lt_zero i)

/-- What is said about one node stays true when the store grows. -/
theorem below_of_grows (hs : s.Settled) (grows : Grows s s') (found : s.derivative? i v = some d) :
    ∃ o args, s'.kind i = .op o args ∧ o.isDifferentiable ∧
      ∀ a ∈ args, ∀ o' args', s'.kind a = .op o' args' → (s'.derivative? a v).isSome := by
  obtain ⟨o, args, kind, differentiable, below⟩ := hs.below i v d found
  have hi := lt_size_of_kind_op kind
  refine ⟨o, args, (grows.kind_eq i hi).trans kind, differentiable, fun a ha o' args' kind' => ?_⟩
  rw [grows.kind_eq a (Nat.lt_trans (lt_of_mem_args kind ha) hi)] at kind'
  obtain ⟨d', found'⟩ := Option.isSome_iff_exists.1 (below a ha o' args' kind')
  exact Option.isSome_of_eq_some (grows.kept a v d' found')

theorem applied {ds : List Nat} (hs : s.Settled) (h : Applied v request s i o args ds d s') :
    s'.Settled where
  inside j w d' found := by
    rw [h.derivative?_eq] at found
    split at found
    · exact Option.some.inj found ▸ h.closed.1.1
    · exact Nat.lt_of_lt_of_le (hs.inside j w d' found) h.grows.size_le
  below j w d' found := by
    rw [h.derivative?_eq] at found
    split at found
    · next same =>
      obtain ⟨rfl, rfl⟩ := same
      refine ⟨o, args, (h.grows.kind_eq j h.lt_size).trans h.kind, h.differentiable, ?_⟩
      intro a ha o' args' kind
      rw [h.grows.kind_eq a (h.args_inside a ha)] at kind
      obtain ⟨e, -, serves⟩ := h.exists_derivative ha
      have found := serves.found (Kind.isOperation_iff.2 ⟨o', args', kind⟩)
      exact Option.isSome_of_eq_some (h.grows.kept a w e found)
    · exact hs.below_of_grows h.grows found

theorem step (hs : s.Settled) (h : Step s s') : s'.Settled := by
  cases h with
  | enlarged h =>
    refine ⟨fun j w d' found => ?_, fun j w d' found => ?_⟩ <;> rw [h.derivative?_eq] at found
    · exact Nat.lt_of_lt_of_le (hs.inside j w d' found) h.size_le
    · exact hs.below_of_grows h.grows found
  | noted e _ => exact ⟨hs.inside, hs.below⟩
  | applied h => exact hs.applied h

theorem steps (hs : s.Settled) (h : Steps s s') : s'.Settled := h.keeps step hs

end Settled

end Store

/-- What nodes remember is so in every session. -/
theorem Session.settled_runAll (commands : List Command) :
    (empty.runAll commands).2.store.Settled :=
  (Store.Settled.of_size_eq_zero rfl).steps (steps_runAll commands)

end Formula
