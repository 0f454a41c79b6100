import Formula.Proofs.Descent
import Formula.Proofs.Memo
import Formula.Session

/-!
# Sessions keep their stores sound

Every command leaves a sound store and names for nodes of it, whether it succeeds or fails
(`run_sound`), and so does every list of commands (`runAll_sound`).  What a session remembers
is therefore never wrong, and an answer does not depend on what was asked before.
-/

namespace Formula.Session

/-- The store is sound, and every name is one of its nodes. -/
structure Sound (s : Session) : Prop where
  store : s.store.Sound
  named : ∀ target i, (target, i) ∈ s.names → i < s.store.size

theorem mem_of_lookup {names : Names} {target : String} {i : Nat}
    (h : names.lookup target = some i) : (target, i) ∈ names := by
  obtain ⟨before, after, rfl, -⟩ := List.lookup_eq_some_iff.1 h
  simp

namespace Sound

variable {s : Session} {e : Expr} {result : Nat × Store}

theorem empty : Session.empty.Sound := ⟨.of_size_eq_zero rfl, nofun⟩

/-- The names stay when the store grows. -/
theorem of_grows (hs : s.Sound) {store : Store} (grows : s.store.Grows store)
    (sound : store.Sound) : Sound { s with store } :=
  ⟨sound, fun target i named => Nat.lt_of_lt_of_le (hs.named target i named) grows.size_le⟩

theorem name (hs : s.Sound) {target : String} (planted : s.store.Planted result e) :
    (name s.names target result).2.Sound := by
  refine ⟨planted.sound, fun target' i named => ?_⟩
  rcases List.mem_cons.1 named with same | named
  · obtain ⟨-, rfl⟩ := Prod.mk.inj same
    exact planted.inside
  · exact Nat.lt_of_lt_of_le (hs.named target' i named) planted.grows.size_le

theorem withNode (hs : s.Sound) {source : String} {act : Nat → Reply × Session}
    (h : ∀ i < s.store.size, (act i).2.Sound) : (s.withNode source act).2.Sound := by
  unfold Session.withNode
  split
  · next i found =>
    exact h i (hs.named source i (mem_of_lookup found))
  · exact hs

theorem withNodes (hs : s.Sound) {sources : List String} {act : List Nat → Reply × Session}
    (h : ∀ is, (∀ i ∈ is, i < s.store.size) → (act is).2.Sound) :
    (s.withNodes sources act).2.Sound := by
  induction sources generalizing act with
  | nil => exact h [] (List.forall_mem_nil _)
  | cons source sources ih =>
    exact hs.withNode fun i hi => ih fun is his => h (i :: is) (List.forall_mem_cons.2 ⟨hi, his⟩)

theorem ask (hs : s.Sound) {source : String} {answer : Nat → Reply} :
    (s.ask source answer).2.Sound :=
  hs.withNode fun _ _ => hs

/-- Another name for a node that is there already. -/
theorem rename (hs : s.Sound) {target : String} {i : Nat} (hi : i < s.store.size) :
    (Session.name s.names target (i, s.store)).2.Sound :=
  have present : s.store.Planted (i, s.store) (s.store.expr i) := ⟨.refl _, hs.store, hi, rfl⟩
  hs.name present

theorem rebuild (hs : s.Sound) {target : String} {i : Nat} (hi : i < s.store.size) :
    (Session.name s.names target (s.store.add (s.store.kind i))).2.Sound := by
  cases kind : s.store.kind i with
  | const c => exact hs.name (Store.planted_const hs.store c)
  | var v => exact hs.name (Store.planted_var hs.store v)
  | op o args =>
    have inside : ∀ a ∈ args, a < s.store.size := fun a ha =>
      Nat.lt_trans (Store.lt_of_mem_args kind ha) hi
    exact hs.name (Store.planted_op hs.store inside (hs.store.fits i o args kind))

theorem parse (hs : s.Sound) {target text : String} {p : Parser} :
    (s.run (.parse target p text)).2.Sound := by
  have noted : (s.store.note (p.event text (p.parse text))).Sound := hs.store.note _
  have grows : s.store.Grows (s.store.note (p.event text (p.parse text))) := .note _ _
  rw [run]
  cases outcome : p.parse text with
  | error e =>
    rw [outcome] at noted grows
    exact hs.of_grows grows noted
  | ok e =>
    rw [outcome] at noted grows
    have planted := Store.addExpr_planted noted (Parser.parse_eq_ok_iff.1 outcome).fits
    exact hs.name ⟨grows.trans planted.grows, planted.sound, planted.inside, planted.expr⟩

theorem diff (hs : s.Sound) {target source text : String} :
    (s.run (.diff target source text)).2.Sound := by
  apply hs.withNode
  intro i _
  cases Var.read text with
  | error e => exact hs
  | ok v =>
    have agrees := Store.diff_agrees v s.store i hs.store
    dsimp only
    generalize s.store.diff v i = result at agrees ⊢
    obtain ⟨_ | d, store⟩ := result
    · exact hs.of_grows agrees.grows agrees.sound
    · exact hs.name ⟨agrees.grows, agrees.sound, agrees.inside d rfl, rfl⟩

end Sound

/-- Every command keeps soundness, also one that fails. -/
theorem run_sound {s : Session} (hs : s.Sound) (c : Command) : (s.run c).2.Sound := by
  cases c with
  | parse target p text => exact hs.parse
  | constant target value => exact hs.name (Store.planted_const hs.store value)
  | byName target text =>
    rw [run]
    cases Var.read text with
    | ok v => exact hs.name (Store.planted_var hs.store v)
    | error e => exact hs
  | operation target sign args =>
    apply hs.withNodes
    intro is his
    cases known : Op.fitting? sign is.length with
    | none => exact hs
    | some o =>
      have count : o.arity.accepts is.length := (Option.filter_eq_some_iff.1 known).2
      exact hs.name (Store.planted_op hs.store his count)
  | clone target source => exact hs.withNode fun i hi => hs.rename hi
  | rebuild target source => exact hs.withNode fun i hi => hs.rebuild hi
  | operand target source place =>
    apply hs.withNode
    intro i hi
    cases found : (s.store.kind i).operands[place]? with
    | none => exact hs
    | some a =>
      have below : a < i := s.store.ordered i a (List.mem_of_getElem? found)
      exact hs.rename (Nat.lt_trans below hi)
  | diff target source text => exact hs.diff
  | compare a b => exact hs.withNode fun _ _ => hs.ask
  | identities sources => exact hs.withNodes fun _ _ => hs
  | remembered | eval | evalWith | inspect | visits | describe => exact hs.ask

/-- So does every list of commands. -/
theorem runAll_sound {s : Session} (hs : s.Sound) (commands : List Command) :
    (s.runAll commands).2.Sound := by
  induction commands generalizing s with
  | nil => exact hs
  | cons c cs ih => exact ih (run_sound hs c)

/-! ### A session in the middle of its work -/

/--
A negation, its sign, their sum, and a mean.  The derivative of the sum is refused because of the
sign, when that of the negation is remembered already.
-/
def partlyDerived : List Command :=
  [.byName "x" "x", .operation "p" "negate" ["x"], .operation "q" "sign" ["p"],
    .operation "r" "+" ["p", "q"], .operation "g" "geom-mean" ["x", "p"], .diff "d" "r" "x"]

end Formula.Session

namespace Formula.Store

/-- The store with nodes of the given kinds, which remember nothing. -/
def ofKinds (kinds : List Kind) : Store :=
  kinds.foldl (fun s k => (s.add k).2) Session.empty.store

/-- What `Session.partlyDerived` builds before it asks for a derivative. -/
def underived : Store :=
  ofKinds [.var .x, .op .neg [0], .op .signum [1], .op .add [1, 2], .op .geomMean [0, 1]]

/-- What `Session.partlyDerived` leaves. -/
def partlyDerived : Store :=
  let s := (underived.add (.const 1)).2.note (.derived 1 .neg .x)
  (s.add (.op .neg [5])).2.remember 1 .x 6

theorem expr_partlyDerived : partlyDerived.expr 1 = .op .neg [.var .x] := by
  have kind : partlyDerived.kind 1 = .op .neg [0] := rfl
  rw [expr_op kind, List.map_singleton, expr_var (v := .x) rfl]

end Formula.Store

namespace Formula.Session

theorem run_diff_refused {s : Session} {target source text : String} {i : Nat} {v : Var} {e : Error}
    {store : Store} (named : s.names.lookup source = some i) (read : Var.read text = .ok v)
    (refused : s.store.diff v i = (.error e, store)) :
    s.run (.diff target source text) = (.failed e, ⟨store, s.names⟩) := by
  simp only [run, withNode, named, read, refused]

theorem runAll_partlyDerived : (empty.runAll partlyDerived).2 =
    ⟨.partlyDerived, [("g", 4), ("r", 3), ("q", 2), ("p", 1), ("x", 0)]⟩ := by
  have leaf : Store.underived.diff .x 0 = (.ok 5, (Store.underived.add (.const 1)).2) :=
    Store.diff_var (w := .x) rfl
  have negation : Store.underived.diff .x 1 = (.ok 6, .partlyDerived) := by
    have kind : Store.underived.kind 1 = .op .neg [0] := rfl
    rw [Store.diff_derived kind rfl rfl, Store.diffAll, leaf]
    dsimp only
    rw [Store.diffAll]
    rfl
  have sign : Store.partlyDerived.diff .x 2 =
      (.error (.notDifferentiable .signum), .partlyDerived) := by
    have kind : Store.partlyDerived.kind 2 = .op .signum [1] := rfl
    exact Store.diff_refused kind rfl rfl
  have sum : Store.underived.diff .x 3 =
      (.error (.notDifferentiable .signum), .partlyDerived) := by
    have kind : Store.underived.kind 3 = .op .add [1, 2] := rfl
    rw [Store.diff_derived kind rfl rfl, Store.diffAll, negation]
    dsimp only
    rw [Store.diffAll, sign]
  have last : run ⟨.underived, [("g", 4), ("r", 3), ("q", 2), ("p", 1), ("x", 0)]⟩
      (.diff "d" "r" "x") = (.failed (.notDifferentiable .signum), ⟨.partlyDerived, _⟩) :=
    run_diff_refused rfl rfl sum
  exact congrArg Prod.snd last

theorem store_partlyDerived : (empty.runAll partlyDerived).2.store = .partlyDerived :=
  congrArg store runAll_partlyDerived

/-- The negation remembers its derivative by `x`. -/
theorem remembered_partlyDerived :
    (empty.runAll partlyDerived).2.store.derivative? 1 .x = some 6 :=
  congrArg (Store.derivative? · 1 .x) store_partlyDerived

theorem uses_partlyDerived : ((empty.runAll partlyDerived).2.store.expr 3).uses .signum := by
  rw [store_partlyDerived]
  decide +kernel

/-- The sum has no derivative by any variable. -/
theorem refused_partlyDerived (v : Var) :
    ((empty.runAll partlyDerived).2.store.diff v 3).1 = .error (.notDifferentiable .signum) := by
  have sound := (runAll_sound Sound.empty partlyDerived).store
  have agrees := Store.diff_agrees v _ 3 sound
  rw [Expr.diff_refused (sound.expr_fits 3) uses_partlyDerived v] at agrees
  exact agrees.refused

/-! ### Answers do not depend on memory -/

/--
Memory never shows: after any commands, the derivative of any node is what the plain recursion
builds from its expression.  It is refused exactly when `signum` occurs, and for no other reason.
-/
theorem diff_eq_plain (commands : List Command) (v : Var) (i : Nat) :
    let s := (empty.runAll commands).2.store
    (s.diff v i).1.map (s.diff v i).2.expr = (s.expr i).diff v ∧
      ((s.diff v i).1 = .error (.notDifferentiable .signum) ↔ (s.expr i).uses .signum) ∧
      ∀ e, (s.diff v i).1 = .error e → e = .notDifferentiable .signum := by
  intro s
  have sound : s.Sound := (runAll_sound Sound.empty commands).store
  have answer := (Store.diff_agrees v s i sound).answer
  refine ⟨answer, ?_⟩
  generalize s.diff v i = result at answer ⊢
  obtain ⟨_ | d, s'⟩ := result
  · next e =>
    rcases Expr.diff_cases (sound.expr_fits i) v with ⟨-, d, plain⟩ | ⟨used, plain⟩
    · cases answer.trans plain
    · obtain rfl := Except.error.inj (answer.trans plain)
      exact ⟨iff_of_true rfl used, fun e h => (Except.error.inj h).symm⟩
  · rcases Expr.diff_cases (sound.expr_fits i) v with ⟨unused, -⟩ | ⟨-, plain⟩
    · exact ⟨iff_of_false nofun (Bool.not_eq_true _ ▸ unused), nofun⟩
    · cases answer.trans plain

theorem diff_eq_plain_partlyDerived :
    let s := (empty.runAll partlyDerived).2.store
    s.derivative? 1 .x = some 6 ∧
      (s.diff .x 1).1.map (s.diff .x 1).2.expr = .ok (.op .neg [.const 1]) ∧
        (s.expr 3).uses .signum ∧ (s.diff .x 3).1 = .error (.notDifferentiable .signum) := by
  intro s
  obtain ⟨plain, -, -⟩ := diff_eq_plain partlyDerived .x 1
  obtain ⟨-, refused, -⟩ := diff_eq_plain partlyDerived .x 3
  refine ⟨remembered_partlyDerived, ?_, uses_partlyDerived, refused.2 uses_partlyDerived⟩
  rw [plain, store_partlyDerived, Store.expr_partlyDerived]
  rfl

end Formula.Session
