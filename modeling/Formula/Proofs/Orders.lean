import Mathlib.Data.List.FinRange
import Mathlib.Logic.Equiv.Defs
import Formula.Proofs.Comparing
import Formula.Proofs.Outcomes

/-!
# Requests in any order

Which request builds a derivative that several of them need depends on their order, and so do the
numbers of the nodes.  Nothing else does.  Every order leaves the same operations remembering
(`diffEach_leaves`) and keeps a chart that says which request each answer is for
(`diffEach_answered`), so the nodes of two orders correspond.
-/

namespace Formula

namespace Store

variable {S s s' : Store} {v w : Var} {i j d : Nat} {κ : Type} {ask : κ → Nat × Var}
  {owned owned' : Nat × Var ⊕ κ → List Nat} {q : κ} {r r' : Except Error Nat}

/-- Asks for derivatives one after the other, whatever the answers are. -/
def diffEach (s : Store) : List (Nat × Var) → List (Except Error Nat) × Store
  | [] => ([], s)
  | (i, v) :: requests =>
    let (answer, s) := s.diff v i
    let (answers, s) := s.diffEach requests
    (answer :: answers, s)

theorem diffEach_steps (sound : s.Sound) (requests : List (Nat × Var)) :
    Steps s (s.diffEach requests).2 := by
  induction requests generalizing s with
  | nil => exact .refl
  | cons x requests ih =>
    exact (diff_diffs x.2 s x.1 sound).steps.trans (ih (diff_agrees x.2 s x.1 sound).sound)

/-! ### What requests leave remembered -/

/-- Requests leave what each of them leaves, and nothing else. -/
theorem diffEach_leaves (sound : s.Sound) (hs : s.Settled) (requests : List (Nat × Var))
    (inside : ∀ x ∈ requests, x.1 < s.size) (j : Nat) (w : Var) :
    ((s.diffEach requests).2.derivative? j w).isSome ↔
      (s.derivative? j w).isSome ∨ ∃ x ∈ requests, w = x.2 ∧ j ∈ (s.outcome x.1).visited := by
  induction requests generalizing s with
  | nil => simp [diffEach]
  | cons x requests ih =>
    obtain ⟨i, v⟩ := x
    have course := diff_diffs v s i sound
    have grows := course.steps.grows
    obtain ⟨-, rest⟩ := List.forall_mem_cons.1 inside
    rw [diffEach, ih (diff_agrees v s i sound).sound (hs.steps course.steps)
      (fun x hx => Nat.lt_of_lt_of_le (rest x hx) grows.size_le), (course.outcome hs).2,
      List.exists_mem_cons_iff, or_assoc]
    have same (x : Nat × Var) (hx : x ∈ requests) :
        (s.diff v i).2.outcome x.1 = s.outcome x.1 := grows.outcome_eq (rest x hx)
    refine or_congr_right (or_congr_right (exists_congr fun x => and_congr_right fun hx => ?_))
    rw [same x hx]

/-! ### Whose the answers are -/

/-- What the answer to a request is, and that the chart has it if it was made for the request. -/
structure Answered (ask : κ → Nat × Var) (S s : Store) (owned : Nat × Var ⊕ κ → List Nat) (q : κ)
    (r : Except Error Nat) : Prop where
  plain : r.map s.expr = (S.expr (ask q).1).diff (ask q).2
  inside : ∀ d, r = .ok d → d < s.size
  found : ∀ d, r = .ok d → (S.kind (ask q).1).isOperation →
    s.derivative? (ask q).1 (ask q).2 = some d
  alone : ∀ d, r = .ok d → (S.kind (ask q).1).isOperation = false → owned (.inr q) = [d]

theorem Answered.later (h : Answered ask S s owned q r) (grows : Grows s s')
    (same : owned' (.inr q) = owned (.inr q)) : Answered ask S s' owned' q r where
  plain := by
    rw [← h.plain]
    cases r with
    | error e => rfl
    | ok d => exact congrArg Except.ok (grows.expr_eq (h.inside d rfl))
  inside d hd := Nat.lt_of_lt_of_le (h.inside d hd) grows.size_le
  found d hd operation := grows.kept _ _ d (h.found d hd operation)
  alone d hd leaf := same.trans (h.alone d hd leaf)

/-- One request keeps a chart, and its answer is on it. -/
theorem diff_answered (sound : s.Sound) (chart : Charted ask S s owned) (q : κ)
    (inside : (ask q).1 < S.size) :
    ∃ owned', Charted ask S (s.diff (ask q).2 (ask q).1).2 owned' ∧
      (∀ q' ≠ q, owned' (.inr q') = owned (.inr q')) ∧
        Answered ask S (s.diff (ask q).2 (ask q).1).2 owned' q (s.diff (ask q).2 (ask q).1).1 := by
  classical
  have course := diff_diffs (ask q).2 s (ask q).1 sound
  have agrees := diff_agrees (ask q).2 s (ask q).1 sound
  rw [chart.grows.expr_eq inside] at agrees
  generalize s.diff (ask q).2 (ask q).1 = result at course agrees
  obtain ⟨r, s'⟩ := result
  obtain ⟨owned₁, chart₁, more, single⟩ := course.charted chart inside
  have kind := chart₁.grows.kind_eq _ inside
  have serves (d : Nat) (hd : r = .ok d) : Serves s s' (ask q).2 (ask q).1 d := by
    subst hd
    exact course.serves (Nat.lt_of_lt_of_le inside chart.grows.size_le)
  cases operation : (S.kind (ask q).1).isOperation with
  | true =>
    refine ⟨owned₁, chart₁, fun q' _ => more.same q', agrees.answer, agrees.inside,
      fun d hd _ => (serves d hd).found (kind ▸ operation), fun _ _ leaf => ?_⟩
    rw [operation] at leaf
    cases leaf
  | false =>
    cases r with
    | error e =>
      exact ⟨owned₁, chart₁, fun q' _ => more.same q', agrees.answer, nofun, nofun, nofun⟩
    | ok d =>
      obtain ⟨new, free⟩ := single d rfl operation
      obtain ⟨c, slope, made⟩ := (serves d rfl).made (kind ▸ operation)
      rw [kind] at slope
      have later := Nat.le_trans chart.grows.size_le new
      refine ⟨Function.update owned₁ (.inr q) [d],
        chart₁.answered slope made later (agrees.inside d rfl) free,
        fun q' other => ?_, agrees.answer, agrees.inside, fun _ _ operation' => ?_, ?_⟩
      · rw [Function.update_of_ne fun h => other (Sum.inr.inj h)]
        exact more.same q'
      · rw [operation] at operation'
        cases operation'
      · rintro _ ⟨⟩ -
        exact Function.update_self ..

/-- Requests keep a chart, and their answers are on it. -/
theorem diffEach_answered (sound : s.Sound) (chart : Charted ask S s owned)
    (inside : ∀ q, (ask q).1 < S.size) {order : List κ} (once : order.Nodup) :
    ∃ owned', Charted ask S (s.diffEach (order.map ask)).2 owned' ∧
      (∀ q, q ∉ order → owned' (.inr q) = owned (.inr q)) ∧
        List.Forall₂ (Answered ask S (s.diffEach (order.map ask)).2 owned') order
          (s.diffEach (order.map ask)).1 := by
  induction order generalizing s owned with
  | nil => exact ⟨owned, chart, fun _ _ => rfl, .nil⟩
  | cons q order ih =>
    obtain ⟨first, once⟩ := List.nodup_cons.1 once
    obtain ⟨owned₁, chart₁, same₁, answered⟩ := diff_answered sound chart q (inside q)
    have sound₁ := (diff_agrees (ask q).2 s (ask q).1 sound).sound
    obtain ⟨owned₂, chart₂, same₂, rest⟩ := ih sound₁ chart₁ once
    have grows := (diffEach_steps sound₁ (order.map ask)).grows
    refine ⟨owned₂, chart₂, fun q' other => ?_, .cons (answered.later grows (same₂ q first)) rest⟩
    rw [List.mem_cons, not_or] at other
    rw [same₂ q' other.2, same₁ q' other.1]

/-! ### Two orders -/

/-- The nodes of the first store, and the answers. -/
def roots (S : Store) (answers : List (Except Error Nat)) : Set Nat :=
  {i | i < S.size} ∪ {d | .ok d ∈ answers}

section

variable (hs : S.Settled) (chart : Charted ask S s owned) (chart' : Charted ask S s' owned')

include hs chart chart'

/-- Answers to one request in two orders are one error, or nodes that match. -/
theorem Answered.matches (h : Answered ask S s owned q r) (h' : Answered ask S s' owned' q r') :
    (∃ e, r = .error e ∧ r' = .error e) ∨
      ∃ d d', r = .ok d ∧ r' = .ok d' ∧ Matches S owned owned' d d' := by
  have plain := h.plain.trans h'.plain.symm
  cases r with
  | error e =>
    cases r' with
    | error e' => exact .inl ⟨e, rfl, congrArg _ (Except.error.inj plain).symm⟩
    | ok d' => cases plain
  | ok d =>
    cases r' with
    | error e' => cases plain
    | ok d' =>
      refine .inr ⟨d, d', rfl, rfl, ?_⟩
      cases operation : (S.kind (ask q).1).isOperation with
      | true =>
        exact chart.derivatives_match chart' hs (h.found d rfl operation)
          (h'.found d' rfl operation)
      | false =>
        refine .inr ⟨.inr q, ?_⟩
        rw [h.alone d rfl operation, h'.alone d' rfl operation]
        exact List.mem_singleton_self _

/-- Every root in one order matches one in the other. -/
theorem exists_matching_root {order order' : List κ} {answers answers' : List (Except Error Nat)}
    (h : List.Forall₂ (Answered ask S s owned) order answers)
    (h' : List.Forall₂ (Answered ask S s' owned') order' answers')
    (asked : ∀ q ∈ order, q ∈ order') :
    ∀ d ∈ S.roots answers, ∃ d' ∈ S.roots answers', Matches S owned owned' d d' := by
  rintro d (inside | answer)
  · exact ⟨d, .inl inside, .inl ⟨rfl, inside⟩⟩
  · obtain ⟨q, paired, answered⟩ := exists_partner_left h _ answer
    obtain ⟨r', paired', answered'⟩ := exists_partner h' q (asked q (List.of_mem_zip paired).1)
    rcases answered.matches hs chart chart' answered' with
      ⟨e, same, -⟩ | ⟨_, d', ⟨⟩, rfl, related⟩
    · cases same
    · exact ⟨d', .inr (List.of_mem_zip paired').2, related⟩

end

/-- Requests in two orders leave stores that are the same up to renaming new nodes. -/
theorem exists_renaming_of_orders (sound : S.Sound) (hs : S.Settled) (ask : κ → Nat × Var)
    (inside : ∀ q, (ask q).1 < S.size) {order order' : List κ} (once : order.Nodup)
    (once' : order'.Nodup) (same : ∀ q, q ∈ order ↔ q ∈ order') :
    let first := S.diffEach (order.map ask)
    let second := S.diffEach (order'.map ask)
    ∃ f : Nat → Nat,
      Set.BijOn f (first.2.reached (S.roots first.1)) (second.2.reached (S.roots second.1)) ∧
      (∀ i < S.size, f i = i) ∧
      (∀ j ∈ first.2.reached (S.roots first.1), second.2.kind (f j) = (first.2.kind j).rename f ∧
        ∀ v, second.2.derivative? (f j) v = (first.2.derivative? j v).map f) ∧
      first.1.length = order.length ∧ second.1.length = order'.length ∧
      ∀ q r r', (q, r) ∈ order.zip first.1 → (q, r') ∈ order'.zip second.1 → r' = r.map f := by
  intro first second
  obtain ⟨owned, chart, -, answers⟩ := diffEach_answered sound (.refl ask S) inside once
  obtain ⟨owned', chart', -, answers'⟩ := diffEach_answered sound (.refl ask S) inside once'
  have leaves (order : List κ) (j : Nat) (w : Var) :=
    diffEach_leaves sound hs (order.map ask)
      (List.forall_mem_map.2 fun q _ => inside q) j w
  have correspondence := chart.correspondence chart' hs fun j w => by
    rw [leaves, leaves]
    simp only [List.mem_map, exists_exists_and_eq_and, same]
  have matched := exists_matching_root hs chart chart' answers answers' fun q => (same q).1
  have matched' := exists_matching_root hs chart' chart answers' answers fun q => (same q).2
  obtain ⟨f, renames, bijOn, preserves⟩ := correspondence.exists_renaming matched fun j hj =>
    (matched' j hj).imp fun _ => And.imp_right Matches.symm
  refine ⟨f, bijOn, fun i hi => renames i i (.inl ⟨rfl, hi⟩), preserves, answers.length_eq.symm,
    answers'.length_eq.symm, fun q r r' paired paired' => ?_⟩
  have answered := List.forall₂_zip answers paired
  have answered' := List.forall₂_zip answers' paired'
  rcases answered.matches hs chart chart' answered' with
    ⟨e, rfl, rfl⟩ | ⟨d, d', rfl, rfl, related⟩
  · rfl
  · exact congrArg Except.ok (renames d d' related).symm

end Store

/--
Differentiation requests commute: asked in any two orders for derivatives of nodes of a reachable
store, a session answers with the same derivatives and errors and leaves the same store, up to a
renaming of what is reached from the nodes of the store and from the answers, which renames no node
of the store.
-/
theorem Session.requests_commute (commands : List Command) :
    let S := (empty.runAll commands).2.store
    ∀ {n : Nat} (requests : Fin n → Fin S.size × Var) (σ τ : Equiv.Perm (Fin n)),
      let ask := fun k => ((requests k).1.val, (requests k).2)
      let first := S.diffEach ((List.ofFn σ).map ask)
      let second := S.diffEach ((List.ofFn τ).map ask)
      ∃ f : Nat → Nat,
        Set.BijOn f (first.2.reached (S.roots first.1)) (second.2.reached (S.roots second.1)) ∧
          (∀ i < S.size, f i = i) ∧
          (∀ j ∈ first.2.reached (S.roots first.1),
            second.2.kind (f j) = (first.2.kind j).rename f ∧
              ∀ v, second.2.derivative? (f j) v = (first.2.derivative? j v).map f) ∧
          ∀ k l : Fin n, σ k = τ l → second.1[l]? = first.1[k]?.map (Except.map f) := by
  intro S n requests σ τ ask first second
  obtain ⟨f, bijOn, old, preserves, length, length', answers⟩ :=
    Store.exists_renaming_of_orders (sound_runAll commands) (settled_runAll commands) ask
      (fun k => (requests k).1.isLt) (List.nodup_ofFn.2 σ.injective) (List.nodup_ofFn.2 τ.injective)
      fun q => iff_of_true (List.mem_ofFn.2 (σ.surjective q)) (List.mem_ofFn.2 (τ.surjective q))
  refine ⟨f, bijOn, old, preserves, fun k l same => ?_⟩
  rw [List.length_ofFn] at length length'
  have hk : k.val < first.1.length := k.isLt.trans_eq length.symm
  have hl : l.val < second.1.length := l.isLt.trans_eq length'.symm
  have paired : (σ k, first.1[k.val]) ∈ (List.ofFn σ).zip first.1 :=
    List.mem_iff_getElem.2 ⟨k, by simpa using hk, by simp⟩
  have paired' : (τ l, second.1[l.val]) ∈ (List.ofFn τ).zip second.1 :=
    List.mem_iff_getElem.2 ⟨l, by simpa using hl, by simp⟩
  rw [← same] at paired'
  have answer := answers _ _ _ paired paired'
  simp only [Fin.getElem?_fin, List.getElem?_eq_getElem hk, List.getElem?_eq_getElem hl, answer,
    Option.map_some]

/-- Only the first answer of each order is computed; the second is that of the other order. -/
theorem Session.requests_commute_partlyDerived :
    let S := (empty.runAll partlyDerived).2.store
    let first := S.diffEach [(3, .y), (1, .x)]
    let second := S.diffEach [(1, .x), (3, .y)]
    first.1[0]? = some (.error (.notDifferentiable .signum)) ∧ second.1[0]? = some (.ok 6) ∧
      ∃ f : Nat → Nat,
        Set.BijOn f (first.2.reached (S.roots first.1)) (second.2.reached (S.roots second.1)) ∧
          (∀ i < S.size, f i = i) ∧
          second.1[1]? = some (.error (.notDifferentiable .signum)) ∧
            ∃ d, first.1[1]? = some (.ok d) ∧ f d = 6 := by
  intro S first second
  have size : S.size = 7 := congrArg Store.size store_partlyDerived
  have refused : first.1[0]? = some (.error (.notDifferentiable .signum)) :=
    congrArg some (refused_partlyDerived .y)
  have recalled : second.1[0]? = some (.ok 6) := by
    have kind : S.kind 1 = .op .neg [0] := congrArg (Store.kind · 1) store_partlyDerived
    exact congrArg (fun result => some result.1)
      (Store.diff_recalled kind remembered_partlyDerived)
  let requests : Fin 2 → Fin S.size × Var
    | 0 => (⟨3, by omega⟩, .y)
    | 1 => (⟨1, by omega⟩, .x)
  obtain ⟨f, bijOn, old, -, answers⟩ :=
    requests_commute partlyDerived requests (.refl _) (.swap 0 1)
  have last : second.1[1]? = first.1[0]?.map (Except.map f) := answers 0 1 rfl
  have head : second.1[0]? = first.1[1]?.map (Except.map f) := answers 1 0 rfl
  rw [refused] at last
  rw [recalled] at head
  obtain ⟨answer, known, renamed⟩ := Option.map_eq_some_iff.1 head.symm
  refine ⟨refused, recalled, f, bijOn, old, last, ?_⟩
  cases answer with
  | error e => cases renamed
  | ok d => exact ⟨d, known, Except.ok.inj renamed⟩

end Formula
