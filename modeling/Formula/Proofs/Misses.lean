import Mathlib.Data.List.Dedup
import Formula.Proofs.Outcomes

/-!
# Every derivative is built once

What was built is what is remembered: the derivatives that were built are those that some node
remembers, and none was built twice (`Recorded`).  A node that remembers a derivative does so for
ever, and answers with it from then on.  With what a request leaves remembered, this counts what it
builds: the derivatives of the operations in the expression that do not remember theirs, each once
(`misses_of_diff`).
-/

namespace Formula

namespace Store

variable {request s s' : Store} {v w : Var} {i j d : Nat} {o : Op} {args ds : List Nat}

/-- The derivatives that were built so far, in order. -/
def misses (s : Store) : List (Nat × Var) := s.events.toList.filterMap Event.miss?

/-- The operations of an expression that do not remember their derivative, each once. -/
def unbuilt (s : Store) (v : Var) (i : Nat) : List Nat :=
  ((s.occurrences i).filter fun j => (s.kind j).isOperation && (s.derivative? j v).isNone).dedup

theorem mem_unbuilt : j ∈ s.unbuilt v i ↔
    (j ∈ s.occurrences i ∧ ∃ o args, s.kind j = .op o args) ∧ s.derivative? j v = none := by
  rw [unbuilt, List.mem_dedup, List.mem_filter, Bool.and_eq_true, Kind.isOperation_iff,
    Option.isNone_iff_eq_none, and_assoc]

/-! ### What is logged is what is remembered -/

theorem misses_note (e : Event) : (s.note e).misses = s.misses ++ e.miss?.toList := by
  rw [misses, note, Array.toList_push, List.filterMap_append]
  rfl

theorem Enlarges.misses_eq (h : Enlarges s s') : s'.misses = s.misses := by
  rw [misses, h.events_eq]
  rfl

theorem Applied.misses_eq (h : Applied v request s i o args ds d s') :
    s'.misses = s.misses ++ [(i, v)] := by
  rw [misses, h.events_eq]
  exact misses_note (s := s) (.derived i o v)

theorem Step.misses_prefix (h : Step s s') : s.misses <+: s'.misses := by
  cases h with
  | enlarged h => exact ⟨[], by rw [h.misses_eq, List.append_nil]⟩
  | noted e _ => exact ⟨_, (misses_note e).symm⟩
  | applied h => exact ⟨_, h.misses_eq.symm⟩

theorem Steps.misses_prefix (h : Steps s s') : s.misses <+: s'.misses :=
  h.keeps (P := fun t => s.misses <+: t.misses) (fun le step => le.trans step.misses_prefix)
    (List.prefix_refl _)

/-- No derivative was built twice, and those that were built are those that are remembered. -/
structure Recorded (s : Store) : Prop where
  once : s.misses.Nodup
  mem_misses : ∀ i v, (i, v) ∈ s.misses ↔ (s.derivative? i v).isSome

namespace Recorded

theorem empty : Session.empty.store.Recorded where
  once := List.nodup_nil
  mem_misses i v := by
    have outside : Session.empty.store.derivative? i v = none :=
      derivative?_eq_none_of_size_le (Nat.zero_le i)
    rw [outside]
    exact iff_of_false List.not_mem_nil Bool.false_ne_true

theorem applied (hs : s.Recorded) (h : Applied v request s i o args ds d s') : s'.Recorded where
  once := by
    have fresh : (i, v) ∉ s.misses := by simp [hs.mem_misses, h.empty]
    rw [h.misses_eq, List.nodup_append_comm]
    exact List.nodup_cons.2 ⟨fresh, hs.once⟩
  mem_misses j w := by
    rw [h.misses_eq, List.mem_append, hs.mem_misses, List.mem_singleton, Prod.mk.injEq,
      h.derivative?_eq]
    split <;> simp_all

theorem step (hs : s.Recorded) (h : Step s s') : s'.Recorded := by
  cases h with
  | enlarged h =>
    refine ⟨?_, fun j w => ?_⟩ <;> rw [h.misses_eq]
    · exact hs.once
    · rw [h.derivative?_eq, hs.mem_misses]
  | noted e other =>
    have same : (s.note e).misses = s.misses := by
      rw [misses_note, other]
      exact List.append_nil _
    refine ⟨?_, fun j w => ?_⟩ <;> rw [same]
    · exact hs.once
    · exact hs.mem_misses j w
  | applied h => exact hs.applied h

theorem steps (hs : s.Recorded) (h : Steps s s') : s'.Recorded := h.keeps step hs

end Recorded

/-- Nothing is logged for a derivative but when its rule is applied. -/
theorem Steps.exists_applied_of_event {k : Nat} (h : Steps s s') (hk : s.events[k]? = none)
    (logged : s'.events[k]? = some (.derived i o v)) :
    ∃ request before after args ds d, Steps s before ∧ before.events.size = k ∧
      Applied v request before i o args ds d after ∧ Steps after s' := by
  obtain ⟨s₁, s₂, first, step, rest, unknown, known⟩ := h.exists_step
    (P := fun s => s.events[k]? = some (.derived i o v)) (by simp [hk]) logged
  cases step with
  | enlarged h => exact absurd (h.events_eq ▸ known) unknown
  | noted e other =>
    rw [note, Array.getElem?_push] at known
    split at known
    · obtain rfl := Option.some.inj known
      cases other
    · exact absurd known unknown
  | applied h =>
    rw [h.events_eq, Array.getElem?_push] at known
    split at known
    · next place =>
      obtain ⟨rfl, rfl, rfl⟩ := Event.derived.inj (Option.some.inj known)
      exact ⟨_, _, _, _, _, _, first, place.symm, h, rest⟩
    · exact absurd known unknown

/-! ### What a request builds -/

/-- A successful request builds the derivatives in its expression that are not remembered. -/
theorem misses_of_diff (sound : s.Sound) (hs : s.Settled) (recorded : s.Recorded)
    (h : s.diff v i = (.ok d, s')) :
    ∃ new, s'.misses = s.misses ++ new ∧ new.Perm ((s.unbuilt v i).map (·, v)) := by
  have course := diff_diffs v s i sound
  rw [h] at course
  obtain ⟨new, grown⟩ := course.steps.misses_prefix
  obtain ⟨ok, leaves⟩ := course.outcome hs
  have recorded' := recorded.steps course.steps
  have once := recorded'.once
  rw [← grown, List.nodup_append'] at once
  obtain ⟨-, nodup, disjoint⟩ := once
  refine ⟨new, grown.symm, (List.perm_ext_iff_of_nodup nodup ?_).2 fun (j, w) => ?_⟩
  · exact (List.nodup_dedup _).map fun _ _ same => (Prod.mk.inj same).1
  · have mem : (j, w) ∈ new ↔ (j, w) ∈ s'.misses ∧ (j, w) ∉ s.misses := by
      rw [← grown, List.mem_append]
      exact ⟨fun h => ⟨.inr h, fun h' => disjoint h' h⟩, fun ⟨h, h'⟩ => h.resolve_left h'⟩
    rw [mem, recorded'.mem_misses, recorded.mem_misses, leaves, mem_visited_of_ok ok.symm,
      List.mem_map]
    simp only [mem_unbuilt, Prod.mk.injEq]
    constructor
    · rintro ⟨found | ⟨rfl, occurs⟩, empty⟩
      · exact absurd found empty
      · exact ⟨j, ⟨occurs, by simpa using empty⟩, rfl, rfl⟩
    · rintro ⟨_, ⟨occurs, empty⟩, rfl, rfl⟩
      exact ⟨.inr ⟨rfl, occurs⟩, by simp [empty]⟩

/-- A remembered derivative is the answer, and asking for it does nothing else. -/
theorem Settled.diff_eq (hs : s.Settled) (found : s.derivative? i v = some d) :
    s.diff v i = (.ok d, s.note (.recalled i v)) := by
  obtain ⟨o, args, kind, -⟩ := hs.below i v d found
  exact diff_recalled kind found

end Store

/--
In every session, no derivative is built twice.  When one is built it was not remembered, and what
the rule builds is what is remembered and answered.  From then on it is what the node answers with,
under every name of it and whatever happens meanwhile, and nothing but that is noted.  A successful
request builds the derivatives of the operations in the expression that do not remember theirs.
-/
theorem Session.derived_once (commands : List Command) :
    let session := (empty.runAll commands).2
    let s := session.store
    s.misses.Nodup ∧
      (∀ k n o v, s.events[k]? = some (.derived n o v) →
        ∃ request before after args ds d, empty.store.Steps before ∧ before.events.size = k ∧
          Store.Applied v request before n o args ds d after ∧ after.Steps s ∧
            s.derivative? n v = some d) ∧
      (∀ n v d, s.derivative? n v = some d → ∀ later : List Command,
        let t := (session.runAll later).2
        t.store.derivative? n v = some d ∧
          t.store.diff v n = (.ok d, t.store.note (.recalled n v)) ∧
            ∀ target source text, t.names.lookup source = some n → Var.read text = .ok v →
              t.run (.diff target source text) =
                name t.names target (d, t.store.note (.recalled n v))) ∧
      ∀ n v d s', s.diff v n = (.ok d, s') →
        ∃ new, s'.misses = s.misses ++ new ∧ new.length = (s.unbuilt v n).length ∧
          new.Perm ((s.unbuilt v n).map (·, v)) := by
  intro session s
  have steps : empty.store.Steps s := steps_runAll commands
  have sound : session.Sound := runAll_sound Sound.empty commands
  have settled : s.Settled := settled_runAll commands
  have recorded : s.Recorded := Store.Recorded.empty.steps steps
  refine ⟨recorded.once, fun k n o v logged => ?_, fun n v d found later => ?_,
    fun n v d s' answer => ?_⟩
  · obtain ⟨request, before, after, args, ds, d, earlier, place, applied, rest⟩ :=
      steps.exists_applied_of_event rfl logged
    exact ⟨request, before, after, args, ds, d, earlier, place, applied, rest,
      rest.grows.kept n v d applied.kept⟩
  · have rest : s.Steps (session.runAll later).2.store := runAll_steps sound later
    have found' := rest.grows.kept n v d found
    have answer := (settled.steps rest).diff_eq found'
    refine ⟨found', answer, fun target source text bound read => ?_⟩
    simp only [run, withNode, bound, read, answer]
  · obtain ⟨new, grown, perm⟩ := Store.misses_of_diff sound.store settled recorded answer
    exact ⟨new, grown, by rw [perm.length_eq, List.length_map], perm⟩

theorem Session.derived_once_partlyDerived :
    let session := (empty.runAll partlyDerived).2
    let s := session.store
    s.misses = [(1, .x)] ∧ s.misses.Nodup ∧
      (∃ request before after args ds, empty.store.Steps before ∧ before.events.size = 0 ∧
        Store.Applied .x request before 1 .neg args ds 6 after ∧ after.Steps s) ∧
      session.run (.diff "d" "p" "x") = name session.names "d" (6, s.note (.recalled 1 .x)) ∧
      ∃ d s', s.diff .y 1 = (.ok d, s') ∧ s'.misses = [(1, .x), (1, .y)] := by
  intro session s
  have store : s = .partlyDerived := store_partlyDerived
  have misses : s.misses = [(1, .x)] := by rw [store]; rfl
  have logged : s.events[0]? = some (.derived 1 .neg .x) := by rw [store]; rfl
  have named : session.names.lookup "p" = some 1 :=
    congrArg (·.names.lookup "p") runAll_partlyDerived
  have unbuilt : s.unbuilt .y 1 = [1] := by
    rw [store]
    decide +kernel
  obtain ⟨once, built, kept, success⟩ := derived_once partlyDerived
  obtain ⟨-, -, recalled⟩ := kept 1 .x 6 remembered_partlyDerived []
  refine ⟨misses, once, ?_, recalled "d" "p" "x" named rfl, ?_⟩
  · obtain ⟨request, before, after, args, ds, d, steps, place, applied, rest, found'⟩ :=
      built 0 1 .neg .x logged
    obtain rfl := Option.some.inj (remembered_partlyDerived.symm.trans found')
    exact ⟨request, before, after, args, ds, steps, place, applied, rest⟩
  · have plain : (s.expr 1).diff .y = .ok (.op .neg [.const 0]) := by
      rw [store, Store.expr_partlyDerived]
      rfl
    have agrees := Store.diff_agrees .y s 1 (sound_runAll partlyDerived)
    rw [plain] at agrees
    obtain ⟨d, s', answer, -⟩ := agrees.exists_built
    obtain ⟨new, grown, -, perm⟩ := success 1 .y d s' answer
    rw [unbuilt, List.map_singleton, List.perm_singleton] at perm
    exact ⟨d, s', answer, by rw [grown, misses, perm]; rfl⟩

end Formula
