import Formula.Proofs.Runs

/-!
# What a request leaves remembered

Which operations remember their derivative after a node was differentiated does not depend on what
was remembered before, but for what was there already: a walk over the expression says which are
added, if they are not there, and whether the request succeeds (`Store.outcome`).  The walk goes
from the left, stops behind the first operand that is refused, and leaves no operation out when it
succeeds (`mem_visited_of_ok`).  `Diffs.outcome` shows that every differentiation does what the walk
says.
-/

namespace Formula

/-- What a request does. -/
structure Outcome where
  /-- The operations that remember their derivative afterwards. -/
  visited : List Nat
  /-- Whether the request succeeds. -/
  ok : Bool

namespace Outcome

/-- Requests one after the other, up to the first that fails. -/
def sequence : List Outcome → Outcome
  | [] => ⟨[], true⟩
  | r :: rs => if r.ok then ⟨r.visited ++ (sequence rs).visited, (sequence rs).ok⟩ else r

/-- The request for an operation, from those for its operands. -/
def operation (i : Nat) (o : Op) (operands : List Outcome) : Outcome :=
  if o.isDifferentiable then
    if (sequence operands).ok then ⟨i :: (sequence operands).visited, true⟩ else sequence operands
  else ⟨[], false⟩

theorem sequence_of_ok {rs : List Outcome} (h : (sequence rs).ok) :
    (∀ r ∈ rs, r.ok) ∧ ∀ j, j ∈ (sequence rs).visited ↔ ∃ r ∈ rs, j ∈ r.visited := by
  induction rs with
  | nil => simp [sequence]
  | cons r rs ih =>
    rw [sequence] at h ⊢
    cases first : r.ok with
    | true =>
      rw [first, if_pos rfl] at h
      rw [if_pos rfl]
      obtain ⟨all, mem⟩ := ih h
      refine ⟨List.forall_mem_cons.2 ⟨first, all⟩, fun j => ?_⟩
      rw [List.mem_append, mem, List.exists_mem_cons_iff]
    | false => simp [first] at h

theorem sequence_ok {rs : List Outcome} (h : ∀ r ∈ rs, r.ok) : (sequence rs).ok := by
  induction rs with
  | nil => rfl
  | cons r rs ih =>
    obtain ⟨hr, hrs⟩ := List.forall_mem_cons.1 h
    rw [sequence, if_pos hr]
    exact ih hrs

/-- A request that succeeds has asked for every operand. -/
theorem operation_of_ok {i : Nat} {o : Op} {rs : List Outcome} (h : (operation i o rs).ok) :
    (∀ r ∈ rs, r.ok) ∧
      ∀ j, j ∈ (operation i o rs).visited ↔ j = i ∨ ∃ r ∈ rs, j ∈ r.visited := by
  unfold operation at h ⊢
  split at h
  · next differentiable =>
    split at h
    · next all =>
      obtain ⟨each, mem⟩ := sequence_of_ok all
      refine ⟨each, fun j => ?_⟩
      rw [if_pos differentiable, if_pos all, List.mem_cons, mem]
    · next refused => exact absurd h refused
  · cases h

theorem operation_ok {i : Nat} {o : Op} {rs : List Outcome} (differentiable : o.isDifferentiable)
    (h : ∀ r ∈ rs, r.ok) : (operation i o rs).ok := by
  rw [operation, if_pos differentiable, if_pos (sequence_ok h)]

end Outcome

namespace Store

variable {s s' : Store} {v w : Var} {i j d : Nat} {o : Op} {args : List Nat}

/-- What the request for the derivative of a node does. -/
def outcome (s : Store) (i : Nat) : Outcome :=
  s.fold (fun _ _ => ⟨[], true⟩) (fun _ _ => ⟨[], true⟩) Outcome.operation i

theorem outcome_leaf {c : Float} (h : (s.kind i).slope? v = some c) : s.outcome i = ⟨[], true⟩ := by
  cases kind : s.kind i with
  | const c => exact fold_const _ _ _ kind
  | var w => exact fold_var _ _ _ kind
  | op o args =>
    rw [kind] at h
    cases h

theorem outcome_op (h : s.kind i = .op o args) :
    s.outcome i = .operation i o (args.map s.outcome) :=
  fold_op _ _ _ h

/-- A successful request visits every operation of the expression, and nothing else. -/
theorem mem_visited_of_ok (h : (s.outcome i).ok) :
    j ∈ (s.outcome i).visited ↔ j ∈ s.occurrences i ∧ ∃ o args, s.kind j = .op o args := by
  induction i using Nat.strongRecOn with
  | ind i ih =>
    rcases (s.kind i).leaf_or_op .x with ⟨c, slope⟩ | ⟨o, args, kind⟩
    · rw [outcome_leaf slope, occurrences_leaf slope, List.mem_singleton]
      refine iff_of_false List.not_mem_nil ?_
      rintro ⟨rfl, _, _, kind⟩
      rw [kind] at slope
      cases slope
    · rw [outcome_op kind] at h ⊢
      obtain ⟨each, mem⟩ := Outcome.operation_of_ok h
      rw [List.forall_mem_map] at each
      rw [mem, mem_occurrences_op kind, or_and_right]
      refine or_congr ⟨fun same => ⟨same, o, args, same ▸ kind⟩, And.left⟩ ?_
      simp only [List.mem_map, exists_exists_and_eq_and]
      constructor
      · rintro ⟨a, ha, hj⟩
        obtain ⟨occurs, operation⟩ := (ih a (lt_of_mem_args kind ha) (each a ha)).1 hj
        exact ⟨⟨a, ha, occurs⟩, operation⟩
      · rintro ⟨⟨a, ha, occurs⟩, operation⟩
        exact ⟨a, ha, (ih a (lt_of_mem_args kind ha) (each a ha)).2 ⟨occurs, operation⟩⟩

theorem Grows.outcome_eq (h : Grows s s') (hi : i < s.size) : s'.outcome i = s.outcome i :=
  h.fold_eq _ _ _ i hi

theorem Grows.map_outcome_eq (h : Grows s s') (inside : ∀ a ∈ args, a < s.size) :
    args.map s'.outcome = args.map s.outcome :=
  List.map_congr_left fun a ha => h.outcome_eq (inside a ha)

/-- Where an operation remembers its derivative, a request would change nothing. -/
theorem Settled.outcome (hs : s.Settled) (found : s.derivative? i v = some d) :
    (s.outcome i).ok ∧ ∀ j ∈ (s.outcome i).visited, (s.derivative? j v).isSome := by
  induction i using Nat.strongRecOn generalizing d with
  | ind i ih =>
    obtain ⟨o, args, kind, differentiable, below⟩ := hs.below i v d found
    have each : ∀ a ∈ args,
        (s.outcome a).ok ∧ ∀ j ∈ (s.outcome a).visited, (s.derivative? j v).isSome := by
      intro a ha
      rcases (s.kind a).leaf_or_op v with ⟨c, slope⟩ | ⟨o', args', kind'⟩
      · rw [outcome_leaf slope]
        exact ⟨rfl, List.forall_mem_nil _⟩
      · obtain ⟨d', found'⟩ := Option.isSome_iff_exists.1 (below a ha o' args' kind')
        exact ih a (lt_of_mem_args kind ha) found'
    have ok := Outcome.operation_ok (i := i) differentiable
      (List.forall_mem_map.2 fun a ha => (each a ha).1)
    rw [outcome_op kind]
    refine ⟨ok, fun j hj => ?_⟩
    rcases ((Outcome.operation_of_ok ok).2 j).1 hj with rfl | ⟨r, hr, hj⟩
    · exact Option.isSome_of_eq_some found
    · obtain ⟨a, ha, rfl⟩ := List.mem_map.1 hr
      exact (each a ha).2 j hj

/-! ### Every differentiation does what the walk says -/

/-- In the second store the operations of a list remember their derivatives in addition. -/
def Leaves (v : Var) (s s' : Store) (visited : List Nat) : Prop :=
  ∀ j w, (s'.derivative? j w).isSome ↔ (s.derivative? j w).isSome ∨ w = v ∧ j ∈ visited

theorem Leaves.of_same (h : ∀ j w, s'.derivative? j w = s.derivative? j w) : Leaves v s s' [] :=
  fun j w => by simp [h]

theorem Leaves.trans {s₁ : Store} {first second : List Nat} (h : Leaves v s s₁ first)
    (h' : Leaves v s₁ s' second) : Leaves v s s' (first ++ second) := by
  intro j w
  rw [h', h, or_assoc, ← and_or_left, List.mem_append]

mutual

/-- A request answers as the walk says, and leaves derivatives where it says. -/
theorem Diffs.outcome {v : Var} {s s' : Store} {i : Nat} {r : Except Error Nat} (hs : s.Settled) :
    Diffs v s i r s' → r.isOk = (s.outcome i).ok ∧ Leaves v s s' (s.outcome i).visited
  | .leaf slope => by
    rw [outcome_leaf slope]
    exact ⟨rfl, .of_same fun _ _ => derivative?_add⟩
  | .recalled kind found _ => by
    -- Nothing is added, and the walk visits only what remembers its derivative already.
    obtain ⟨ok, filled⟩ := hs.outcome found
    refine ⟨ok.symm, fun j w => ?_⟩
    rw [derivative?_note]
    refine ⟨.inl, Or.rec id ?_⟩
    rintro ⟨rfl, visited⟩
    exact filled j visited
  | .refused kind => by
    rw [outcome_op kind]
    exact ⟨rfl, .of_same fun _ _ => rfl⟩
  | .failed kind differentiable operands => by
    obtain ⟨ok, leaves⟩ := operands.outcome hs (operands_inside kind)
    rw [outcome_op kind, Outcome.operation, if_pos differentiable, ← ok]
    exact ⟨ok, leaves⟩
  | .built kind operands applied => by
    obtain ⟨ok, leaves⟩ := operands.outcome hs (operands_inside kind)
    replace ok : (Outcome.sequence _).ok = true := ok.symm
    rw [outcome_op kind, Outcome.operation, if_pos applied.differentiable, if_pos ok]
    refine ⟨rfl, fun j w => ?_⟩
    rw [applied.derivative?_eq, List.mem_cons]
    split
    · next same => simp [same]
    · next different =>
      rw [leaves j w]
      exact or_congr_right (and_congr_right fun same =>
        (or_iff_right fun h => different ⟨h, same⟩).symm)

theorem DiffsAll.outcome {v : Var} {s s' : Store} {args : List Nat} {r : Except Error (List Nat)}
    (hs : s.Settled) (inside : ∀ a ∈ args, a < s.size) :
    DiffsAll v s args r s' → r.isOk = (Outcome.sequence (args.map s.outcome)).ok ∧
      Leaves v s s' (Outcome.sequence (args.map s.outcome)).visited
  | .nil => ⟨rfl, .of_same fun _ _ => rfl⟩
  | .stop head => by
    obtain ⟨ok, leaves⟩ := head.outcome hs
    rw [List.map_cons, Outcome.sequence, ← ok]
    exact ⟨ok, leaves⟩
  | .pass head tail => by
    obtain ⟨ok, leaves⟩ := head.outcome hs
    obtain ⟨ok', leaves'⟩ := tail.outcome (hs.steps head.steps) fun b hb =>
      Nat.lt_of_lt_of_le (inside b (List.mem_cons_of_mem _ hb)) head.steps.grows.size_le
    -- The walk over the other operands sees the same in the store that the first one left.
    rw [head.steps.grows.map_outcome_eq (List.forall_mem_cons.1 inside).2] at ok' leaves'
    rw [List.map_cons, Outcome.sequence, ← ok]
    exact ⟨ok', leaves.trans leaves'⟩
  | .cons head tail => by
    obtain ⟨ok, leaves⟩ := head.outcome hs
    obtain ⟨ok', leaves'⟩ := tail.outcome (hs.steps head.steps) fun b hb =>
      Nat.lt_of_lt_of_le (inside b (List.mem_cons_of_mem _ hb)) head.steps.grows.size_le
    rw [head.steps.grows.map_outcome_eq (List.forall_mem_cons.1 inside).2] at ok' leaves'
    rw [List.map_cons, Outcome.sequence, ← ok]
    exact ⟨ok', leaves.trans leaves'⟩

end

end Store

end Formula
