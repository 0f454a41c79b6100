import Mathlib.Data.List.Nodup
import Mathlib.Logic.Function.Basic
import Formula.Proofs.Runs

/-!
# Whose nodes are whose

Every node that requests add is added for one thing: it was made by the rule of some operation, it
is the constant that this rule was given for a leaf operand, or it is the constant that answers a
request for a leaf.  A chart says which nodes were added for what (`Charted`); constants that were
made for an operation whose request failed are on no chart.  No node is there for two things, and
every differentiation keeps a chart (`Diffs.charted`).
-/

namespace Formula.Store

variable {S request s s' s₁ : Store} {v w : Var} {i j n d : Nat} {o : Op} {args ds : List Nat}

/-! ### Nodes that are shared out -/

section

variable {K : Type} {lo hi : Nat} {owned : K → List Nat}

/-- Some of the nodes from `lo` to `hi` are shared out among owners, each to one owner and once. -/
structure Shares (lo hi : Nat) (owned : K → List Nat) : Prop where
  within : ∀ x, ∀ j ∈ owned x, lo ≤ j ∧ j < hi
  nodup : ∀ x, (owned x).Nodup
  disjoint : ∀ x y j, j ∈ owned x → j ∈ owned y → x = y

namespace Shares

theorem mono (h : Shares lo hi owned) {hi' : Nat} (le : hi ≤ hi') : Shares lo hi' owned where
  within x j hj := ⟨(h.within x j hj).1, Nat.lt_of_lt_of_le (h.within x j hj).2 le⟩
  nodup := h.nodup
  disjoint := h.disjoint

/-- What nobody has can be given to somebody, who has nothing else then. -/
theorem update [DecidableEq K] (h : Shares lo hi owned) (x : K) {nodes : List Nat}
    (nodup : nodes.Nodup) (within : ∀ j ∈ nodes, lo ≤ j ∧ j < hi)
    (free : ∀ j ∈ nodes, ∀ y, j ∉ owned y) : Shares lo hi (Function.update owned x nodes) where
  within y j hj := by
    by_cases same : y = x
    · subst same
      rw [Function.update_self] at hj
      exact within j hj
    · rw [Function.update_of_ne same] at hj
      exact h.within y j hj
  nodup y := by
    by_cases same : y = x
    · subst same
      rwa [Function.update_self]
    · rw [Function.update_of_ne same]
      exact h.nodup y
  disjoint y z j hy hz := by
    by_cases same : y = x <;> by_cases same' : z = x
    · exact same.trans same'.symm
    · rw [same, Function.update_self] at hy
      rw [Function.update_of_ne same'] at hz
      exact absurd hz (free j hy z)
    · rw [same', Function.update_self] at hz
      rw [Function.update_of_ne same] at hy
      exact absurd hy (free j hz y)
    · rw [Function.update_of_ne same] at hy
      rw [Function.update_of_ne same'] at hz
      exact h.disjoint y z j hy hz

end Shares

end

/-! ### Charts -/

/-- What answers for the leaves among some operands. -/
def constants (s : Store) : List Nat → List Nat → List Nat
  | a :: args, d :: ds =>
    if (s.kind a).isOperation then s.constants args ds else d :: s.constants args ds
  | _, _ => []

theorem mem_of_mem_constants {e : Nat} (h : e ∈ s.constants args ds) : e ∈ ds := by
  induction args generalizing ds with
  | nil => cases h
  | cons a args ih =>
    cases ds with
    | nil => cases h
    | cons d ds =>
      rw [constants] at h
      split at h
      · exact List.mem_cons_of_mem _ (ih h)
      · rcases List.mem_cons.1 h with rfl | h
        · exact List.mem_cons_self
        · exact List.mem_cons_of_mem _ (ih h)

/-- The nodes that were added from one store to another. -/
def between (s s' : Store) : List Nat := (List.range (s'.size - s.size)).map (s.size + ·)

theorem mem_between : j ∈ s.between s' ↔ s.size ≤ j ∧ j < s'.size := by
  simp only [between, List.mem_map, List.mem_range]
  constructor
  · rintro ⟨k, hk, rfl⟩
    omega
  · rintro ⟨le, lt⟩
    exact ⟨j - s.size, by omega, by omega⟩

theorem nodup_between : (s.between s').Nodup :=
  List.nodup_range.map fun _ _ => Nat.add_left_cancel

/-- `d` was built by the rule of `n`, and `nodes` were added for that. -/
inductive Block (S s : Store) (n : Nat) (v : Var) (d : Nat) (nodes : List Nat) : Prop
  | intro {request before after : Store} {o : Op} {args ds : List Nat}
      (applied : Applied v request before n o args ds d after) (later : Grows after s)
      (nodes_eq : nodes = S.constants args ds ++ before.between after)

variable {κ : Type} {ask : κ → Nat × Var} {owned owned₀ owned₁ owned₂ : Nat × Var ⊕ κ → List Nat}

/--
What the nodes are there for that were added since the first store: for a derivative that some
operation remembers since then, or for the answer to a request for a leaf.
-/
structure Charted (ask : κ → Nat × Var) (S s : Store) (owned : Nat × Var ⊕ κ → List Nat) :
    Prop where
  grows : Grows S s
  shares : Shares S.size s.size owned
  block : ∀ n v d, S.derivative? n v = none → s.derivative? n v = some d →
    n < S.size ∧ Block S s n v d (owned (.inl (n, v)))
  used : ∀ n v, ∀ j ∈ owned (.inl (n, v)),
    S.derivative? n v = none ∧ ∃ d, s.derivative? n v = some d
  answer : ∀ q, ∀ j ∈ owned (.inr q),
    ∃ c, (S.kind (ask q).1).slope? (ask q).2 = some c ∧ s.kind j = .const c

theorem Block.of_grows {nodes : List Nat} (h : Block S s n v d nodes) (grows : Grows s s') :
    Block S s' n v d nodes := by
  obtain ⟨applied, later, nodes_eq⟩ := h
  exact ⟨applied, later.trans grows, nodes_eq⟩

namespace Charted

theorem refl (ask : κ → Nat × Var) (S : Store) : Charted ask S S fun _ => [] where
  grows := .refl S
  shares := ⟨fun _ => List.forall_mem_nil _, fun _ => List.nodup_nil, nofun⟩
  block n v d empty found := by
    rw [empty] at found
    cases found
  used _ _ := List.forall_mem_nil _
  answer _ := List.forall_mem_nil _

theorem lt_of_mem (h : Charted ask S s owned) {x : Nat × Var ⊕ κ} (hj : j ∈ owned x) : j < s.size :=
  (h.shares.within x j hj).2

theorem answer_of_grows (h : Charted ask S s owned) (grows : Grows s s') {q : κ}
    (hj : j ∈ owned (.inr q)) :
    ∃ c, (S.kind (ask q).1).slope? (ask q).2 = some c ∧ s'.kind j = .const c := by
  obtain ⟨c, slope, kind⟩ := h.answer q j hj
  exact ⟨c, slope, (grows.kind_eq j (h.lt_of_mem hj)).trans kind⟩

theorem of_grows (h : Charted ask S s owned) (grows : Grows s s')
    (same : ∀ n v, s'.derivative? n v = s.derivative? n v) : Charted ask S s' owned where
  grows := h.grows.trans grows
  shares := h.shares.mono grows.size_le
  block n v d empty found := by
    rw [same] at found
    obtain ⟨inside, block⟩ := h.block n v d empty found
    exact ⟨inside, block.of_grows grows⟩
  used n v j hj := by
    rw [same]
    exact h.used n v j hj
  answer _ _ := h.answer_of_grows grows

/-- The answer to a request for a leaf goes to the request. -/
theorem answered [DecidableEq κ] (h : Charted ask S s owned) {q : κ} {c : Float}
    (slope : (S.kind (ask q).1).slope? (ask q).2 = some c) (kind : s.kind d = .const c)
    (new : S.size ≤ d) (inside : d < s.size) (free : ∀ x, d ∉ owned x) :
    Charted ask S s (Function.update owned (.inr q) [d]) where
  grows := h.grows
  shares := h.shares.update _ (List.nodup_singleton d)
    (fun _ he => List.mem_singleton.1 he ▸ ⟨new, inside⟩)
    fun _ he => List.mem_singleton.1 he ▸ free
  block n v d empty found := by
    rw [Function.update_of_ne Sum.inl_ne_inr]
    exact h.block n v d empty found
  used n v j hj := by
    rw [Function.update_of_ne Sum.inl_ne_inr] at hj
    exact h.used n v j hj
  answer q' j hj := by
    by_cases same : q' = q
    · subst same
      rw [Function.update_self, List.mem_singleton] at hj
      exact ⟨c, slope, hj ▸ kind⟩
    · rw [Function.update_of_ne fun h => same (Sum.inr.inj h)] at hj
      exact h.answer q' j hj

/-- A node that is not in the first store remembers nothing. -/
theorem derivative?_of_size_le (h : Charted ask S s owned) (hn : S.size ≤ n) :
    s.derivative? n v = none := by
  cases found : s.derivative? n v with
  | none => rfl
  | some d =>
    have inside := (h.block n v d (derivative?_eq_none_of_size_le hn) found).1
    exact absurd inside (Nat.not_lt.2 hn)

end Charted

/-- Owners got nodes from `n` on at most, and requests got nothing. -/
structure Extends (n : Nat) (owned owned' : Nat × Var ⊕ κ → List Nat) : Prop where
  new : ∀ x, ∀ j ∈ owned' x, j ∈ owned x ∨ n ≤ j
  same : ∀ q, owned' (.inr q) = owned (.inr q)

namespace Extends

theorem refl (n : Nat) (owned : Nat × Var ⊕ κ → List Nat) : Extends n owned owned :=
  ⟨fun _ _ => .inl, fun _ => rfl⟩

theorem trans (h : Extends n owned₀ owned₁) (h' : Extends i owned₁ owned₂) (le : n ≤ i) :
    Extends n owned₀ owned₂ where
  new x j hj := (h'.new x j hj).elim (h.new x j) fun hi => .inr (Nat.le_trans le hi)
  same q := (h'.same q).trans (h.same q)

/-- What nobody had before is not given away later. -/
theorem free (h : Extends n owned₀ owned₁) (hj : j < n) (free : ∀ x, j ∉ owned₀ x) :
    ∀ x, j ∉ owned₁ x :=
  fun x hx => (h.new x j hx).elim (free x) (Nat.not_le.2 hj)

end Extends

/-! ### Differentiations keep charts -/

/-- The nodes of a rule go to the operation that it was applied to. -/
theorem Applied.charted (h : Applied v request s i o args ds d s') (chart : Charted ask S s owned)
    (hi : i < S.size) (le : S.size ≤ n) (le' : n ≤ s.size)
    (nodup : (S.constants args ds).Nodup)
    (free : ∀ e ∈ S.constants args ds, n ≤ e ∧ ∀ x, e ∉ owned x) :
    ∃ owned', Charted ask S s' owned' ∧ Extends n owned owned' := by
  classical
  have old (e : Nat) (he : e ∈ S.constants args ds) : e < s.size :=
    h.inside e (mem_of_mem_constants he)
  have size_le := h.grows.size_le
  -- The constants came after the request and before the rule, what the rule made comes after both.
  have mem {e : Nat} (he : e ∈ S.constants args ds ++ s.between s') :
      n ≤ e ∧ e < s'.size ∧ ∀ x, e ∉ owned x := by
    rcases List.mem_append.1 he with he | he
    · have := old e he
      exact ⟨(free e he).1, by omega, (free e he).2⟩
    · obtain ⟨le'', lt⟩ := mem_between.1 he
      exact ⟨by omega, lt, fun x hx => absurd (chart.lt_of_mem hx) (Nat.not_lt.2 le'')⟩
  refine ⟨Function.update owned (.inl (i, v)) (S.constants args ds ++ s.between s'),
    ⟨chart.grows.trans h.grows, ?_, fun m w e empty found => ?_, fun m w j hj => ?_,
      fun q j hj => ?_⟩, fun x j hj => ?_, fun q => ?_⟩
  · refine (chart.shares.mono size_le).update _ ?_ (fun e he => ?_) fun e he => (mem he).2.2
    · refine List.nodup_append'.2 ⟨nodup, nodup_between, fun e he he' => ?_⟩
      exact absurd (old e he) (Nat.not_lt.2 (mem_between.1 he').1)
    · exact ⟨Nat.le_trans le (mem he).1, (mem he).2.1⟩
  · rw [h.derivative?_eq] at found
    split at found
    · next same =>
      obtain ⟨rfl, rfl⟩ := same
      obtain rfl := Option.some.inj found
      rw [Function.update_self]
      exact ⟨hi, h, .refl s', rfl⟩
    · next different =>
      obtain ⟨inside, block⟩ := chart.block m w e empty found
      rw [Function.update_of_ne fun same => different (Prod.mk.inj (Sum.inl.inj same))]
      exact ⟨inside, block.of_grows h.grows⟩
  · by_cases same : m = i ∧ w = v
    · obtain ⟨rfl, rfl⟩ := same
      refine ⟨?_, d, h.kept⟩
      cases found : S.derivative? m w with
      | none => rfl
      | some e => exact (h.empty.symm.trans (chart.grows.kept m w e found)).symm
    · rw [Function.update_of_ne fun h => same (Prod.mk.inj (Sum.inl.inj h))] at hj
      obtain ⟨empty, e, found⟩ := chart.used m w j hj
      exact ⟨empty, e, h.grows.kept m w e found⟩
  · rw [Function.update_of_ne Sum.inr_ne_inl] at hj
    exact chart.answer_of_grows h.grows hj
  · by_cases same : x = .inl (i, v)
    · rw [same, Function.update_self] at hj
      exact .inr (mem hj).1
    · rw [Function.update_of_ne same] at hj
      exact .inl hj
  · exact Function.update_of_ne Sum.inr_ne_inl _ _

mutual

/-- A differentiation adds to the chart, and a constant that answers is on it for nobody. -/
theorem Diffs.charted {v : Var} {S s s' : Store} {i : Nat} {r : Except Error Nat}
    {ask : κ → Nat × Var} {owned : Nat × Var ⊕ κ → List Nat} (chart : Charted ask S s owned)
    (hi : i < S.size) :
    Diffs v s i r s' → ∃ owned', Charted ask S s' owned' ∧ Extends s.size owned owned' ∧
      ∀ d, r = .ok d → (S.kind i).isOperation = false → s.size ≤ d ∧ ∀ x, d ∉ owned' x
  | .leaf _ => by
    refine ⟨owned, chart.of_grows (.add s _) fun _ _ => derivative?_add, .refl _ _, ?_⟩
    rintro _ ⟨⟩ -
    exact ⟨Nat.le_refl _, fun x hx => absurd (chart.lt_of_mem hx) (Nat.lt_irrefl _)⟩
  | .recalled kind _ _ => by
    refine ⟨owned, chart.of_grows (.note s _) fun _ _ => rfl, .refl _ _, fun _ _ leaf => ?_⟩
    rw [← chart.grows.kind_eq i hi, kind] at leaf
    cases leaf
  | .refused _ => ⟨owned, chart, .refl _ _, nofun⟩
  | .failed kind _ operands => by
    rw [chart.grows.kind_eq i hi] at kind
    obtain ⟨owned', chart', more, -⟩ := operands.charted chart (operands_inside kind)
    exact ⟨owned', chart', more, nofun⟩
  | .built kind operands applied => by
    rw [chart.grows.kind_eq i hi] at kind
    obtain ⟨owned₀, chart₀, more₀, free⟩ := operands.charted chart (operands_inside kind)
    obtain ⟨nodup, free⟩ := free _ rfl
    obtain ⟨owned', chart', more⟩ := applied.charted chart₀ hi chart.grows.size_le
      operands.steps.grows.size_le nodup free
    refine ⟨owned', chart', more₀.trans more (Nat.le_refl _), fun _ _ leaf => ?_⟩
    rw [kind] at leaf
    cases leaf

theorem DiffsAll.charted {v : Var} {S s s' : Store} {args : List Nat}
    {r : Except Error (List Nat)} {ask : κ → Nat × Var} {owned : Nat × Var ⊕ κ → List Nat}
    (chart : Charted ask S s owned) (inside : ∀ a ∈ args, a < S.size) :
    DiffsAll v s args r s' → ∃ owned', Charted ask S s' owned' ∧ Extends s.size owned owned' ∧
      ∀ ds, r = .ok ds → (S.constants args ds).Nodup ∧
        ∀ e ∈ S.constants args ds, s.size ≤ e ∧ ∀ x, e ∉ owned' x
  | .nil => by
    refine ⟨owned, chart, .refl _ _, ?_⟩
    rintro _ ⟨⟩
    exact ⟨List.nodup_nil, List.forall_mem_nil _⟩
  | .stop head => by
    obtain ⟨owned', chart', more, -⟩ := head.charted chart (inside _ List.mem_cons_self)
    exact ⟨owned', chart', more, nofun⟩
  | .pass head tail => by
    obtain ⟨owned₁, chart₁, more₁, -⟩ := head.charted chart (inside _ List.mem_cons_self)
    obtain ⟨owned₂, chart₂, more₂, -⟩ :=
      tail.charted chart₁ fun b hb => inside b (List.mem_cons_of_mem _ hb)
    exact ⟨owned₂, chart₂, more₁.trans more₂ head.steps.grows.size_le, nofun⟩
  | .cons head tail => by
    have size_le := head.steps.grows.size_le
    obtain ⟨owned₁, chart₁, more₁, single⟩ := head.charted chart (inside _ List.mem_cons_self)
    obtain ⟨owned₂, chart₂, more₂, several⟩ :=
      tail.charted chart₁ fun b hb => inside b (List.mem_cons_of_mem _ hb)
    refine ⟨owned₂, chart₂, more₁.trans more₂ size_le, ?_⟩
    rintro _ ⟨⟩
    obtain ⟨nodup, free⟩ := several _ rfl
    have free' : ∀ e ∈ S.constants _ _, s.size ≤ e ∧ ∀ x, e ∉ owned₂ x := fun e he =>
      ⟨Nat.le_trans size_le (free e he).1, (free e he).2⟩
    rw [constants]
    split
    · exact ⟨nodup, free'⟩
    · next leaf =>
      obtain ⟨new, alone⟩ := single _ rfl (Bool.not_eq_true _ ▸ leaf)
      refine ⟨List.nodup_cons.2 ⟨fun again => ?_, nodup⟩, List.forall_mem_cons.2 ⟨⟨new, ?_⟩, free'⟩⟩
      · exact absurd head.inside (Nat.not_lt.2 (free _ again).1)
      · exact more₂.free head.inside alone

end

end Formula.Store
