import Mathlib.Data.List.Zip
import Formula.Proofs.Charts
import Formula.Proofs.Renaming

/-!
# Comparing charts

Two stores that come from one, each with a chart: nodes of theirs match if they are the same node of
the first store, or have the same place in what the charts say is there for the same thing
(`Matches`).  When the same operations remember their derivative in both, matching nodes correspond
(`Charted.correspondence`).  For what one rule built this is `Block.related`: the rule was applied
to the same operands and to derivatives that match, by induction on the operation.
-/

namespace Formula

theorem Kind.Alike.of_forall {R : Nat → Nat → Prop} {k : Kind} (h : ∀ a ∈ k.operands, R a a) :
    k.Alike R k := by
  cases k with
  | const c => exact .const c
  | var v => exact .var v
  | op o args => exact .op o (List.forall₂_same.2 h)

namespace Store

variable {S s s' request request' before before' : Store} {R : Nat → Nat → Prop} {v : Var}
  {i j n d d' : Nat} {args ds ds' nodes nodes' : List Nat}

/-! ### Partners in two lists -/

theorem eq_of_mem_zip {α β : Type} {as : List α} {bs : List β} {a : α} {b b' : β}
    (nodup : as.Nodup) (h : (a, b) ∈ as.zip bs) (h' : (a, b') ∈ as.zip bs) : b = b' := by
  obtain ⟨k, hk, same⟩ := List.mem_iff_getElem.1 h
  obtain ⟨k', hk', same'⟩ := List.mem_iff_getElem.1 h'
  rw [List.getElem_zip, Prod.mk.injEq] at same same'
  obtain rfl : k = k' := (nodup.getElem_inj_iff).1 (same.1.trans same'.1.symm)
  exact same.2.symm.trans same'.2

theorem mem_zip_comm {α β : Type} {as : List α} {bs : List β} {a : α} {b : β}
    (h : (a, b) ∈ as.zip bs) : (b, a) ∈ bs.zip as := by
  rw [← List.zip_swap]
  exact List.mem_map_of_mem h

theorem zip_between {after after' : Store}
    (same : after.size - before.size = after'.size - before'.size) :
    (before.between after).zip (before'.between after') =
      (List.range (after.size - before.size)).map fun k => (before.size + k, before'.size + k) := by
  rw [between, between, ← same, List.zip_map']

/-! ### One rule in two stores -/

/-- The same operands have constants in the same places, and related derivatives everywhere. -/
theorem constants_related (serves : List.Forall₂ (Serves request before v) args ds)
    (serves' : List.Forall₂ (Serves request' before' v) args ds')
    (kinds : ∀ a ∈ args, before.kind a = S.kind a ∧ before'.kind a = S.kind a) :
    (S.constants args ds).length = (S.constants args ds').length ∧
      (∀ p ∈ (S.constants args ds).zip (S.constants args ds'),
        ∃ c, before.kind p.1 = .const c ∧ before'.kind p.2 = .const c) ∧
        ((∀ p ∈ (S.constants args ds).zip (S.constants args ds'), R p.1 p.2) →
          (∀ a ∈ args, ∀ e e', before.derivative? a v = some e →
            before'.derivative? a v = some e' → R e e') → List.Forall₂ R ds ds') := by
  induction serves generalizing ds' with
  | nil =>
    cases serves'
    exact ⟨rfl, List.forall_mem_nil _, fun _ _ => .nil⟩
  | @cons a d args ds head _ ih =>
    cases serves' with
    | @cons _ d' _ ds' head' tail' =>
      obtain ⟨⟨kind, kind'⟩, kinds⟩ := List.forall_mem_cons.1 kinds
      obtain ⟨length, made, related⟩ := ih tail' kinds
      simp only [constants]
      -- Both stores remember this derivative, or both have a constant of the same value for it.
      cases leaf : (S.kind a).isOperation with
      | true =>
        refine ⟨length, made, fun constants below => ?_⟩
        obtain ⟨first, rest⟩ := List.forall_mem_cons.1 below
        exact .cons (first d d' (head.found (kind ▸ leaf)) (head'.found (kind' ▸ leaf)))
          (related constants rest)
      | false =>
        obtain ⟨c, slope, const⟩ := head.made (kind ▸ leaf)
        obtain ⟨c', slope', const'⟩ := head'.made (kind' ▸ leaf)
        rw [kind] at slope
        obtain rfl : c = c' := Option.some.inj (slope.symm.trans (kind' ▸ slope'))
        refine ⟨congrArg Nat.succ length, List.forall_mem_cons.2 ⟨⟨c, const, const'⟩, made⟩,
          fun constants below => ?_⟩
        obtain ⟨first, others⟩ := List.forall_mem_cons.1 constants
        exact .cons first (related others (List.forall_mem_cons.1 below).2)

/-- A rule that was applied to the same operation in two stores built nodes that are alike. -/
theorem Block.related (h : Block S s n v d nodes) (h' : Block S s' n v d' nodes') (hn : n < S.size)
    (grows : Grows S s) (grows' : Grows S s') (old : ∀ a < S.size, R a a)
    (new : ∀ p ∈ nodes.zip nodes', R p.1 p.2)
    (below : ∀ a ∈ (S.kind n).operands, ∀ e e', s.derivative? a v = some e →
      s'.derivative? a v = some e' → R e e') :
    R d d' ∧ ∀ p ∈ nodes.zip nodes', (s.kind p.1).Alike R (s'.kind p.2) := by
  cases h with
  | @intro request before after o args ds applied later nodes_eq =>
  cases h' with
  | @intro request' before' after' o' args' ds' applied' later' nodes_eq' =>
    have rest := applied.grows.trans later
    have rest' := applied'.grows.trans later'
    have kind := (rest.kind_eq n applied.lt_size).trans applied.kind
    have kind' := (rest'.kind_eq n applied'.lt_size).trans applied'.kind
    rw [grows.kind_eq n hn] at kind
    rw [grows'.kind_eq n hn] at kind'
    obtain ⟨rfl, rfl⟩ := Kind.op.inj (kind.symm.trans kind')
    have inside := operands_inside kind
    have kinds (a : Nat) (ha : a ∈ args) :
        before.kind a = S.kind a ∧ before'.kind a = S.kind a := by
      rw [← rest.kind_eq a (applied.args_inside a ha), grows.kind_eq a (inside a ha),
        ← rest'.kind_eq a (applied'.args_inside a ha), grows'.kind_eq a (inside a ha)]
      exact ⟨rfl, rfl⟩
    rw [kind] at below
    -- The rules add as many nodes, whatever is said about them.
    have any : List.Forall₂ (fun _ _ => True) ds ds' :=
      (constants_related applied.serves applied'.serves kinds).2.2 (fun _ _ => trivial)
        fun _ _ _ _ _ _ => trivial
    have size := (applied.twins applied' (List.forall₂_same.2 fun _ _ => trivial) any
      fun _ _ => trivial).2.1
    have le := applied.grows.size_le
    obtain ⟨length, made, related⟩ :=
      constants_related (R := R) applied.serves applied'.serves kinds
    rw [nodes_eq, nodes_eq', List.zip_append length, zip_between (by omega),
      List.forall_mem_append, List.forall_mem_map] at new
    rw [nodes_eq, nodes_eq', List.zip_append length, zip_between (by omega),
      List.forall_mem_append, List.forall_mem_map]
    have derivatives := related new.1 fun a ha e e' found found' =>
      below a ha e e' (rest.kept a v e found) (rest'.kept a v e' found')
    obtain ⟨root, -, alike⟩ := applied.twins applied'
      (List.forall₂_same.2 fun a ha => old a (inside a ha)) derivatives
      fun k hk => new.2 k (List.mem_range.2 (by omega))
    refine ⟨root, fun p hp => ?_, fun k hk => ?_⟩
    · obtain ⟨c, const, const'⟩ := made p hp
      obtain ⟨mem, mem'⟩ := List.of_mem_zip hp
      rw [rest.kind_eq _ (applied.inside _ (mem_of_mem_constants mem)), const,
        rest'.kind_eq _ (applied'.inside _ (mem_of_mem_constants mem')), const']
      exact .const c
    · have hk := List.mem_range.1 hk
      rw [later.kind_eq _ (by omega), later'.kind_eq _ (by omega)]
      exact alike k (by omega)

/-! ### Two charts -/

section

variable {κ : Type} {ask : κ → Nat × Var} {owned owned' : Nat × Var ⊕ κ → List Nat}

/-- The same node of the first store, or nodes with one place in what is there for one thing. -/
def Matches (S : Store) (owned owned' : Nat × Var ⊕ κ → List Nat) (j j' : Nat) : Prop :=
  j = j' ∧ j < S.size ∨ ∃ x, (j, j') ∈ (owned x).zip (owned' x)

theorem Matches.symm (h : Matches S owned owned' i j) : Matches S owned' owned j i := by
  rcases h with ⟨rfl, inside⟩ | ⟨x, partners⟩
  · exact .inl ⟨rfl, inside⟩
  · exact .inr ⟨x, mem_zip_comm partners⟩

/-- A node matches one node. -/
theorem Charted.eq_of_matches (h : Charted ask S s owned) (hj : Matches S owned owned' i j)
    (hj' : Matches S owned owned' i j') : j = j' := by
  have new {x : Nat × Var ⊕ κ} {k : Nat} (partners : (i, k) ∈ (owned x).zip (owned' x)) :
      S.size ≤ i := (h.shares.within x i (List.of_mem_zip partners).1).1
  rcases hj with ⟨rfl, inside⟩ | ⟨x, partners⟩ <;> rcases hj' with ⟨rfl, inside'⟩ | ⟨y, partners'⟩
  · rfl
  · exact absurd inside (Nat.not_lt.2 (new partners'))
  · exact absurd inside' (Nat.not_lt.2 (new partners))
  · obtain rfl := h.shares.disjoint x y i (List.of_mem_zip partners).1 (List.of_mem_zip partners').1
    exact eq_of_mem_zip (h.shares.nodup x) partners partners'

section

variable (h : Charted ask S s owned) (h' : Charted ask S s' owned') (hs : S.Settled)

include h h' hs

/-- What an operation remembers in both stores matches. -/
theorem Charted.derivatives_match {n d d' : Nat} (found : s.derivative? n v = some d)
    (found' : s'.derivative? n v = some d') : Matches S owned owned' d d' := by
  induction n using Nat.strongRecOn generalizing d d' with
  | ind n ih =>
    cases known : S.derivative? n v with
    -- What the first store remembers is kept, the rest was built from what matches by induction.
    | some e =>
      obtain rfl := Option.some.inj ((h.grows.kept n v e known).symm.trans found)
      obtain rfl := Option.some.inj ((h'.grows.kept n v e known).symm.trans found')
      exact .inl ⟨rfl, hs.inside n v e known⟩
    | none =>
      obtain ⟨hn, block⟩ := h.block n v d known found
      obtain ⟨-, block'⟩ := h'.block n v d' known found'
      exact (block.related block' hn h.grows h'.grows (fun a ha => .inl ⟨rfl, ha⟩)
        (fun p hp => .inr ⟨_, hp⟩) fun a ha e e' found found' =>
          ih a (S.ordered n a ha) found found').1

/-- Nodes that match correspond, if the same operations remember their derivatives. -/
theorem Charted.correspondence
    (same : ∀ n v, (s.derivative? n v).isSome ↔ (s'.derivative? n v).isSome) :
    Correspondence (Matches S owned owned') s s' where
  biUnique := ⟨fun _ _ _ m m' => h'.eq_of_matches m.symm m'.symm, fun _ _ _ => h.eq_of_matches⟩
  alike := by
    rintro j j' (⟨rfl, inside⟩ | ⟨⟨n, v⟩ | q, partners⟩)
    · rw [h.grows.kind_eq j inside, h'.grows.kind_eq j inside]
      exact .of_forall fun a ha => .inl ⟨rfl, Nat.lt_trans (S.ordered j a ha) inside⟩
    · obtain ⟨mem, -⟩ := List.of_mem_zip partners
      obtain ⟨empty, d, found⟩ := h.used n v j mem
      obtain ⟨d', found'⟩ :=
        Option.isSome_iff_exists.1 ((same n v).1 (Option.isSome_of_eq_some found))
      obtain ⟨hn, block⟩ := h.block n v d empty found
      obtain ⟨-, block'⟩ := h'.block n v d' empty found'
      exact (block.related block' hn h.grows h'.grows (fun a ha => .inl ⟨rfl, ha⟩)
        (fun p hp => .inr ⟨_, hp⟩) fun a _ e e' found found' =>
          h.derivatives_match h' hs found found').2 _ partners
    · obtain ⟨mem, mem'⟩ := List.of_mem_zip partners
      obtain ⟨c, slope, kind⟩ := h.answer q j mem
      obtain ⟨c', slope', kind'⟩ := h'.answer q j' mem'
      obtain rfl := Option.some.inj (slope.symm.trans slope')
      rw [kind, kind']
      exact .const c
  remembered := by
    rintro j j' v (⟨rfl, inside⟩ | ⟨x, partners⟩)
    · have same := same j v
      cases found : s.derivative? j v <;> cases found' : s'.derivative? j v
      · exact .none
      · simp [found, found'] at same
      · simp [found, found'] at same
      · exact .some (h.derivatives_match h' hs found found')
    · obtain ⟨mem, mem'⟩ := List.of_mem_zip partners
      rw [h.derivative?_of_size_le (h.shares.within x j mem).1,
        h'.derivative?_of_size_le (h'.shares.within x j' mem').1]
      exact .none

end

end

end Store

end Formula
