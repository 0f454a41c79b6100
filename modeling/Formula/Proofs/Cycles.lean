import Mathlib.Order.WellFounded
import Formula.Proofs.Runs

/-!
# No reference cycles

A node refers to its operands and to the derivatives that it remembers.  Operands come earlier, but
remembered derivatives may come later, so the order of the nodes says nothing about cycles.  What is
kept instead is that every node is `Grounded`: no chain of references from it goes on for ever.
Applying a rule gives one node one reference more, to a derivative that is on new nodes, on operands
and on derivatives of operands alone.  All of these are grounded without the new reference, since
operands are (`Applied.grounded`).

The same description of what a rule builds says where each node of a remembered derivative comes
from (`Origin`).
-/

namespace Formula

namespace Store

variable {request before after s s' : Store} {v : Var} {i j d : Nat} {o : Op}
  {args ds : List Nat}

/-- A node refers to its operands and to what it remembers. -/
inductive Refers (s : Store) (i : Nat) : Nat → Prop
  | operand {a : Nat} (h : a ∈ (s.kind i).operands) : Refers s i a
  | derivative {v : Var} {d : Nat} (h : s.derivative? i v = some d) : Refers s i d

/-- No chain of references from the node goes on for ever. -/
def Grounded (s : Store) (i : Nat) : Prop := Acc (Function.swap s.Refers) i

theorem Grounded.of_refers (h : ∀ j, s.Refers i j → s.Grounded j) : s.Grounded i := Acc.intro i h

theorem Grounded.refers (h : s.Grounded i) (hj : s.Refers i j) : s.Grounded j := h.inv hj

/-- Nodes that remember nothing, on each other and on grounded nodes. -/
theorem grounded_of_le (n : Nat) (empty : ∀ i v, n ≤ i → s.derivative? i v = none)
    (operands : ∀ i, n ≤ i → ∀ a ∈ (s.kind i).operands, n ≤ a ∨ s.Grounded a) :
    ∀ i, n ≤ i → s.Grounded i := by
  intro i hi
  induction i using Nat.strongRecOn with
  | ind i ih =>
    refine .of_refers fun j hj => ?_
    cases hj with
    | operand ha => exact (operands i hi j ha).elim (ih j (s.ordered i j ha)) id
    | derivative found =>
      rw [empty i _ hi] at found
      cases found

/-- There is nothing in the empty store. -/
theorem grounded_of_size_eq_zero (h : s.size = 0) (i : Nat) : s.Grounded i :=
  grounded_of_le 0 (fun i _ _ => derivative?_eq_none_of_size_le (h ▸ Nat.zero_le i))
    (fun _ _ a _ => .inl (Nat.zero_le a)) i (Nat.zero_le i)

/-- A leaf remembers nothing, and so refers to nothing. -/
theorem Settled.grounded_const (hs : s.Settled) {c : Float} (h : s.kind i = .const c) :
    s.Grounded i := by
  refine .of_refers fun j hj => ?_
  cases hj with
  | operand ha =>
    rw [h] at ha
    cases ha
  | derivative found =>
    obtain ⟨o, args, kind, -⟩ := hs.below i _ j found
    cases h.symm.trans kind

/-! ### What a step keeps -/

/-- The nodes that were there refer to each other, and to nothing else. -/
theorem grounded_of_same (hs : s.Settled) (ground : ∀ i, s.Grounded i) (grows : Grows s s')
    (same : ∀ i v, s'.derivative? i v = s.derivative? i v) : ∀ i, s'.Grounded i := by
  have old : ∀ i < s.size, s'.Grounded i := by
    intro i
    induction ground i with
    | intro i _ ih =>
      intro hi
      refine .of_refers fun j hj => ?_
      cases hj with
      | operand ha =>
        rw [grows.kind_eq i hi] at ha
        exact ih j (.operand ha) (Nat.lt_trans (s.ordered i j ha) hi)
      | derivative found =>
        rw [same] at found
        exact ih j (.derivative found) (hs.inside i _ j found)
  have new := grounded_of_le (s := s') s.size
    (fun i v hi => (same i v).trans (derivative?_eq_none_of_size_le hi))
    fun i hi a _ => (Nat.lt_or_ge a s.size).symm.imp_right (old a)
  intro i
  exact (Nat.lt_or_ge i s.size).elim (old i) (new i)

namespace Applied

variable (h : Applied v request s i o args ds d s') (hs : s.Settled)

include h hs

/-- What the rule builds is grounded if the operands are, and so are their derivatives. -/
theorem grounded_of_operands (operands : ∀ a ∈ args, s'.Grounded a) :
    s'.Grounded d ∧ ∀ b, s.size ≤ b → s'.Grounded b := by
  have derivatives : ∀ e ∈ ds, s'.Grounded e := by
    intro e he
    obtain ⟨a, paired, serves⟩ := h.exists_operand he
    cases serves with
    | remembered _ found =>
      exact (operands a (List.of_mem_zip paired).1).refers (.derivative (h.grows.kept a v e found))
    | constant _ _ made =>
      exact (hs.applied h).grounded_const ((h.grows.kind_eq e (h.inside e he)).trans made)
  have known {b : Nat} : s.size ≤ b ∨ b ∈ args ∨ b ∈ ds → s.size ≤ b ∨ s'.Grounded b :=
    Or.imp_right (Or.rec (operands b) (derivatives b))
  have new := grounded_of_le (s := s') s.size
    (fun b w hb => by
      have old := h.lt_size
      rw [h.derivative?_eq, if_neg (by omega)]
      exact derivative?_eq_none_of_size_le hb)
    fun b hb a ha => known (h.closed.2 b hb a ha)
  exact ⟨(known h.closed.1.2).elim (new d) id, new⟩

/-- Applying a rule makes no cycle. -/
theorem grounded (ground : ∀ i, s.Grounded i) : ∀ j, s'.Grounded j := by
  have old : ∀ j < s.size, s'.Grounded j := by
    intro j
    -- The only reference that is not in the store before is the one to the new derivative.
    induction ground j with
    | intro j _ ih =>
      intro hj
      refine .of_refers fun k hk => ?_
      cases hk with
      | operand ha =>
        rw [h.grows.kind_eq j hj] at ha
        exact ih k (.operand ha) (Nat.lt_trans (s.ordered j k ha) hj)
      | @derivative w _ found =>
        rw [h.derivative?_eq] at found
        split at found
        · next same =>
          obtain ⟨rfl, rfl⟩ := same
          obtain rfl := Option.some.inj found
          refine (h.grounded_of_operands hs fun a ha => ih a (.operand ?_) (h.args_inside a ha)).1
          rw [h.kind]
          exact ha
        · exact ih k (.derivative found) (hs.inside j w k found)
  intro j
  rcases Nat.lt_or_ge j s.size with hj | hj
  · exact old j hj
  · exact (h.grounded_of_operands hs fun a ha => old a (h.args_inside a ha)).2 j hj

end Applied

theorem Step.grounded (h : Step s s') (hs : s.Settled) (ground : ∀ i, s.Grounded i) :
    ∀ i, s'.Grounded i := by
  cases h with
  | enlarged h => exact grounded_of_same hs ground h.grows h.derivative?_eq
  | noted e _ => exact grounded_of_same hs ground (.note s e) fun _ _ => rfl
  | applied h => exact h.grounded hs ground

theorem Steps.grounded (h : Steps s s') (hs : s.Settled) (ground : ∀ i, s.Grounded i) :
    ∀ i, s'.Grounded i :=
  -- References to remembered nodes stay inside the store because it is settled, all the way.
  (h.keeps (P := fun s => s.Settled ∧ ∀ i, s.Grounded i)
    (fun ⟨hs, ground⟩ step => ⟨hs.step step, step.grounded hs ground⟩) ⟨hs, ground⟩).2

/-- Where all nodes are grounded, none comes back to itself. -/
theorem not_cycle (ground : ∀ i, s.Grounded i) (i : Nat) : ¬ Relation.TransGen s.Refers i i := by
  intro cycle
  exact (WellFounded.intro ground).transGen.irrefl.irrefl i (Relation.transGen_swap.2 cycle)

/-! ### Where the nodes of a derivative come from -/

/--
Where a node of a derivative comes from, whose rule was applied in `before` and gave `after`: the
rule made it, it answered for a leaf operand, it was there in an operand, or it was there in what an
operand remembers.
-/
inductive Origin (request before after s : Store) (v : Var) (args ds : List Nat) (j : Nat) : Prop
  | made (new : before.size ≤ j) (inside : j < after.size)
  | constant {a : Nat} {c : Float} (paired : (a, j) ∈ args.zip ds)
      (leaf : (s.kind a).slope? v = some c) (new : request.size ≤ j) (kind : s.kind j = .const c)
  | operand {a : Nat} (ha : a ∈ args) (occurs : j ∈ s.occurrences a)
  | remembered {a e : Nat} (ha : a ∈ args) (found : s.derivative? a v = some e)
      (occurs : j ∈ s.occurrences e)

/-- Every node of what a rule builds has one of these origins. -/
theorem Applied.origin (h : Applied v request before i o args ds d after) (grows : Grows after s) :
    ∀ j ∈ s.occurrences d, Origin request before after s v args ds j := by
  have later := h.grows.trans grows
  have inside {b : Nat} : before.size ≤ b ∨ b ∈ args ∨ b ∈ ds → b < after.size →
      ∀ j ∈ s.occurrences b, Origin request before after s v args ds j := by
    induction b using Nat.strongRecOn with
    | ind b ih =>
      rintro (new | ha | he) hb j hj
      · rcases (s.kind b).leaf_or_op v with ⟨c, slope⟩ | ⟨o', args', kind⟩
        · rw [occurrences_leaf slope, List.mem_singleton] at hj
          exact hj ▸ .made new hb
        · rcases (mem_occurrences_op kind).1 hj with rfl | ⟨a, ha, hj⟩
          · exact .made new hb
          · have below := lt_of_mem_args kind ha
            rw [grows.kind_eq b hb] at kind
            exact ih a below (h.closed.2 b new a (by rwa [kind])) (Nat.lt_trans below hb) j hj
      · exact .operand ha hj
      · obtain ⟨a, paired, serves⟩ := h.exists_operand he
        have ha := (List.of_mem_zip paired).1
        cases serves with
        | remembered _ found => exact .remembered ha (later.kept a v b found) hj
        | constant slope new made =>
          have kind := (later.kind_eq b (h.inside b he)).trans made
          rw [occurrences_leaf (v := v) (congrArg _ kind), List.mem_singleton] at hj
          subst hj
          exact .constant paired (by rwa [later.kind_eq a (h.args_inside a ha)]) new kind
  exact inside h.closed.1.2 h.closed.1.1

end Store

/--
In every session the references between nodes, to operands and to remembered derivatives, have no
cycles, and every remembered derivative was built by one application of a rule, from new nodes,
constants for leaf operands, nodes of operands and nodes of what operands remember.
-/
theorem Session.acyclic_references (commands : List Command) :
    let s := (empty.runAll commands).2.store
    (∀ i, ¬ Relation.TransGen s.Refers i i) ∧
      ∀ n v d, s.derivative? n v = some d →
        ¬ Relation.ReflTransGen s.Refers d n ∧
          ∃ request before after o args ds, empty.store.Steps before ∧
            Store.Applied v request before n o args ds d after ∧ after.Steps s ∧
              ∀ j ∈ s.occurrences d, Store.Origin request before after s v args ds j := by
  intro s
  have steps : empty.store.Steps s := steps_runAll commands
  have ground := steps.grounded (.of_size_eq_zero rfl) (Store.grounded_of_size_eq_zero rfl)
  have acyclic := Store.not_cycle ground
  refine ⟨acyclic, fun n v d found => ⟨fun back => ?_, ?_⟩⟩
  · exact acyclic n (.head' (.derivative found) back)
  · obtain ⟨request, before, after, o, args, ds, earlier, applied, later⟩ :=
      steps.exists_applied (Store.derivative?_eq_none_of_size_le (Nat.zero_le n)) found
    exact ⟨request, before, after, o, args, ds, earlier, applied, later,
      applied.origin later.grows⟩

theorem Session.acyclic_references_partlyDerived :
    let s := (empty.runAll partlyDerived).2.store
    s.Refers 1 6 ∧ ¬ Relation.ReflTransGen s.Refers 6 1 ∧
      ∃ request before after o args ds, empty.store.Steps before ∧
        Store.Applied .x request before 1 o args ds 6 after ∧ after.Steps s ∧
          ∀ j ∈ s.occurrences 6, Store.Origin request before after s .x args ds j := by
  intro s
  have remembered := remembered_partlyDerived
  exact ⟨.derivative remembered, (acyclic_references partlyDerived).2 1 .x 6 remembered⟩

end Formula
