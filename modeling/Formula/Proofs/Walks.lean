import Mathlib.Order.Bounds.Defs
import Formula.Expr.Walk
import Formula.Proofs.Bindings
import Formula.Proofs.Depths
import Formula.Proofs.Growth

/-!
# Walks by paths

A path says at each operation which operand to go to, so it leads to one occurrence in an expression
(`at?`), and in a store to one node (`nodeAt?`).  Ordered lexicographically, an occurrence comes
before those in its operands.  A pruned walk meets, in this order and each once, the occurrences
that no skipped operation stands above (`visits_eq_map`, `mem_sights_iff`, `sights_increasing`).  A
walk that skips nothing meets all there is: as many occurrences as `nodeCount` says, the variables
that `vars` lists, and none deeper than `depth` allows.
-/

namespace Formula

namespace Expr

variable {e : Expr} {skip : List String} {path : List Nat} {v : Var}

/-! ### Paths -/

/-- What occurs at a path, if the path does not leave the expression. -/
def at? : Expr → List Nat → Option Expr
  | e, [] => some e
  | e, k :: path => e.operands[k]?.bind fun a => a.at? path

/-- What a walk meets at the top of an expression. -/
def visit : Expr → Visit
  | .const c => .const c
  | .var v => .var v
  | .op o args => .op o args.length

/-- Something occurs at the path, and no operation above it has one of the signs. -/
def InSight (skip : List String) (e : Expr) (path : List Nat) : Prop :=
  (e.at? path).isSome ∧
    ∀ above, above <+: path → above ≠ path → ∀ o args, e.at? above = some (.op o args) →
      o.sign ∉ skip

@[simp] theorem at?_nil : e.at? [] = some e := by
  rw [at?]

@[simp] theorem at?_cons (k : Nat) : e.at? (k :: path) = e.operands[k]?.bind (·.at? path) := by
  rw [at?]

theorem inSight_nil : e.InSight skip [] :=
  ⟨rfl, fun _ le ne => absurd (List.prefix_nil.1 le) ne⟩

theorem inSight_op_cons {o : Op} {args : List Expr} {k : Nat} :
    InSight skip (.op o args) (k :: path) ↔
      o.sign ∉ skip ∧ ∃ a, args[k]? = some a ∧ a.InSight skip path := by
  have below (p : List Nat) :
      at? (.op o args) (k :: p) = args[k]?.bind (·.at? p) := at?_cons k
  constructor
  · rintro ⟨occurs, unskipped⟩
    have top := unskipped [] List.nil_prefix (List.cons_ne_nil _ _).symm o args at?_nil
    rw [below] at occurs
    obtain ⟨a, ha⟩ := Option.isSome_iff_exists.1 (Option.isSome_of_isSome_bind occurs)
    rw [ha] at occurs
    refine ⟨top, a, ha, occurs, fun above le ne o' args' here => ?_⟩
    refine unskipped (k :: above) (List.cons_prefix_cons.2 ⟨rfl, le⟩) (by simpa using ne) o' args' ?_
    rw [below, ha]
    exact here
  · rintro ⟨top, a, ha, occurs, unskipped⟩
    refine ⟨by rw [below, ha]; exact occurs, fun above le ne o' args' here => ?_⟩
    cases above with
    | nil =>
      obtain ⟨rfl, rfl⟩ := Term.op.inj (Option.some.inj here)
      exact top
    | cons j above =>
      obtain ⟨rfl, le'⟩ := List.cons_prefix_cons.1 le
      rw [below, ha] at here
      exact unskipped above le' (by simpa using ne) o' args' here

theorem inSight_of_leaf (leaf : e.operands = []) : e.InSight skip path ↔ path = [] := by
  constructor
  · rintro ⟨occurs, -⟩
    cases path with
    | nil => rfl
    | cons k path => simp [leaf] at occurs
  · rintro rfl
    exact inSight_nil

theorem inSight_nothing_iff : e.InSight [] path ↔ (e.at? path).isSome :=
  ⟨And.left, fun occurs => ⟨occurs, fun _ _ _ _ _ _ => List.not_mem_nil⟩⟩

/-! ### Pruned walks -/

/-- The paths to what a walk meets, in the order of the walk. -/
def sights (skip : List String) (e : Expr) : List (List Nat) :=
  e.fold (fun _ => [[]]) (fun _ => [[]]) fun o below =>
    [] :: if o.sign ∈ skip then [] else below.zipIdx.flatMap fun (paths, k) => paths.map (k :: ·)

theorem sights_op (o : Op) (args : List Expr) :
    sights skip (.op o args) = [] :: if o.sign ∈ skip then []
      else args.zipIdx.flatMap fun (a, k) => (a.sights skip).map (k :: ·) := by
  rw [sights, Term.fold_op, List.zipIdx_map, List.flatMap_map]
  rfl

theorem walk_recorder_op (skip : List String) (o : Op) (args : List Expr) (seen : List Visit) :
    walk (.recorder skip) (.op o args) seen =
      if o.sign ∈ skip then .op o args.length :: seen
      else walkAll (.recorder skip) args (.op o args.length :: seen) := by
  rw [walk]
  by_cases skipped : o.sign ∈ skip <;> simp [Visitor.recorder, skipped]

mutual

/-- A walk adds what it meets to what it met before. -/
theorem walk_recorder (skip : List String) : ∀ (e : Expr) (seen : List Visit),
    e.walk (.recorder skip) seen = (e.visits skip).reverse ++ seen
  | .const _, _ => rfl
  | .var _, _ => rfl
  | .op o args, seen => by
    rw [visits, List.reverse_reverse, walk_recorder_op, walk_recorder_op]
    split
    · rfl
    · -- one walk over the operands starts from what was seen, the other from nothing
      rw [walkAll_recorder skip args, walkAll_recorder skip args, List.append_assoc]
      rfl

theorem walkAll_recorder (skip : List String) : ∀ (es : List Expr) (seen : List Visit),
    walkAll (.recorder skip) es seen = (es.flatMap (visits skip)).reverse ++ seen
  | [], _ => rfl
  | e :: es, seen => by
    rw [walkAll, walkAll_recorder skip es, walk_recorder skip e, List.flatMap_cons,
      List.reverse_append, List.append_assoc]

end

theorem visits_op (o : Op) (args : List Expr) :
    visits skip (.op o args) = .op o args.length ::
      if o.sign ∈ skip then [] else args.flatMap (visits skip) := by
  rw [visits, walk_recorder_op]
  split
  · rfl
  · rw [walkAll_recorder, List.reverse_append, List.reverse_reverse]
    rfl

/-- A walk meets what occurs at the paths. -/
theorem visits_eq_map (e : Expr) :
    (e.visits skip).map some = (e.sights skip).map fun path => (e.at? path).map visit := by
  induction e using Term.rec_mem with
  | const c => rfl
  | var v => rfl
  | op o args ih =>
    rw [visits_op, sights_op, List.map_cons, List.map_cons, at?_nil]
    refine congrArg (_ :: ·) ?_
    split
    · rfl
    · rw [List.map_flatMap, List.map_flatMap]
      calc args.flatMap (fun a => (visits skip a).map some)
          = (args.zipIdx.map Prod.fst).flatMap fun a => (visits skip a).map some := by
            rw [List.zipIdx_map_fst]
        _ = args.zipIdx.flatMap fun x => (visits skip x.1).map some := List.flatMap_map ..
        _ = _ := List.flatMap_congr fun x hx => ?_
      have here : args[x.2]? = some x.1 := List.mem_zipIdx_iff_getElem?.1 hx
      rw [ih x.1 (List.fst_mem_of_mem_zipIdx hx), List.map_map]
      refine List.map_congr_left fun path _ => congrArg (Option.map visit) ?_
      rw [at?_cons, show operands (.op o args) = args from rfl, here, Option.bind_some]

theorem mem_sights_iff : path ∈ e.sights skip ↔ e.InSight skip path := by
  induction e using Term.rec_mem generalizing path with
  | const c => exact List.mem_singleton.trans (inSight_of_leaf rfl).symm
  | var v => exact List.mem_singleton.trans (inSight_of_leaf rfl).symm
  | op o args ih =>
    rw [sights_op]
    cases path with
    | nil => exact iff_of_true List.mem_cons_self inSight_nil
    | cons k path =>
      rw [inSight_op_cons, List.mem_cons, or_iff_right (List.cons_ne_nil k path)]
      by_cases skipped : o.sign ∈ skip
      · simp [skipped]
      · simp only [skipped, if_false, not_false_eq_true, true_and, List.mem_flatMap, Prod.exists,
          List.mem_zipIdx_iff_getElem?, List.mem_map, List.cons.injEq]
        constructor
        · rintro ⟨a, _, ha, path', here, rfl, rfl⟩
          exact ⟨a, ha, (ih a (List.mem_of_getElem? ha)).1 here⟩
        · rintro ⟨a, ha, here⟩
          exact ⟨a, k, ha, path, (ih a (List.mem_of_getElem? ha)).2 here, rfl, rfl⟩

theorem sights_increasing (e : Expr) : (e.sights skip).Pairwise (· < ·) := by
  induction e using Term.rec_mem with
  | const c => exact List.pairwise_singleton _ _
  | var v => exact List.pairwise_singleton _ _
  | op o args ih =>
    have below : (args.zipIdx.flatMap fun (a, k) => (sights skip a).map (k :: ·)).Pairwise
        (· < ·) := by
      have numbered : (args.zipIdx.map Prod.snd).Pairwise (· < ·) := by
        rw [List.zipIdx_map_snd]
        exact List.pairwise_lt_range'
      refine List.pairwise_flatMap.2 ⟨fun (a, k) ha => ?_, (List.pairwise_map.1 numbered).imp ?_⟩
      · refine List.pairwise_map.2 ((ih a (List.fst_mem_of_mem_zipIdx ha)).imp fun less => ?_)
        exact List.cons_lt_cons_iff.2 (.inr ⟨rfl, less⟩)
      · rintro ⟨a, k⟩ ⟨b, l⟩ less _ hp _ hq
        obtain ⟨p, -, rfl⟩ := List.mem_map.1 hp
        obtain ⟨q, -, rfl⟩ := List.mem_map.1 hq
        exact List.cons_lt_cons_iff.2 (.inl less)
    rw [sights_op]
    refine List.pairwise_cons.2 ⟨fun p hp => ?_, ?_⟩
    · split at hp
      · cases hp
      · obtain ⟨x, -, hp⟩ := List.mem_flatMap.1 hp
        obtain ⟨q, -, rfl⟩ := List.mem_map.1 hp
        exact List.nil_lt_cons _ _
    · split
      · exact .nil
      · exact below

/-! ### Walks that skip nothing -/

theorem visits_nothing_op (o : Op) (args : List Expr) :
    visits [] (.op o args) = .op o args.length :: args.flatMap (visits []) := by
  rw [visits_op, if_neg List.not_mem_nil]

theorem length_visits_nothing (e : Expr) : (e.visits []).length = e.nodeCount := by
  induction e using Term.rec_mem with
  | const c => rfl
  | var v => rfl
  | op o args ih =>
    rw [visits_nothing_op, nodeCount_op, List.length_cons, List.length_flatMap,
      List.map_congr_left ih, Nat.add_comm]
    rfl

theorem mem_visits_nothing_iff : .var v ∈ e.visits [] ↔ e.mentions v := by
  induction e using Term.rec_mem with
  | const c => exact iff_of_false (by simp [visits, walk, Visitor.recorder]) (by simp [mentions])
  | var w => simp [visits, walk, Visitor.recorder, mentions, eq_comm]
  | op o args ih =>
    simp only [visits_nothing_op, mentions_op, List.mem_cons, reduceCtorEq, false_or,
      List.mem_flatMap, List.any_eq_true]
    exact exists_congr fun e => and_congr_right (ih e)

/-- An operation is one deeper than its deepest operand. -/
theorem exists_depth_op (o : Op) (args : List Expr) :
    ∃ n, depth (.op o args) = n + 1 ∧ (∀ e ∈ args, e.depth ≤ n) ∧
      (0 < n → ∃ e ∈ args, e.depth = n) := by
  obtain ⟨n, depth⟩ := Nat.exists_eq_add_of_le' (one_le_depth (.op o args))
  have below := depth_op_le_iff.1 (Nat.le_of_eq depth)
  refine ⟨n, depth, below, fun positive => ?_⟩
  by_contra! shallow
  have less : Expr.depth (.op o args) ≤ n - 1 + 1 :=
    depth_op_le_iff.2 fun e he =>
      Nat.le_sub_one_of_lt (Nat.lt_of_le_of_ne (below e he) (shallow e he))
  omega

theorem length_lt_depth (occurs : (e.at? path).isSome) : path.length < e.depth := by
  induction path generalizing e with
  | nil => exact one_le_depth e
  | cons k path ih =>
    cases e with
    | const c => simp [operands] at occurs
    | var v => simp [operands] at occurs
    | op o args =>
      rw [at?_cons] at occurs
      obtain ⟨a, ha⟩ := Option.isSome_iff_exists.1 (Option.isSome_of_isSome_bind occurs)
      rw [ha] at occurs
      obtain ⟨n, depth, below, -⟩ := exists_depth_op o args
      rw [depth, List.length_cons]
      exact Nat.succ_lt_succ (Nat.lt_of_lt_of_le (ih occurs) (below a (List.mem_of_getElem? ha)))

theorem exists_longest_path (e : Expr) :
    ∃ path, (e.at? path).isSome ∧ path.length = e.depth - 1 := by
  induction e using Term.rec_mem with
  | const c => exact ⟨[], rfl, rfl⟩
  | var v => exact ⟨[], rfl, rfl⟩
  | op o args ih =>
    obtain ⟨n, depth, -, deepest⟩ := exists_depth_op o args
    rw [depth, Nat.add_sub_cancel]
    rcases Nat.eq_zero_or_pos n with rfl | positive
    · exact ⟨[], rfl, rfl⟩
    · obtain ⟨e, he, rfl⟩ := deepest positive
      obtain ⟨k, hk⟩ := List.getElem?_of_mem he
      obtain ⟨path, occurs, length⟩ := ih e he
      refine ⟨k :: path, ?_, by rw [List.length_cons, length, Nat.sub_add_cancel positive]⟩
      rw [at?_cons, show operands (.op o args) = args from rfl, hk]
      exact occurs

end Expr

/-! ### Paths in a store -/

namespace Store

/-- The node that a path leads to, if the path does not leave the expression. -/
def nodeAt? (s : Store) : Nat → List Nat → Option Nat
  | i, [] => some i
  | i, k :: path => (s.kind i).operands[k]?.bind fun a => s.nodeAt? a path

variable {s : Store} {i k : Nat} {path : List Nat}

@[simp] theorem nodeAt?_nil : s.nodeAt? i [] = some i := by
  rw [nodeAt?]

@[simp] theorem nodeAt?_cons :
    s.nodeAt? i (k :: path) = (s.kind i).operands[k]?.bind (s.nodeAt? · path) := by
  rw [nodeAt?]

theorem operands_expr (s : Store) (i : Nat) :
    (s.expr i).operands = (s.kind i).operands.map s.expr := by
  cases kind : s.kind i with
  | const c => rw [expr_const kind]; rfl
  | var v => rw [expr_var kind]; rfl
  | op o args => rw [expr_op kind]; rfl

/-- What occurs at a path is the expression of the node that it leads to. -/
theorem at?_expr (s : Store) (i : Nat) (path : List Nat) :
    (s.expr i).at? path = (s.nodeAt? i path).map s.expr := by
  induction path generalizing i with
  | nil => simp
  | cons k path ih =>
    rw [Expr.at?_cons, nodeAt?_cons, operands_expr, List.getElem?_map]
    cases (s.kind i).operands[k]? with
    | none => rfl
    | some a => exact ih a

end Store

/--
A pruned walk meets each occurrence that no skipped operation stands above once, in the
lexicographic order of their paths; a node that these paths lead to several times is met each time.
When nothing is skipped, it meets as many occurrences as `nodeCount` counts and the variables that
`vars` lists, and the longest path to one has a step less than `depth` has levels.
-/
theorem Expr.visits_by_path (e : Expr) :
    (∀ skip : List String, ∃ paths : List (List Nat), paths.Pairwise (· < ·) ∧
      (∀ path, path ∈ paths ↔ e.InSight skip path) ∧
        (e.visits skip).map some = paths.map (fun path => (e.at? path).map visit) ∧
          ∀ (s : Store) (i : Nat), s.expr i = e → (e.visits skip).map some =
            paths.map fun path => (s.nodeAt? i path).map fun a => (s.expr a).visit) ∧
      (e.visits []).length = e.nodeCount ∧
      e.vars = Var.all.filter (fun v => .var v ∈ e.visits []) ∧
      IsGreatest (List.length '' {path | e.InSight [] path}) (e.depth - 1) := by
  refine ⟨fun skip => ⟨e.sights skip, e.sights_increasing, fun _ => mem_sights_iff, e.visits_eq_map,
    ?_⟩, e.length_visits_nothing, ?_, ?_, ?_⟩
  · rintro s i rfl
    rw [visits_eq_map]
    refine List.map_congr_left fun path _ => ?_
    rw [Store.at?_expr, Option.map_map]
    rfl
  · rw [vars_eq_filter]
    refine List.filter_congr fun v _ => ?_
    rw [← Bool.coe_iff_coe, decide_eq_true_iff, mem_visits_nothing_iff]
  · obtain ⟨path, occurs, length⟩ := e.exists_longest_path
    exact ⟨path, inSight_nothing_iff.2 occurs, length⟩
  · rintro _ ⟨path, sight, rfl⟩
    exact Nat.le_sub_one_of_lt (length_lt_depth sight.1)

end Formula
