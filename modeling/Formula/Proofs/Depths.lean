import Formula.Proofs.Plain
import Formula.Proofs.RoundTrip
import Formula.Proofs.Spelling
import Formula.Proofs.Whole

/-!
# Derivatives read back

A rule nests the derivatives of its `N` operands at most `N + 2` deeper, and four deeper if they are
few (`derivative_depth_le`): sums, products and powers are joined from the left, so each further
operand may cost a level.  The depth of a derivative is therefore bounded by the depth and the width
of the expression (`depth_diff_le`).  The constants that rules add are finite (`diff_finite`), so the
text of a derivative reads back under a limit that is known beforehand (`diff_reads_back`).
-/

namespace Formula

open Term (join sum product power square)

namespace Expr

/-! ### Depths of composed terms -/

section

variable (a b : Expr)

theorem depth_two (o : Op) : depth (.op o [a, b]) = 1 + max a.depth b.depth := by
  simp [depth_op]

theorem depth_add : (a + b).depth = 1 + max a.depth b.depth := depth_two a b .add

theorem depth_sub : (a - b).depth = 1 + max a.depth b.depth := depth_two a b .sub

theorem depth_mul : (a * b).depth = 1 + max a.depth b.depth := depth_two a b .mul

theorem depth_div : (a / b).depth = 1 + max a.depth b.depth := depth_two a b .div

theorem depth_neg : (-a).depth = 1 + a.depth := by
  change depth (.op .neg [a]) = _
  simp [depth_op]

theorem depth_square : depth (square a) = 1 + a.depth := by
  rw [square, depth_mul, Nat.max_self]

theorem depth_const (c : Float) : depth (.const c) = 1 := rfl

end

/-- Joined from the left, terms are nested once more for each term after the first. -/
theorem depth_join_le {o : Op} {k : Nat} (positive : 1 ≤ k) {ts : List Expr}
    (h : ∀ t ∈ ts, t.depth ≤ k) :
    depth (join (fun a b => .op o [a, b]) ts) ≤ k + (ts.length - 1) := by
  have chain (acc : Expr) (n : Nat) (us : List Expr) (hacc : acc.depth ≤ k + n)
      (hus : ∀ t ∈ us, t.depth ≤ k) :
      depth (us.foldl (fun a b => .op o [a, b]) acc) ≤ k + (n + us.length) := by
    induction us generalizing acc n with
    | nil => exact hacc
    | cons u us ih =>
      obtain ⟨hu, hus⟩ := List.forall_mem_cons.1 hus
      have longer := ih (.op o [acc, u]) (n + 1) (by rw [depth_two]; omega) hus
      rw [List.foldl_cons, List.length_cons]
      omega
  cases ts with
  | nil => exact positive
  | cons t ts =>
    obtain ⟨ht, hts⟩ := List.forall_mem_cons.1 h
    simpa [join] using chain t 0 ts ht hts

theorem depth_power_le (t : Expr) (n : Nat) : depth (power t n) ≤ t.depth + (n - 1) := by
  have positive := one_le_depth t
  cases n with
  | zero => exact positive
  | succ n =>
    have same : ∀ u ∈ List.replicate (n + 1) t, u.depth ≤ t.depth := fun u hu =>
      Nat.le_of_eq (congrArg depth (List.eq_of_mem_replicate hu))
    have copies := depth_join_le (o := .mul) positive same
    rwa [List.length_replicate] at copies

theorem depth_partialProducts_le {args : List (Expr × Expr)} {k : Nat} (positive : 1 ≤ k)
    (h : ∀ x ∈ args, x.1.depth ≤ k ∧ x.2.depth ≤ k) :
    ∀ t ∈ Op.partialProducts args, depth t ≤ k + (args.length - 1) := by
  intro t ht
  obtain ⟨i, hi, rfl⟩ := List.mem_mapIdx.1 ht
  refine Nat.le_trans (depth_join_le positive fun u hu => ?_) (by simp)
  rcases List.mem_or_eq_of_mem_set hu with hu | rfl
  · obtain ⟨x, hx, rfl⟩ := List.mem_map.1 hu
    exact (h x hx).1
  · exact (h _ (List.getElem_mem hi)).2

/-! ### Depths of derivatives -/

/--
From operands at most `k` deep and derivatives at most `D` deep, a rule builds a term that is at most
`N + 2` deeper than the derivatives.
-/
theorem derivative_depth_le {o : Op} {self d : Expr} {args : List (Expr × Expr)} {k D N : Nat}
    (hself : self.depth ≤ k + 1) (hargs : ∀ x ∈ args, x.1.depth ≤ k ∧ x.2.depth ≤ D) (le : k ≤ D)
    (positive : 1 ≤ k) (two : 2 ≤ N) (count : args.length ≤ N)
    (h : o.derivative self args = some d) : d.depth ≤ D + N + 2 := by
  cases o
  case arithMean =>
    obtain ⟨x, rest, rfl⟩ := Op.exists_cons_of_derivative h
    obtain rfl := Option.some.inj h
    refine Nat.le_trans (depth_op_le_iff.2 (List.forall_mem_map.2 fun y hy => (hargs y hy).2)) ?_
    omega
  case geomMean =>
    obtain ⟨x, rest, rfl⟩ := Op.exists_cons_of_derivative h
    obtain rfl := Option.some.inj h
    rw [List.length_cons] at count
    have products : depth (.op .arithMean (Op.partialProducts (x :: rest))) ≤
        D + rest.length + 1 :=
      depth_op_le_iff.2 (depth_partialProducts_le (by omega) fun y hy =>
        ⟨Nat.le_trans (hargs y hy).1 le, (hargs y hy).2⟩)
    have sign : depth (.op .signum [product ((x :: rest).map (·.1))]) ≤ k + rest.length + 1 := by
      refine depth_op_le_iff.2 (List.forall_mem_singleton.2 ?_)
      refine Nat.le_trans (depth_join_le positive ?_) (by simp)
      exact List.forall_mem_map.2 fun y hy => (hargs y hy).1
    have powers := depth_power_le self rest.length
    rw [depth_div, depth_mul]
    omega
  case harmMean =>
    obtain ⟨x, rest, rfl⟩ := Op.exists_cons_of_derivative h
    obtain rfl := Option.some.inj h
    rw [List.length_cons] at count
    have terms : depth (sum ((x :: rest).map fun y => y.2 / square y.1)) ≤
        D + 2 + rest.length := by
      refine Nat.le_trans (depth_join_le (k := D + 2) (by omega) ?_) (by simp)
      refine List.forall_mem_map.2 fun y hy => ?_
      obtain ⟨first, second⟩ := hargs y hy
      rw [depth_div, depth_square]
      omega
    change depth (sum ((x :: rest).map fun y => y.2 / square y.1) * (square self / .const _)) ≤ _
    rw [depth_mul, depth_div, depth_square, depth_const]
    omega
  case signum => simp [Op.derivative] at h
  all_goals
    rcases args with _ | ⟨⟨a, a'⟩, _ | ⟨⟨b, b'⟩, _ | ⟨⟨c, c'⟩, _ | ⟨e, args⟩⟩⟩⟩ <;>
      simp only [Op.derivative, Option.some.injEq, reduceCtorEq] at h
    subst h
    simp only [List.forall_mem_cons] at hargs
    simp only [depth_add, depth_sub, depth_mul, depth_div, depth_neg, depth_square, depth_const]
    omega

/-- How deep brackets are nested in a derivative, at most. -/
def derivedNesting (e : Expr) : Nat := (e.depth - 1) * (max 2 e.width + 2)

theorem depth_diff_le_of_narrow {v : Var} {e d : Expr} {N : Nat} (two : 2 ≤ N)
    (narrow : e.narrow N) (h : diff v e = .ok d) : d.depth ≤ 1 + (e.depth - 1) * (N + 2) := by
  refine diff_induction
    (R := fun e d => e.narrow N → d.depth ≤ 1 + (e.depth - 1) * (N + 2))
    (fun _ _ => Nat.le_add_right 1 _) (fun _ _ => Nat.le_add_right 1 _)
    (fun o es ds d length operands rule narrow => ?_) h narrow
  obtain ⟨count, narrow⟩ := Term.narrow_op.1 narrow
  -- The operands are at most `k + 1` deep, and at least one is there.
  obtain ⟨k, depth⟩ : ∃ k, depth (.op o es) = k + 2 := by
    cases es with
    | nil => rw [List.zip_nil_left, Op.derivative_nil] at rule; cases rule
    | cons e es =>
      have positive := one_le_depth e
      refine ⟨depth (.op o (e :: es)) - 2, ?_⟩
      rw [depth_op, List.map_cons, List.foldr_cons]
      omega
  have shallow := depth_op_le_iff.1 (Nat.le_of_eq depth)
  have le : k ≤ k * (N + 2) := Nat.le_mul_of_pos_right k (Nat.succ_pos _)
  have bound := derivative_depth_le (k := k + 1) (D := 1 + k * (N + 2)) (Nat.le_of_eq depth)
    (fun x hx => ?_) (by omega) (Nat.succ_pos k) two (by simpa [length] using count) rule
  · rw [depth, show k + 2 - 1 = k + 1 from rfl, Nat.succ_mul]
    omega
  · have mem := (List.of_mem_zip hx).1
    have nested : (x.1.depth - 1) * (N + 2) ≤ k * (N + 2) :=
      Nat.mul_le_mul_right _ (Nat.sub_le_of_le_add (shallow _ mem))
    exact ⟨shallow _ mem, Nat.le_trans (operands x hx (narrow _ mem)) (by omega)⟩

theorem depth_diff_le {v : Var} {e d : Expr} (h : diff v e = .ok d) :
    d.depth ≤ 1 + e.derivedNesting :=
  depth_diff_le_of_narrow (Nat.le_max_left 2 _) (Term.width_le_iff.1 (Nat.le_max_right 2 _)) h

/-! ### Constants of derivatives -/

/-- A derivative has finite constants: those of the rules, and operand counts of 64 bits. -/
theorem diff_finite {v : Var} {e d : Expr} (finite : e.finite) (width : e.width < 2 ^ 64)
    (h : diff v e = .ok d) : d.finite := by
  have narrow : e.narrow (2 ^ 64 - 1) := Term.width_le_iff.1 (Nat.le_sub_one_of_lt width)
  have passed := diff_every (by decide +kernel) (by decide +kernel) (fun o count here => ?_)
    (Term.every_and.2 ⟨finite, narrow⟩) h
  · exact (Term.every_and.1 passed).1
  · have small : count < 2 ^ 64 := by
      have le : count ≤ 2 ^ 64 - 1 := by simpa using here
      omega
    refine ⟨?_, by decide, by decide, fun _ => here, fun _ => by decide⟩
    simp only [List.forall_mem_cons, Bool.and_true]
    exact ⟨by decide +kernel, by decide +kernel, by decide +kernel, Binary64.isFinite_ofNat small,
      List.forall_mem_nil _⟩

/-! ### Reading back -/

theorem one_le_nodeCount (e : Expr) : 1 ≤ e.nodeCount := by
  cases e with
  | const c => exact Nat.le_refl 1
  | var v => exact Nat.le_refl 1
  | op o args => rw [nodeCount_op]; omega

theorem width_le_nodeCount (e : Expr) : e.width ≤ e.nodeCount := by
  induction e using Term.rec_mem with
  | const c => exact Nat.zero_le 1
  | var v => exact Nat.zero_le 1
  | op o args ih =>
    have total : nodeCount (.op o args) = 1 + (args.map nodeCount).sum := nodeCount_op o args
    have count : args.length ≤ (args.map nodeCount).sum := by
      simpa using List.length_le_sum_of_one_le (args.map nodeCount)
        (List.forall_mem_map.2 fun e _ => one_le_nodeCount e)
    rw [total]
    refine Term.width_le_iff.2 (Term.narrow_op.2 ⟨by omega, fun e he => Term.width_le_iff.1 ?_⟩)
    have part := List.le_sum_of_mem (List.mem_map_of_mem (f := nodeCount) he)
    have operand := ih e he
    omega

end Expr

variable {p : Parser} {text : String} {e : Expr}

/-- An expression that is read has no more operands than the text has characters. -/
theorem Parser.width_le_length (h : p.parse text = .ok e) : e.width ≤ text.length := by
  have words : (e.lexemes p.order).countP Lexeme.isWord ≤ (lexemes text).length := by
    rw [(parse_eq_ok_iff.1 h).lexemes_eq]
    exact Nat.le_trans List.countP_le_length (Nat.le_of_eq (List.length_map _))
  rw [Expr.countP_isWord_lexemes] at words
  exact Nat.le_trans e.width_le_nodeCount (Nat.le_trans words (length_lexemes_le text))

theorem Parser.diffText_eq (p : Parser) (text name : String) :
    p.diffText text name =
      match p.parse text with
      | .error err => .error (.parse err)
      | .ok e =>
        match Var.ofName? name with
        | none => .error (.unboundVariable name)
        | some v => (e.diff v).map (Expr.render p.order) := by
  unfold diffText read Expr.diffBy Var.read
  cases p.parse text with
  | error err => rfl
  | ok e =>
    cases Var.ofName? name with
    | none => rfl
    | some v =>
      change (e.diff v >>= _) = (e.diff v).map _
      cases e.diff v <;> rfl

/-- A derivative that is returned as a text is that of the expression that was read. -/
theorem Parser.diffText_ok {name out : String} (h : p.diffText text name = .ok out) :
    ∃ e d v, p.parse text = .ok e ∧ v.name = name ∧ e.diff v = .ok d ∧ out = d.render p.order := by
  rw [diffText_eq] at h
  split at h
  · cases h
  · next e parsed =>
    split at h
    · cases h
    · next v named =>
      cases derived : e.diff v with
      | error err => rw [derived] at h; cases h
      | ok d =>
        rw [derived] at h
        exact ⟨e, d, v, parsed, Var.ofName?_eq_some_iff.1 named, derived, (Except.ok.inj h).symm⟩

/--
A derivative of an expression with finite constants and operand counts of 64 bits is nested within a
bound known beforehand, has finite constants, and is read back from its text under that limit, in
either notation.  So is the text that is returned for the derivative of a text of fewer than `2 ^ 64`
characters.
-/
theorem Parser.diff_reads_back :
    (∀ (e d : Expr) (v : Var), e.fits → e.finite → e.width < 2 ^ 64 → e.diff v = .ok d →
      d.depth ≤ 1 + e.derivedNesting ∧ d.finite ∧
        ∀ n, parse ⟨n, e.derivedNesting⟩ (d.render n) = .ok d) ∧
    ∀ (p : Parser) (text name out : String), text.length < 2 ^ 64 →
      p.diffText text name = .ok out →
        ∃ e d v, p.parse text = .ok e ∧ v.name = name ∧ e.diff v = .ok d ∧
          parse ⟨p.order, e.derivedNesting⟩ out = .ok d := by
  have back (e d : Expr) (v : Var) (fits : e.fits) (finite : e.finite) (width : e.width < 2 ^ 64)
      (h : e.diff v = .ok d) : d.depth ≤ 1 + e.derivedNesting ∧ d.finite ∧
        ∀ n, parse ⟨n, e.derivedNesting⟩ (d.render n) = .ok d := by
    have depth := Expr.depth_diff_le h
    have finite' := Expr.diff_finite finite width h
    exact ⟨depth, finite', fun n =>
      Expr.parse_render_eq_ok (Expr.diff_fits fits h) finite' (Nat.add_comm 1 _ ▸ depth)⟩
  refine ⟨back, fun p text name out short h => ?_⟩
  obtain ⟨e, d, v, parsed, named, derived, rfl⟩ := diffText_ok h
  have derives := parse_eq_ok_iff.1 parsed
  have width : e.width < 2 ^ 64 := Nat.lt_of_le_of_lt (width_le_length parsed) short
  obtain ⟨-, -, reads⟩ := back e d v derives.fits derives.finite width derived
  exact ⟨e, d, v, parsed, named, derived, reads p.order⟩

/-- The bound is met by a mean of three: their product stands in a sign, a product and a quotient. -/
theorem Parser.diff_reads_back_mean_of_three :
    let p : Parser := ⟨.signLast, 1⟩
    let text := "(x y 2 geom-mean)"
    let e : Expr := .op .geomMean [.var .x, .var .y, .const 2]
    ∃ d, (e.fits ∧ e.finite ∧ e.width < 2 ^ 64 ∧ e.diff .y = .ok d) ∧ d.depth = 6 ∧
      (d.depth ≤ 1 + e.derivedNesting ∧ d.finite ∧
        ∀ n, parse ⟨n, e.derivedNesting⟩ (d.render n) = .ok d) ∧
      (text.length < 2 ^ 64 ∧ p.diffText text "y" = .ok (d.render .signLast)) ∧
      ∃ e d' v, p.parse text = .ok e ∧ v.name = "y" ∧ e.diff v = .ok d' ∧
        parse ⟨.signLast, e.derivedNesting⟩ (d.render .signLast) = .ok d' := by
  intro p text e
  have two : Decimal.read? "2" = some 2 := by decide +kernel
  have mean : "geom-mean" ∈ Op.geomMean.signs := by decide
  have tokens : lexemes text =
      [.opening, .word "x", .word "y", .word "2", .word "geom-mean", .closing] := by
    decide
  have parsed : p.parse text = .ok e := by
    rw [parse_eq_ok_iff, tokens]
    exact .op mean rfl (.cons (.var .x) (.cons (.var .y) (.cons (.const two) .nil)))
  have finite : e.finite := by decide +kernel
  have width : e.width < 2 ^ 64 := by decide
  have short : text.length < 2 ^ 64 := by decide
  obtain ⟨d, derived, depth⟩ : ∃ d, e.diff .y = .ok d ∧ d.depth = 6 := ⟨_, rfl, rfl⟩
  have returned : p.diffText text "y" = .ok (d.render .signLast) := by
    have named : Var.ofName? "y" = some .y := rfl
    rw [diffText_eq, parsed, named]
    exact congrArg (Except.map (Expr.render .signLast)) derived
  exact ⟨d, ⟨rfl, finite, width, derived⟩, depth, diff_reads_back.1 e d .y rfl finite width derived,
    ⟨short, returned⟩, diff_reads_back.2 p text "y" _ short returned⟩

end Formula
