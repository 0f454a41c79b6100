import Formula.Proofs.Scanning

/-!
# Printed expressions read back

The tokens of a printed expression derive it when its constants are finite and the brackets are not
nested too deep (`derives_lexemes`), and they derive nothing otherwise: a word that stands for a
constant that is not finite is no numeral, and no derivation is shallower than its expression.
Conversely, only finite constants are read (`Derives.finite`).
-/

namespace Formula

variable {n : Notation}

mutual

/-- The constants that are read are finite. -/
theorem Derives.finite {m : Nat} {e : Expr} {ts : List Lexeme} : Derives n m e ts → e.finite
  | .var _ => rfl
  | .const numeral => Decimal.isFinite_of_read? numeral
  | .op _ _ operands => Term.finite_op.2 operands.finite

theorem DerivesAll.finite {m : Nat} {es : List Expr} {ts : List Lexeme} :
    DerivesAll n m es ts → ∀ e ∈ es, e.finite
  | .nil => List.forall_mem_nil _
  | .cons head tail => List.forall_mem_cons.2 ⟨head.finite, tail.finite⟩

end

namespace Expr

theorem derivesAll_of_forall {m : Nat} {es : List Expr} {tokens : Expr → List Lexeme}
    (h : ∀ e ∈ es, Derives n m e (tokens e)) : DerivesAll n m es (es.map tokens).flatten := by
  induction es with
  | nil => exact .nil
  | cons e es ih =>
    obtain ⟨head, tail⟩ := List.forall_mem_cons.1 h
    exact .cons head (ih tail)

/-- The printer writes a derivation, as deep as the expression. -/
theorem derives_lexemes {e : Expr} (fits : e.fits) (finite : e.finite) {m : Nat}
    (depth : e.depth ≤ m + 1) : Derives n m e (e.lexemes n) := by
  induction e using Term.rec_mem generalizing m with
  | const c => exact .const (Decimal.read?_text finite)
  | var v => exact .var v
  | op o args ih =>
    obtain ⟨count, operandsFit⟩ := Term.fits_op.1 fits
    have operandsFinite := Term.finite_op.1 finite
    have operandsDepth := depth_op_le_iff.1 depth
    obtain ⟨e, he⟩ := List.exists_mem_of_ne_nil args (Op.ne_nil_of_accepts count)
    obtain ⟨m, rfl⟩ : ∃ k, m = k + 1 :=
      Nat.exists_eq_add_one.2 (Nat.lt_of_lt_of_le (one_le_depth e) (operandsDepth e he))
    rw [lexemes_op]
    refine .op List.mem_cons_self count (derivesAll_of_forall fun e he => ?_)
    exact ih e he (operandsFit e he) (operandsFinite e he) (operandsDepth e he)

/-- Within the limit, a printed expression is read back. -/
theorem parse_render_eq_ok {e : Expr} (fits : e.fits) (finite : e.finite) {m : Nat}
    (depth : e.depth ≤ m + 1) : Parser.parse ⟨n, m⟩ (e.render n) = .ok e := by
  rw [Parser.parse_eq_ok_iff, Parser.lexemes_eq (reads_render n e)]
  exact derives_lexemes fits finite depth

theorem not_known_text {c : Float} (h : ¬ c.isFinite) : ¬ (Lexeme.word (Decimal.text c)).Known := by
  have unknown : ∀ w ∈ ["NaN", "inf", "-inf"],
      Var.ofName? w = none ∧ Decimal.read? w = none ∧ Op.ofSign? w = none := by
    decide
  obtain ⟨noName, noNumeral, noSign⟩ := unknown _ (Decimal.text_of_not_finite h)
  rintro (⟨v, name⟩ | ⟨_, numeral⟩ | ⟨_, sign⟩)
  · rw [← name, Var.ofName?_name] at noName
    cases noName
  · rw [noNumeral] at numeral
    cases numeral
  · rw [noSign] at sign
    cases sign

/-- Only finite constants are written as words that may stand in an expression. -/
theorem finite_of_known {e : Expr} (h : ∀ t ∈ e.lexemes n, t.Known) : e.finite := by
  induction e using Term.rec_mem with
  | const c =>
    by_cases finite : c.isFinite
    · exact finite
    · exact absurd (h _ List.mem_cons_self) (not_known_text finite)
  | var v => rfl
  | op o args ih =>
    refine Term.finite_op.2 fun e he => ih e he fun t ht => h t ?_
    rw [lexemes_op]
    have inside : t ∈ (args.map (lexemes n)).flatten :=
      List.mem_flatten.2 ⟨_, List.mem_map_of_mem he, ht⟩
    exact List.mem_cons_of_mem _ (List.mem_append_left _ (Notation.mem_arrange.2 (.inr inside)))

end Expr

/--
A printed expression is accepted exactly when its constants are finite and its brackets are nested
within the limit, and what is read is the expression itself.
-/
theorem Parser.parse_render {e : Expr} (fits : e.fits) (n : Notation) (m : Nat) :
    ((∃ e', parse ⟨n, m⟩ (e.render n) = .ok e') ↔ e.finite ∧ e.depth - 1 ≤ m) ∧
      ∀ e', parse ⟨n, m⟩ (e.render n) = .ok e' → e' = e := by
  have accepted (e' : Expr) : parse ⟨n, m⟩ (e.render n) = .ok e' ↔ Derives n m e' (e.lexemes n) := by
    rw [parse_eq_ok_iff, lexemes_eq (reads_render n e)]
  simp only [accepted]
  have same : ∀ e', Derives n m e' (e.lexemes n) → e.finite ∧ e' = e := by
    intro e' derives
    have finite := Expr.finite_of_known derives.known
    exact ⟨finite, derives.unique (Expr.derives_lexemes fits finite (Nat.le_succ e.depth))⟩
  refine ⟨⟨?_, ?_⟩, fun e' derives => (same e' derives).2⟩
  · rintro ⟨e', derives⟩
    obtain ⟨finite, rfl⟩ := same e' derives
    have depth := derives.depth_le
    exact ⟨finite, by omega⟩
  · rintro ⟨finite, depth⟩
    exact ⟨e, Expr.derives_lexemes fits finite (by omega)⟩

theorem Parser.parse_render_of_minus_zero :
    let e : Expr := .op .sub [.const (-0), .op .neg [.var .x]]
    e.fits ∧
      ((∃ e', parse ⟨.signLast, 2⟩ (e.render .signLast) = .ok e') ↔ e.finite ∧ e.depth - 1 ≤ 2) ∧
      ∀ e', parse ⟨.signLast, 2⟩ (e.render .signLast) = .ok e' → e' = e :=
  ⟨rfl, parse_render rfl .signLast 2⟩

end Formula
