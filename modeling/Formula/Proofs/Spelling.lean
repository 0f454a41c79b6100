import Formula.Expr.Walk
import Formula.Proofs.Scanning

/-!
# What reading keeps

Reading forgets how a number was written and which sign of an operation was used, and nothing else.
The expression is printed as the tokens it was read from, in the same order, each word in its own
spelling (`Derives.lexemes_eq`).  Counts of tokens are therefore counts of nodes, and the brackets
are nested as deep as the operations: both are shown of printed expressions, and a spelling changes
no bracket and makes no word of one.
-/

namespace Formula

namespace Lexeme

/-- The token as the printer writes it: shortest digits for a number, the first sign for a sign. -/
def spelled : Lexeme → Lexeme
  | word w =>
    match Decimal.read? w, Op.ofSign? w with
    | some c, _ => word (Decimal.text c)
    | none, some o => word o.sign
    | none, none => word w
  | bracket => bracket

/-- Whether a token is no bracket. -/
def isWord : Lexeme → Bool
  | word _ => true
  | _ => false

theorem spelled_name (v : Var) : (word v.name).spelled = word v.name := by
  cases v <;> rfl

theorem spelled_numeral {w : String} {c : Float} (numeral : Decimal.read? w = some c) :
    (word w).spelled = word (Decimal.text c) := by
  rw [spelled, numeral]

theorem spelled_sign {o : Op} {sign : String} (known : sign ∈ o.signs) :
    (word sign).spelled = word o.sign := by
  rw [spelled, Parser.read?_sign sign known, Op.ofSign?_of_mem sign known]

theorem exists_spelled_word (w : String) : ∃ w', (word w).spelled = word w' := by
  rw [spelled]
  split <;> exact ⟨_, rfl⟩

theorem isWord_spelled (t : Lexeme) : t.spelled.isWord = t.isWord := by
  cases t with
  | opening | closing => rfl
  | word w =>
    obtain ⟨w', spelled⟩ := exists_spelled_word w
    rw [spelled]
    rfl

theorem spelled_eq_opening_iff {t : Lexeme} : t.spelled = opening ↔ t = opening := by
  cases t with
  | opening | closing => exact Iff.rfl
  | word w =>
    obtain ⟨w', spelled⟩ := exists_spelled_word w
    simp [spelled]

end Lexeme

/-! ### Tokens of the derived expression -/

variable {n : Notation}

mutual

/-- The printer writes what was read, word by word. -/
theorem Derives.lexemes_eq {m : Nat} {e : Expr} {ts : List Lexeme} :
    Derives n m e ts → e.lexemes n = ts.map Lexeme.spelled
  | .var v => congrArg (· :: []) (Lexeme.spelled_name v).symm
  | .const numeral => congrArg (· :: []) (Lexeme.spelled_numeral numeral).symm
  | .op known _ operands => by
    rw [Expr.lexemes_op, List.map_cons, List.map_append, Notation.map_arrange,
      Lexeme.spelled_sign known, operands.lexemes_eq]
    rfl

theorem DerivesAll.lexemes_eq {m : Nat} {es : List Expr} {ts : List Lexeme} :
    DerivesAll n m es ts → (es.map (Expr.lexemes n)).flatten = ts.map Lexeme.spelled
  | .nil => rfl
  | .cons head tail => by
    rw [List.map_cons, List.flatten_cons, List.map_append, head.lexemes_eq, tail.lexemes_eq]

end

/-! ### Counting tokens -/

namespace Expr

/-- The number of operations, each occurrence counted. -/
def operationCount (e : Expr) : Nat :=
  e.fold (fun _ => 0) (fun _ => 0) fun _ counts => 1 + counts.sum

theorem countP_lexemes_op (p : Lexeme → Bool) (o : Op) (args : List Expr) :
    (lexemes n (.op o args)).countP p =
      [Lexeme.opening, .word o.sign, .closing].countP p +
        (args.map fun e => (e.lexemes n).countP p).sum := by
  have operands : ((args.map (lexemes n)).flatten).countP p =
      (args.map fun e => (e.lexemes n).countP p).sum := by
    rw [List.countP_flatten, List.map_map]
    rfl
  rw [lexemes_op, ← operands]
  cases n <;> simp only [Notation.arrange, List.countP_cons, List.countP_append, List.countP_nil] <;>
    omega

/-- Every node is written as one word. -/
theorem countP_isWord_lexemes (n : Notation) (e : Expr) :
    (e.lexemes n).countP Lexeme.isWord = e.nodeCount := by
  induction e using Term.rec_mem with
  | const c => rfl
  | var v => rfl
  | op o args ih =>
    rw [countP_lexemes_op, List.map_congr_left ih, nodeCount_op]
    rfl

/-- Every operation opens one bracket. -/
theorem count_opening_lexemes (n : Notation) (e : Expr) :
    (e.lexemes n).count .opening = e.operationCount := by
  induction e using Term.rec_mem with
  | const c => rfl
  | var v => rfl
  | op o args ih =>
    rw [List.count, countP_lexemes_op, operationCount, Term.fold_op]
    exact congrArg (1 + ·.sum) (List.map_congr_left ih)

end Expr

/-! ### Nesting of brackets -/

/-- How many brackets are open at once, at most, when `depth` are open before the tokens. -/
def nesting (depth : Nat) : List Lexeme → Nat
  | [] => depth
  | .opening :: ts => nesting (depth + 1) ts
  | .closing :: ts => max depth (nesting (depth - 1) ts)
  | .word _ :: ts => nesting depth ts

theorem le_nesting (depth : Nat) (ts : List Lexeme) : depth ≤ nesting depth ts := by
  fun_induction nesting depth ts <;> omega

theorem nesting_map_spelled (depth : Nat) (ts : List Lexeme) :
    nesting depth (ts.map Lexeme.spelled) = nesting depth ts := by
  induction ts generalizing depth with
  | nil => rfl
  | cons t ts ih =>
    cases t with
    | opening => exact ih (depth + 1)
    | closing => exact congrArg (max depth) (ih (depth - 1))
    | word w =>
      obtain ⟨w', spelled⟩ := Lexeme.exists_spelled_word w
      rw [List.map_cons, spelled]
      exact ih depth

/-- The sign of a bracket adds nothing, wherever it stands. -/
theorem nesting_arrange (n : Notation) (depth : Nat) (sign : String) (ts us : List Lexeme)
    (before : Nat) (h : ∀ us, nesting depth (ts ++ us) = max before (nesting depth us)) :
    nesting depth (n.arrange (.word sign) ts ++ us) = max before (nesting depth us) := by
  cases n with
  | signFirst => exact h us
  | signLast =>
    rw [Notation.arrange, List.append_assoc, h]
    rfl

namespace Expr

/-- The operands of an operation are nested as deep as the deepest of them. -/
theorem nesting_operands {args : List Expr} {depth : Nat}
    (h : ∀ e ∈ args, ∀ us,
      nesting depth (e.lexemes n ++ us) = max (depth + e.depth - 1) (nesting depth us))
    (us : List Lexeme) :
    nesting depth ((args.map (lexemes n)).flatten ++ us) =
      max (depth + (args.map Expr.depth).foldr max 0 - 1) (nesting depth us) := by
  induction args with
  | nil =>
    have le := le_nesting depth us
    simp only [List.map_nil, List.flatten_nil, List.nil_append, List.foldr_nil]
    omega
  | cons e args ih =>
    obtain ⟨head, tail⟩ := List.forall_mem_cons.1 h
    rw [List.map_cons, List.flatten_cons, List.append_assoc, head, ih tail, List.map_cons,
      List.foldr_cons]
    omega

/-- An operation is deeper than a leaf, as no operation takes no operands. -/
theorem two_le_depth_op {o : Op} {args : List Expr} (fits : (Term.op o args : Expr).fits) :
    2 ≤ depth (.op o args) := by
  obtain ⟨e, args, rfl⟩ :=
    List.exists_cons_of_ne_nil (Op.ne_nil_of_accepts (Term.fits_op.1 fits).1)
  have positive := one_le_depth e
  rw [depth_op, List.map_cons, List.foldr_cons]
  omega

/-- The brackets of a printed expression are nested once less than its nodes. -/
theorem nesting_lexemes {e : Expr} (fits : e.fits) (depth : Nat) (us : List Lexeme) :
    nesting depth (e.lexemes n ++ us) = max (depth + e.depth - 1) (nesting depth us) := by
  induction e using Term.rec_mem generalizing depth us with
  | const c => exact (Nat.max_eq_right (le_nesting depth us)).symm
  | var v => exact (Nat.max_eq_right (le_nesting depth us)).symm
  | op o args ih =>
    have operandsFit := (Term.fits_op.1 fits).2
    have deep := two_le_depth_op fits
    have operands := nesting_operands (n := n) fun e he => ih e he (operandsFit e he) (depth + 1)
    have closed : nesting (depth + 1) (.closing :: us) = max (depth + 1) (nesting depth us) := rfl
    have bracket := nesting_arrange n (depth + 1) o.sign _ (.closing :: us) _ operands
    rw [depth_op] at deep ⊢
    rw [lexemes_op, List.cons_append, List.append_assoc]
    change nesting (depth + 1) (_ ++ .closing :: us) = _
    rw [bracket, closed]
    omega

end Expr

/--
A text that is read is printed as its own tokens, in the same order, each number in its shortest
digits and each operation by its first sign.  So a text has a word for each node, a bracket for each
operation, and brackets nested as deep as its operations.
-/
theorem Parser.lexemes_render_of_parse {p : Parser} {text : String} {e : Expr}
    (h : p.parse text = .ok e) :
    lexemes (e.render p.order) = (lexemes text).map Lexeme.spelled ∧
      (lexemes text).countP Lexeme.isWord = e.nodeCount ∧
      (lexemes text).count .opening = e.operationCount ∧
      nesting 0 (lexemes text) = e.depth - 1 := by
  have derives := parse_eq_ok_iff.1 h
  have same : e.lexemes p.order = (lexemes text).map Lexeme.spelled := derives.lexemes_eq
  refine ⟨(lexemes_eq (reads_render p.order e)).trans same, ?_, ?_, ?_⟩
  · rw [← Expr.countP_isWord_lexemes p.order, same, List.countP_map]
    exact List.countP_congr fun t _ => by rw [Function.comp, Lexeme.isWord_spelled]
  · rw [← Expr.count_opening_lexemes p.order, same, List.count, List.countP_map]
    exact List.countP_congr fun t _ => by
      simp only [Function.comp, beq_iff_eq, Lexeme.spelled_eq_opening_iff]
  · have nested := Expr.nesting_lexemes (n := p.order) derives.fits 0 []
    rw [List.append_nil, same, nesting_map_spelled] at nested
    simpa [nesting] using nested

theorem Parser.lexemes_render_of_parse_madd :
    let p : Parser := ⟨.signLast, 2⟩
    let text := "(x (+1e1 .50 +) -0 madd)"
    let e : Expr := .op .mulAdd [.var .x, .op .add [.const 10, .const 0.5], .const (-0)]
    p.parse text = .ok e ∧
      lexemes (e.render p.order) = (lexemes text).map Lexeme.spelled ∧
      (lexemes text).countP Lexeme.isWord = e.nodeCount ∧
      (lexemes text).count .opening = e.operationCount ∧
      nesting 0 (lexemes text) = e.depth - 1 := by
  intro p text e
  have ten : Decimal.read? "+1e1" = some 10 := by decide +kernel
  have half : Decimal.read? ".50" = some 0.5 := by decide +kernel
  have zero : Decimal.read? "-0" = some (-0) := by decide +kernel
  have plus : "+" ∈ Op.add.signs := by decide
  have fused : "madd" ∈ Op.mulAdd.signs := by decide
  have tokens : lexemes text = [.opening, .word "x", .opening, .word "+1e1", .word ".50",
      .word "+", .closing, .word "-0", .word "madd", .closing] := by
    decide
  have sum : Derives .signLast 1 (.op .add [.const 10, .const 0.5]) _ :=
    .op plus rfl (.cons (.const ten) (.cons (.const half) .nil))
  have parsed : p.parse text = .ok e := by
    rw [parse_eq_ok_iff, tokens]
    exact .op fused rfl (.cons (.var .x) (.cons sum (.cons (.const zero) .nil)))
  exact ⟨parsed, lexemes_render_of_parse parsed⟩

end Formula
