import Formula.Proofs.Exclusion
import Formula.Proofs.Scanning

/-!
# The flat dump

The dump is the text with signs last, brackets deleted (`flat_eq`).  Without brackets nothing tells
where the operands of an operation begin, but a sign that takes a fixed number of operands does not
need to be told: the dump is read word by word on a stack.  An expression puts itself on any stack,
whatever words follow (`replay_flat`), so its operands lie on top when its sign comes.
-/

namespace Formula

variable {e : Expr} {stack : List Expr}

/-! ### Brackets deleted -/

namespace Text

/-- The text without its brackets. -/
def unbracketed (text : String) : String :=
  .ofList (text.toList.filter fun c => c ≠ '(' ∧ c ≠ ')')

theorem unbracketed_append (a b : String) :
    unbracketed (a ++ b) = unbracketed a ++ unbracketed b := by
  simp [unbracketed]

theorem unbracketed_of_isWord {w : String} (h : isWord w) : unbracketed w = w := by
  have kept : ∀ c ∈ w.toList, decide (c ≠ '(' ∧ c ≠ ')') = true := by
    intro c hc
    have plain := (isWord_iff.1 h).2 c hc
    simp_all [isPlain]
  rw [unbracketed, List.filter_eq_self.2 kept, String.ofList_toList]

theorem unbracketed_intercalate (ts : List String) :
    unbracketed (" ".intercalate ts) = " ".intercalate (ts.map unbracketed) := by
  have blank : unbracketed " " = " " := rfl
  induction ts with
  | nil => rfl
  | cons t ts ih =>
    cases ts with
    | nil => simp
    | cons u ts =>
      rw [String.intercalate_cons_cons, unbracketed_append, unbracketed_append, blank, ih]
      simp [String.intercalate_cons_cons]

end Text

theorem Expr.flat_op (o : Op) (args : List Expr) :
    flat (.op o args) = " ".intercalate (args.map flat ++ [o.sign]) := by
  rw [flat, Term.fold_op]
  rfl

/-- The dump is the bracketed text without its brackets, if no operation lacks operands. -/
theorem Expr.flat_eq {e : Expr} (fits : e.fits) :
    e.flat = Text.unbracketed (e.render .signLast) := by
  induction e using Term.rec_mem with
  | const c => exact (Text.unbracketed_of_isWord (isWord_text c)).symm
  | var v => exact (Text.unbracketed_of_isWord (isWord_name v)).symm
  | op o args ih =>
    obtain ⟨count, operandsFit⟩ := Term.fits_op.1 fits
    have nonempty : args.map flat ≠ [] := by simpa using Op.ne_nil_of_accepts count
    have opening : Text.unbracketed "(" = "" := rfl
    have closing : Text.unbracketed ")" = "" := rfl
    have blank : Text.unbracketed " " = " " := rfl
    have operands : (args.map (render .signLast)).map Text.unbracketed = args.map flat := by
      rw [List.map_map]
      exact (List.map_congr_left fun e he => ih e he (operandsFit e he)).symm
    rw [flat_op, String.intercalate_append_of_ne_nil nonempty (List.cons_ne_nil _ _),
      String.intercalate_singleton, render_op, Notation.content]
    have sign := Text.unbracketed_of_isWord (isWord_sign o)
    simp only [Text.unbracketed_append, opening, closing, blank, Text.unbracketed_intercalate,
      operands, sign, String.empty_append, String.append_empty]

/-! ### Words between spaces -/

namespace Text

/-- The words that single spaces separate. -/
def words (text : String) : List String :=
  (text.toList.splitOn ' ').map String.ofList

theorem words_of_isWord {w : String} (h : isWord w) : words w = [w] := by
  have blank : ' ' ∉ w.toList := fun found => by
    have plain := (isWord_iff.1 h).2 ' ' found
    contradiction
  rw [words, List.splitOn_eq_singleton blank, List.map_singleton, String.ofList_toList]

theorem words_intercalate (ts : List String) (w : String) :
    words (" ".intercalate (ts ++ [w])) = ts.flatMap words ++ words w := by
  induction ts with
  | nil => simp
  | cons t ts ih =>
    obtain ⟨u, us, more⟩ := List.exists_cons_of_ne_nil (List.append_ne_nil_of_right_ne_nil ts
      (List.cons_ne_nil w []))
    have text : (" ".intercalate (t :: ts ++ [w])).toList =
        t.toList ++ ' ' :: (" ".intercalate (ts ++ [w])).toList := by
      rw [List.cons_append, more, String.intercalate_cons_cons]
      simp
    rw [words, text, List.splitOn_append_cons_self, List.map_append, List.flatMap_cons,
      List.append_assoc, ← ih]
    rfl

end Text

theorem Expr.words_flat_op (o : Op) (args : List Expr) :
    Text.words (flat (.op o args)) = args.flatMap (fun e => Text.words e.flat) ++ [o.sign] := by
  rw [flat_op, Text.words_intercalate, List.flatMap_map, Text.words_of_isWord (isWord_sign o)]

/-! ### Reading on a stack -/

/-- Whether every operation takes a fixed number of operands. -/
def Term.fixed {α : Type} : Term α → Bool :=
  every (fun _ => true) fun o _ => o.arity ≠ .several

/-- Puts an operation over as many expressions as it takes, the first of them deepest. -/
def Op.over? (o : Op) (stack : List Expr) : Option (List Expr) :=
  match o.arity with
  | .exactly count =>
    if count ≤ stack.length then some (.op o (stack.take count).reverse :: stack.drop count)
    else none
  | .several => none

/-- Puts a leaf on the stack, or an operation over what lies on top. -/
def push (stack : List Expr) (word : String) : Option (List Expr) :=
  (Item.ofWord? word).bind fun
    | .operand e => some (e :: stack)
    | .operator o => o.over? stack

/-- Reads words from left to right. -/
def replay (words : List String) (stack : List Expr) : Option (List Expr) :=
  words.foldlM push stack

theorem replay_append (words more : List String) :
    replay (words ++ more) stack = (replay words stack).bind (replay more) :=
  List.foldlM_append

theorem replay_singleton (word : String) : replay [word] stack = push stack word := by
  rw [replay, List.foldlM_cons]
  exact bind_pure _

theorem push_operand {w : String} (operand : Item.ofWord? w = some (.operand e)) :
    push stack w = some (e :: stack) := by
  rw [push, operand, Option.bind_some]

theorem push_sign (o : Op) : push stack o.sign = o.over? stack := by
  rw [push, Item.ofWord?_sign List.mem_cons_self, Option.bind_some]

/-- Operands on top of the stack are all that an operation of fixed arity takes. -/
theorem Op.over?_reverse {o : Op} {args : List Expr} (count : o.arity.accepts args.length)
    (fixed : o.arity ≠ .several) :
    o.over? (args.reverse ++ stack) = some (.op o args :: stack) := by
  cases arity : o.arity with
  | several => exact absurd arity fixed
  | exactly n =>
    obtain rfl : args.length = n := by simpa [arity, Arity.accepts] using count
    rw [over?, arity]
    simp

/-- Operands that each put themselves on any stack lie there in reverse. -/
theorem replay_operands {args : List Expr}
    (h : ∀ e ∈ args, ∀ stack, replay (Text.words e.flat) stack = some (e :: stack))
    (stack : List Expr) :
    replay (args.flatMap fun e => Text.words e.flat) stack = some (args.reverse ++ stack) := by
  induction args generalizing stack with
  | nil => rfl
  | cons e args ih =>
    obtain ⟨head, tail⟩ := List.forall_mem_cons.1 h
    rw [List.flatMap_cons, replay_append, head, Option.bind_some, ih tail, List.reverse_cons,
      List.append_assoc]
    rfl

/-- The words of an expression put it on top of whatever lies on the stack. -/
theorem replay_flat (fits : e.fits) (fixed : e.fixed) (finite : e.finite) (stack : List Expr) :
    replay (Text.words e.flat) stack = some (e :: stack) := by
  induction e using Term.rec_mem generalizing stack with
  | const c =>
    have word : Text.words (Expr.flat (.const c)) = [Decimal.text c] :=
      Text.words_of_isWord (isWord_text c)
    rw [word, replay_singleton, push_operand (Item.ofWord?_numeral (Decimal.read?_text finite))]
  | var v =>
    have word : Text.words (Expr.flat (.var v)) = [v.name] := Text.words_of_isWord (isWord_name v)
    rw [word, replay_singleton, push_operand (Item.ofWord?_name v)]
  | op o args ih =>
    obtain ⟨count, operandsFit⟩ := Term.fits_op.1 fits
    obtain ⟨fixedArity, operandsFixed⟩ := Term.every_op.1 fixed
    have operandsFinite := Term.finite_op.1 finite
    have operands := replay_operands fun e he =>
      ih e he (operandsFit e he) (operandsFixed e he) (operandsFinite e he)
    rw [Expr.words_flat_op, replay_append, operands stack, Option.bind_some, replay_singleton,
      push_sign, Op.over?_reverse count (by simpa using fixedArity)]

/--
The dump is the text with signs last, all brackets deleted.  If every operation takes a fixed number
of operands and every constant is finite, reading the words of the dump never finds too few
expressions on the stack, and leaves the one that was written.
-/
theorem Expr.flat_reads_back {e : Expr} (fits : e.fits) :
    e.flat = Text.unbracketed (e.render .signLast) ∧
      (e.fixed → e.finite → replay (Text.words e.flat) [] = some [e]) :=
  ⟨flat_eq fits, fun fixed finite => replay_flat fits fixed finite []⟩

theorem Expr.flat_reads_back_of_quotient :
    let e : Expr := .op .div [.op .sub [.var .x, .const (-0)], .op .hmean [.var .y, .const 2.5]]
    e.fits ∧ e.fixed ∧ e.finite ∧ e.flat = Text.unbracketed (e.render .signLast) ∧
      replay (Text.words e.flat) [] = some [e] := by
  intro e
  have fits : e.fits := rfl
  obtain ⟨dump, back⟩ := flat_reads_back fits
  exact ⟨fits, rfl, rfl, dump, back rfl rfl⟩

end Formula
