import Formula.Proofs.OnePass

/-!
# The notations exclude each other

A text of several tokens is written in one notation at most, and the reader of the other stops at a
sign.  With the sign first, the second token is a sign that no closing bracket follows, because no
operation is without operands.  With the sign last, whatever stands before the first sign opens
brackets or is an operand, and an operand stands right before it (`SignAfterOperand`); the reader for
signs that come first goes over all of this and finds no bracket before the sign.
-/

namespace Formula

namespace Lexeme

/-- Whether a token is the sign of an operation. -/
def isSign : Lexeme → Bool
  | word w => (Op.ofSign? w).isSome
  | _ => false

/-- A token that is an expression by itself. -/
def IsOperand (t : Lexeme) : Prop := ∃ w e, t = word w ∧ Item.ofWord? w = some (.operand e)

end Lexeme

namespace Item

theorem ofWord?_name (v : Var) : ofWord? v.name = some (.operand (.var v)) := by
  rw [ofWord?, Var.ofName?_name]
  rfl

theorem ofWord?_numeral {w : String} {c : Float} (numeral : Decimal.read? w = some c) :
    ofWord? w = some (.operand (.const c)) := by
  rw [ofWord?, Parser.ofName?_numeral numeral, numeral]
  rfl

theorem ofWord?_sign {o : Op} {sign : String} (known : sign ∈ o.signs) :
    ofWord? sign = some (.operator o) := by
  rw [ofWord?, Parser.ofName?_sign sign known, Parser.read?_sign sign known,
    Op.ofSign?_of_mem sign known]
  rfl

end Item

namespace Lexeme

theorem isSign_word {o : Op} {sign : String} (known : sign ∈ o.signs) : (word sign).isSign := by
  rw [isSign, Op.ofSign?_of_mem sign known]
  rfl

theorem isSign_eq_false {t : Lexeme} (h : t = opening ∨ t.IsOperand) : t.isSign = false := by
  rcases h with rfl | ⟨w, e, rfl, operand⟩
  · rfl
  · rw [isSign, Option.isSome_eq_false_iff, Option.isNone_iff_eq_none,
      Option.eq_none_iff_forall_ne_some]
    intro o sign
    rw [Item.ofWord?_sign (Op.mem_signs_of_ofSign? sign)] at operand
    cases operand

end Lexeme

/-! ### Where operands begin -/

section

variable {n : Notation} {m : Nat} {ts : List Lexeme}

theorem Derives.exists_cons {e : Expr} (h : Derives n m e ts) :
    ∃ t us, ts = t :: us ∧ t ≠ .closing := by
  cases h with
  | var | const | op => exact ⟨_, _, rfl, nofun⟩

theorem DerivesAll.exists_cons {es : List Expr} (h : DerivesAll n m es ts) (several : es ≠ []) :
    ∃ t us, ts = t :: us ∧ t ≠ .closing := by
  cases h with
  | nil => exact absurd rfl several
  | cons head _ =>
    obtain ⟨t, us, rfl, first⟩ := head.exists_cons
    exact ⟨t, _, List.cons_append, first⟩

theorem DerivesAll.ne_nil {es : List Expr} (h : DerivesAll n m es ts) (several : es ≠ []) :
    ts ≠ [] := by
  obtain ⟨t, us, rfl, -⟩ := h.exists_cons several
  exact List.cons_ne_nil t us

end

/-! ### What stands before the first sign -/

/--
The first sign stands right after an operand, and before that operand are other operands and at most
`m` opening brackets.
-/
def SignAfterOperand (m : Nat) (ts : List Lexeme) : Prop :=
  ∃ before operand sign after, ts = before ++ operand :: .word sign :: after ∧
    (∀ t ∈ before, t = .opening ∨ t.IsOperand) ∧ before.count .opening ≤ m ∧
    operand.IsOperand ∧ ∃ o : Op, sign ∈ o.signs

theorem SignAfterOperand.append {m : Nat} {ts : List Lexeme} (h : SignAfterOperand m ts)
    (us : List Lexeme) : SignAfterOperand m (ts ++ us) := by
  obtain ⟨before, operand, sign, after, rfl, rest⟩ := h
  exact ⟨before, operand, sign, after ++ us, by simp, rest⟩

theorem SignAfterOperand.cons_operand {m : Nat} {t : Lexeme} {ts : List Lexeme} (ht : t.IsOperand)
    (h : SignAfterOperand m ts) : SignAfterOperand m (t :: ts) := by
  obtain ⟨before, operand, sign, after, rfl, opens, count, rest⟩ := h
  refine ⟨t :: before, operand, sign, after, rfl, List.forall_mem_cons.2 ⟨.inr ht, opens⟩, ?_, rest⟩
  obtain ⟨w, -, rfl, -⟩ := ht
  simpa using count

theorem SignAfterOperand.cons_opening {m : Nat} {ts : List Lexeme} (h : SignAfterOperand m ts) :
    SignAfterOperand (m + 1) (.opening :: ts) := by
  obtain ⟨before, operand, sign, after, rfl, opens, count, rest⟩ := h
  refine ⟨.opening :: before, operand, sign, after, rfl,
    List.forall_mem_cons.2 ⟨.inl rfl, opens⟩, ?_, rest⟩
  rw [List.count_cons_self]
  exact Nat.succ_le_succ count

/-- The sign that closes a bracket is after an operand, if there is no sign before it. -/
theorem signAfterOperand_of_operands {m : Nat} {ts : List Lexeme} {o : Op} {sign : String}
    (operands : (∀ t ∈ ts, t.IsOperand) ∨ SignAfterOperand m ts) (several : ts ≠ [])
    (known : sign ∈ o.signs) : SignAfterOperand m (ts ++ [.word sign]) := by
  rcases operands with operands | found
  · obtain ⟨before, operand, rfl⟩ : ∃ before operand, ts = before ++ [operand] :=
      ⟨_, _, (List.dropLast_concat_getLast several).symm⟩
    obtain ⟨inside, last⟩ := List.forall_mem_append.1 operands
    refine ⟨before, operand, sign, [], by simp, fun t ht => .inr (inside t ht), ?_,
      List.forall_mem_singleton.1 last, o, known⟩
    rw [List.count_eq_zero_of_not_mem]
    · exact Nat.zero_le m
    · intro opening
      obtain ⟨_, _, word, -⟩ := inside _ opening
      cases word
  · exact found.append _

mutual

/-- With the sign last, an expression is an operand by itself, or its first sign is after one. -/
theorem Derives.first_sign {m : Nat} {e : Expr} {ts : List Lexeme} :
    Derives .signLast m e ts → (∃ t, ts = [t] ∧ t.IsOperand) ∨ SignAfterOperand m ts
  | .var v => .inl ⟨_, rfl, _, _, rfl, Item.ofWord?_name v⟩
  | .const numeral => .inl ⟨_, rfl, _, _, rfl, Item.ofWord?_numeral numeral⟩
  | .op known count operands => by
    have several := operands.ne_nil (Op.ne_nil_of_accepts count)
    exact .inr (.cons_opening
      ((signAfterOperand_of_operands operands.first_sign several known).append _))

theorem DerivesAll.first_sign {m : Nat} {es : List Expr} {ts : List Lexeme} :
    DerivesAll .signLast m es ts → (∀ t ∈ ts, t.IsOperand) ∨ SignAfterOperand m ts
  | .nil => .inl (List.forall_mem_nil _)
  | .cons head tail => by
    rcases head.first_sign with ⟨t, rfl, operand⟩ | found
    · rcases tail.first_sign with operands | found
      · exact .inl (List.forall_mem_cons.2 ⟨operand, operands⟩)
      · exact .inr (found.cons_operand operand)
    · exact .inr (found.append _)

end

namespace Parser

variable {p : Parser}

/-! ### Signs that come first, read by a parser for signs that come last -/

/-- A sign that comes last closes its bracket, and this one does not. -/
theorem onePass_sign_not_last {m : Nat} {bracket sign : Token} {rest : List Token} {o : Op}
    {w : String} (opening : bracket.lexeme = .opening) (word : sign.lexeme = .word w)
    (known : w ∈ o.signs) (next : rest.head?.map (·.lexeme) ≠ some .closing) (shallow : 1 ≤ m) :
    onePass ⟨.signLast, m⟩ (bracket :: sign :: rest) = .error (.missingClosing, sign.span) := by
  rw [onePass_of_opening opening]
  simp only [passOver, passToken, opening, List.length_nil, word, Item.ofWord?_sign known,
    Notation.admitsSign, decide_eq_true_eq]
  rw [if_neg (by omega)]
  simp only [if_neg next]
  rfl

/-! ### Signs that come last, read by a parser for signs that come first -/

/-- Brackets open and operands are put into them as long as no sign and no closing bracket comes. -/
theorem passOver_before {ts : List Token} (last : Text.Span) (before : Option Lexeme)
    (bracket : OpenBracket) (outer : List OpenBracket)
    (opens : ∀ t ∈ ts, t.lexeme = .opening ∨ t.lexeme.IsOperand)
    (deep : outer.length + 1 + (ts.map (·.lexeme)).count .opening ≤ p.maxDepth) :
    ∃ before' bracket' outer', ∀ rest,
      p.passOver last before (bracket :: outer) (ts ++ rest) =
        p.passOver last before' (bracket' :: outer') rest := by
  induction ts generalizing before bracket outer with
  | nil => exact ⟨before, bracket, outer, fun _ => rfl⟩
  | cons t ts ih =>
    obtain ⟨ht, hts⟩ := List.forall_mem_cons.1 opens
    rcases ht with opening | ⟨w, e, word, operand⟩
    · rw [List.map_cons, opening, List.count_cons_self] at deep
      obtain ⟨before', bracket', outer', passed⟩ :=
        ih (some .opening) ⟨t.span, []⟩ (bracket :: outer) hts (by rw [List.length_cons]; omega)
      refine ⟨before', bracket', outer', fun rest => ?_⟩
      rw [← passed, List.cons_append, passOver]
      simp only [passToken, opening, List.length_cons]
      rw [if_neg (by omega)]
    · rw [List.map_cons, word, List.count_cons_of_ne (by simp)] at deep
      obtain ⟨before', bracket', outer', passed⟩ :=
        ih (some (.word w)) { bracket with items := .operand e :: bracket.items } outer hts deep
      refine ⟨before', bracket', outer', fun rest => ?_⟩
      rw [← passed, List.cons_append, passOver]
      simp only [passToken, word, operand, put]

/-- A sign that comes first follows its bracket, and this one follows an operand. -/
theorem onePass_sign_not_first {m : Nat} {bracket operand sign : Token} {before after : List Token}
    {o : Op} {w : String} (opening : bracket.lexeme = .opening)
    (opens : ∀ t ∈ before, t.lexeme = .opening ∨ t.lexeme.IsOperand)
    (deep : 1 + (before.map (·.lexeme)).count .opening ≤ m) (inside : operand.lexeme.IsOperand)
    (word : sign.lexeme = .word w) (known : w ∈ o.signs) :
    onePass ⟨.signFirst, m⟩ (bracket :: (before ++ operand :: sign :: after)) =
      .error (.missingOpening, sign.span) := by
  obtain ⟨w', e, word', item⟩ := inside
  obtain ⟨before', bracket', outer', passed⟩ := passOver_before (p := ⟨.signFirst, m⟩)
    ((before ++ operand :: sign :: after).getLastD bracket).span (some .opening)
    ⟨bracket.span, []⟩ [] opens (by simpa using deep)
  rw [onePass_of_opening opening, passOver]
  simp only [passToken, opening, List.length_nil]
  rw [if_neg (by omega)]
  simp only [passed]
  simp only [passOver, passToken, word', item, put, word, Item.ofWord?_sign known]
  rfl

/-! ### Texts of several tokens -/

variable {m : Nat} {text : String} {e : Expr}

/-- A text of several tokens that is read is an operation in brackets, and has operands. -/
theorem exists_bracket {n : Notation} (h : parse ⟨n, m⟩ text = .ok e)
    (several : 1 < (Token.scan text).length) :
    ∃ k o sign args us, m = k + 1 ∧ sign ∈ Op.signs o ∧ args ≠ [] ∧ DerivesAll n k args us ∧
      (Token.scan text).map (·.lexeme) = .opening :: (n.arrange (.word sign) us ++ [.closing]) := by
  have derives := parse_eq_ok_iff.1 h
  rw [← List.length_map (f := (·.lexeme)), ← lexemes] at several
  rw [← lexemes]
  generalize lexemes text = ts at several derives
  cases derives with
  | var | const => exact absurd several (Nat.lt_irrefl 1)
  | @op k o sign args us known count operands =>
    exact ⟨k, o, sign, args, us, rfl, known, Op.ne_nil_of_accepts count, operands, rfl⟩

theorem parse_signLast_of_signFirst (h : parse ⟨.signFirst, m⟩ text = .ok e)
    (several : 1 < (Token.scan text).length) :
    ∃ t, (Token.scan text)[1]? = some t ∧
      parse ⟨.signLast, m⟩ text = .error ⟨.missingClosing, text, t.span⟩ := by
  obtain ⟨k, o, sign, args, us, rfl, known, nonempty, operands, written⟩ := exists_bracket h several
  obtain ⟨t, us, rfl, first⟩ := operands.exists_cons nonempty
  generalize tokens : Token.scan text = ts at written ⊢
  obtain ⟨t₀, ts, rfl, opening, rest⟩ := List.map_eq_cons_iff.1 written
  obtain ⟨t₁, ts, rfl, word, rest⟩ := List.map_eq_cons_iff.1 rest
  refine ⟨t₁, rfl, parse_eq_error_iff.2 ⟨?_, rfl⟩⟩
  rw [tokens]
  refine onePass_sign_not_last opening word known ?_ (Nat.le_add_left 1 k)
  rw [← List.head?_map, rest]
  simpa using first

theorem parse_signFirst_of_signLast (h : parse ⟨.signLast, m⟩ text = .ok e)
    (several : 1 < (Token.scan text).length) :
    ∃ t, (Token.scan text).find? (·.lexeme.isSign) = some t ∧
      parse ⟨.signFirst, m⟩ text = .error ⟨.missingOpening, text, t.span⟩ := by
  obtain ⟨k, o, sign, args, us, rfl, known, nonempty, operands, written⟩ := exists_bracket h several
  have found := signAfterOperand_of_operands operands.first_sign (operands.ne_nil nonempty) known
  obtain ⟨before, operand, sign', after, inner, opens, shallow, isOperand, o', known'⟩ :=
    found.append [.closing]
  rw [Notation.arrange, inner] at written
  generalize tokens : Token.scan text = ts at written ⊢
  obtain ⟨t₀, inside, rfl, opening, whole⟩ := List.map_eq_cons_iff.1 written
  obtain ⟨ts₁, ts₂, rfl, rfl, rest⟩ := List.map_eq_append_iff.1 whole
  obtain ⟨t₁, ts₂, rfl, rfl, rest₁⟩ := List.map_eq_cons_iff.1 rest
  obtain ⟨t₂, ts₃, rfl, word, -⟩ := List.map_eq_cons_iff.1 rest₁
  rw [List.forall_mem_map] at opens
  refine ⟨t₂, ?_, parse_eq_error_iff.2 ⟨?_, rfl⟩⟩
  · have none : ∀ t ∈ t₀ :: (ts₁ ++ [t₁]), t.lexeme.isSign = false :=
      List.forall_mem_cons.2 ⟨Lexeme.isSign_eq_false (.inl opening), List.forall_mem_append.2
        ⟨fun t ht => Lexeme.isSign_eq_false (opens t ht),
          List.forall_mem_singleton.2 (Lexeme.isSign_eq_false (.inr isOperand))⟩⟩
    refine List.find?_eq_some_iff_append.2 ⟨?_, t₀ :: (ts₁ ++ [t₁]), ts₃, by simp, ?_⟩
    · rw [word]
      exact Lexeme.isSign_word known'
    · exact fun t ht => by rw [none t ht]; rfl
  · rw [tokens]
    refine onePass_sign_not_first opening opens ?_ isOperand word known'
    rw [Nat.add_comm]
    exact Nat.succ_le_succ shallow

/--
No text of several tokens is read in both notations.  A text that is read in both is one word, a
variable or a number, and both read the same.  A longer text that is read with the sign first is
refused with the sign last, because no closing bracket follows its second token.  A longer text that
is read with the sign last is refused with the sign first, because no bracket opens before its first
sign.
-/
theorem notations_exclude (m : Nat) (text : String) :
    (∀ e e', parse ⟨.signFirst, m⟩ text = .ok e → parse ⟨.signLast, m⟩ text = .ok e' →
      e' = e ∧ ∃ w, lexemes text = [.word w] ∧
        ((∃ v : Var, w = v.name ∧ e = .var v) ∨ ∃ c, Decimal.read? w = some c ∧ e = .const c)) ∧
    (∀ e, parse ⟨.signFirst, m⟩ text = .ok e → 1 < (Token.scan text).length →
      ∃ t, (Token.scan text)[1]? = some t ∧
        parse ⟨.signLast, m⟩ text = .error ⟨.missingClosing, text, t.span⟩) ∧
    ∀ e, parse ⟨.signLast, m⟩ text = .ok e → 1 < (Token.scan text).length →
      ∃ t, (Token.scan text).find? (·.lexeme.isSign) = some t ∧
        parse ⟨.signFirst, m⟩ text = .error ⟨.missingOpening, text, t.span⟩ := by
  refine ⟨fun e e' first last => ?_, fun e => parse_signLast_of_signFirst,
    fun e => parse_signFirst_of_signLast⟩
  have single : ¬ 1 < (Token.scan text).length := by
    intro several
    obtain ⟨t, -, refused⟩ := parse_signLast_of_signFirst first several
    cases refused.symm.trans last
  have derives := parse_eq_ok_iff.1 first
  have derives' := parse_eq_ok_iff.1 last
  rw [← List.length_map (f := (·.lexeme)), ← lexemes] at single
  generalize lexemes text = ts at single derives derives'
  cases derives with
  | var v => exact ⟨derives'.unique (.var (m := 0) v), _, rfl, .inl ⟨v, rfl, rfl⟩⟩
  | const numeral =>
    exact ⟨derives'.unique (.const (m := 0) numeral), _, rfl, .inr ⟨_, numeral, rfl⟩⟩
  | op => simp at single

/-- A word, a text with its sign first, and one with its signs last. -/
theorem notations_exclude_of_products :
    let product : Expr := .op .mul [.var .x, .const 2]
    let nested : Expr := .op .mul [.op .neg [.var .x], .var .y]
    (parse ⟨.signFirst, 2⟩ " y" = .ok (.var .y) ∧ parse ⟨.signLast, 2⟩ " y" = .ok (.var .y) ∧
      ∃ w, lexemes " y" = [.word w] ∧ ((∃ v : Var, w = v.name ∧ (.var .y : Expr) = .var v) ∨
        ∃ c, Decimal.read? w = some c ∧ (.var .y : Expr) = .const c)) ∧
    (parse ⟨.signFirst, 2⟩ "(* x 2)" = .ok product ∧
      parse ⟨.signLast, 2⟩ "(* x 2)" = .error ⟨.missingClosing, "(* x 2)", ⟨1, 2⟩⟩) ∧
    parse ⟨.signLast, 2⟩ "((x negate) y *)" = .ok nested ∧
      parse ⟨.signFirst, 2⟩ "((x negate) y *)" =
        .error ⟨.missingOpening, "((x negate) y *)", ⟨4, 10⟩⟩ := by
  intro product nested
  have word (n : Notation) : parse ⟨n, 2⟩ " y" = .ok (.var .y) := by
    have tokens : lexemes " y" = [.word "y"] := by decide
    rw [parse_eq_ok_iff, tokens]
    exact .var .y
  have first : parse ⟨.signFirst, 2⟩ "(* x 2)" = .ok product := by
    have tokens : lexemes "(* x 2)" = [.opening, .word "*", .word "x", .word "2", .closing] := by
      decide
    have times : "*" ∈ Op.mul.signs := by decide
    have two : Decimal.read? "2" = some 2 := by decide +kernel
    rw [parse_eq_ok_iff, tokens]
    exact .op times rfl (.cons (.var .x) (.cons (.const two) .nil))
  have last : parse ⟨.signLast, 2⟩ "((x negate) y *)" = .ok nested := by
    have tokens : lexemes "((x negate) y *)" = [.opening, .opening, .word "x", .word "negate",
        .closing, .word "y", .word "*", .closing] := by
      decide
    have times : "*" ∈ Op.mul.signs := by decide
    have negate : "negate" ∈ Op.neg.signs := by decide
    rw [parse_eq_ok_iff, tokens]
    exact .op times rfl (.cons (.op negate rfl (.cons (.var .x) .nil)) (.cons (.var .y) .nil))
  obtain ⟨second, here, refusedLast⟩ :=
    (notations_exclude 2 "(* x 2)").2.1 product first (by decide)
  obtain ⟨sign, found, refusedFirst⟩ :=
    (notations_exclude 2 "((x negate) y *)").2.2 nested last (by decide)
  obtain rfl : ⟨.word "*", ⟨1, 2⟩⟩ = second := Option.some.inj here
  obtain rfl : ⟨.word "negate", ⟨4, 10⟩⟩ = sign := Option.some.inj (Eq.trans (by decide) found)
  exact ⟨⟨word .signFirst, word .signLast,
    ((notations_exclude 2 " y").1 _ _ (word .signFirst) (word .signLast)).2⟩,
    ⟨first, refusedLast⟩, last, refusedFirst⟩

end Parser

end Formula
