import Formula.Proofs.Exclusion
import Formula.Proofs.Faults
import Formula.Proofs.Partition

/-!
# What is blamed

Every fault of a text that has tokens is blamed on one of them, and the fault says which
(`Fault.Blames`).  The descent numbers the tokens and blames by number.  Whatever it finds wrong,
the number it blames is that of a token (`placed_of_origin`); only then is the number turned into a
place.

The tokens and their numbers are all that the descent knows of a text.  Other white space between
the same tokens therefore moves the place of a fault and changes nothing else (`layout_is_free`).
-/

namespace Formula

/-- Whether a fault may be blamed on token `i`. -/
def Fault.Blames (ts : List Lexeme) (i : Nat) : Fault → Prop
  | emptyInput => False
  | unclosedBracket => i + 1 = ts.length
  | emptyBracket | signExpected .. | operandCount .. | tooDeep _ => ts[i]? = some .opening
  | missingOpening | missingClosing => (∃ t, ts[i]? = some t ∧ t.isSign) ∨ i = 0
  | unknownWord w => ts[i]? = some (.word w)
  | trailing symbols => 0 < i ∧ symbols = " ".intercalate ((ts.drop i).map (·.text))

/-- The number is that of a token, which may be blamed for the fault. -/
def Blame.Placed (ts : List Lexeme) (b : Blame) : Prop :=
  b.token < ts.length ∧ b.fault.Blames ts b.token

namespace Parser

variable {p : Parser} {n : Notation} {ts : List Lexeme} {b : Blame}

/-! ### Numbered tokens -/

theorem number_eq_length {before rest : List (Lexeme × Nat)} {t : Lexeme} {k : Nat}
    (split : ts.zipIdx = before ++ (t, k) :: rest) : k = before.length := by
  have found : ts.zipIdx[before.length]? = some (t, k) := by
    rw [split, List.getElem?_append_right (Nat.le_refl _), Nat.sub_self]
    rfl
  simp only [List.getElem?_zipIdx, Option.map_eq_some_iff, Prod.mk.injEq] at found
  obtain ⟨-, -, -, number⟩ := found
  omega

/-- From a numbered token on, the tokens are those from its number on. -/
theorem drop_of_suffix {t : Lexeme} {k : Nat} {rest : List (Lexeme × Nat)}
    (h : (t, k) :: rest <:+ ts.zipIdx) : ts.drop k = t :: rest.map Prod.fst := by
  obtain ⟨before, split⟩ := h
  have tokens : ts = before.map Prod.fst ++ t :: rest.map Prod.fst := by
    rw [← List.zipIdx_map_fst 0 ts, ← split, List.map_append, List.map_cons]
  rw [number_eq_length split.symm, tokens, List.drop_left' (List.length_map _)]

theorem getElem?_of_suffix {t : Lexeme} {k : Nat} {rest : List (Lexeme × Nat)}
    (h : (t, k) :: rest <:+ ts.zipIdx) : ts[k]? = some t := by
  rw [← List.head?_drop, drop_of_suffix h]
  rfl

theorem placed_of_blames {fault : Fault} {t : Lexeme} {k : Nat} (h : ts[k]? = some t)
    (blames : fault.Blames ts k) : Blame.Placed ts ⟨fault, k⟩ :=
  ⟨(List.getElem?_eq_some_iff.1 h).1, blames⟩

/-! ### One word and one bracket -/

theorem blames_of_readWord {before after : Option Lexeme} {w : String} {fault : Fault} {k : Nat}
    (h : readWord n before after w = .error fault) (word : ts[k]? = some (.word w)) :
    fault.Blames ts k := by
  unfold readWord at h
  split at h
  · cases h
  · split at h
    · cases h
    · split at h
      · next o sign =>
        split at h
        · cases h
        · obtain rfl := Except.error.inj h
          have isSign : (Lexeme.word w).isSign := by
            rw [Lexeme.isSign, sign]
            rfl
          cases n <;> exact .inl ⟨_, word, isSign⟩
      · obtain rfl := Except.error.inj h
        exact word

theorem blames_of_shut {items : List Item} {fault : Fault} {k : Nat}
    (h : shut n items = .error fault) (opening : ts[k]? = some .opening) : fault.Blames ts k := by
  rcases shut_error h with rfl | ⟨_, _, rfl⟩ | ⟨_, _, _, rfl⟩ <;> exact opening

/-- The first token may be blamed for a missing bracket, whatever it is. -/
theorem blames_first (ts : List Lexeme) {fault : Fault} (missing : fault.isMissingBracket) :
    fault.Blames ts 0 := by
  cases fault with
  | missingOpening | missingClosing => exact .inr rfl
  | _ => cases missing

/-! ### Lists of tokens -/

theorem placed_of_origin (nonempty : ts ≠ []) (h : Origin p (ts.length - 1) ts.zipIdx b) :
    b.Placed ts := by
  cases h with
  | unclosed =>
    have positive := List.length_pos_iff.2 nonempty
    exact ⟨Nat.sub_one_lt_of_lt positive, Nat.sub_add_cancel positive⟩
  | word inside refused =>
    have word := List.mk_mem_zipIdx_iff_getElem?.1 inside
    exact placed_of_blames word (blames_of_readWord refused word)
  | deep inside =>
    have opening := List.mk_mem_zipIdx_iff_getElem?.1 inside
    exact placed_of_blames opening opening
  | judged inside refused =>
    have opening := List.mk_mem_zipIdx_iff_getElem?.1 inside
    exact placed_of_blames opening (blames_of_shut refused opening)

/-- A fault of tokens is blamed on one of them, unless there are none. -/
theorem parseLexemes_blames (h : p.parseLexemes ts = .error b) :
    ts = [] ∧ b = ⟨.emptyInput, 0⟩ ∨ b.Placed ts := by
  cases parseLexemes_refusal h with
  | empty nothing => exact .inl ⟨nothing, rfl⟩
  | @first t us fault tokens _ missing =>
    have found : ts[0]? = some t := by rw [tokens, List.getElem?_cons_zero]
    exact .inr (placed_of_blames found (blames_first ts missing))
  | inside nonempty origin => exact .inr (placed_of_origin nonempty origin)
  | @trailing e t k rest read =>
    obtain ⟨us, split, derives⟩ := expression_sound read
    have suffix : (t, k) :: rest <:+ ts.zipIdx := ⟨us, split.symm⟩
    refine .inr (placed_of_blames (getElem?_of_suffix suffix) ⟨?_, ?_⟩)
    · obtain ⟨_, _, first, -⟩ := derives.exists_cons
      rw [number_eq_length split, ← List.length_map (f := Prod.fst), first]
      exact Nat.succ_pos _
    · rw [drop_of_suffix suffix, List.map_cons, List.map_map]
      rfl

/-! ### Places -/

theorem placeOf_of_lt {text : String} {i : Nat} (h : i < (lexemes text).length) :
    ∃ t, (Token.scan text)[i]? = some t ∧ placeOf (Token.scan text) i = t.span := by
  rw [lexemes, List.length_map] at h
  have found := List.getElem?_eq_getElem h
  exact ⟨_, found, by rw [placeOf, found]⟩

theorem placeOf_of_nil {text : String} (h : lexemes text = []) (i : Nat) :
    Token.scan text = [] ∧ placeOf (Token.scan text) i = .single 0 := by
  have none : Token.scan text = [] := List.map_eq_nil_iff.1 h
  exact ⟨none, by rw [none]; rfl⟩

theorem parse_error {text : String} (h : p.parseLexemes (lexemes text) = .error b) :
    p.parse text = .error ⟨b.fault, text, placeOf (Token.scan text) b.token⟩ := by
  rw [lexemes] at h
  rw [parse, h]

theorem exists_blame {text : String} {e : ParseError} (h : p.parse text = .error e) :
    ∃ b, p.parseLexemes (lexemes text) = .error b ∧
      e = ⟨b.fault, text, placeOf (Token.scan text) b.token⟩ := by
  cases result : p.parseLexemes (lexemes text) with
  | ok e' =>
    rw [parse_eq_ok_iff.2 (parseLexemes_eq_ok_iff.1 result)] at h
    cases h
  | error b =>
    rw [parse_error result] at h
    exact ⟨b, rfl, (Except.error.inj h).symm⟩

theorem parse_blames {text : String} {e : ParseError} (h : p.parse text = .error e) :
    e.input = text ∧
      (Token.scan text = [] ∧ e.fault = .emptyInput ∧ e.span = .single 0 ∨
        ∃ i t, (Token.scan text)[i]? = some t ∧ e.span = t.span ∧
          e.fault.Blames (lexemes text) i) := by
  obtain ⟨b, refused, rfl⟩ := exists_blame h
  refine ⟨rfl, ?_⟩
  rcases parseLexemes_blames refused with ⟨empty, rfl⟩ | ⟨within, blames⟩
  · obtain ⟨none, place⟩ := placeOf_of_nil empty 0
    exact .inl ⟨none, rfl, place⟩
  · obtain ⟨t, found, place⟩ := placeOf_of_lt within
    exact .inr ⟨b.token, t, found, place, blames⟩

end Parser

/-! ### The report -/

namespace ParseError

/-- The input as it is quoted. -/
def quoted (e : ParseError) : List Char := '"' :: (e.input.toList ++ ['"'])

/--
The report ends in two lines, the quoted input and a caret, and in the column of the caret the token
begins in the line above.
-/
def PointsAt (e : ParseError) (t : Token) : Prop :=
  let column := t.span.start + 1
  (∃ above, e.report.toList.splitOn '\n' =
      above ++ [e.quoted, List.replicate column ' ' ++ ['^']]) ∧
    t.lexeme.text.toList <+: e.quoted.drop column

theorem splitOn_report {e : ParseError} (h : '\n' ∉ e.input.toList) :
    e.report.toList.splitOn '\n' =
      e.message.toList.splitOn '\n' ++ [e.quoted, List.replicate (e.offset + 1) ' ' ++ ['^']] := by
  generalize caret : List.replicate (e.offset + 1) ' ' ++ ['^'] = below
  have report : e.report.toList = e.message.toList ++ '\n' :: (e.quoted ++ '\n' :: below) := by
    simp [ParseError.report, caretLine, quoted, ← caret]
  have quote : '\n' ∉ e.quoted := by simpa [quoted] using h
  have caret : '\n' ∉ below := by simp [← caret]
  rw [report, List.splitOn_append_cons_self, List.splitOn_append_cons_self,
    List.splitOn_eq_singleton quote, List.splitOn_eq_singleton caret]
  rfl

theorem pointsAt {e : ParseError} {t : Token} {ts : List Token} (h : Partition e.input.toList ts)
    (ht : t ∈ ts) (span : e.span = t.span) (line : '\n' ∉ e.input.toList) : e.PointsAt t := by
  have inside := h.inside t ht
  have column : e.offset = t.span.start := congrArg Text.Span.start span
  refine ⟨⟨_, column ▸ splitOn_report line⟩, ?_⟩
  rw [quoted, List.drop_succ_cons, ← h.said t ht, Text.Span.chars,
    List.drop_append_of_le_length (by omega)]
  exact (List.take_prefix _ _).trans (List.prefix_append _ _)

end ParseError

theorem Partition.forall_isBlank {cs : List Char} (h : Partition cs []) :
    ∀ c ∈ cs, Text.isBlank c := by
  intro c hc
  obtain ⟨i, found⟩ := List.mem_iff_getElem?.1 hc
  exact (h.between i c found).2 (List.forall_mem_nil _)

namespace Parser

/--
A text that is refused is all white space, or one of its tokens is blamed.  Which token it may be is
known from the fault, and the fault is placed where the token is.  If the text is one line, the
caret of the report stands below the first character of the token.
-/
theorem blames_token {p : Parser} {text : String} {e : ParseError} (h : p.parse text = .error e) :
    e.input = text ∧
      ((∀ c ∈ text.toList, Text.isBlank c) ∧ e.fault = .emptyInput ∧ e.span = ⟨0, 1⟩ ∨
        ∃ i t, (Token.scan text)[i]? = some t ∧ e.fault.Blames (lexemes text) i ∧
          e.span = t.span ∧ t.span.start < t.span.stop ∧ t.span.stop ≤ text.length ∧
          t.span.chars text.toList = t.lexeme.text.toList ∧
          ('\n' ∉ text.toList → e.PointsAt t)) := by
  obtain ⟨rfl, blamed⟩ := parse_blames h
  have parts := Token.partition_scan e.input
  refine ⟨rfl, ?_⟩
  rcases blamed with ⟨none, fault, span⟩ | ⟨i, t, found, span, blames⟩
  · rw [none] at parts
    exact .inl ⟨parts.forall_isBlank, fault, span⟩
  · have ht := List.mem_of_getElem? found
    obtain ⟨long, within⟩ := parts.inside t ht
    rw [String.length_toList] at within
    exact .inr ⟨i, t, found, blames, span, long, within, parts.said t ht,
      ParseError.pointsAt parts ht span⟩

/-- Characters are counted, not the bytes that write them. -/
theorem blames_token_wide :
    let p : Parser := ⟨.signLast, 1⟩
    let text := "(x negate)\u00a0é )"
    let e : ParseError := ⟨.trailing "é )", text, ⟨11, 12⟩⟩
    p.parse text = .error e ∧
      e.input = text ∧
      ((∀ c ∈ text.toList, Text.isBlank c) ∧ e.fault = .emptyInput ∧ e.span = ⟨0, 1⟩ ∨
        ∃ i t, (Token.scan text)[i]? = some t ∧ e.fault.Blames (lexemes text) i ∧
          e.span = t.span ∧ t.span.start < t.span.stop ∧ t.span.stop ≤ text.length ∧
          t.span.chars text.toList = t.lexeme.text.toList ∧
          ('\n' ∉ text.toList → e.PointsAt t)) ∧
      e.report =
        "Redundant symbols after correct expression: 'é )'\n" ++
          "\"(x negate)\u00a0é )\"\n" ++
          "            ^" := by
  intro p text e
  have tokens : Token.scan text =
      [⟨.opening, ⟨0, 1⟩⟩, ⟨.word "x", ⟨1, 2⟩⟩, ⟨.word "negate", ⟨3, 9⟩⟩, ⟨.closing, ⟨9, 10⟩⟩,
        ⟨.word "é", ⟨11, 12⟩⟩, ⟨.closing, ⟨13, 14⟩⟩] := by
    decide
  have symbols : " ".intercalate ["é", ")"] = "é )" := by decide
  have refused : p.parse text = .error e := by
    refine parse_eq_error_iff.2 ⟨?_, rfl⟩
    rw [tokens]
    change _ = Except.error (Fault.trailing "é )", _)
    rw [← symbols]
    rfl
  obtain ⟨input, blamed⟩ := blames_token refused
  exact ⟨refused, input, blamed, by decide⟩

/-! ### Layout -/

/-- Two places are those of the same token of two texts, or the start of texts without tokens. -/
def SamePlace (ts us : List Token) (s s' : Text.Span) : Prop :=
  ts = [] ∧ us = [] ∧ s = .single 0 ∧ s' = .single 0 ∨
    ∃ (i : Nat) (t u : Token), ts[i]? = some t ∧ us[i]? = some u ∧ s = t.span ∧ s' = u.span

theorem lexemes_eq_map_ofText (text : String) :
    lexemes text = ((Token.scan text).map (·.lexeme.text)).map Lexeme.ofText := by
  rw [lexemes, List.map_map]
  exact List.map_congr_left fun t ht =>
    ((Token.partition_scan text).proper t ht).ofText_text.symm

/--
Texts with the same tokens are read alike, whatever white space is between them: to the same
expression, or to the same fault with all that it says, blamed on the same token.
-/
theorem layout_is_free (p : Parser) {a b : String}
    (same : (Token.scan a).map (·.lexeme.text) = (Token.scan b).map (·.lexeme.text)) :
    (∃ e, p.parse a = .ok e ∧ p.parse b = .ok e) ∨
      ∃ fault s t, p.parse a = .error ⟨fault, a, s⟩ ∧ p.parse b = .error ⟨fault, b, t⟩ ∧
        SamePlace (Token.scan a) (Token.scan b) s t := by
  have tokens : lexemes a = lexemes b := by
    rw [lexemes_eq_map_ofText a, same, ← lexemes_eq_map_ofText]
  cases result : p.parseLexemes (lexemes a) with
  | ok e =>
    have derives := parseLexemes_eq_ok_iff.1 result
    exact .inl ⟨e, parse_eq_ok_iff.2 derives, parse_eq_ok_iff.2 (tokens ▸ derives)⟩
  | error blame =>
    refine .inr ⟨blame.fault, _, _, parse_error result, parse_error (tokens ▸ result), ?_⟩
    rcases parseLexemes_blames result with ⟨empty, rfl⟩ | ⟨within, -⟩
    · obtain ⟨none, place⟩ := placeOf_of_nil empty 0
      obtain ⟨none', place'⟩ := placeOf_of_nil (tokens ▸ empty) 0
      exact .inl ⟨none, none', place, place'⟩
    · obtain ⟨t, found, place⟩ := placeOf_of_lt within
      obtain ⟨u, found', place'⟩ := placeOf_of_lt (tokens ▸ within)
      exact .inr ⟨_, t, u, found, found', place, place'⟩

theorem layout_is_free_wide_blanks :
    let p : Parser := ⟨.signFirst, 2⟩
    let a := "(* x ())"
    let b := "\u2003(*\u0085x\n(\u3000\t)  )"
    (Token.scan a).map (·.lexeme.text) = (Token.scan b).map (·.lexeme.text) ∧
      ((∃ e, p.parse a = .ok e ∧ p.parse b = .ok e) ∨
        ∃ fault s t, p.parse a = .error ⟨fault, a, s⟩ ∧ p.parse b = .error ⟨fault, b, t⟩ ∧
          SamePlace (Token.scan a) (Token.scan b) s t) ∧
      p.parse a = .error ⟨.emptyBracket, a, ⟨5, 6⟩⟩ ∧
      p.parse b = .error ⟨.emptyBracket, b, ⟨6, 7⟩⟩ := by
  intro p a b
  have tokens : Token.scan a =
      [⟨.opening, ⟨0, 1⟩⟩, ⟨.word "*", ⟨1, 2⟩⟩, ⟨.word "x", ⟨3, 4⟩⟩, ⟨.opening, ⟨5, 6⟩⟩,
        ⟨.closing, ⟨6, 7⟩⟩, ⟨.closing, ⟨7, 8⟩⟩] := by
    decide
  have tokens' : Token.scan b =
      [⟨.opening, ⟨1, 2⟩⟩, ⟨.word "*", ⟨2, 3⟩⟩, ⟨.word "x", ⟨4, 5⟩⟩, ⟨.opening, ⟨6, 7⟩⟩,
        ⟨.closing, ⟨9, 10⟩⟩, ⟨.closing, ⟨12, 13⟩⟩] := by
    decide
  have same : (Token.scan a).map (·.lexeme.text) = (Token.scan b).map (·.lexeme.text) := by
    rw [tokens, tokens']
    rfl
  refine ⟨same, layout_is_free p same, ?_, ?_⟩
  · refine parse_eq_error_iff.2 ⟨?_, rfl⟩
    rw [tokens]
    rfl
  · refine parse_eq_error_iff.2 ⟨?_, rfl⟩
    rw [tokens']
    rfl

end Parser

end Formula
