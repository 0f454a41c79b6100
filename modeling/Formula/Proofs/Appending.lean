import Formula.Proofs.OnePass
import Formula.Proofs.Scanning

/-!
# Appending text

After a blank a text is read as on its own, only further on (`scan_blank`).  The pass over the tokens
looks one token ahead at most, and that only for a sign that comes last (`passToken_after`).  What it
finds before the end of the tokens therefore stays when more follow (`passOver_append`).  Only a fault
that the end is to blame for may go: an unclosed bracket, or a sign that comes last and whose closing
bracket is still to come.
-/

namespace Formula

/-! ### Tokens further on -/

/-- The span `k` characters further on. -/
def Text.Span.shift (k : Nat) (s : Span) : Span := ⟨k + s.start, k + s.stop⟩

/-- The token `k` characters further on. -/
def Token.shift (k : Nat) (t : Token) : Token := ⟨t.lexeme, t.span.shift k⟩

namespace Scan

/-- The same reading `k` characters further on, after the given tokens. -/
def shift (k : Nat) (read : List Token) (s : Scan) : Scan :=
  ⟨k + s.place, s.word, s.tokens.map (Token.shift k) ++ read⟩

variable {s : Scan} {k : Nat} {read : List Token}

/-- A word begins in the text. -/
theorem length_word_step (h : s.word.length ≤ s.place) (c : Char) :
    (s.step c).word.length ≤ (s.step c).place := by
  rw [place_step]
  by_cases plain : Text.isPlain c
  · rw [step_plain plain]
    exact Nat.succ_le_succ h
  · rw [step_of_not_plain plain]
    exact Nat.zero_le _

theorem endWord_shift (h : s.word.length ≤ s.place) :
    (s.shift k read).endWord = s.endWord.shift k read := by
  unfold endWord shift
  dsimp only
  split
  · rfl
  · rw [List.map_cons, Token.shift, Text.Span.shift, Nat.add_sub_assoc h]
    rfl

theorem bracketAt_shift (place : Nat) (c : Char) :
    bracketAt (k + place) c = (bracketAt place c).map (Token.shift k) := by
  unfold bracketAt
  split
  · rfl
  · split <;> rfl

theorem step_shift (h : s.word.length ≤ s.place) (c : Char) :
    (s.shift k read).step c = (s.step c).shift k read := by
  by_cases plain : Text.isPlain c
  · rw [step_plain plain, step_plain plain]
    rfl
  · rw [step_of_not_plain plain, step_of_not_plain plain, endWord_shift h]
    simp only [shift, bracketAt_shift, List.map_append, List.append_assoc, Nat.add_assoc]

theorem foldl_shift (k : Nat) (read : List Token) (cs : List Char) (h : s.word.length ≤ s.place) :
    cs.foldl step (s.shift k read) = (cs.foldl step s).shift k read ∧
      (cs.foldl step s).word.length ≤ (cs.foldl step s).place := by
  induction cs generalizing s with
  | nil => exact ⟨rfl, h⟩
  | cons c cs ih =>
    rw [List.foldl_cons, List.foldl_cons, step_shift h]
    exact ih (length_word_step h c)

end Scan

/-- After a blank a text is read as on its own. -/
theorem Token.scan_blank (text more : String) :
    scan (text ++ " " ++ more) = scan text ++ (scan more).map (shift (text.length + 1)) := by
  have chars : (text ++ " " ++ more).toList = text.toList ++ ' ' :: more.toList := by simp
  let s := text.toList.foldl Scan.step {}
  have blank : s.step ' ' = ({} : Scan).shift (text.length + 1) s.endWord.tokens := by
    rw [Scan.step_of_not_plain (by decide), Scan.place_foldl, String.length_toList]
    simp [Scan.shift, Scan.bracketAt]
  obtain ⟨moved, inside⟩ := Scan.foldl_shift (s := {}) (text.length + 1) s.endWord.tokens
    more.toList (Nat.le_refl 0)
  rw [scan, chars, List.foldl_append, List.foldl_cons]
  change ((more.toList.foldl Scan.step (s.step ' ')).endWord.tokens).reverse = _
  rw [blank, moved, Scan.endWord_shift inside, Scan.shift, List.reverse_append, scan, scan,
    List.map_reverse]

/-- Texts may be joined before others are joined to them. -/
theorem intercalate_intercalate (sep a : String) (as bs : List String) :
    sep.intercalate (sep.intercalate (a :: as) :: bs) = sep.intercalate (a :: as ++ bs) := by
  induction as generalizing a with
  | nil => simp
  | cons a' as ih =>
    cases bs with
    | nil => simp
    | cons b bs =>
      have inner := ih a'
      rw [String.intercalate_cons_cons] at inner
      rw [List.cons_append, List.cons_append, String.intercalate_cons_cons,
        String.intercalate_cons_cons, String.intercalate_cons_cons, ← List.cons_append, ← inner]
      simp only [String.append_assoc]

namespace Parser

open Text (Span)

variable {p : Parser} {before : Option Lexeme} {brackets : List OpenBracket}

/-! ### The pass over more tokens -/

/--
The result of a pass over tokens, the last of which stands at `last`, and its result when more are
appended.
-/
inductive Appended (p : Parser) (last : Span) (more : List Token) :
    Except (Fault × Span) Expr → Except (Fault × Span) Expr → Prop
  /-- An expression is followed by the tokens. -/
  | read (e : Expr) : Appended p last more (.ok e) (finish e more)
  /-- The tokens are trailing too. -/
  | trailing (symbols : String) (span : Span) :
      Appended p last more (.error (.trailing symbols, span))
        (.error (.trailing (" ".intercalate (symbols :: more.map (·.lexeme.text))), span))
  /-- The fault was met before. -/
  | refused {fault : Fault} (span : Span) (met : ∀ symbols, fault ≠ .trailing symbols) :
      Appended p last more (.error (fault, span)) (.error (fault, span))
  /-- The tokens may close the bracket. -/
  | unclosed (span : Span) (result : Except (Fault × Span) Expr) :
      Appended p last more (.error (.unclosedBracket, span)) result
  /-- The tokens may begin with the closing bracket that a sign needs. -/
  | unfollowed (order : p.order = .signLast) (result : Except (Fault × Span) Expr) :
      Appended p last more (.error (.missingClosing, last)) result

theorem finish_append (e : Expr) (last : Span) (ts more : List Token) :
    Appended p last more (finish e ts) (finish e (ts ++ more)) := by
  cases ts with
  | nil => exact .read e
  | cons t ts =>
    have joined : " ".intercalate ((t :: (ts ++ more)).map (·.lexeme.text)) =
        " ".intercalate
          (" ".intercalate ((t :: ts).map (·.lexeme.text)) :: more.map (·.lexeme.text)) := by
      rw [List.map_cons, List.map_cons, intercalate_intercalate, List.map_append, List.cons_append]
    rw [List.cons_append, finish, finish, joined]
    exact .trailing _ _

/-- A step looks at the next token only for a sign that comes last. -/
theorem passToken_after (before after : Option Lexeme) (brackets : List OpenBracket)
    (token : Token) :
    p.passToken before none brackets token = p.passToken before after brackets token ∨
      p.order = .signLast ∧
        p.passToken before none brackets token = .error (.missingClosing, token.span) := by
  unfold passToken
  split
  · exact .inl rfl
  · exact .inl rfl
  · split
    · exact .inl rfl
    · exact .inl rfl
    · cases order : p.order with
      | signFirst => exact .inl rfl
      | signLast => exact .inr ⟨rfl, rfl⟩

theorem passOver_append {last last' : Span} {ts : List Token} (more : List Token)
    (place : ∀ t, ts.getLast? = some t → t.span = last) :
    Appended p last more (p.passOver last before brackets ts)
      (p.passOver last' before brackets (ts ++ more)) := by
  induction ts generalizing before brackets with
  | nil => exact .unclosed _ _
  | cons t ts ih =>
    have step : p.passToken before (ts.head?.map (·.lexeme)) brackets t =
          p.passToken before ((ts ++ more).head?.map (·.lexeme)) brackets t ∨
        p.order = .signLast ∧ t.span = last ∧
          p.passToken before (ts.head?.map (·.lexeme)) brackets t =
            .error (.missingClosing, t.span) := by
      cases ts with
      | cons u ts => exact .inl rfl
      | nil =>
        refine (passToken_after before _ brackets t).imp id fun ⟨order, refused⟩ => ?_
        exact ⟨order, place t rfl, refused⟩
    rw [List.cons_append, passOver, passOver]
    rcases step with same | ⟨order, rfl, refused⟩
    · rw [← same]
      cases result : p.passToken before (ts.head?.map (·.lexeme)) brackets t with
      | error refused =>
        obtain ⟨fault, span⟩ := refused
        refine .refused span ?_
        rintro symbols rfl
        rcases passToken_error result with inToken | ⟨-, -, tooDeep, -⟩
        · cases inToken
        · cases tooDeep
      | ok next =>
        cases next with
        | done e => exact finish_append e last ts more
        | within brackets =>
          refine ih fun u hu => place u ?_
          rw [List.getLast?_cons, hu]
          rfl
    · rw [refused]
      exact .unfollowed order _

theorem onePass_append {ts : List Token} (opening : ts.head?.map (·.lexeme) = some .opening)
    (more : List Token) :
    ∃ t, ts.getLast? = some t ∧ Appended p t.span more (p.onePass ts) (p.onePass (ts ++ more)) := by
  match ts with
  | [] => cases opening
  | first :: rest =>
    have bracket : first.lexeme = .opening := Option.some.inj opening
    refine ⟨rest.getLastD first, by simp [List.getLast?_cons], ?_⟩
    rw [List.cons_append, onePass_of_opening bracket, onePass_of_opening bracket, ← List.cons_append]
    refine passOver_append more fun t ht => ?_
    rw [List.getLast?_cons, Option.some.injEq] at ht
    simp [← ht]

/-- A sign at the end lacks its closing bracket until the bracket comes. -/
example :
    let tokens : List Token := [⟨.opening, ⟨0, 1⟩⟩, ⟨.word "x", ⟨1, 2⟩⟩, ⟨.word "negate", ⟨3, 9⟩⟩]
    onePass ⟨.signLast, 1⟩ tokens = .error (.missingClosing, ⟨3, 9⟩) ∧
      onePass ⟨.signLast, 1⟩ (tokens ++ [⟨.closing, ⟨10, 11⟩⟩]) = .ok (.op .neg [.var .x]) :=
  ⟨rfl, rfl⟩

/--
What is appended to a text that begins with a bracket, after a blank, repairs no fault but that of the
end.  After an expression it is trailing, or blank; after trailing tokens it is trailing too; and any
other fault stays what and where it was, unless a bracket is not closed or the last token is a sign
that lacks its closing bracket.
-/
theorem append_repairs_nothing (p : Parser) {text : String}
    (opening : (lexemes text).head? = some .opening) (more : String) :
    (∀ e, p.parse text = .ok e →
      (Token.scan more = [] → p.parse (text ++ " " ++ more) = .ok e) ∧
        ∀ t ts, Token.scan more = t :: ts → p.parse (text ++ " " ++ more) =
          .error ⟨.trailing (" ".intercalate ((t :: ts).map (·.lexeme.text))),
            text ++ " " ++ more, t.span.shift (text.length + 1)⟩) ∧
      (∀ symbols input span, p.parse text = .error ⟨.trailing symbols, input, span⟩ →
        p.parse (text ++ " " ++ more) =
          .error ⟨.trailing (" ".intercalate (symbols :: (Token.scan more).map (·.lexeme.text))),
            text ++ " " ++ more, span⟩) ∧
      ∀ fault input span, p.parse text = .error ⟨fault, input, span⟩ →
        (∀ symbols, fault ≠ .trailing symbols) → fault ≠ .unclosedBracket →
        ¬ (p.order = .signLast ∧ fault = .missingClosing ∧
          (Token.scan text).getLast?.map (·.span) = some span) →
        p.parse (text ++ " " ++ more) = .error ⟨fault, text ++ " " ++ more, span⟩ := by
  rw [lexemes, List.head?_map] at opening
  have texts : ((Token.scan more).map (Token.shift (text.length + 1))).map (·.lexeme.text) =
      (Token.scan more).map (·.lexeme.text) := by
    rw [List.map_map]
    rfl
  obtain ⟨last, final, appended⟩ := onePass_append (p := p) opening
    ((Token.scan more).map (Token.shift (text.length + 1)))
  rw [← Token.scan_blank] at appended
  refine ⟨fun e parsed => ?_, fun symbols input span refused => ?_,
    fun fault input span refused notTrailing notUnclosed notUnfollowed => ?_⟩
  · rw [pass_eq_ok_iff.2 parsed] at appended
    generalize result : p.onePass (Token.scan (text ++ " " ++ more)) = whole at appended
    cases appended
    refine ⟨fun nothing => ?_, fun t ts several => parse_eq_error_iff.2 ⟨?_, rfl⟩⟩
    · rw [nothing] at result
      exact pass_eq_ok_iff.1 result
    · rw [several] at result
      rw [result, ← several, ← texts, several]
      rfl
  · rw [(parse_eq_error_iff.1 refused).1] at appended
    generalize result : p.onePass (Token.scan (text ++ " " ++ more)) = whole at appended
    cases appended with
    | trailing => exact parse_eq_error_iff.2 ⟨by rw [result, texts], rfl⟩
    | refused _ met => exact absurd rfl (met symbols)
  · rw [(parse_eq_error_iff.1 refused).1] at appended
    generalize result : p.onePass (Token.scan (text ++ " " ++ more)) = whole at appended
    cases appended with
    | trailing symbols => exact absurd rfl (notTrailing symbols)
    | refused => exact parse_eq_error_iff.2 ⟨result, rfl⟩
    | unclosed => exact absurd rfl notUnclosed
    | unfollowed order => exact absurd ⟨order, rfl, by rw [final]; rfl⟩ notUnfollowed

theorem append_repairs_nothing_trailing :
    let p : Parser := ⟨.signFirst, 1⟩
    let text := "(- x y) 2"
    let more := " ) z"
    (lexemes text).head? = some .opening ∧
      p.parse text = .error ⟨.trailing "2", text, ⟨8, 9⟩⟩ ∧
      p.parse (text ++ " " ++ more) =
        .error ⟨.trailing "2 ) z", text ++ " " ++ more, ⟨8, 9⟩⟩ := by
  intro p text more
  have tokens : Token.scan text =
      [⟨.opening, ⟨0, 1⟩⟩, ⟨.word "-", ⟨1, 2⟩⟩, ⟨.word "x", ⟨3, 4⟩⟩, ⟨.word "y", ⟨5, 6⟩⟩,
        ⟨.closing, ⟨6, 7⟩⟩, ⟨.word "2", ⟨8, 9⟩⟩] := by
    decide
  have others : Token.scan more = [⟨.closing, ⟨1, 2⟩⟩, ⟨.word "z", ⟨3, 4⟩⟩] := by decide
  have symbols : " ".intercalate ["2", ")", "z"] = "2 ) z" := by decide
  have opening : (lexemes text).head? = some .opening := by rw [lexemes, tokens]; rfl
  have refused : p.parse text = .error ⟨.trailing "2", text, ⟨8, 9⟩⟩ := by
    refine parse_eq_error_iff.2 ⟨?_, rfl⟩
    rw [tokens]
    rfl
  obtain ⟨-, trailing, -⟩ := append_repairs_nothing p opening more
  have longer := trailing "2" text ⟨8, 9⟩ refused
  rw [others] at longer
  exact ⟨opening, refused, symbols ▸ longer⟩

end Parser

end Formula
