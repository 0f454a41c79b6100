import Formula.Proofs.OnePass

/-!
# The nesting limit

The limit ends a pass and changes nothing else.  A step of the pass asks for it at opening brackets
only, and there ends with `tooDeep` or goes on as under every larger limit (`passToken_limit`).  The
stack of the pass holds as many brackets as are open in the tokens read (`length_of_passToken`), so it
ends at the first bracket that is nested too deep (`passOver_tooDeep`).
-/

namespace Formula

/-- How many brackets are open after a token, when `depth` are open before it. -/
def Lexeme.level (depth : Nat) : Lexeme → Nat
  | opening => depth + 1
  | closing => depth - 1
  | word _ => depth

theorem Lexeme.level_le {t : Lexeme} (h : t ≠ .opening) (depth : Nat) : t.level depth ≤ depth := by
  cases t with
  | opening => exact absurd rfl h
  | closing => exact Nat.sub_le depth 1
  | word w => exact Nat.le_refl depth

/--
The opening brackets among tokens, each with the number of brackets that are open there, itself
included, when `depth` are open before the tokens.
-/
def Token.openings (depth : Nat) : List Token → List (Token × Nat)
  | [] => []
  | t :: ts =>
    if t.lexeme = .opening then (t, depth + 1) :: openings (depth + 1) ts
    else openings (t.lexeme.level depth) ts

/-- No more brackets are open than were opened. -/
theorem Token.level_le_of_mem_openings {depth : Nat} {ts : List Token} :
    ∀ x ∈ openings depth ts, x.2 ≤ depth + (ts.map (·.lexeme)).count .opening := by
  induction ts generalizing depth with
  | nil => exact List.forall_mem_nil _
  | cons t ts ih =>
    rw [openings, List.map_cons]
    split
    · next opening =>
      rw [opening, List.count_cons_self]
      refine List.forall_mem_cons.2 ⟨by dsimp only; omega, fun x hx => ?_⟩
      have deeper := ih x hx
      omega
    · next other =>
      rw [List.count_cons_of_ne other]
      exact fun x hx =>
        Nat.le_trans (ih x hx) (Nat.add_le_add_right (Lexeme.level_le other depth) _)

namespace Parser

open Text (Span)

variable {p : Parser} {n : Notation} {m m' : Nat} {before after : Option Lexeme}
  {brackets brackets' : List OpenBracket} {token : Token}

/-! ### One token -/

theorem length_of_put {item : Item} {span : Span}
    (h : p.put item span brackets = .ok (.within brackets')) :
    brackets'.length = brackets.length := by
  match brackets with
  | [] => cases item <;> cases h
  | bracket :: outer =>
    obtain rfl := Pass.within.inj (Except.ok.inj h)
    rfl

/-- The stack of a pass is as high as the tokens are nested. -/
theorem length_of_passToken (h : p.passToken before after brackets token = .ok (.within brackets')) :
    brackets'.length = token.lexeme.level brackets.length := by
  unfold passToken at h
  split at h
  · next opening =>
    rw [opening]
    split at h
    · cases h
    · obtain rfl := Pass.within.inj (Except.ok.inj h)
      rfl
  · next closing =>
    rw [closing]
    split at h
    · cases h
    · split at h
      · cases h
      · exact length_of_put h
  · next w word =>
    rw [word]
    split at h
    · cases h
    · exact length_of_put h
    · split at h
      · exact length_of_put h
      · cases h

/-- The stack of a pass stays within the limit. -/
theorem passToken_inside (inside : brackets.length ≤ p.maxDepth)
    (h : p.passToken before after brackets token = .ok (.within brackets')) :
    brackets'.length ≤ p.maxDepth := by
  have level := length_of_passToken h
  by_cases opening : token.lexeme = .opening
  · rw [opening, Lexeme.level] at level
    simp only [passToken, opening] at h
    split at h
    · cases h
    · omega
  · have le := Lexeme.level_le opening brackets.length
    omega

/-- A step is refused for the limit, or is the same with every larger limit. -/
theorem passToken_limit (h : m ≤ m') (before after : Option Lexeme) (brackets : List OpenBracket)
    (token : Token) :
    passToken ⟨n, m⟩ before after brackets token = .error (.tooDeep m, token.span) ∨
      passToken ⟨n, m⟩ before after brackets token =
        passToken ⟨n, m'⟩ before after brackets token := by
  unfold passToken
  split
  · by_cases deep : m < brackets.length + 1
    · exact .inl (if_pos deep)
    · have deep' : ¬ m' < brackets.length + 1 := by omega
      exact .inr ((if_neg deep).trans (if_neg deep').symm)
  · exact .inr rfl
  · exact .inr rfl

/-! ### Whole passes -/

theorem passOver_limit (h : m ≤ m') (last : Span) (before : Option Lexeme)
    (brackets : List OpenBracket) (ts : List Token) :
    (∃ span, passOver ⟨n, m⟩ last before brackets ts = .error (.tooDeep m, span)) ∨
      passOver ⟨n, m⟩ last before brackets ts = passOver ⟨n, m'⟩ last before brackets ts := by
  induction ts generalizing before brackets with
  | nil => exact .inr rfl
  | cons t ts ih =>
    rw [passOver, passOver]
    rcases passToken_limit (n := n) h before (ts.head?.map (·.lexeme)) brackets t with cut | same
    · rw [cut]
      exact .inl ⟨t.span, rfl⟩
    · rw [same]
      cases passToken ⟨n, m'⟩ before (ts.head?.map (·.lexeme)) brackets t with
      | error fault => exact .inr rfl
      | ok next =>
        cases next with
        | done e => exact .inr rfl
        | within brackets => exact ih (some t.lexeme) brackets

/-- The bracket that is blamed for its depth is the first that is nested deeper than the limit. -/
theorem passOver_tooDeep {last span : Span} {limit : Nat} {ts : List Token}
    (inside : brackets.length ≤ p.maxDepth)
    (h : p.passOver last before brackets ts = .error (.tooDeep limit, span)) :
    limit = p.maxDepth ∧ ∃ t, span = t.span ∧
      (Token.openings brackets.length ts).find? (·.2 = p.maxDepth + 1) =
        some (t, p.maxDepth + 1) := by
  induction ts generalizing before brackets with
  | nil => cases h
  | cons t ts ih =>
    rw [passOver] at h
    split at h
    · next fault refused =>
      obtain rfl := Except.error.inj h
      rcases passToken_error refused with inToken | ⟨opening, deep, limited, place⟩
      · cases inToken
      · have level : brackets.length = p.maxDepth := by omega
        refine ⟨Fault.tooDeep.inj limited, t, place, ?_⟩
        rw [Token.openings, if_pos opening, List.find?_cons_of_pos (by simp [level]), level]
    · next e done =>
      unfold finish at h
      split at h <;> cases h
    · next brackets' read =>
      obtain ⟨limited, t', place, first⟩ := ih (passToken_inside inside read) h
      have level := length_of_passToken read
      refine ⟨limited, t', place, ?_⟩
      rw [Token.openings]
      split
      · next opening =>
        rw [opening, Lexeme.level] at level
        have shallow := passToken_inside inside read
        rw [List.find?_cons_of_neg (by simp; omega), ← level]
        exact first
      · rw [← level]
        exact first

theorem onePass_limit (h : m ≤ m') (tokens : List Token) :
    (∃ span, onePass ⟨n, m⟩ tokens = .error (.tooDeep m, span)) ∨
      onePass ⟨n, m⟩ tokens = onePass ⟨n, m'⟩ tokens := by
  match tokens with
  | [] => exact .inr rfl
  | token :: rest =>
    unfold onePass
    dsimp only
    split
    · exact .inr rfl
    · exact passOver_limit h _ none [] (token :: rest)

theorem onePass_tooDeep {tokens : List Token} {limit : Nat} {span : Span}
    (h : p.onePass tokens = .error (.tooDeep limit, span)) :
    limit = p.maxDepth ∧ ∃ t, span = t.span ∧
      (Token.openings 0 tokens).find? (·.2 = p.maxDepth + 1) = some (t, p.maxDepth + 1) := by
  match tokens with
  | [] => cases h
  | token :: rest =>
    unfold onePass at h
    dsimp only at h
    split at h
    · cases h
    · exact passOver_tooDeep (Nat.zero_le _) h

/--
A limit on nesting only cuts.  A text is refused for the limit, or read as under every larger limit,
to the same expression or the same error.  It is refused at the first bracket at which one more is
open than the limit allows, and never if it opens no more brackets in all.
-/
theorem limit_only_cuts (n : Notation) {m m' : Nat} (h : m ≤ m') (text : String) :
    ((∃ span, parse ⟨n, m⟩ text = .error ⟨.tooDeep m, text, span⟩) ∨
        parse ⟨n, m⟩ text = parse ⟨n, m'⟩ text) ∧
      (∀ limit input span, parse ⟨n, m⟩ text = .error ⟨.tooDeep limit, input, span⟩ →
        limit = m ∧ input = text ∧ ∃ t, span = t.span ∧
          (Token.openings 0 (Token.scan text)).find? (·.2 = m + 1) = some (t, m + 1)) ∧
      ((lexemes text).count .opening ≤ m →
        ∀ limit input span, parse ⟨n, m⟩ text ≠ .error ⟨.tooDeep limit, input, span⟩) := by
  have first (limit : Nat) (input : String) (span : Span)
      (deep : parse ⟨n, m⟩ text = .error ⟨.tooDeep limit, input, span⟩) :
      limit = m ∧ input = text ∧ ∃ t, span = t.span ∧
        (Token.openings 0 (Token.scan text)).find? (·.2 = m + 1) = some (t, m + 1) := by
    obtain ⟨refused, input⟩ := parse_eq_error_iff.1 deep
    obtain ⟨limit, found⟩ := onePass_tooDeep refused
    exact ⟨limit, input, found⟩
  refine ⟨?_, first, fun few limit input span deep => ?_⟩
  · rcases onePass_limit (n := n) h (Token.scan text) with ⟨span, cut⟩ | same
    · exact .inl ⟨span, parse_eq_error_iff.2 ⟨cut, rfl⟩⟩
    · right
      rw [parse_eq_pass, parse_eq_pass, same]
  · obtain ⟨-, -, t, -, found⟩ := first limit input span deep
    have nested := Token.level_le_of_mem_openings _ (List.mem_of_find?_eq_some found)
    rw [← lexemes] at nested
    omega

/-- The inner bracket is blamed for its depth, or for what is in it if it may be nested so deep. -/
theorem limit_only_cuts_inner_bracket :
    let text := "((x +) 1 +)"
    1 ≤ 2 ∧
      (((∃ span, parse ⟨.signLast, 1⟩ text = .error ⟨.tooDeep 1, text, span⟩) ∨
          parse ⟨.signLast, 1⟩ text = parse ⟨.signLast, 2⟩ text) ∧
        (∀ limit input span, parse ⟨.signLast, 1⟩ text = .error ⟨.tooDeep limit, input, span⟩ →
          limit = 1 ∧ input = text ∧ ∃ t, span = t.span ∧
            (Token.openings 0 (Token.scan text)).find? (·.2 = 1 + 1) = some (t, 1 + 1)) ∧
        ((lexemes text).count .opening ≤ 1 →
          ∀ limit input span, parse ⟨.signLast, 1⟩ text ≠ .error ⟨.tooDeep limit, input, span⟩)) ∧
      parse ⟨.signLast, 1⟩ text = .error ⟨.tooDeep 1, text, ⟨1, 2⟩⟩ ∧
      parse ⟨.signLast, 2⟩ text =
        .error ⟨.operandCount "+" (.exactly 2) 1, text, ⟨1, 2⟩⟩ := by
  intro text
  have tokens : Token.scan text =
      [⟨.opening, ⟨0, 1⟩⟩, ⟨.opening, ⟨1, 2⟩⟩, ⟨.word "x", ⟨2, 3⟩⟩, ⟨.word "+", ⟨4, 5⟩⟩,
        ⟨.closing, ⟨5, 6⟩⟩, ⟨.word "1", ⟨7, 8⟩⟩, ⟨.word "+", ⟨9, 10⟩⟩, ⟨.closing, ⟨10, 11⟩⟩] := by
    decide
  refine ⟨by decide, limit_only_cuts .signLast (by decide) text, ?_, ?_⟩
  · refine parse_eq_error_iff.2 ⟨?_, rfl⟩
    rw [tokens]
    rfl
  · refine parse_eq_error_iff.2 ⟨?_, rfl⟩
    rw [tokens]
    rfl

end Parser

end Formula
