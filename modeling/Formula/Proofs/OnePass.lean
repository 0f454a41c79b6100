import Formula.Proofs.Descent

/-!
# The first fault in one pass

Reading needs no recursion: one pass over the tokens, with a stack of the brackets that are open,
gives the same expression or the same fault at the same place (`onePass_eq`).  The pass is written
down here without the descent.  It says which of several faults is reported: the one that it meets
first, where a bracket is judged at its closing token, first for being empty, then for what stands
in the place of its sign, then for its operand count.

The descent of a bracket is the pass over the same tokens with that bracket on top of the stack
(`passOver_content`); the proof follows the loop of the bracket.  That no bracket holds a second
sign comes from `content_sound`, so the pass has no fault for it.

A step of the pass is refused for a fault of its word or bracket, or for the depth (`passToken_error`);
the end of the text is no matter of a step.
-/

namespace Formula

open Text (Span)

namespace Item

/-- What a word stands for: a variable, else a number, else a sign. -/
def ofWord? (w : String) : Option Item :=
  ((Var.ofName? w).map fun v => .operand (.var v)) <|>
    ((Decimal.read? w).map fun c => .operand (.const c)) <|> (Op.ofSign? w).map .operator

/-- The expression of an operand. -/
def operand? : Item → Option Expr
  | operand e => some e
  | operator _ => none

end Item

/-- Whether a fault lies in a word or in one bracket, and not in the nesting or the end of a text. -/
def Fault.isLocal : Fault → Bool
  | .emptyInput | .unclosedBracket | .trailing _ | .tooDeep _ => false
  | _ => true

namespace Parser

/-! ### The pass -/

/-- A bracket that is open: where it opens, and its items so far, the last first. -/
structure OpenBracket where
  span : Span
  items : List Item

/-- Where a pass is after a token. -/
inductive Pass where
  /-- At the end of the expression. -/
  | done (e : Expr)
  /-- Within brackets, the innermost first. -/
  | within (brackets : List OpenBracket)

/-- The expression of a bracket that closes, from its items in order. -/
def shut (n : Notation) (items : List Item) : Except Fault Expr :=
  match n.takeSign items with
  | none => .error .emptyBracket
  | some (.operand e, _) => .error (.signExpected (n = .signFirst) (e.render n))
  | some (.operator o, others) =>
    let args := others.filterMap Item.operand?
    if o.arity.accepts args.length then .ok (.op o args)
    else .error (.operandCount o.sign o.arity args.length)

/--
Puts an item into the innermost bracket.  Outside all brackets an operand is the whole expression,
and a sign lacks its bracket.
-/
def put (p : Parser) (item : Item) (span : Span) : List OpenBracket → Except (Fault × Span) Pass
  | bracket :: outer => .ok (.within ({ bracket with items := item :: bracket.items } :: outer))
  | [] =>
    match item with
    | .operand e => .ok (.done e)
    | .operator _ => .error (p.order.missingBracket, span)

/-- One token of the pass, with what the tokens beside it say. -/
def passToken (p : Parser) (before after : Option Lexeme) (brackets : List OpenBracket)
    (token : Token) : Except (Fault × Span) Pass :=
  match token.lexeme with
  | .opening =>
    if p.maxDepth < brackets.length + 1 then .error (.tooDeep p.maxDepth, token.span)
    else .ok (.within (⟨token.span, []⟩ :: brackets))
  | .closing =>
    match brackets with
    | [] => .error (.missingOpening, token.span)
    | bracket :: outer =>
      match shut p.order bracket.items.reverse with
      | .error fault => .error (fault, bracket.span)
      | .ok e => p.put (.operand e) token.span outer
  | .word w =>
    match Item.ofWord? w with
    | none => .error (.unknownWord w, token.span)
    | some (.operand e) => p.put (.operand e) token.span brackets
    | some (.operator o) =>
      if p.order.admitsSign before after then p.put (.operator o) token.span brackets
      else .error (p.order.missingBracket, token.span)

/-- Accepts an expression that no token follows. -/
def finish (e : Expr) : List Token → Except (Fault × Span) Expr
  | [] => .ok e
  | token :: rest =>
    .error (.trailing (" ".intercalate ((token :: rest).map (·.lexeme.text))), token.span)

/-- The pass over the tokens that are left, the very last of which stands at `last`. -/
def passOver (p : Parser) (last : Span) (before : Option Lexeme) (brackets : List OpenBracket) :
    List Token → Except (Fault × Span) Expr
  | [] => .error (.unclosedBracket, last)
  | token :: rest =>
    match p.passToken before (rest.head?.map (·.lexeme)) brackets token with
    | .error fault => .error fault
    | .ok (.done e) => finish e rest
    | .ok (.within brackets) => p.passOver last (some token.lexeme) brackets rest

/-- The expression that tokens write, or the first fault and its place. -/
def onePass (p : Parser) : List Token → Except (Fault × Span) Expr
  | [] => .error (.emptyInput, .single 0)
  | token :: rest =>
    let last := rest.getLastD token
    if token.lexeme ≠ .opening ∧ last.lexeme = .closing then .error (.missingOpening, token.span)
    else p.passOver last.span none [] (token :: rest)

/-- After an opening bracket the guard on the last token does not matter. -/
theorem onePass_of_opening {p : Parser} {token : Token} (opening : token.lexeme = .opening)
    (rest : List Token) :
    p.onePass (token :: rest) =
      p.passOver (rest.getLastD token).span none [] (token :: rest) :=
  if_neg fun guarded => guarded.1 opening

/-! ### Faults of a step -/

theorem isLocal_missingBracket (n : Notation) : n.missingBracket.isLocal := by
  cases n <;> rfl

theorem isLocal_of_put {p : Parser} {item : Item} {span span' : Span} {fault : Fault}
    {brackets : List OpenBracket} (h : p.put item span brackets = .error (fault, span')) :
    fault.isLocal := by
  match brackets, item with
  | _ :: _, _ => cases h
  | [], .operand _ => cases h
  | [], .operator _ =>
    obtain ⟨rfl, -⟩ := Prod.mk.inj (Except.error.inj h)
    exact isLocal_missingBracket p.order

/-- What can be wrong with the items of a bracket. -/
theorem shut_error {n : Notation} {items : List Item} {fault : Fault}
    (h : shut n items = .error fault) :
    fault = .emptyBracket ∨ (∃ first found, fault = .signExpected first found) ∨
      ∃ sign expected found, fault = .operandCount sign expected found := by
  unfold shut at h
  split at h
  · exact .inl (Except.error.inj h).symm
  · exact .inr (.inl ⟨_, _, (Except.error.inj h).symm⟩)
  · dsimp only at h
    split at h
    · cases h
    · exact .inr (.inr ⟨_, _, _, (Except.error.inj h).symm⟩)

theorem isLocal_of_shut {n : Notation} {items : List Item} {fault : Fault}
    (h : shut n items = .error fault) : fault.isLocal := by
  rcases shut_error h with rfl | ⟨_, _, rfl⟩ | ⟨_, _, _, rfl⟩ <;> rfl

/-- A step is refused for a local fault, or at an opening bracket for its depth. -/
theorem passToken_error {p : Parser} {before after : Option Lexeme} {brackets : List OpenBracket}
    {token : Token} {fault : Fault} {span : Span}
    (h : p.passToken before after brackets token = .error (fault, span)) :
    fault.isLocal ∨ token.lexeme = .opening ∧ p.maxDepth < brackets.length + 1 ∧
      fault = .tooDeep p.maxDepth ∧ span = token.span := by
  unfold passToken at h
  split at h
  · next opening =>
    split at h
    · next deep =>
      obtain ⟨rfl, rfl⟩ := Prod.mk.inj (Except.error.inj h)
      exact .inr ⟨opening, deep, rfl, rfl⟩
    · cases h
  · split at h
    · obtain ⟨rfl, -⟩ := Prod.mk.inj (Except.error.inj h)
      exact .inl rfl
    · split at h
      · next judged =>
        obtain ⟨rfl, -⟩ := Prod.mk.inj (Except.error.inj h)
        exact .inl (isLocal_of_shut judged)
      · exact .inl (isLocal_of_put h)
  · split at h
    · obtain ⟨rfl, -⟩ := Prod.mk.inj (Except.error.inj h)
      exact .inl rfl
    · exact .inl (isLocal_of_put h)
    · split at h
      · exact .inl (isLocal_of_put h)
      · obtain ⟨rfl, -⟩ := Prod.mk.inj (Except.error.inj h)
        exact .inl (isLocal_missingBracket p.order)

/-! ### Words and brackets are judged alike -/

theorem readWord_eq (n : Notation) (before after : Option Lexeme) (w : String) :
    readWord n before after w =
      match Item.ofWord? w with
      | none => .error (.unknownWord w)
      | some (.operand e) => .ok (.operand e)
      | some (.operator o) =>
        if n.admitsSign before after then .ok (.operator o) else .error n.missingBracket := by
  unfold readWord Item.ofWord?
  cases Var.ofName? w with
  | some v => rfl
  | none =>
    cases Decimal.read? w with
    | some c => rfl
    | none => cases Op.ofSign? w <;> rfl

/-- A bracket that the descent has read holds at most one sign, so its other items are operands. -/
theorem close_eq_shut {n : Notation} {m : Nat} {items : List Item} {ts : List Lexeme}
    (contents : Contents n m .opening items ts) : close n items = shut n items := by
  cases contents with
  | @operands es _ derives =>
    cases n with
    | signFirst => cases es <;> rfl
    | signLast =>
      rcases List.eq_nil_or_concat es with rfl | ⟨es, e, rfl⟩
      · rfl
      · simp [close, shut, Notation.takeSign]
  | @signed o _ es _ known place derives =>
    have args : (es.map Item.operand).filterMap Item.operand? = es := by
      simp [List.filterMap_map, Function.comp_def, Item.operand?]
    rw [close_arrange, shut, Notation.takeSign_arrange]
    simp only [args]

/-! ### The descent is the pass -/

/-- A token from what it says and its number. -/
def tokenAt (place : Nat → Span) (t : Lexeme × Nat) : Token := ⟨t.1, place t.2⟩

/-- What the pass does when the innermost bracket, opened at `opened`, closes on its items. -/
def passBracket (p : Parser) (last opened : Span) (outer : List OpenBracket) (items : List Item)
    (rest : List Token) : Except (Fault × Span) Expr :=
  match shut p.order items with
  | .error fault => .error (fault, opened)
  | .ok e =>
    match outer with
    | [] => finish e rest
    | bracket :: outer =>
      p.passOver last (some .closing)
        ({ bracket with items := .operand e :: bracket.items } :: outer) rest

variable {p : Parser} {place : Nat → Span}

theorem passOver_content (last : Nat) (before : Lexeme) (opened : Span) (read : List Item)
    {depth size : Nat} {outer : List OpenBracket} {rest : List (Lexeme × Nat)}
    (level : outer.length + 1 = depth) (short : rest.length ≤ size) :
    p.passOver (place last) (some before) (⟨opened, read⟩ :: outer) (rest.map (tokenAt place)) =
      match content p last depth before read size rest short with
      | .error blame => .error (blame.fault, place blame.token)
      | .ok (items, after) =>
        p.passBracket (place last) opened outer items (after.val.map (tokenAt place)) := by
  match rest with
  | [] =>
    rw [content]
    rfl
  | (.closing, k) :: rest =>
    rw [content, List.map_cons, passOver]
    simp only [passToken, tokenAt, passBracket]
    cases shut p.order read.reverse with
    | error fault => rfl
    | ok e => cases outer <;> rfl
  | (.opening, k) :: rest =>
    rw [content, List.map_cons, passOver, bracket]
    simp only [passToken, tokenAt, List.length_cons, level]
    by_cases deep : p.maxDepth < depth + 1
    · simp only [if_pos deep]
    · have inner : (⟨opened, read⟩ :: outer : List OpenBracket).length + 1 = depth + 1 := by
        rw [List.length_cons, level]
      simp only [if_neg deep]
      rw [passOver_content last .opening (place k) [] inner (Nat.le_refl _)]
      cases inside : content p last (depth + 1) .opening [] rest.length rest (Nat.le_refl _) with
      | error blame => rfl
      | ok result =>
        obtain ⟨items, after, shorter⟩ := result
        obtain ⟨ts, _, -, _, rfl, contents⟩ := content_sound inside
        simp only [passBracket]
        rw [close_eq_shut contents]
        cases shut p.order items with
        | error fault => rfl
        | ok e => exact passOver_content last .closing opened _ level _
  | (.word w, k) :: rest =>
    have next : (rest.map (tokenAt place)).head?.map (·.lexeme) = rest.head?.map Prod.fst := by
      cases rest <;> rfl
    rw [content, List.map_cons, passOver, readWord_eq, next]
    simp only [passToken, tokenAt]
    cases Item.ofWord? w with
    | none => rfl
    | some item =>
      cases item with
      | operand e => exact passOver_content last (.word w) opened _ level _
      | operator o =>
        cases p.order.admitsSign (some before) (rest.head?.map Prod.fst) with
        | false => rfl
        | true => exact passOver_content last (.word w) opened _ level _
termination_by rest.length

theorem passOver_expression (place : Nat → Span) (last : Nat) {ts : List (Lexeme × Nat)}
    (some : ts ≠ []) :
    p.passOver (place last) none [] (ts.map (tokenAt place)) =
      match p.expression last ts with
      | .error blame => .error (blame.fault, place blame.token)
      | .ok (e, rest) => finish e (rest.map (tokenAt place)) := by
  match ts with
  | [] => exact absurd rfl some
  | (.closing, k) :: rest => rfl
  | (.opening, k) :: rest =>
    rw [List.map_cons, passOver, expression, bracket]
    simp only [passToken, tokenAt, List.length_nil, Nat.zero_add]
    by_cases deep : p.maxDepth < 1
    · simp only [if_pos deep]
      rfl
    · simp only [if_neg deep]
      rw [passOver_content last .opening (place k) [] rfl (Nat.le_refl _)]
      cases inside : content p last 1 .opening [] rest.length rest (Nat.le_refl _) with
      | error blame => rfl
      | ok result =>
        obtain ⟨items, after, shorter⟩ := result
        obtain ⟨ts, _, -, _, rfl, contents⟩ := content_sound inside
        simp only [passBracket]
        rw [close_eq_shut contents]
        cases shut p.order items <;> rfl
  | (.word w, k) :: rest =>
    have next : (rest.map (tokenAt place)).head?.map (·.lexeme) = rest.head?.map Prod.fst := by
      cases rest <;> rfl
    rw [List.map_cons, passOver, expression, readWord_eq, next]
    simp only [passToken, tokenAt]
    cases Item.ofWord? w with
    | none => rfl
    | some item =>
      cases item with
      | operand e => rfl
      | operator o => cases p.order.admitsSign none (rest.head?.map Prod.fst) <;> rfl

/-- Numbered by their places in the list, the tokens are themselves. -/
theorem map_tokenAt_zipIdx (tokens : List Token) :
    (tokens.map (·.lexeme)).zipIdx.map (tokenAt (placeOf tokens)) = tokens := by
  apply List.ext_getElem
  · simp
  · intro i h h'
    simp [tokenAt, placeOf, h']

theorem parseLexemes_eq (ts : List Lexeme) :
    p.parseLexemes ts =
      if ts.head? ≠ some .opening ∧ ts.getLast? = some .closing then .error ⟨.missingOpening, 0⟩
      else match p.expression (ts.length - 1) ts.zipIdx with
        | .error blame => .error blame
        | .ok (e, []) => .ok e
        | .ok (_, (t, k) :: rest) =>
          .error ⟨.trailing (" ".intercalate (t.text :: rest.map (·.1.text))), k⟩ := by
  unfold parseLexemes
  cases p.expression (ts.length - 1) ts.zipIdx with
  | error blame => rfl
  | ok result =>
    obtain ⟨e, _ | ⟨t, rest⟩⟩ := result <;> rfl

theorem onePass_eq (tokens : List Token) :
    p.onePass tokens =
      match p.parseLexemes (tokens.map (·.lexeme)) with
      | .error blame => .error (blame.fault, placeOf tokens blame.token)
      | .ok e => .ok e := by
  match tokens with
  | [] => rfl
  | first :: rest =>
    let tokens := first :: rest
    let ts := tokens.map (·.lexeme)
    have lastLexeme : ts.getLast? = some (rest.getLastD first).lexeme := by
      simp [ts, tokens, List.getLast?_cons]
    have lastPlace : (rest.getLastD first).span = placeOf tokens (ts.length - 1) := by
      rw [placeOf, List.length_map, ← List.getLast?_eq_getElem?, List.getLast?_cons,
        List.getLastD_eq_getLast?]
    have numbered : ts.zipIdx ≠ [] := by simp [ts, tokens]
    have run := passOver_expression (p := p) (placeOf tokens) (ts.length - 1) numbered
    have whole := parseLexemes_eq (p := p) ts
    rw [map_tokenAt_zipIdx, ← lastPlace] at run
    rw [lastLexeme, show ts.head? = some first.lexeme from rfl] at whole
    simp only [ne_eq, Option.some.injEq] at whole
    change p.onePass tokens = match p.parseLexemes ts with
      | .error blame => .error (blame.fault, placeOf tokens blame.token)
      | .ok e => .ok e
    rw [onePass, whole, run]
    by_cases guarded : ¬first.lexeme = .opening ∧ (rest.getLastD first).lexeme = .closing
    · simp only [ne_eq, if_pos guarded]
      rfl
    · simp only [ne_eq, if_neg guarded]
      cases p.expression (ts.length - 1) ts.zipIdx with
      | error blame => rfl
      | ok result =>
        obtain ⟨e, _ | ⟨⟨t, k⟩, after⟩⟩ := result
        · rfl
        · simp [finish, tokenAt, Function.comp_def]

/-- Reading is the pass, and its faults are reported with the text. -/
theorem parse_eq_pass (p : Parser) (text : String) :
    p.parse text =
      match p.onePass (Token.scan text) with
      | .error (fault, span) => .error ⟨fault, text, span⟩
      | .ok e => .ok e := by
  rw [onePass_eq, parse]
  cases p.parseLexemes ((Token.scan text).map (·.lexeme)) <;> rfl

theorem parse_eq_error_iff {text : String} {err : ParseError} :
    p.parse text = .error err ↔
      p.onePass (Token.scan text) = .error (err.fault, err.span) ∧ err.input = text := by
  obtain ⟨fault, input, span⟩ := err
  rw [parse_eq_pass]
  rcases p.onePass (Token.scan text) with ⟨fault', span'⟩ | e
  · simp only [Except.error.injEq, ParseError.mk.injEq, Prod.mk.injEq]
    grind
  · simp

theorem pass_eq_ok_iff {text : String} {e : Expr} :
    p.onePass (Token.scan text) = .ok e ↔ p.parse text = .ok e := by
  rw [parse_eq_pass]
  cases p.onePass (Token.scan text) <;> simp

/-- The outer bracket is never closed, but the inner one is met first, and it is empty. -/
example :
    onePass {} [⟨.opening, .single 0⟩, ⟨.opening, .single 1⟩, ⟨.closing, .single 2⟩] =
      .error (.emptyBracket, .single 1) :=
  rfl

/--
Reading is one pass over the tokens with a stack of open brackets: the same expression, or the same
fault with all that it says, at the same place.
-/
theorem parse_eq_onePass (p : Parser) (tokens : List Token) (text : String) :
    p.onePass tokens =
        (p.parseLexemes (tokens.map (·.lexeme))).mapError
          (fun blame => (blame.fault, placeOf tokens blame.token)) ∧
      p.parse text =
        (p.onePass (Token.scan text)).mapError fun (fault, span) => ⟨fault, text, span⟩ := by
  constructor
  · rw [onePass_eq]
    cases p.parseLexemes (tokens.map (·.lexeme)) <;> rfl
  · rw [onePass_eq, parse]
    cases p.parseLexemes ((Token.scan text).map (·.lexeme)) <;> rfl

end Parser

end Formula
