import Formula.Proofs.Grammar

/-!
# The descent reads the grammar

The parser accepts a list of tokens exactly when they derive an expression, and answers with that
expression (`parseLexemes_eq_ok_iff`).  Both directions follow the descent.  `content_derives` says
that the loop steps over the tokens of an operand as over one item, whatever it read before and
whatever follows; `content_sound` says what the items and tokens of a bracket are once its loop has
ended: operands alone, or a sign in its place beside them (`Contents`).  The loop looks at one
neighbour of a sign only, and the neighbour of a prefix sign is always the opening bracket because
no later item follows one.
-/

namespace Formula

namespace Parser

/-! ### Words -/

theorem read?_name (v : Var) : Decimal.read? v.name = none := by
  cases v <;> rfl

theorem read?_sign {o : Op} : ∀ sign ∈ o.signs, Decimal.read? sign = none := by
  cases o <;> decide

theorem ofName?_sign {o : Op} : ∀ sign ∈ o.signs, Var.ofName? sign = none := by
  cases o <;> decide

theorem ofName?_numeral {w : String} {c : Float} (numeral : Decimal.read? w = some c) :
    Var.ofName? w = none := by
  rw [Option.eq_none_iff_forall_ne_some]
  intro v named
  rw [← Var.ofName?_eq_some_iff.1 named, read?_name] at numeral
  cases numeral

variable {n : Notation} {before after : Option Lexeme}

theorem readWord_name (v : Var) : readWord n before after v.name = .ok (.operand (.var v)) := by
  simp [readWord, Var.ofName?_name]

theorem readWord_numeral {w : String} {c : Float} (numeral : Decimal.read? w = some c) :
    readWord n before after w = .ok (.operand (.const c)) := by
  simp [readWord, ofName?_numeral numeral, numeral]

theorem readWord_sign {o : Op} {sign : String} (known : sign ∈ o.signs) :
    readWord n before after sign =
      if n.admitsSign before after then .ok (.operator o) else .error n.missingBracket := by
  simp [readWord, ofName?_sign sign known, read?_sign sign known, Op.ofSign?_of_mem sign known]

/-- A word that is read is an operand by itself, or a sign in a place that admits one. -/
theorem readWord_sound {w : String} {item : Item} (h : readWord n before after w = .ok item) :
    (∃ e, item = .operand e ∧ ∀ m, Derives n m e [.word w]) ∨
      ∃ o, item = .operator o ∧ w ∈ o.signs ∧ n.admitsSign before after := by
  unfold readWord at h
  split at h
  · next v named =>
    obtain rfl := Except.ok.inj h
    rw [← Var.ofName?_eq_some_iff.1 named]
    exact .inl ⟨.var v, rfl, fun _ => .var v⟩
  · split at h
    · next c numeral =>
      obtain rfl := Except.ok.inj h
      exact .inl ⟨.const c, rfl, fun _ => .const numeral⟩
    · split at h
      · next o known =>
        split at h
        · next admitted =>
          obtain rfl := Except.ok.inj h
          exact .inr ⟨o, rfl, Op.mem_signs_of_ofSign? known, admitted⟩
        · cases h
      · cases h

/-! ### Closing a bracket -/

theorem operands_map_operand (es : List Expr) : operands n (es.map .operand) = .ok es := by
  induction es with
  | nil => rfl
  | cons e es ih =>
    unfold operands at ih ⊢
    rw [List.map_cons, List.mapM_cons, ih]
    rfl

theorem close_arrange (o : Op) (es : List Expr) :
    close n (n.arrange (.operator o) (es.map .operand)) =
      if o.arity.accepts es.length then .ok (.op o es)
      else .error (.operandCount o.sign o.arity es.length) := by
  unfold close
  rw [Notation.takeSign_arrange]
  dsimp only
  rw [operands_map_operand]
  rfl

/-- Operands without a sign make no expression. -/
theorem close_operands_ne_ok (es : List Expr) (e : Expr) :
    close n (es.map .operand) ≠ .ok e := by
  cases n with
  | signFirst => cases es <;> simp [close, Notation.takeSign]
  | signLast =>
    rcases List.eq_nil_or_concat es with rfl | ⟨es, e', rfl⟩ <;> simp [close, Notation.takeSign]

/-! ### What the loop of a bracket has read -/

/--
What is left of a bracket after the token `before`, as items and as tokens: operands, and perhaps
the sign in its place beside them.
-/
inductive Contents (n : Notation) (m : Nat) (before : Lexeme) : List Item → List Lexeme → Prop
  | operands {es : List Expr} {ts : List Lexeme} (derives : DerivesAll n m es ts) :
      Contents n m before (es.map .operand) ts
  | signed {o : Op} {sign : String} {es : List Expr} {ts : List Lexeme} (known : sign ∈ o.signs)
      (place : n = .signFirst → before = .opening) (derives : DerivesAll n m es ts) :
      Contents n m before (n.arrange (.operator o) (es.map .operand))
        (n.arrange (.word sign) ts)

theorem Contents.cons {m : Nat} {last before : Lexeme} {e : Expr} {items : List Item}
    {ts us : List Lexeme} (head : Derives n m e ts) (inside : last ≠ .opening)
    (tail : Contents n m last items us) : Contents n m before (.operand e :: items) (ts ++ us) := by
  cases tail with
  | operands derives => exact .operands (.cons head derives)
  | signed known place derives =>
    cases n with
    | signFirst => exact absurd (place rfl) inside
    | signLast =>
      simpa [Notation.arrange] using
        (.signed known (by simp) (.cons head derives) : Contents .signLast m before _ _)

/-- After a prefix sign come only operands. -/
theorem Contents.sign_cons {m : Nat} {before : Lexeme} {o : Op} {sign : String}
    {items : List Item} {us : List Lexeme}
    (tail : Contents .signFirst m (.word sign) items us) (known : sign ∈ o.signs)
    (place : before = .opening) :
    Contents .signFirst m before (.operator o :: items) (.word sign :: us) := by
  cases tail with
  | operands derives => exact .signed known (fun _ => place) derives
  | signed _ place _ => cases place rfl

theorem close_contents {m : Nat} {items : List Item} {ts : List Lexeme} {e : Expr}
    (contents : Contents n m .opening items ts) (h : close n items = .ok e) :
    Derives n (m + 1) e (.opening :: (ts ++ [.closing])) := by
  cases contents with
  | operands derives => exact absurd h (close_operands_ne_ok _ _)
  | signed known place derives =>
    rw [close_arrange] at h
    split at h
    · next count =>
      obtain rfl := Except.ok.inj h
      exact .op known count derives
    · cases h

variable {p : Parser} {last : Nat}

mutual

theorem bracket_sound {depth place : Nat} {rest : List (Lexeme × Nat)} {e : Expr}
    {after : Fewer rest.length} (h : bracket p last depth place rest = .ok (e, after)) :
    depth ≤ p.maxDepth ∧ ∃ ts, rest = ts ++ after.val ∧
      Derives p.order (p.maxDepth - depth + 1) e (.opening :: ts.map Prod.fst) := by
  rw [bracket] at h
  split at h
  · cases h
  · next shallow =>
    split at h
    · cases h
    · next items after' read =>
      split at h
      · cases h
      · next e' closed =>
        obtain ⟨rfl, rfl⟩ := Prod.mk.inj (Except.ok.inj h)
        obtain ⟨ts, k, split, new, rfl, contents⟩ := content_sound read
        refine ⟨by omega, ts ++ [(.closing, k)], by simpa using split, ?_⟩
        simpa using close_contents contents closed
termination_by (rest.length, 1)

theorem content_sound {depth : Nat} {before : Lexeme} {read : List Item} {size : Nat}
    {rest : List (Lexeme × Nat)} {short : rest.length ≤ size} {items : List Item}
    {after : Fewer size} (h : content p last depth before read size rest short = .ok (items, after)) :
    ∃ ts k, rest = ts ++ (.closing, k) :: after.val ∧ ∃ new, items = read.reverse ++ new ∧
      Contents p.order (p.maxDepth - depth) before new (ts.map Prod.fst) := by
  match rest with
  | [] =>
    rw [content] at h
    cases h
  | (.closing, k) :: rest =>
    rw [content] at h
    obtain ⟨rfl, rfl⟩ := Prod.mk.inj (Except.ok.inj h)
    exact ⟨[], k, rfl, [], by simp, .operands .nil⟩
  | (.opening, place) :: rest =>
    rw [content] at h
    split at h
    · cases h
    · next e inside shorter bracket =>
      obtain ⟨deep, ts, split, derives⟩ := bracket_sound bracket
      obtain ⟨us, k, split', new, rfl, contents⟩ := content_sound h
      refine ⟨(.opening, place) :: ts ++ us, k, ?_, .operand e :: new, by simp, ?_⟩
      · change _ :: rest = _ :: (ts ++ us) ++ _
        rw [List.cons_append, List.append_assoc, ← split', split]
      · have : p.maxDepth - (depth + 1) + 1 = p.maxDepth - depth := by omega
        rw [this] at derives
        simpa using contents.cons derives (by simp)
  | (.word w, place) :: rest =>
    rw [content] at h
    split at h
    · cases h
    · next item word =>
      rcases readWord_sound word with ⟨e, rfl, derives⟩ | ⟨o, rfl, known, admitted⟩
      · obtain ⟨us, k, split, new, rfl, contents⟩ := content_sound h
        refine ⟨(.word w, place) :: us, k, by simp [split], .operand e :: new, by simp, ?_⟩
        simpa using contents.cons (derives _) (by simp)
      · cases order : p.order with
        | signFirst =>
          obtain ⟨us, k, split, new, rfl, contents⟩ := content_sound h
          rw [order] at admitted contents
          refine ⟨(.word w, place) :: us, k, by simp [split], .operator o :: new, by simp, ?_⟩
          exact contents.sign_cons known (by simpa [Notation.admitsSign] using admitted)
        | signLast =>
          -- The next token closes the bracket, so nothing more is read.
          rw [order] at admitted
          obtain ⟨k, rest, rfl⟩ : ∃ k us, rest = (.closing, k) :: us := by
            rcases rest with _ | ⟨⟨t, k⟩, us⟩ <;> simp_all [Notation.admitsSign]
          rw [content] at h
          obtain ⟨rfl, rfl⟩ := Prod.mk.inj (Except.ok.inj h)
          refine ⟨[(.word w, place)], k, rfl, [.operator o], by simp, ?_⟩
          exact .signed known (by simp) .nil
termination_by (rest.length, 0)

end

/-! ### Stepping over operands -/

/-- In a bracket `depth` deep, the loop steps over the tokens as over the given items. -/
def StepsOver (p : Parser) (last depth : Nat) (ts : List (Lexeme × Nat)) (items : List Item) :
    Prop :=
  ∀ (before : Lexeme) (read : List Item) (size : Nat) (rest : List (Lexeme × Nat))
    (short : (ts ++ rest).length ≤ size), ∃ (before' : Lexeme) (short' : rest.length ≤ size),
      content p last depth before read size (ts ++ rest) short =
        content p last depth before' (items.reverse ++ read) size rest short'

theorem StepsOver.append {depth : Nat} {ts us : List (Lexeme × Nat)} {items items' : List Item}
    (first : StepsOver p last depth ts items) (second : StepsOver p last depth us items') :
    StepsOver p last depth (ts ++ us) (items ++ items') := by
  intro before read size rest short
  obtain ⟨before₁, short₁, eq₁⟩ := first before read size (us ++ rest) (by simpa using short)
  obtain ⟨before₂, short₂, eq₂⟩ := second before₁ (items.reverse ++ read) size rest short₁
  refine ⟨before₂, short₂, ?_⟩
  simpa using eq₁.trans eq₂

theorem stepsOver_word {depth place : Nat} {w : String} {item : Item}
    (word : ∀ before after, readWord p.order before after w = .ok item) :
    StepsOver p last depth [(.word w, place)] [item] := by
  intro before read size rest short
  refine ⟨.word w, Nat.le_of_lt short, ?_⟩
  change content p last depth before read size ((.word w, place) :: rest) short = _
  rw [content, word]
  rfl

/-- The loop of a bracket ends at its closing token, with the sign and the operands. -/
theorem content_arrange {depth size : Nat} {o : Op} {sign : String} {items : List Item}
    {ts us rest : List (Lexeme × Nat)} {i k : Nat} (known : sign ∈ o.signs)
    (operands : StepsOver p last depth ts items)
    (tokens : us = p.order.arrange (.word sign, i) ts ++ (.closing, k) :: rest)
    (short : us.length ≤ size) :
    ∃ shorter, content p last depth .opening [] size us short =
      .ok (p.order.arrange (.operator o) items, ⟨rest, shorter⟩) := by
  cases order : p.order with
  | signFirst =>
    obtain rfl : us = (.word sign, i) :: (ts ++ (.closing, k) :: rest) := by
      rw [tokens, order]
      rfl
    obtain ⟨before, shorter, stepped⟩ :=
      operands (.word sign) [.operator o] size ((.closing, k) :: rest) (Nat.le_of_lt short)
    refine ⟨shorter, ?_⟩
    rw [content, readWord_sign known, if_pos (by simp [order, Notation.admitsSign])]
    dsimp only
    rw [stepped, content]
    simp [Notation.arrange]
  | signLast =>
    obtain rfl : us = ts ++ (.word sign, i) :: (.closing, k) :: rest := by
      rw [tokens, order]
      simp [Notation.arrange]
    obtain ⟨before, shorter, stepped⟩ :=
      operands .opening [] size ((.word sign, i) :: (.closing, k) :: rest) short
    refine ⟨Nat.le_of_lt shorter, ?_⟩
    rw [stepped, content, readWord_sign known, if_pos (by simp [order, Notation.admitsSign])]
    dsimp only
    rw [content]
    simp [Notation.arrange]

/-- A bracket of a sign and operands that the loop steps over is an operation on them. -/
theorem bracket_arrange {depth place : Nat} {o : Op} {sign : String} {es : List Expr}
    {ts : List Lexeme} {us vs rest : List (Lexeme × Nat)} (known : sign ∈ o.signs)
    (count : o.arity.accepts es.length) (deep : depth ≤ p.maxDepth)
    (tokens : us.map Prod.fst = p.order.arrange (.word sign) ts ++ [.closing])
    (operands : ∀ ws, ws.map Prod.fst = ts → StepsOver p last depth ws (es.map .operand))
    (split : vs = us ++ rest) :
    ∃ shorter, bracket p last depth place vs = .ok (.op o es, ⟨rest, shorter⟩) := by
  obtain ⟨us, _, rfl, arranged, closed⟩ := List.map_eq_append_iff.1 tokens
  obtain ⟨⟨_, k⟩, rfl, rfl⟩ := List.map_eq_singleton_iff.1 closed
  obtain ⟨⟨_, i⟩, ws, rfl, rfl, written⟩ := Notation.map_eq_arrange arranged
  have split' : vs = p.order.arrange (.word sign, i) ws ++ (.closing, k) :: rest := by
    rw [split, List.append_assoc, List.singleton_append]
  obtain ⟨shorter, read⟩ := content_arrange known (operands ws written) split' (Nat.le_refl _)
  refine ⟨shorter, ?_⟩
  rw [bracket, if_neg (by omega), read]
  dsimp only
  rw [close_arrange, if_pos count]

mutual

theorem stepsOver_derives {m depth : Nat} {e : Expr} {ts : List Lexeme}
    (deep : depth + m ≤ p.maxDepth) :
    Derives p.order m e ts → ∀ {us : List (Lexeme × Nat)}, us.map Prod.fst = ts →
      StepsOver p last depth us [.operand e]
  | .var v, us, tokens => by
    obtain ⟨⟨t, place⟩, rfl, rfl⟩ := List.map_eq_singleton_iff.1 tokens
    exact stepsOver_word fun _ _ => readWord_name v
  | .const numeral, us, tokens => by
    obtain ⟨⟨t, place⟩, rfl, rfl⟩ := List.map_eq_singleton_iff.1 tokens
    exact stepsOver_word fun _ _ => readWord_numeral numeral
  | .op known count operands, us, tokens => by
    obtain ⟨⟨_, place⟩, us, rfl, rfl, inner⟩ := List.map_eq_cons_iff.1 tokens
    intro before read size rest short
    obtain ⟨shorter, bracket⟩ : ∃ shorter,
        p.bracket last (depth + 1) place (us ++ rest) = .ok (.op _ _, ⟨rest, shorter⟩) :=
      bracket_arrange known count (by omega) inner
        (fun _ => stepsOver_derivesAll (by omega) operands) rfl
    refine ⟨.closing, by simp at short; omega, ?_⟩
    change content p last depth before read size ((.opening, place) :: (us ++ rest)) short = _
    rw [content, bracket]
    rfl

theorem stepsOver_derivesAll {m depth : Nat} {es : List Expr} {ts : List Lexeme}
    (deep : depth + m ≤ p.maxDepth) :
    DerivesAll p.order m es ts → ∀ {us : List (Lexeme × Nat)}, us.map Prod.fst = ts →
      StepsOver p last depth us (es.map .operand)
  | .nil, us, tokens => by
    obtain rfl := List.map_eq_nil_iff.1 tokens
    exact fun before read size rest short => ⟨before, short, rfl⟩
  | .cons head tail, us, tokens => by
    obtain ⟨us₁, us₂, rfl, tokens₁, tokens₂⟩ := List.map_eq_append_iff.1 tokens
    exact (stepsOver_derives deep head tokens₁).append (stepsOver_derivesAll deep tail tokens₂)

end

/-! ### Whole texts -/

theorem expression_sound {ts : List (Lexeme × Nat)} {e : Expr} {rest : List (Lexeme × Nat)}
    (h : p.expression last ts = .ok (e, rest)) :
    ∃ us, ts = us ++ rest ∧ Derives p.order p.maxDepth e (us.map Prod.fst) := by
  match ts with
  | [] => cases h
  | (.opening, place) :: ts =>
    rw [expression] at h
    cases read : bracket p last 1 place ts with
    | error blame =>
      rw [read] at h
      cases h
    | ok result =>
      obtain ⟨e', after⟩ := result
      rw [read] at h
      obtain ⟨rfl, rfl⟩ := Prod.mk.inj (Except.ok.inj h)
      obtain ⟨deep, us, split, derives⟩ := bracket_sound read
      rw [Nat.sub_add_cancel deep] at derives
      exact ⟨(.opening, place) :: us, congrArg ((.opening, place) :: ·) split, derives⟩
  | (.closing, place) :: ts => cases h
  | (.word w, place) :: ts =>
    rw [expression] at h
    cases read : readWord p.order none (ts.head?.map Prod.fst) w with
    | error fault =>
      rw [read] at h
      cases h
    | ok item =>
      rw [read] at h
      rcases readWord_sound read with ⟨e', rfl, derives⟩ | ⟨o, rfl, -⟩
      · obtain ⟨rfl, rfl⟩ := Prod.mk.inj (Except.ok.inj h)
        exact ⟨[(.word w, place)], rfl, derives _⟩
      · cases h

theorem expression_derives {e : Expr} {ts : List Lexeme} {us : List (Lexeme × Nat)}
    (derives : Derives p.order p.maxDepth e ts) (tokens : us.map Prod.fst = ts) :
    p.expression last us = .ok (e, []) := by
  generalize allowed : p.maxDepth = m at derives
  cases derives with
  | var v =>
    obtain ⟨⟨t, place⟩, rfl, rfl⟩ := List.map_eq_singleton_iff.1 tokens
    rw [expression, readWord_name]
  | const numeral =>
    obtain ⟨⟨t, place⟩, rfl, rfl⟩ := List.map_eq_singleton_iff.1 tokens
    rw [expression, readWord_numeral numeral]
  | op known count operands =>
    obtain ⟨⟨_, place⟩, us, rfl, rfl, inner⟩ := List.map_eq_cons_iff.1 tokens
    obtain ⟨shorter, bracket⟩ : ∃ shorter,
        p.bracket last 1 place us = .ok (.op _ _, ⟨[], shorter⟩) :=
      bracket_arrange known count (by omega) inner
        (fun _ => stepsOver_derivesAll (by omega) operands) (List.append_nil us).symm
    rw [expression, bracket]
    rfl

/-- The tokens of an expression are one word, or begin with an opening bracket. -/
theorem guard_derives {m : Nat} {e : Expr} {ts : List Lexeme} (derives : Derives n m e ts) :
    ¬ (ts.head? ≠ some .opening ∧ ts.getLast? = some .closing) := by
  cases derives <;> simp

/-- A list of tokens is accepted exactly when it derives an expression, which is the answer. -/
theorem parseLexemes_eq_ok_iff {ts : List Lexeme} {e : Expr} :
    p.parseLexemes ts = .ok e ↔ Derives p.order p.maxDepth e ts := by
  constructor
  · intro h
    unfold parseLexemes at h
    split at h
    · cases h
    · cases read : p.expression (ts.length - 1) ts.zipIdx with
      | error blame =>
        rw [read] at h
        cases h
      | ok result =>
        rw [read] at h
        rcases result with ⟨e', _ | ⟨⟨t, place⟩, rest⟩⟩
        · obtain rfl := Except.ok.inj h
          obtain ⟨us, split, derives⟩ := expression_sound read
          rw [List.append_nil] at split
          rwa [← split, List.zipIdx_map_fst] at derives
        · cases h
  · intro derives
    rw [parseLexemes, if_neg (guard_derives derives),
      expression_derives derives (List.zipIdx_map_fst 0 ts)]
    rfl

/-- What a text says: its tokens without their places. -/
def lexemes (text : String) : List Lexeme := (Token.scan text).map (·.lexeme)

theorem parse_eq_ok_iff {text : String} {e : Expr} :
    p.parse text = .ok e ↔ Derives p.order p.maxDepth e (lexemes text) := by
  rw [← parseLexemes_eq_ok_iff, parse, lexemes]
  cases p.parseLexemes ((Token.scan text).map (·.lexeme)) <;> simp

end Parser

/-- No list of tokens writes two expressions. -/
theorem Derives.unique {n : Notation} {m m' : Nat} {e e' : Expr} {ts : List Lexeme}
    (h : Derives n m e ts) (h' : Derives n m' e' ts) : e = e' := by
  let p : Parser := ⟨n, max m m'⟩
  have read : p.parseLexemes ts = .ok e :=
    Parser.parseLexemes_eq_ok_iff.2 (h.mono (Nat.le_max_left m m'))
  have read' : p.parseLexemes ts = .ok e' :=
    Parser.parseLexemes_eq_ok_iff.2 (h'.mono (Nat.le_max_right m m'))
  exact Except.ok.inj (read.symm.trans read')

/--
A text is accepted exactly when its tokens derive an expression within the nesting limit, and that
expression is the answer; no list of tokens derives two expressions.
-/
theorem Parser.parse_iff_derives (n : Notation) (m : Nat) (text : String) (e : Expr) :
    (parse ⟨n, m⟩ text = .ok e ↔ Derives n m e (lexemes text)) ∧
      ∀ (ts : List Lexeme) (m₁ m₂ : Nat) (e₁ e₂ : Expr),
        Derives n m₁ e₁ ts → Derives n m₂ e₂ ts → e₁ = e₂ :=
  ⟨parse_eq_ok_iff, fun _ _ _ _ _ h₁ h₂ => h₁.unique h₂⟩

end Formula
