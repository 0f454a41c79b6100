import Formula.Proofs.Faults

/-!
# Where signs are read

Signs reach the place of the sign and no other.  A word is tested against one neighbour only, but
that is enough: when a bracket closes, at most one of its items is a sign, and it is the first or
the last of them, as the notation has it (`Contents.signInPlace`).  The items beside the place of
the sign are then operands (`Contents.takeSign`), and no sign is ever refused among them.

In whole texts this shows in the faults.  A sign among operands would be refused as one that lacks
its bracket, and blamed on the opening token of the bracket that holds it.  But a bracket that closes
is never refused for that, and no opening token is blamed for a missing bracket
(`parseLexemes_blames_other`).
-/

namespace Formula

namespace Item

/-- Whether the item is a sign. -/
def isOperator : Item → Bool
  | operand _ => false
  | operator _ => true

theorem countP_map_operand (es : List Expr) : (es.map operand).countP isOperator = 0 := by
  rw [List.countP_map, List.countP_eq_zero]
  exact fun e _ => Bool.false_ne_true

theorem getElem?_map_operand_ne (es : List Expr) (i : Nat) (o : Op) :
    (es.map operand)[i]? ≠ some (operator o) := by
  rw [List.getElem?_map]
  cases es[i]? <;> simp

end Item

namespace Notation

/-- The number of the item in the place of the sign, among so many. -/
def signPlace : Notation → Nat → Nat
  | signFirst, _ => 0
  | signLast, count => count - 1

/-- At most one of the items of a bracket is a sign, and it is in its place. -/
structure SignInPlace (n : Notation) (items : List Item) : Prop where
  once : items.countP Item.isOperator ≤ 1
  place : ∀ i o, items[i]? = some (.operator o) → i = n.signPlace items.length

theorem signInPlace_operands (n : Notation) (es : List Expr) :
    n.SignInPlace (es.map .operand) where
  once := by
    rw [Item.countP_map_operand]
    exact Nat.zero_le 1
  place i o found := absurd found (Item.getElem?_map_operand_ne es i o)

theorem signInPlace_arrange (n : Notation) (o : Op) (es : List Expr) :
    n.SignInPlace (n.arrange (.operator o) (es.map .operand)) := by
  cases n with
  | signFirst =>
    constructor
    · rw [arrange, List.countP_cons, Item.countP_map_operand]
      exact Nat.le_refl 1
    · intro i o' found
      cases i with
      | zero => rfl
      | succ i => exact absurd found (Item.getElem?_map_operand_ne es i o')
  | signLast =>
    constructor
    · rw [arrange, List.countP_append, Item.countP_map_operand]
      exact Nat.le_refl 1
    · intro i o' found
      have inside : i < (arrange .signLast (.operator o) (es.map Item.operand)).length :=
        (List.getElem?_eq_some_iff.1 found).1
      have beyond : ¬ i < (es.map Item.operand).length := by
        intro before
        rw [arrange, List.getElem?_append_left before] at found
        exact Item.getElem?_map_operand_ne es i o' found
      simp only [signPlace, arrange, List.length_append, List.length_singleton] at inside ⊢
      omega

/-- Without the one in the place of the sign, operands are operands. -/
theorem takeSign_operands {n : Notation} {es : List Expr} {sign : Item} {others : List Item}
    (h : n.takeSign (es.map .operand) = some (sign, others)) :
    ∃ args : List Expr, others = args.map .operand := by
  cases n with
  | signFirst =>
    obtain ⟨_, -, split⟩ := Option.map_eq_some_iff.1 h
    obtain ⟨-, rfl⟩ := Prod.mk.inj split
    exact ⟨es.tail, List.map_tail.symm⟩
  | signLast =>
    obtain ⟨_, -, split⟩ := Option.map_eq_some_iff.1 h
    obtain ⟨-, rfl⟩ := Prod.mk.inj split
    exact ⟨es.dropLast, List.map_dropLast.symm⟩

end Notation

namespace Parser

variable {n : Notation} {m : Nat} {items others : List Item} {ts : List Lexeme}

/-! ### A bracket that closes -/

theorem Contents.signInPlace (h : Contents n m .opening items ts) : n.SignInPlace items := by
  cases h with
  | operands _ => exact n.signInPlace_operands _
  | signed _ _ _ => exact n.signInPlace_arrange _ _

/-- The items beside the place of the sign are operands. -/
theorem Contents.takeSign {sign : Item} (h : Contents n m .opening items ts)
    (taken : n.takeSign items = some (sign, others)) :
    ∃ args : List Expr, others = args.map .operand ∧ Parser.operands n others = .ok args := by
  have beside : ∃ args : List Expr, others = args.map .operand := by
    cases h with
    | operands _ => exact Notation.takeSign_operands taken
    | signed _ _ _ =>
      rw [Notation.takeSign_arrange] at taken
      obtain ⟨-, rfl⟩ := Prod.mk.inj (Option.some.inj taken)
      exact ⟨_, rfl⟩
  obtain ⟨args, rfl⟩ := beside
  exact ⟨args, rfl, operands_map_operand args⟩

/-! ### Whole texts -/

/-- The items of a bracket that closes are never refused for a missing bracket. -/
theorem not_isMissingBracket_of_shut {fault : Fault} (h : shut n items = .error fault) :
    ¬ fault.isMissingBracket := by
  rcases shut_error h with rfl | ⟨_, _, rfl⟩ | ⟨_, _, _, rfl⟩ <;> exact Bool.false_ne_true

/-- No opening bracket is blamed for a missing one. -/
theorem parseLexemes_blames_other {p : Parser} {b : Blame} (h : p.parseLexemes ts = .error b)
    (missing : b.fault.isMissingBracket) : ts[b.token]? ≠ some .opening := by
  cases parseLexemes_refusal h with
  | empty _ => cases missing
  | first tokens other _ =>
    rw [tokens, List.getElem?_cons_zero]
    exact fun same => other (Option.some.inj same)
  | inside _ origin =>
    cases origin with
    | unclosed => cases missing
    | word inside _ =>
      rw [List.mk_mem_zipIdx_iff_getElem?.1 inside]
      simp
    | deep _ => cases missing
    | judged _ refused => exact absurd missing (not_isMissingBracket_of_shut refused)
  | trailing _ => cases missing

/-! ### The place of the sign -/

/--
When a bracket closes, at most one of its items is a sign, in the place of the sign, and the others
are operands, of which none is refused.  With the sign first, the first token of a text is never
read as a sign.  And no opening bracket is blamed for a missing one, as it would be for a sign among
its operands.
-/
theorem signs_in_place (p : Parser) :
    (∀ (last depth : Nat) (rest : List (Lexeme × Nat)) (items : List Item)
        (after : Fewer rest.length),
        content p last depth .opening [] rest.length rest (Nat.le_refl _) = .ok (items, after) →
          p.order.SignInPlace items ∧
            ∀ sign others, p.order.takeSign items = some (sign, others) →
              ∃ args : List Expr, others = args.map .operand ∧
                operands p.order others = .ok args) ∧
      (∀ after w o, readWord .signFirst none after w ≠ .ok (.operator o)) ∧
      ∀ ts b, p.parseLexemes ts = .error b → b.fault.isMissingBracket →
        ts[b.token]? ≠ some .opening := by
  refine ⟨fun last depth rest items after read => ?_, fun after w o read => ?_,
    fun ts b refused missing => parseLexemes_blames_other refused missing⟩
  · obtain ⟨_, _, -, _, rfl, contents⟩ := content_sound read
    exact ⟨contents.signInPlace, fun sign others taken => contents.takeSign taken⟩
  · rcases readWord_sound read with ⟨_, item, -⟩ | ⟨_, -, -, admitted⟩
    · cases item
    · cases admitted

/-- A sign is taken from behind a bracket, and one that stands before operands is refused. -/
theorem signs_in_place_after_bracket :
    let p : Parser := ⟨.signLast, 2⟩
    let rest : List (Lexeme × Nat) := [.opening, .word "x", .word "negate", .closing, .word "y",
      .word "*", .closing].zipIdx 1
    let others : List Item := [.operand (.op .neg [.var .x]), .operand (.var .y)]
    let items : List Item := others ++ [.operator .mul]
    let refused : List Lexeme := [.opening, .word "*", .word "x", .word "y", .closing]
    (∃ after, content p 7 1 .opening [] rest.length rest (Nat.le_refl _) = .ok (items, after) ∧
      p.order.SignInPlace items ∧ p.order.takeSign items = some (.operator .mul, others) ∧
      ∃ args : List Expr, others = args.map .operand ∧ operands p.order others = .ok args) ∧
      p.parseLexemes refused = .error ⟨.missingClosing, 1⟩ ∧ refused[1]? ≠ some .opening := by
  intro p rest others items refused
  obtain ⟨placed, -, blamed⟩ := signs_in_place p
  have negate : "negate" ∈ Op.neg.signs := by decide
  have times : "*" ∈ Op.mul.signs := by decide
  let args : List Expr := [.op .neg [.var .x], .var .y]
  let ts : List Lexeme := [.opening, .word "x", .word "negate", .closing, .word "y"]
  have derives : DerivesAll .signLast 1 args ts :=
    .cons (.op negate rfl (.cons (.var .x) .nil)) (.cons (.var .y) .nil)
  have inner : StepsOver p 7 1 (ts.zipIdx 1) (args.map .operand) :=
    stepsOver_derivesAll (Nat.le_refl 2) derives (List.zipIdx_map_fst 1 ts)
  have tokens : rest = p.order.arrange (.word "*", 6) (ts.zipIdx 1) ++ [(.closing, 7)] := rfl
  obtain ⟨shorter, read⟩ := content_arrange times inner tokens (Nat.le_refl _)
  obtain ⟨inPlace, beside⟩ := placed 7 1 rest items ⟨[], shorter⟩ read
  have inside : p.bracket 4 1 0 (refused.tail.zipIdx 1) = .error ⟨.missingClosing, 1⟩ := by
    rw [bracket, if_neg (by decide), List.tail_cons, List.zipIdx_cons, content]
    rfl
  have missing : p.parseLexemes refused = .error ⟨.missingClosing, 1⟩ := by
    rw [parseLexemes, if_neg (by decide)]
    change ((p.bracket 4 1 0 (refused.tail.zipIdx 1)).bind _).bind _ = _
    rw [inside]
    rfl
  exact ⟨⟨_, read, inPlace, rfl, beside _ _ rfl⟩, missing, blamed _ _ missing rfl⟩

/-- With the sign last, the first token may be read as a sign, but not as an expression. -/
example :
    readWord .signLast none (some .closing) "+" = .ok (.operator .add) ∧
      parseLexemes ⟨.signLast, 0⟩ [.word "+", .closing, .word "x"] = .error ⟨.missingClosing, 0⟩ :=
  ⟨rfl, rfl⟩

end Parser

end Formula
