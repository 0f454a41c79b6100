import Formula.Expr.Printer
import Formula.Proofs.Descent
import Formula.Proofs.Numerals

/-!
# Scanning what the printer writes

`Reads cs ls` says that the characters `cs` are read as `ls` whatever was read before, as long as
no word is unfinished.  Words of plain characters read as themselves, and so do texts between which
there is a blank, and texts in brackets.  By these rules a printed expression reads as the
tokens that write it (`reads_render`).

A character goes on with the word or ends it (`step_plain`, `step_of_not_plain`), and so a text has no
more tokens than characters (`length_lexemes_le`).
-/

namespace Formula

/-- Characters that are part of a word wherever they stand. -/
def Text.isPlain (c : Char) : Bool := c != '(' && c != ')' && !isBlank c

/-- Whether a text is one word, of plain characters. -/
def Text.isWord (w : String) : Bool := !w.isEmpty && w.toList.all isPlain

theorem Text.isWord_iff {w : String} : isWord w ↔ w ≠ "" ∧ ∀ c ∈ w.toList, isPlain c := by
  simp [isWord]

namespace Scan

/-- What was read so far, the last first, an unfinished word included. -/
def said (s : Scan) : List Lexeme := s.endWord.tokens.map (·.lexeme)

theorem endWord_of_nil {s : Scan} (h : s.word = []) : s.endWord = s := if_pos h

theorem step_plain {s : Scan} {c : Char} (h : Text.isPlain c) :
    s.step c = { s with place := s.place + 1, word := c :: s.word } := by
  simp only [Text.isPlain, Bool.and_eq_true, bne_iff_ne, Bool.not_eq_true'] at h
  simp [step, h]

theorem word_endWord (s : Scan) : s.endWord.word = [] := by
  unfold endWord
  split
  · next nil => exact nil
  · rfl

theorem foldl_plain {w : List Char} (h : ∀ c ∈ w, Text.isPlain c) (s : Scan) :
    w.foldl step s = { s with place := s.place + w.length, word := w.reverse ++ s.word } := by
  induction w generalizing s with
  | nil => rfl
  | cons c w ih =>
    obtain ⟨hc, hw⟩ := List.forall_mem_cons.1 h
    rw [List.foldl_cons, step_plain hc, ih hw]
    simp [Nat.add_assoc, Nat.add_comm 1]

@[simp] theorem place_endWord (s : Scan) : s.endWord.place = s.place := by
  unfold endWord
  split <;> rfl

/-- The bracket that a character is, if it is one. -/
def bracketAt (place : Nat) (c : Char) : List Token :=
  if c = '(' then [⟨.opening, .single place⟩]
  else if c = ')' then [⟨.closing, .single place⟩]
  else []

/-- Every other character ends the word. -/
theorem step_of_not_plain {c : Char} (h : ¬ Text.isPlain c) (s : Scan) :
    s.step c = ⟨s.place + 1, [], bracketAt s.place c ++ s.endWord.tokens⟩ := by
  unfold step bracketAt
  split
  · simp [bracket]
  · split
    · simp [bracket]
    · have blank : Text.isBlank c := by simp_all [Text.isPlain]
      simp [blank, word_endWord]

theorem place_step (s : Scan) (c : Char) : (s.step c).place = s.place + 1 := by
  by_cases plain : Text.isPlain c
  · rw [step_plain plain]
  · rw [step_of_not_plain plain]

theorem place_foldl (cs : List Char) (s : Scan) :
    (cs.foldl step s).place = s.place + cs.length := by
  induction cs generalizing s with
  | nil => rfl
  | cons c cs ih =>
    rw [List.foldl_cons, ih, place_step, List.length_cons]
    omega

theorem length_said (s : Scan) :
    s.said.length = s.tokens.length + if s.word = [] then 0 else 1 := by
  rw [said, endWord, List.length_map]
  split <;> rfl

/-- Every token takes a character, an unfinished word included. -/
theorem length_said_step {s : Scan} (h : s.said.length ≤ s.place) (c : Char) :
    (s.step c).said.length ≤ (s.step c).place := by
  rw [place_step]
  by_cases plain : Text.isPlain c
  · rw [length_said] at h
    rw [step_plain plain, length_said, if_neg (List.cons_ne_nil _ _)]
    dsimp only
    omega
  · have bracket : (bracketAt s.place c).length ≤ 1 := by
      unfold bracketAt
      split_ifs <;> simp
    have ended : s.endWord.tokens.length = s.said.length := (List.length_map _).symm
    rw [step_of_not_plain plain, length_said, if_pos rfl, List.length_append]
    omega

end Scan

/-- The characters are read as the tokens, after anything but an unfinished word. -/
def Reads (cs : List Char) (ls : List Lexeme) : Prop :=
  ∀ s : Scan, s.word = [] → (cs.foldl Scan.step s).said = ls.reverse ++ s.said

namespace Reads

variable {cs cs' : List Char} {ls ls' : List Lexeme}

theorem nil : Reads [] [] := fun _ _ => rfl

theorem word {w : String} (h : Text.isWord w) : Reads w.toList [.word w] := by
  intro s nothing
  obtain ⟨several, plain⟩ := Text.isWord_iff.1 h
  have nonempty : w.toList ≠ [] := by simpa using several
  rw [Scan.foldl_plain plain, Scan.said, Scan.said, Scan.endWord_of_nil nothing, Scan.endWord,
    if_neg (by simp [nonempty])]
  simp [nothing]

theorem blank (h : Reads cs ls) (h' : Reads cs' ls') : Reads (cs ++ ' ' :: cs') (ls ++ ls') := by
  intro s nothing
  have ended : ((cs.foldl Scan.step s).step ' ').word = [] := Scan.word_endWord _
  have said : ((cs.foldl Scan.step s).step ' ').said = (cs.foldl Scan.step s).said := by
    rw [Scan.said, Scan.endWord_of_nil ended]
    rfl
  rw [List.foldl_append, List.foldl_cons, h' _ ended, said, h s nothing, List.reverse_append,
    List.append_assoc]

theorem brackets (h : Reads cs ls) :
    Reads ('(' :: (cs ++ [')'])) (.opening :: (ls ++ [.closing])) := by
  intro s nothing
  have opened : (s.step '(').said = .opening :: s.said := rfl
  have closed (t : Scan) : (t.step ')').said = .closing :: t.said := rfl
  rw [List.foldl_cons, List.foldl_append, List.foldl_cons, List.foldl_nil, closed,
    h (s.step '(') rfl, opened]
  simp

/-- Texts with blanks between them read one after the other. -/
theorem intercalate {ps : List (String × List Lexeme)} (h : ∀ p ∈ ps, Reads p.1.toList p.2) :
    Reads (" ".intercalate (ps.map (·.1))).toList (ps.map (·.2)).flatten := by
  induction ps with
  | nil => exact .nil
  | cons p ps ih =>
    obtain ⟨head, tail⟩ := List.forall_mem_cons.1 h
    cases ps with
    | nil => simpa using head
    | cons q ps =>
      have text : (" ".intercalate ((p :: q :: ps).map (·.1))).toList =
          p.1.toList ++ ' ' :: (" ".intercalate ((q :: ps).map (·.1))).toList := by
        simp [String.intercalate_cons_cons]
      rw [text]
      exact head.blank (ih tail)

/-- The content of a bracket reads as its sign and operands. -/
theorem content {n : Notation} {sign : String} {ps : List (String × List Lexeme)}
    (word : Text.isWord sign) (h : ∀ p ∈ ps, Reads p.1.toList p.2) :
    Reads (n.content sign (ps.map (·.1))).toList
      (n.arrange (.word sign) (ps.map (·.2)).flatten) := by
  cases n with
  | signFirst =>
    have all : ∀ p ∈ (sign, [Lexeme.word sign]) :: ps, Reads p.1.toList p.2 :=
      List.forall_mem_cons.2 ⟨.word word, h⟩
    have read := Reads.intercalate all
    rwa [List.map_cons, List.map_cons, List.flatten_cons, List.singleton_append] at read
  | signLast =>
    have space : " ".toList = [' '] := rfl
    rw [Notation.content, String.toList_append, String.toList_append, List.append_assoc, space,
      List.singleton_append]
    exact (Reads.intercalate h).blank (.word word)

end Reads

/-- A text on its own is read as its tokens. -/
theorem Parser.lexemes_eq {text : String} {ls : List Lexeme} (h : Reads text.toList ls) :
    lexemes text = ls := by
  have said : (text.toList.foldl Scan.step {}).said = ls.reverse ++ [] := h {} rfl
  rw [List.append_nil] at said
  rw [lexemes, Token.scan, List.map_reverse]
  exact List.reverse_eq_iff.2 said

/-- A text has no more tokens than characters. -/
theorem Parser.length_lexemes_le (text : String) : (lexemes text).length ≤ text.length := by
  have invariant : (text.toList.foldl Scan.step {}).said.length ≤
      (text.toList.foldl Scan.step {}).place :=
    List.foldlRecOn (motive := fun s : Scan => s.said.length ≤ s.place) text.toList Scan.step
      (Nat.le_refl 0) fun s h c _ => Scan.length_said_step h c
  rw [Scan.place_foldl, Nat.zero_add, String.length_toList] at invariant
  rw [lexemes, Token.scan, List.map_reverse, List.length_reverse]
  exact invariant

/-! ### Words -/

theorem isWord_name (v : Var) : Text.isWord v.name := by
  cases v <;> decide

theorem isWord_sign (o : Op) : Text.isWord o.sign := by
  cases o <;> decide

theorem Text.isPlain_of_isDigit {c : Char} (h : c.isDigit) : isPlain c := by
  have range : 48 ≤ c.toNat ∧ c.toNat ≤ 57 := by
    simpa [Char.isDigit, UInt32.le_iff_toNat_le] using h
  have blank : isBlank c = false := by
    simp [isBlank, blankRanges]
    omega
  have bracket : c ≠ '(' ∧ c ≠ ')' := by
    constructor <;> rintro rfl <;> cases h
  simp [isPlain, blank, bracket]

theorem isWord_text (v : Float) : Text.isWord (Decimal.text v) := by
  by_cases finite : v.isFinite
  · obtain ⟨s, -, layout⟩ := Decimal.layout_of_finite (Binary64.isFinite_iff.1 finite)
    have plain : ∀ c ∈ s.positional [], Text.isPlain c := by
      intro c hc
      rcases Decimal.Scaled.mem_positional c hc with digit | rfl
      · exact Text.isPlain_of_isDigit digit
      · rfl
    have signed : (Decimal.text v).toList =
        if Binary64.isNegative v then '-' :: s.positional [] else s.positional [] := by
      rw [Decimal.text, String.toList_ofList, layout]
    have nonempty : (Decimal.text v).toList ≠ [] := by
      rw [signed]
      split
      · exact List.cons_ne_nil _ _
      · exact s.positional_ne_nil
    refine Text.isWord_iff.2 ⟨by simpa using nonempty, ?_⟩
    rw [signed]
    split
    · exact List.forall_mem_cons.2 ⟨rfl, plain⟩
    · exact plain
  · have special : ∀ w ∈ ["NaN", "inf", "-inf"], Text.isWord w := by decide
    exact special _ (Decimal.text_of_not_finite finite)

/-! ### Expressions -/

/-- The tokens that the printer writes for an expression. -/
def Expr.lexemes (n : Notation) (e : Expr) : List Lexeme :=
  e.fold (fun c => [.word (Decimal.text c)]) (fun v => [.word v.name]) fun o operands =>
    .opening :: (n.arrange (.word o.sign) operands.flatten ++ [.closing])

theorem Expr.lexemes_op (n : Notation) (o : Op) (args : List Expr) :
    lexemes n (.op o args) =
      .opening :: (n.arrange (.word o.sign) (args.map (lexemes n)).flatten ++ [.closing]) :=
  Term.fold_op ..

theorem Expr.render_op (n : Notation) (o : Op) (args : List Expr) :
    render n (.op o args) = "(" ++ n.content o.sign (args.map (render n)) ++ ")" :=
  Term.fold_op ..

/-- A printed expression is read as its tokens. -/
theorem reads_render (n : Notation) (e : Expr) : Reads (e.render n).toList (e.lexemes n) := by
  induction e using Term.rec_mem with
  | const c => exact .word (isWord_text c)
  | var v => exact .word (isWord_name v)
  | op o args ih =>
    have operands : ∀ p ∈ args.map fun e : Expr => (e.render n, e.lexemes n),
        Reads p.1.toList p.2 := by
      intro p hp
      obtain ⟨e, he, rfl⟩ := List.mem_map.1 hp
      exact ih e he
    have inside := Reads.content (n := n) (isWord_sign o) operands
    rw [List.map_map, List.map_map] at inside
    have bracketed (text : String) : ("(" ++ text ++ ")").toList = '(' :: (text.toList ++ [')']) := by
      simp
    rw [Expr.render_op, Expr.lexemes_op, bracketed]
    exact inside.brackets

end Formula
