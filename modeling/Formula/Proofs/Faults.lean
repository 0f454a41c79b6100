import Formula.Proofs.OnePass

/-!
# Where faults come from

A list of tokens is refused for one of a few reasons, and each says which token is blamed
(`parseLexemes_refusal`).  Within an expression the tokens end too soon, a word is refused, a
bracket is too deep, or a bracket that closes is judged by its items (`Origin`).  The induction that
follows the descent is done once, for these; what is said of faults is then said of each reason.
-/

namespace Formula

/-- Whether a fault says that a bracket is missing. -/
def Fault.isMissingBracket : Fault → Bool
  | .missingOpening | .missingClosing => true
  | _ => false

theorem Notation.isMissingBracket_missingBracket (n : Notation) :
    n.missingBracket.isMissingBracket := by
  cases n <;> rfl

namespace Parser

/-- Why the tokens, which are numbered, do not begin with the rest of an expression. -/
inductive Origin (p : Parser) (last : Nat) (rest : List (Lexeme × Nat)) : Blame → Prop
  | unclosed : Origin p last rest ⟨.unclosedBracket, last⟩
  | word {w : String} {place : Nat} {before after : Option Lexeme} {fault : Fault}
      (inside : (.word w, place) ∈ rest)
      (refused : readWord p.order before after w = .error fault) : Origin p last rest ⟨fault, place⟩
  | deep {place : Nat} (inside : (.opening, place) ∈ rest) :
      Origin p last rest ⟨.tooDeep p.maxDepth, place⟩
  | judged {place : Nat} {items : List Item} {fault : Fault} (inside : (.opening, place) ∈ rest)
      (refused : shut p.order items = .error fault) : Origin p last rest ⟨fault, place⟩

theorem Origin.mono {p : Parser} {last : Nat} {rest rest' : List (Lexeme × Nat)} {b : Blame}
    (among : rest ⊆ rest') (h : Origin p last rest b) : Origin p last rest' b := by
  cases h with
  | unclosed => exact .unclosed
  | word inside refused => exact .word (among inside) refused
  | deep inside => exact .deep (among inside)
  | judged inside refused => exact .judged (among inside) refused

mutual

theorem bracket_origin {p : Parser} {last depth place : Nat} {rest : List (Lexeme × Nat)}
    {b : Blame} (h : bracket p last depth place rest = .error b) :
    Origin p last ((.opening, place) :: rest) b := by
  rw [bracket] at h
  split at h
  · obtain rfl := Except.error.inj h
    exact .deep List.mem_cons_self
  · split at h
    · next inner =>
      obtain rfl := Except.error.inj h
      exact (content_origin inner).mono (List.subset_cons_self _ _)
    · next items after inner =>
      obtain ⟨_, _, -, _, rfl, contents⟩ := content_sound inner
      rw [close_eq_shut contents] at h
      split at h
      · next fault refused =>
        obtain rfl := Except.error.inj h
        exact .judged List.mem_cons_self refused
      · cases h
termination_by (rest.length, 1)

theorem content_origin {p : Parser} {last depth size : Nat} {before : Lexeme} {read : List Item}
    {rest : List (Lexeme × Nat)} {short : rest.length ≤ size} {b : Blame}
    (h : content p last depth before read size rest short = .error b) : Origin p last rest b := by
  match rest with
  | [] =>
    rw [content] at h
    obtain rfl := Except.error.inj h
    exact .unclosed
  | (.closing, k) :: rest =>
    rw [content] at h
    cases h
  | (.opening, place) :: rest =>
    rw [content] at h
    split at h
    · next inner =>
      obtain rfl := Except.error.inj h
      exact bracket_origin inner
    · next e after shorter inner =>
      obtain ⟨-, us, split, -⟩ := bracket_sound inner
      have later : after ⊆ rest := split ▸ List.subset_append_right us after
      exact (content_origin h).mono (List.subset_cons_of_subset _ later)
  | (.word w, place) :: rest =>
    rw [content] at h
    split at h
    · next fault refused =>
      obtain rfl := Except.error.inj h
      exact .word List.mem_cons_self refused
    · exact (content_origin h).mono (List.subset_cons_self _ _)
termination_by (rest.length, 0)

end

/-- Why a list of tokens writes no expression. -/
inductive Refusal (p : Parser) (ts : List Lexeme) : Blame → Prop
  | empty (nothing : ts = []) : Refusal p ts ⟨.emptyInput, 0⟩
  | first {t : Lexeme} {us : List Lexeme} {fault : Fault} (tokens : ts = t :: us)
      (other : t ≠ .opening) (missing : fault.isMissingBracket) : Refusal p ts ⟨fault, 0⟩
  | inside {b : Blame} (nonempty : ts ≠ []) (origin : Origin p (ts.length - 1) ts.zipIdx b) :
      Refusal p ts b
  | trailing {e : Expr} {t : Lexeme} {k : Nat} {rest : List (Lexeme × Nat)}
      (read : p.expression (ts.length - 1) ts.zipIdx = .ok (e, (t, k) :: rest)) :
      Refusal p ts ⟨.trailing (" ".intercalate (t.text :: rest.map (·.1.text))), k⟩

variable {p : Parser} {ts : List Lexeme} {b : Blame}

theorem expression_refusal {t : Lexeme} {us : List Lexeme} (tokens : ts = t :: us)
    (h : p.expression (ts.length - 1) ts.zipIdx = .error b) : Refusal p ts b := by
  have numbered : ts.zipIdx = (t, 0) :: us.zipIdx 1 := by rw [tokens, List.zipIdx_cons]
  have nonempty : ts ≠ [] := tokens ▸ List.cons_ne_nil t us
  rw [numbered] at h
  cases t with
  | opening =>
    rw [expression] at h
    cases read : bracket p (ts.length - 1) 1 0 (us.zipIdx 1) with
    | error blame =>
      rw [read] at h
      obtain rfl := Except.error.inj h
      exact .inside nonempty (numbered ▸ bracket_origin read)
    | ok result =>
      rw [read] at h
      cases h
  | closing =>
    obtain rfl := Except.error.inj h
    exact .first tokens (by simp) rfl
  | word w =>
    rw [expression] at h
    split at h
    · next fault refused =>
      obtain rfl := Except.error.inj h
      exact .inside nonempty (.word (numbered ▸ List.mem_cons_self) refused)
    · obtain rfl := Except.error.inj h
      exact .first tokens (by simp) p.order.isMissingBracket_missingBracket
    · cases h

theorem parseLexemes_refusal (h : p.parseLexemes ts = .error b) : Refusal p ts b := by
  cases tokens : ts with
  | nil =>
    rw [tokens] at h
    obtain rfl := Except.error.inj h
    exact .empty rfl
  | cons t us =>
    rw [← tokens]
    rw [parseLexemes_eq] at h
    split at h
    · next guarded =>
      obtain rfl := Except.error.inj h
      refine .first tokens ?_ rfl
      rintro rfl
      exact guarded.1 (tokens ▸ rfl)
    · split at h
      · next refused =>
        obtain rfl := Except.error.inj h
        exact expression_refusal tokens refused
      · cases h
      · next read =>
        obtain rfl := Except.error.inj h
        exact .trailing read

end Parser

end Formula
