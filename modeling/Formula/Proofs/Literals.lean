import Formula.Decimal.Literal
import Mathlib.Data.List.TakeWhile

/-!
# The syntax of literals

A literal is written as an optional sign (`SignText`), digits with at most one point and at least one
digit before or after it (`MantissaText`), and optionally a mark with a power of ten (`ScaleText`).
The reader splits a text at the first character that cannot belong to the present part, so it reads
every literal from its parts (`read?_parts`) and nothing else (`exists_parts`).  It needs no test of
the characters before it starts (`chars_of_read?`).
-/

namespace Formula.Decimal

/-- An optional sign, and whether it is a minus. -/
inductive SignText : List Char → Bool → Prop
  | none : SignText [] false
  | plus : SignText ['+'] false
  | minus : SignText ['-'] true

/-- Digits with at most one point, the digits before the point and those after it. -/
inductive MantissaText : List Char → List Char → List Char → Prop
  | whole {ds : List Char} (several : ds ≠ []) (digits : ∀ c ∈ ds, c.isDigit) :
      MantissaText ds ds []
  | pointed {ds fs : List Char} (several : ds ≠ [] ∨ fs ≠ []) (digits : ∀ c ∈ ds, c.isDigit)
      (more : ∀ c ∈ fs, c.isDigit) : MantissaText (ds ++ '.' :: fs) ds fs

/-- Nothing, or a mark, an optional sign and digits; and the exponent that they write. -/
inductive ScaleText : List Char → Int → Prop
  | none : ScaleText [] 0
  | power {mark : Char} {sign ds : List Char} {negative : Bool} (marked : mark = 'e' ∨ mark = 'E')
      (signed : SignText sign negative) (several : ds ≠ []) (digits : ∀ c ∈ ds, c.isDigit) :
      ScaleText (mark :: (sign ++ ds)) (if negative then -(ofDigits ds) else ofDigits ds)

namespace Literal

variable {sign mantissa scale whole fraction ds rest text : List Char} {negative : Bool} {n : Int}
  {l : Literal}

/-! ### From parts to a literal -/

/-- A sign is read off before anything that does not look like one. -/
theorem readSign_append (signed : SignText sign negative)
    (other : ∀ c ∈ rest.head?, c = '.' ∨ c.isDigit) :
    readSign (sign ++ rest) = (negative, rest) := by
  cases signed with
  | plus => rfl
  | minus => rfl
  | none =>
    cases rest with
    | nil => rfl
    | cons c cs =>
      rcases other c rfl with rfl | digit
      · rfl
      · have minus : c ≠ '-' := by
          rintro rfl
          cases digit
        have plus : c ≠ '+' := by
          rintro rfl
          cases digit
        simp [readSign, minus, plus]

theorem split_digits (digits : ∀ c ∈ ds, c.isDigit) (stop : ∀ c ∈ rest.head?, ¬ c.isDigit) :
    (ds ++ rest).takeWhile Char.isDigit = ds ∧ (ds ++ rest).dropWhile Char.isDigit = rest := by
  rw [List.takeWhile_append_of_pos digits, List.dropWhile_append_of_pos digits]
  cases rest with
  | nil => simp
  | cons c cs => simp [stop c rfl]

theorem head_scale (h : ScaleText scale n) : ∀ c ∈ scale.head?, ¬ c.isDigit ∧ c ≠ '.' := by
  cases h with
  | none => exact nofun
  | power marked =>
    rintro c ⟨⟩
    rcases marked with rfl | rfl <;> decide

theorem readExponent?_scale (h : ScaleText scale n) : readExponent? scale = some n := by
  cases h with
  | none => rfl
  | power marked signed several digits =>
    rw [readExponent?, readSign_append signed fun c hc => .inr (digits c (List.mem_of_mem_head? hc))]
    simp [marked, several, List.all_eq_true.2 digits]

theorem readFraction_of_ne (h : ∀ c ∈ rest.head?, c ≠ '.') : readFraction rest = ([], rest) := by
  cases rest with
  | nil => rfl
  | cons c cs => simp [readFraction, h c rfl]

/-- A literal is read from its parts. -/
theorem read?_parts (signed : SignText sign negative) (digits : MantissaText mantissa whole fraction)
    (scaled : ScaleText scale n) :
    read? (sign ++ (mantissa ++ scale)) =
      some ⟨negative, ofDigits (whole ++ fraction), n - fraction.length⟩ := by
  have stop := head_scale scaled
  have exponent := readExponent?_scale scaled
  cases digits with
  | whole several digits =>
    have first : ∀ c ∈ (mantissa ++ scale).head?, c = '.' ∨ c.isDigit := by
      obtain ⟨c, cs, rfl⟩ := List.exists_cons_of_ne_nil several
      rintro _ ⟨⟩
      exact .inr (digits c List.mem_cons_self)
    obtain ⟨taken, dropped⟩ := split_digits digits fun c hc => (stop c hc).1
    have point := readFraction_of_ne fun c hc => (stop c hc).2
    simp [read?, readSign_append signed first, taken, dropped, point, exponent, several]
  | pointed several digits more =>
    have first : ∀ c ∈ (whole ++ '.' :: (fraction ++ scale)).head?, c = '.' ∨ c.isDigit := by
      cases whole with
      | nil =>
        rintro _ ⟨⟩
        exact .inl rfl
      | cons c cs =>
        rintro _ ⟨⟩
        exact .inr (digits c List.mem_cons_self)
    have point : ∀ c ∈ ('.' :: (fraction ++ scale)).head?, ¬ c.isDigit := by
      rintro _ ⟨⟩
      decide
    obtain ⟨taken, dropped⟩ := split_digits digits point
    obtain ⟨taken', dropped'⟩ := split_digits more fun c hc => (stop c hc).1
    rw [List.append_assoc, List.cons_append]
    simp [read?, readSign_append signed first, taken, dropped, readFraction, taken', dropped',
      exponent, not_and_or.2 several]

/-! ### From a literal to its parts -/

theorem exists_sign (text : List Char) :
    ∃ sign, SignText sign (readSign text).1 ∧ text = sign ++ (readSign text).2 := by
  unfold readSign
  split
  · exact ⟨_, .minus, rfl⟩
  · exact ⟨_, .plus, rfl⟩
  · exact ⟨_, .none, rfl⟩

theorem exists_mantissa (digits : ∀ c ∈ whole, c.isDigit)
    (several : ¬ (whole = [] ∧ (readFraction rest).1 = [])) :
    ∃ mantissa, MantissaText mantissa whole (readFraction rest).1 ∧
      whole ++ rest = mantissa ++ (readFraction rest).2 := by
  unfold readFraction at several ⊢
  split
  · next rest =>
    refine ⟨_, .pointed (not_and_or.1 several) digits fun c => List.mem_takeWhile_imp, ?_⟩
    simp
  · next text other =>
    simp only [and_true] at several
    exact ⟨_, .whole several digits, rfl⟩

theorem scaleText_of_readExponent? (h : readExponent? rest = some n) : ScaleText rest n := by
  cases rest with
  | nil =>
    obtain rfl := Option.some.inj h
    exact .none
  | cons mark rest =>
    obtain ⟨sign, signed, text⟩ := exists_sign rest
    rw [readExponent?] at h
    generalize readSign rest = parts at h signed text
    obtain ⟨negative, ds⟩ := parts
    dsimp only at h signed text
    split at h
    · next valid =>
      obtain ⟨marked, several, digits⟩ := valid
      obtain rfl := Option.some.inj h
      rw [text]
      exact .power marked signed several (List.all_eq_true.1 digits)
    · cases h

/-- What is read as a literal has the parts of one. -/
theorem exists_parts (h : read? text = some l) :
    ∃ sign mantissa scale whole fraction negative n, text = sign ++ (mantissa ++ scale) ∧
      SignText sign negative ∧ MantissaText mantissa whole fraction ∧ ScaleText scale n ∧
      l = ⟨negative, ofDigits (whole ++ fraction), n - fraction.length⟩ := by
  obtain ⟨sign, signed, parts⟩ := exists_sign text
  rw [read?] at h
  generalize readSign text = result at h signed parts
  obtain ⟨negative, unsigned⟩ := result
  dsimp only at h signed parts
  split at h
  · cases h
  · next several =>
    obtain ⟨n, exponent, rfl⟩ := Option.map_eq_some_iff.1 h
    obtain ⟨mantissa, digits, split⟩ :=
      exists_mantissa (fun c => List.mem_takeWhile_imp) several
    rw [List.takeWhile_append_dropWhile] at split
    exact ⟨sign, mantissa, _, _, _, negative, n, parts.trans (congrArg (sign ++ ·) split), signed,
      digits, scaleText_of_readExponent? exponent, rfl⟩

/-! ### The characters of a literal -/

theorem mem_sign (signed : SignText sign negative) : ∀ c ∈ sign, c = '+' ∨ c = '-' := by
  cases signed <;> simp

theorem mem_mantissa (digits : MantissaText mantissa whole fraction) :
    ∀ c ∈ mantissa, c.isDigit ∨ c = '.' := by
  cases digits with
  | whole several digits => exact fun c hc => .inl (digits c hc)
  | pointed several digits more =>
    intro c hc
    rcases List.mem_append.1 hc with hc | hc
    · exact .inl (digits c hc)
    · exact (List.mem_cons.1 hc).symm.imp_left (more c)

theorem exists_digit (digits : MantissaText mantissa whole fraction) : ∃ c ∈ mantissa, c.isDigit := by
  cases digits with
  | whole several digits =>
    obtain ⟨c, hc⟩ := List.exists_mem_of_ne_nil _ several
    exact ⟨c, hc, digits c hc⟩
  | pointed several digits more =>
    rcases several with several | several
    · obtain ⟨c, hc⟩ := List.exists_mem_of_ne_nil _ several
      exact ⟨c, List.mem_append_left _ hc, digits c hc⟩
    · obtain ⟨c, hc⟩ := List.exists_mem_of_ne_nil _ several
      exact ⟨c, List.mem_append_right _ (List.mem_cons_of_mem _ hc), more c hc⟩

theorem mem_scale (scaled : ScaleText scale n) :
    ∀ c ∈ scale, c.isDigit ∨ c ∈ ['e', 'E', '+', '-'] := by
  cases scaled with
  | none => exact nofun
  | power marked signed several digits =>
    intro c hc
    rcases List.mem_cons.1 hc with rfl | hc
    · rcases marked with rfl | rfl <;> exact .inr (by decide)
    · rcases List.mem_append.1 hc with hc | hc
      · rcases mem_sign signed c hc with rfl | rfl <;> exact .inr (by decide)
      · exact .inl (digits c hc)

/--
A literal has a digit, and beside digits only signs, points and marks.  This is why `read?` starts
without a test that these are the characters of the text: the test would refuse no literal.
-/
theorem chars_of_read? (h : read? text = some l) :
    (∃ c ∈ text, c.isDigit) ∧ ∀ c ∈ text, c.isDigit ∨ c ∈ ['.', 'e', 'E', '+', '-'] := by
  obtain ⟨sign, mantissa, scale, whole, fraction, negative, n, rfl, signed, digits, scaled, -⟩ :=
    exists_parts h
  constructor
  · obtain ⟨c, hc, digit⟩ := exists_digit digits
    exact ⟨c, List.mem_append_right _ (List.mem_append_left _ hc), digit⟩
  · intro c hc
    rcases List.mem_append.1 hc with hc | hc
    · rcases mem_sign signed c hc with rfl | rfl <;> exact .inr (by decide)
    rcases List.mem_append.1 hc with hc | hc
    · exact (mem_mantissa digits c hc).imp_right fun point => by simp [point]
    · exact (mem_scale scaled c hc).imp_right (List.mem_cons_of_mem _)

end Literal

end Formula.Decimal
