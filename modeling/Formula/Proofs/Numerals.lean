import Formula.Decimal.Layout
import Formula.Proofs.Doubles
import Formula.Proofs.Literals

/-!
# Numerals read back

The text of a finite double is a numeral that reads as that double, sign of zero included
(`read?_text`), and the other doubles are written as three words (`text_of_not_finite`).

Reading rounds the exact value of a literal; the tests that come first never change the answer
(`index?_eq`), so literals of the same value read alike.  Every step of the printer keeps the value or
checks that it reads back.
-/

namespace Formula.Decimal

open Binary64

theorem tens_eq (n : Nat) : tens n = 10 ^ n := rfl

/-! ### Reading depends on the value -/

namespace Literal

/-- The index that rounding the exact value gives. -/
def nearest (l : Literal) : Nat := nearestIndex l.quotient.1 l.quotient.2

section

variable {l : Literal}

theorem nearest_whole (h : 0 ≤ l.exponent) :
    l.nearest = nearestIndex (l.digits * 10 ^ l.exponent.toNat) 1 := by
  rw [nearest, quotient, if_pos h, tens_eq]

theorem nearest_fraction (h : l.exponent < 0) :
    l.nearest = nearestIndex l.digits (10 ^ (-l.exponent).toNat) := by
  rw [nearest, quotient, if_neg (by omega), tens_eq]

theorem two_pow_le_ten_pow (n : Nat) : 2 ^ (3 * n) ≤ 10 ^ n := by
  rw [Nat.pow_mul]
  exact Nat.pow_le_pow_left (by decide) n

theorem nearest_of_zero (h : l.digits = 0) : l.nearest = 0 := by
  by_cases whole : 0 ≤ l.exponent
  · rw [nearest_whole whole, h, Nat.zero_mul, nearestIndex_zero Nat.one_pos]
  · rw [nearest_fraction (Int.not_le.1 whole), h, nearestIndex_zero (Nat.pow_pos (by decide))]

theorem nearest_of_large (h : l.digits ≠ 0) (large : 400 ≤ l.exponent) :
    infinite ≤ l.nearest := by
  rw [nearest_whole (by omega)]
  apply infinite_le_nearestIndex
  calc 2 ^ 1024 ≤ 2 ^ (3 * l.exponent.toNat) := Nat.pow_le_pow_right (by decide) (by omega)
    _ ≤ 10 ^ l.exponent.toNat := two_pow_le_ten_pow _
    _ ≤ l.digits * 10 ^ l.exponent.toNat := Nat.le_mul_of_pos_left _ (Nat.pos_of_ne_zero h)

theorem nearest_of_small (small : (l.digits.log2 + 1076 : Int) ≤ -3 * l.exponent) :
    l.nearest = 0 := by
  rw [nearest_fraction (by omega)]
  apply nearestIndex_eq_zero Nat.lt_log2_self
  calc 2 ^ (l.digits.log2 + 1 + 1075) ≤ 2 ^ (3 * (-l.exponent).toNat) :=
        Nat.pow_le_pow_right (by decide) (by omega)
    _ ≤ 10 ^ (-l.exponent).toNat := two_pow_le_ten_pow _

end

/-- The tests on the exponent never change the answer. -/
theorem index?_eq (l : Literal) :
    l.index? = if l.nearest < infinite then some l.nearest else none := by
  unfold index?
  split
  · next zero => rw [nearest_of_zero zero, if_pos (by decide)]
  · next nonzero =>
    split
    · next large => rw [if_neg (Nat.not_lt.2 (nearest_of_large nonzero large))]
    · split
      · next small => rw [nearest_of_small small, if_pos (by decide)]
      · rfl

/-- A zero at the end of the digits is as good as one more in the exponent. -/
theorem nearest_shift (b b' : Bool) (d : Nat) (e : Int) :
    (⟨b, d, e + 1⟩ : Literal).nearest = (⟨b', 10 * d, e⟩ : Literal).nearest := by
  by_cases whole : 0 ≤ e
  · rw [nearest_whole (show 0 ≤ e + 1 by omega), nearest_whole whole]
    dsimp only
    rw [show (e + 1).toNat = e.toNat + 1 by omega, Nat.pow_succ, Nat.mul_comm 10 d, Nat.mul_assoc,
      Nat.mul_comm 10]
  rw [nearest_fraction (l := ⟨b', 10 * d, e⟩) (Int.not_le.1 whole)]
  by_cases last : e = -1
  · obtain rfl := last
    rw [nearest_whole (Int.le_refl 0)]
    apply nearestIndex_congr Nat.one_pos (Nat.pow_pos (by decide))
    simp [Nat.mul_comm]
  · rw [nearest_fraction (show e + 1 < 0 by omega)]
    apply nearestIndex_congr (Nat.pow_pos (by decide)) (Nat.pow_pos (by decide))
    dsimp only
    rw [show (-e).toNat = (-(e + 1)).toNat + 1 by omega, Nat.pow_succ, ← Nat.mul_assoc,
      Nat.mul_right_comm, Nat.mul_comm d 10]

/-- Halves are fives over tens. -/
theorem nearest_fives (b : Bool) (m n : Nat) :
    (⟨b, m * 5 ^ n, -n⟩ : Literal).nearest = nearestIndex m (2 ^ n) := by
  have powers : m * 5 ^ n * 2 ^ n = m * 10 ^ n := by
    rw [Nat.mul_assoc, ← Nat.mul_pow]
  cases n with
  | zero => simp [nearest, quotient, tens_eq]
  | succ n =>
    rw [nearest_fraction (show -((n + 1 : Nat) : Int) < 0 by omega)]
    apply nearestIndex_congr (Nat.pow_pos (by decide)) (Nat.two_pow_pos _)
    rw [powers]
    rfl

end Literal

/-! ### The shortest digits read back -/

namespace Scaled

theorem readsAs_iff {s : Scaled} {k : Nat} :
    s.readsAs k ↔ s.toLiteral.nearest = k ∧ k < infinite := by
  rw [readsAs, decide_eq_true_iff, Literal.index?_eq]
  split
  · grind
  · grind

/-- Moving a zero into the exponent keeps the value. -/
theorem nearest_dropZero (s : Scaled) : s.dropZero.toLiteral.nearest = s.toLiteral.nearest := by
  unfold dropZero
  split
  · next zero =>
    rw [toLiteral, toLiteral, Literal.nearest_shift false false, Nat.mul_div_cancel']
    exact Nat.dvd_of_mod_eq_zero zero
  · rfl

theorem readsAs_dropZero {s : Scaled} {k : Nat} (h : s.readsAs k) : s.dropZero.readsAs k := by
  rw [readsAs_iff] at h ⊢
  rwa [nearest_dropZero]

end Scaled

theorem gridPoint?_readsAs {k exact dropped : Nat} {s : Scaled}
    (h : gridPoint? k exact dropped = some s) : s.readsAs k := by
  unfold gridPoint? at h
  dsimp only at h
  generalize (if 2 * (exact % tens dropped) < tens dropped then _ else _ : Scaled) = near at h
  grind

theorem expansion_readsAs {k : Nat} (h : k < infinite) :
    (⟨expansion k, -1074⟩ : Scaled).readsAs k := by
  have exact := Literal.nearest_fives false (magnitude k) 1074
  rw [nearestIndex_magnitude] at exact
  exact Scaled.readsAs_iff.2 ⟨exact, h⟩

/-- What the search for the shortest digits can end with. -/
theorem shortest_cases (k : Nat) :
    (∃ dropped s, gridPoint? k (expansion k) dropped = some s ∧ shortest k = s.dropZero) ∨
      shortest k = ⟨expansion k, -1074⟩ := by
  -- Unfolded as a function: of two unfolded applications the kernel would evaluate the search.
  generalize unfolded : shortest = f
  delta shortest at unfolded
  subst unfolded
  dsimp only
  generalize search : List.findSome? _ _ = result
  cases result with
  | none => exact .inr rfl
  | some found =>
    obtain ⟨n, -, found⟩ := List.exists_of_findSome?_eq_some search
    exact .inl ⟨_, _, found, rfl⟩

/-- The shortest digits of a finite double read as it. -/
theorem shortest_readsAs {k : Nat} (h : k < infinite) : (shortest k).readsAs k := by
  rcases shortest_cases k with ⟨dropped, s, found, answer⟩ | answer
  · rw [answer]
    exact Scaled.readsAs_dropZero (gridPoint?_readsAs found)
  · rw [answer]
    exact expansion_readsAs h

/-! ### Digits -/

theorem isDigit_of_mem_digitsOf {n : Nat} : ∀ c ∈ digitsOf n, c.isDigit := fun _ =>
  Nat.isDigit_of_mem_toDigits (by decide) (by decide)

theorem digitsOf_ne_nil (n : Nat) : digitsOf n ≠ [] := Nat.toDigits_ne_nil

theorem ofDigits_eq (ds : List Char) : ofDigits ds = Nat.ofDigitChars 10 ds 0 :=
  Nat.ofDigitChars_eq_foldl.symm

theorem ofDigits_digitsOf (n : Nat) : ofDigits (digitsOf n) = n := by
  rw [ofDigits_eq, digitsOf, Nat.ofDigitChars_ten_toDigits]

theorem ofDigits_append (ds ds' : List Char) :
    ofDigits (ds ++ ds') = ofDigits ds * 10 ^ ds'.length + ofDigits ds' := by
  simp only [ofDigits_eq]
  rw [Nat.ofDigitChars_append, Nat.ofDigitChars_eq_ofDigitChars_zero, Nat.mul_comm]

theorem ofDigits_zeros (n : Nat) : ofDigits (List.replicate n '0') = 0 := by
  rw [ofDigits_eq, Nat.ofDigitChars_replicate_zero, Nat.mul_zero]

/-! ### Positional texts -/

namespace Scaled

/-- A decimal with a point is at least one digit, the point, and the digits after it. -/
theorem positional_of_neg {s : Scaled} (h : s.exponent < 0) :
    ∃ whole fraction, s.positional [] = whole ++ '.' :: fraction ∧ whole ≠ [] ∧
      (∀ c ∈ whole, c.isDigit) ∧ (∀ c ∈ fraction, c.isDigit) ∧
      ofDigits (whole ++ fraction) = s.digits ∧ -(fraction.length : Int) = s.exponent := by
  let places := (-s.exponent).toNat
  let padded := List.replicate (places + 1 - (digitsOf s.digits).length) '0' ++ digitsOf s.digits
  have length : places < padded.length := by
    simp only [padded, List.length_append, List.length_replicate]
    omega
  have digits : ∀ c ∈ padded, c.isDigit := by
    refine List.forall_mem_append.2 ⟨fun c hc => ?_, isDigit_of_mem_digitsOf⟩
    rw [List.eq_of_mem_replicate hc]
    rfl
  refine ⟨padded.take (padded.length - places), padded.drop (padded.length - places), ?_, ?_,
    fun c hc => digits c (List.mem_of_mem_take hc), fun c hc => digits c (List.mem_of_mem_drop hc),
    ?_, ?_⟩
  · exact if_neg (Int.not_le.2 h)
  · rw [Ne, List.take_eq_nil_iff]
    rintro (none | none)
    · omega
    · rw [none] at length
      cases length
  · rw [List.take_append_drop, ofDigits_append, ofDigits_zeros, Nat.zero_mul, Nat.zero_add,
      ofDigits_digitsOf]
  · rw [List.length_drop]
    omega

theorem positional_of_nonneg {s : Scaled} (h : 0 ≤ s.exponent) :
    s.positional [] = digitsOf s.digits ++ List.replicate s.exponent.toNat '0' := by
  rw [positional, if_pos h, List.append_nil]

theorem mem_positional {s : Scaled} : ∀ c ∈ s.positional [], c.isDigit ∨ c = '.' := by
  intro c hc
  rcases Int.lt_or_le s.exponent 0 with negative | nonnegative
  · obtain ⟨whole, fraction, text, -, wholeDigits, fractionDigits, -, -⟩ :=
      positional_of_neg negative
    rw [text, List.mem_append, List.mem_cons] at hc
    rcases hc with hc | rfl | hc
    · exact .inl (wholeDigits c hc)
    · exact .inr rfl
    · exact .inl (fractionDigits c hc)
  · rw [positional_of_nonneg nonnegative, List.mem_append] at hc
    rcases hc with hc | hc
    · exact .inl (isDigit_of_mem_digitsOf c hc)
    · rw [List.eq_of_mem_replicate hc]
      exact .inl rfl

theorem positional_ne_nil (s : Scaled) : s.positional [] ≠ [] := by
  rcases Int.lt_or_le s.exponent 0 with negative | nonnegative
  · obtain ⟨whole, fraction, text, several, -⟩ := positional_of_neg negative
    rw [text]
    exact List.append_ne_nil_of_left_ne_nil several _
  · rw [positional_of_nonneg nonnegative]
    exact List.append_ne_nil_of_left_ne_nil (digitsOf_ne_nil _) _

/-- A positional text is a literal with the value of the decimal. -/
theorem read?_positional (s : Scaled) (negative : Bool) :
    ∃ l, Literal.read? (if negative then '-' :: s.positional [] else s.positional []) = some l ∧
      l.negative = negative ∧ l.nearest = s.toLiteral.nearest := by
  obtain ⟨sign, signed, parts⟩ : ∃ sign, SignText sign negative ∧
      (if negative then '-' :: s.positional [] else s.positional []) =
        sign ++ (s.positional [] ++ []) := by
    cases negative
    · exact ⟨_, .none, by simp⟩
    · exact ⟨_, .minus, by simp⟩
  rw [parts]
  rcases Int.lt_or_le s.exponent 0 with fractional | integral
  · obtain ⟨whole, fraction, text, several, wholeDigits, fractionDigits, value, exponent⟩ :=
      positional_of_neg fractional
    have pointed := MantissaText.pointed (.inl several) wholeDigits fractionDigits
    rw [text, Literal.read?_parts signed pointed .none, value, Int.zero_sub, exponent]
    exact ⟨_, rfl, rfl, rfl⟩
  · have text := positional_of_nonneg integral
    have digits : ∀ c ∈ s.positional [], c.isDigit := by
      rw [text]
      refine List.forall_mem_append.2 ⟨isDigit_of_mem_digitsOf, fun c hc => ?_⟩
      rw [List.eq_of_mem_replicate hc]
      rfl
    refine ⟨_, Literal.read?_parts signed (.whole s.positional_ne_nil digits) .none, rfl, ?_⟩
    rw [List.append_nil, text, ofDigits_append, ofDigits_zeros, ofDigits_digitsOf,
      Literal.nearest_whole (Int.le_refl 0), Literal.nearest_whole integral]
    simp [toLiteral]

end Scaled

/-! ### Texts of doubles -/

/-- A finite double is written as a sign and a decimal that reads as its index. -/
theorem layout_of_finite {v : Float} (h : index v < infinite) :
    ∃ s : Scaled, s.readsAs (index v) ∧ layout ['0'] (·.positional []) v =
      if isNegative v then '-' :: s.positional [] else s.positional [] := by
  by_cases zero : index v = 0
  · refine ⟨⟨0, 0⟩, ?_, ?_⟩
    · rw [zero]
      decide
    · simp only [layout, zero, if_true]
      rfl
  · refine ⟨shortest (index v), shortest_readsAs h, ?_⟩
    have number : ¬ infinite < index v := by omega
    have infinity : index v ≠ infinite := by omega
    simp only [layout, number, zero, infinity, if_false]

/-- Every finite double is read back from its text, bit for bit. -/
theorem read?_text {v : Float} (h : v.isFinite) : read? (text v) = some v := by
  have finite := isFinite_iff.1 h
  obtain ⟨s, reads, layout⟩ := layout_of_finite finite
  obtain ⟨l, read, sign, value⟩ := s.read?_positional (isNegative v)
  obtain ⟨nearest, -⟩ := Scaled.readsAs_iff.1 reads
  have index : l.index? = some (index v) := by
    rw [Literal.index?_eq, value, nearest, if_pos finite]
  rw [read?, text, String.toList_ofList, layout, read, Option.bind_some, Literal.toFloat?, index,
    sign, Option.map_some, ofIndex_index (by omega)]

theorem text_of_not_finite {v : Float} (h : ¬ v.isFinite) : text v ∈ ["NaN", "inf", "-inf"] := by
  have large : infinite ≤ index v := Nat.not_lt.1 (mt isFinite_iff.2 h)
  by_cases number : infinite < index v
  · simp [text, layout, number]
  · have infinity : index v = infinite := by omega
    have nonzero : infinite ≠ 0 := by decide
    cases sign : isNegative v <;> simp [text, layout, infinity, nonzero, sign]

/-- Only finite doubles are read. -/
theorem isFinite_of_read? {text : String} {v : Float} (h : read? text = some v) : v.isFinite := by
  obtain ⟨l, -, value⟩ := Option.bind_eq_some_iff.1 h
  obtain ⟨k, found, rfl⟩ := Option.map_eq_some_iff.1 value
  rw [Literal.index?_eq] at found
  split at found
  · next below =>
    obtain rfl := Option.some.inj found
    rw [isFinite_iff, index_ofIndex (Nat.le_of_lt below)]
    exact below
  · cases found

end Formula.Decimal
