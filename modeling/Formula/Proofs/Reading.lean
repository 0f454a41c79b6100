import Formula.Proofs.Numerals
import Formula.Proofs.Rounding

/-!
# What is read as a numeral

A numeral is a literal together with the real number that its digits, point and power of ten write
(`Numeral`).  It is read as the finite double that this number rounds to, with the sign that is
written, and every other text is refused; the text of a finite double is read as that double
(`numerals_read`).  Every numeral in the range of finite doubles has one (`isSome_read?_iff`).

The reader works with a quotient of naturals and an index (`isNearest_nearest`), and an index that is
nearest to a number is the only one.
-/

noncomputable section

namespace Formula.Decimal

open Binary64

namespace Literal

variable {l : Literal} {v : Float}

/-! ### Values -/

/-- The real number that a literal writes after its sign. -/
def size (l : Literal) : ℝ := l.digits * 10 ^ l.exponent

/-- The real number that a literal writes. -/
def value (l : Literal) : ℝ := if l.negative then -l.size else l.size

theorem size_nonneg (l : Literal) : 0 ≤ l.size := by
  unfold size
  positivity

theorem abs_value (l : Literal) : |l.value| = l.size := by
  unfold value
  split
  · rw [abs_neg, abs_of_nonneg l.size_nonneg]
  · exact abs_of_nonneg l.size_nonneg

theorem size_eq (l : Literal) : l.size = l.quotient.1 / l.quotient.2 := by
  rw [size, quotient]
  split
  · next whole =>
    rw [tens_eq, Nat.cast_one, div_one, Nat.cast_mul, Nat.cast_pow, Nat.cast_ofNat, ← zpow_natCast,
      Int.toNat_of_nonneg whole]
  · next fraction =>
    rw [tens_eq, Nat.cast_pow, Nat.cast_ofNat, ← zpow_natCast, Int.toNat_of_nonneg (by omega),
      zpow_neg, div_inv_eq_mul]

theorem quotient_pos (l : Literal) : 0 < l.quotient.2 := by
  rw [quotient]
  split
  · exact Nat.one_pos
  · rw [tens_eq]
    exact Nat.pow_pos (by decide)

/-- The reader finds the nearest magnitude. -/
theorem isNearest_nearest (l : Literal) : IsNearest (l.size * unitsPerOne) l.nearest := by
  have near := isNearest_indexOfUnits (l.quotient.1 * unitsPerOne) l.quotient_pos
  rwa [Nat.cast_mul, mul_div_right_comm, ← size_eq, unitsPerOne_eq, ← nearestIndex_eq,
    ← unitsPerOne_eq] at near

/-- A literal reads as the double that its value rounds to, with its sign. -/
theorem toFloat?_eq_some_iff :
    l.toFloat? = some v ↔ isNegative v = l.negative ∧ RoundsTo l.value v := by
  have near := l.isNearest_nearest
  rw [toFloat?, index?_eq, Option.map_eq_some_iff, roundsTo_iff, abs_value]
  constructor
  · rintro ⟨k, found, rfl⟩
    split at found
    · next below =>
      obtain rfl := Option.some.inj found
      have sign := isNegative_ofIndex l.negative l.nearest
      refine ⟨sign, mul_toReal_nonneg ?_ ?_, ?_⟩
      · intro negative
        rw [value, ← sign, if_pos negative]
        exact neg_nonpos.2 l.size_nonneg
      · intro positive
        rw [value, ← sign, if_neg positive]
        exact l.size_nonneg
      · rw [index_ofIndex (Nat.le_of_lt below)]
        exact ⟨below, near⟩
    · cases found
  · rintro ⟨sign, -, below, near'⟩
    have same := near'.unique near
    refine ⟨index v, ?_, ?_⟩
    · rw [← same, if_pos below]
    · rw [← sign, ofIndex_index (Nat.le_of_lt below)]

/-- A literal has a double when its value is in range. -/
theorem isSome_toFloat?_iff : l.toFloat?.isSome ↔ l.size < overflow := by
  have near := l.isNearest_nearest
  rw [← abs_of_nonneg l.size_nonneg] at near
  rw [toFloat?, Option.isSome_map, index?_eq, ← abs_of_nonneg l.size_nonneg, ← lt_infinite_iff near]
  split <;> simp_all

end Literal

/-! ### Numerals -/

/-- A text that is a literal, whether its sign is a minus, and the number written after the sign. -/
inductive Numeral : List Char → Bool → ℝ → Prop
  | intro {sign mantissa scale whole fraction : List Char} {negative : Bool} {n : Int}
      (signed : SignText sign negative) (digits : MantissaText mantissa whole fraction)
      (scaled : ScaleText scale n) :
      Numeral (sign ++ (mantissa ++ scale)) negative
        ((ofDigits whole + ofDigits fraction / 10 ^ fraction.length) * 10 ^ n)

/-- Digits after the point are worth a tenth for each place. -/
theorem size_parts (negative : Bool) (whole fraction : List Char) (n : Int) :
    (⟨negative, ofDigits (whole ++ fraction), n - fraction.length⟩ : Literal).size =
      (ofDigits whole + ofDigits fraction / 10 ^ fraction.length) * 10 ^ n := by
  have places : (10 : ℝ) ^ fraction.length ≠ 0 := by positivity
  rw [Literal.size]
  dsimp only
  rw [ofDigits_append, Nat.cast_add, Nat.cast_mul, Nat.cast_pow, Nat.cast_ofNat,
    zpow_sub₀ (by norm_num), zpow_natCast]
  field_simp

theorem numeral_iff {text : List Char} {negative : Bool} {x : ℝ} :
    Numeral text negative x ↔
      ∃ l, Literal.read? text = some l ∧ l.negative = negative ∧ l.size = x := by
  constructor
  · rintro ⟨signed, digits, scaled⟩
    exact ⟨_, Literal.read?_parts signed digits scaled, rfl, size_parts ..⟩
  · rintro ⟨l, read, rfl, rfl⟩
    obtain ⟨sign, mantissa, scale, whole, fraction, negative, n, rfl, signed, digits, scaled, rfl⟩ :=
      Literal.exists_parts read
    rw [size_parts]
    exact .intro signed digits scaled

/--
A numeral is read exactly when its number is in range, so nothing but its size ever refuses one:
not the number of its digits, nor a power of ten that its digits make up for.
-/
theorem isSome_read?_iff {word : String} {negative : Bool} {x : ℝ}
    (numeral : Numeral word.toList negative x) : (read? word).isSome ↔ x < overflow := by
  obtain ⟨l, read, -, rfl⟩ := numeral_iff.1 numeral
  rw [read?, read, Option.bind_some, Literal.isSome_toFloat?_iff]

/--
A text is read as a double when it is a numeral whose number rounds to that double, the sign of a
zero being the one that is written, and finite doubles are read back from their texts.
-/
theorem numerals_read :
    (∀ (word : String) (v : Float), read? word = some v ↔
      ∃ negative x, Numeral word.toList negative x ∧ isNegative v = negative ∧
        RoundsTo (if negative then -x else x) v) ∧
      ∀ v : Float, v.isFinite → read? (text v) = some v := by
  refine ⟨fun word v => ?_, fun v => read?_text⟩
  rw [read?, Option.bind_eq_some_iff]
  constructor
  · rintro ⟨l, read, value⟩
    obtain ⟨sign, rounds⟩ := Literal.toFloat?_eq_some_iff.1 value
    exact ⟨l.negative, l.size, numeral_iff.2 ⟨l, read, rfl, rfl⟩, sign, rounds⟩
  · rintro ⟨negative, x, numeral, sign, rounds⟩
    obtain ⟨l, read, rfl, rfl⟩ := numeral_iff.1 numeral
    exact ⟨l, read, Literal.toFloat?_eq_some_iff.2 ⟨sign, rounds⟩⟩

-- Halfway between two doubles, and just below and above the midpoint after the last one.
example : read? "9007199254740993" = some 9007199254740992 := by decide +kernel

example : read? "179769313486231580793728971405303415e273" = some 1.7976931348623157e308 ∧
    read? "179769313486231580793728971405303416e273" = none := by decide +kernel

end Formula.Decimal

end
