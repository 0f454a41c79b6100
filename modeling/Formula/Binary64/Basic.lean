/-!
# Doubles as an enumeration of magnitudes

The finite doubles of one sign are numbered `0, 1, 2, …` in increasing order; `magnitude k` is the
`k`-th of them in units of `2⁻¹⁰⁷⁴`, and `infinite` is the number that infinity takes.  The number
is the bit pattern without the sign bit, so going from a double to its number and back is exact
(`toBits_ofIndex`).  `nearestIndex` rounds a quotient of naturals to the nearest double, a tie to
the even one, in exact arithmetic.
-/

namespace Formula.Binary64

/-- The number of doubles in one binade. -/
def binade : Nat := 0x10000000000000

/-- The number of finite doubles of one sign, and the place of infinity among them. -/
def infinite : Nat := 0x7ff0000000000000

/-- The `k`-th nonnegative double, counted in units of `2⁻¹⁰⁷⁴`. -/
def magnitude (k : Nat) : Nat :=
  if k < binade then k else (binade + k % binade) <<< (k / binade - 1)

/-- `num / den` rounded to the nearest natural, a tie to the even one. -/
def roundDiv (num den : Nat) : Nat :=
  let quotient := num / den
  let twice := 2 * (num % den)
  if twice < den then quotient
  else if den < twice then quotient + 1
  else quotient + quotient % 2

/--
The index of the double nearest to `num / den`, a tie to the even index.  The quotient is counted
in units of `2⁻¹⁰⁷⁴`; `shift` is how many of its low bits a double of that size cannot hold.  A
significand that rounds up to the next power of two carries into the next binade.
-/
def nearestIndex (num den : Nat) : Nat :=
  let units := num <<< 1074
  let shift := (units / den).log2 - 52
  shift * binade + roundDiv units (den <<< shift)

/-- The bits of the double with the given sign and index; every index past `infinite` is clipped. -/
def bitsOfIndex (negative : Bool) (k : Nat) : BitVec 64 :=
  BitVec.ofNat 64 ((if negative then 0x8000000000000000 else 0) + min k infinite)

theorem toNat_bitsOfIndex (negative : Bool) (k : Nat) :
    (bitsOfIndex negative k).toNat =
      (if negative then 0x8000000000000000 else 0) + min k infinite := by
  have h : min k infinite ≤ 0x7ff0000000000000 := Nat.min_le_right ..
  cases negative <;> simp [bitsOfIndex] <;> omega

/-- An index names a number or an infinity, so its bits are not those of a NaN. -/
theorem bitsOfIndex_valid (negative : Bool) (k : Nat) :
    Float.Model.Format.binary64.Valid (bitsOfIndex negative k) := by
  refine ⟨fun exponent mantissa => absurd (BitVec.eq_of_toNat_eq ?_) mantissa⟩
  have clipped : min k infinite ≤ 0x7ff0000000000000 := Nat.min_le_right ..
  have exponent := congrArg BitVec.toNat exponent
  simp only [Float.Model.UnpackedFloat.unpackExponent, Float.Model.UnpackedFloat.unpackMantissa,
    BitVec.toNat_cast, BitVec.extractLsb_toNat, toNat_bitsOfIndex] at exponent ⊢
  cases negative <;>
    simp [Nat.shiftRight_eq_div_pow] at exponent ⊢ <;> omega

/-- The double with the given sign and index. -/
def ofIndex (negative : Bool) (k : Nat) : Float :=
  .ofModel ⟨⟨bitsOfIndex negative k⟩, bitsOfIndex_valid negative k⟩

theorem toBits_ofIndex (negative : Bool) (k : Nat) :
    (ofIndex negative k).toBits.toNat =
      (if negative then 0x8000000000000000 else 0) + min k infinite :=
  toNat_bitsOfIndex negative k

/-- Whether the sign bit is set. -/
def isNegative (v : Float) : Bool := 0x8000000000000000 ≤ v.toBits.toNat

/-- The index of a double that is no NaN; a NaN gives a number past `infinite`. -/
def index (v : Float) : Nat := v.toBits.toNat % 0x8000000000000000

theorem index_ofIndex {negative : Bool} {k : Nat} (h : k ≤ infinite) :
    index (ofIndex negative k) = k := by
  have h' : k ≤ 0x7ff0000000000000 := h
  rw [index, toBits_ofIndex, Nat.min_eq_left h]
  cases negative <;> simp <;> omega

theorem isNegative_ofIndex (negative : Bool) (k : Nat) :
    isNegative (ofIndex negative k) = negative := by
  have h : min k infinite ≤ 0x7ff0000000000000 := Nat.min_le_right ..
  rw [isNegative, toBits_ofIndex]
  cases negative
  · simp
    omega
  · simp

end Formula.Binary64
