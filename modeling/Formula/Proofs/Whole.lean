import Formula.Binary64.Arithmetic
import Formula.Proofs.Doubles

/-!
# Whole numbers as doubles

Derivative rules write operand counts as constants.  Up to `2 ^ 53` the double of a natural number
is that number exactly (`units_ofNat`), and up to `2 ^ 64` it is finite (`isFinite_ofNat`).

A double is made by rounding a significand and packing it.  Rounding changes nothing when the
significand has 53 bits and zeros after them (`roundWithAccuracy_exact`), and packing such a
significand gives the index that `magnitude` reads back (`index_pack`).
-/

namespace Formula.Binary64

open Float.Model Float.Model.UnpackedFloat

/-! ### Rounding -/

/-- Zeros that are shifted out leave no trace. -/
theorem shiftRight_exact (m j : Nat) :
    (⟨m * 2 ^ j, false, false⟩ : ExtendedMantissa) >>> j = ⟨m, false, false⟩ := by
  change j.repeat ExtendedMantissa.shiftRightOne _ = _
  induction j generalizing m with
  | zero => simp [Nat.repeat]
  | succ j ih =>
    have step := ih (m * 2)
    rw [Nat.mul_assoc, ← Nat.pow_succ'] at step
    rw [Nat.repeat, step]
    simp [ExtendedMantissa.shiftRightOne]

/-- A significand with 53 bits before `j` zeros is shifted by `j`. -/
theorem shiftToTargetExponent_exact {m : Nat} (lower : 2 ^ 52 ≤ m) (upper : m < 2 ^ 53) {e : Int}
    (he : -1074 ≤ e) (j : Nat) :
    shiftToTargetExponent .binary64 (m * 2 ^ j) (e - j) .exact = (⟨m, false, false⟩, e) := by
  have length := log2_mul_two_pow lower upper j
  have target : Format.binary64.targetExponent (totalExponent (m * 2 ^ j) (e - j)) = e := by
    simp only [Format.targetExponent, totalExponent, Format.mantissaBits, Format.minExponent, length]
    omega
  have amount : (e - (e - (j : Int))).toNat = j := by omega
  rw [shiftToTargetExponent, target, shiftToExponent, amount]
  change ((⟨m * 2 ^ j, false, false⟩ : ExtendedMantissa) >>> j, _) = _
  rw [shiftRight_exact, Int.sub_add_cancel]

theorem roundWithAccuracy_exact (s : Sign) {m : Nat} (lower : 2 ^ 52 ≤ m) (upper : m < 2 ^ 53)
    {e : Int} (he : -1074 ≤ e) (j : Nat) (positive : 0 < m) :
    roundWithAccuracy .binary64 s (m * 2 ^ j) (e - j) .exact = .finite s m e positive := by
  have first := shiftToTargetExponent_exact lower upper he j
  have second : shiftToTargetExponent .binary64 m e .exact = (⟨m, false, false⟩, e) := by
    simpa using shiftToTargetExponent_exact lower upper he 0
  have rounded : (⟨m, false, false⟩ : ExtendedMantissa).roundedMantissa = m := rfl
  simp only [roundWithAccuracy, first, rounded, second]
  exact dif_neg (Nat.pos_iff_ne_zero.1 positive)

/-! ### Packing -/

theorem toNat_packComponents (exponent : BitVec 11) (significand : BitVec 52) :
    (packComponents .binary64 .positive exponent significand).toNat =
      exponent.toNat * 2 ^ 52 + significand.toNat := by
  rw [packComponents, BitVec.toNat_append, BitVec.toNat_append,
    ← Nat.shiftLeft_add_eq_or_of_lt significand.isLt, ← Nat.shiftLeft_add_eq_or_of_lt exponent.isLt,
    Nat.shiftLeft_eq]
  exact congrArg (· * 2 ^ 52 + significand.toNat) (Nat.zero_add _)

theorem unpackSign_packComponents (exponent : BitVec 11) (significand : BitVec 52) :
    unpackSign (packComponents .binary64 .positive exponent significand) = 0#1 := by
  have exponent_lt := exponent.isLt
  have significand_lt := significand.isLt
  apply BitVec.eq_of_toNat_eq
  simp only [unpackSign, BitVec.toNat_cast, BitVec.extractLsb_toNat, toNat_packComponents,
    Nat.shiftRight_eq_div_pow, BitVec.toNat_zero]
  omega

section

variable {m : Nat} {e : Int} (lower : 2 ^ 52 ≤ m) (upper : m < 2 ^ 53) (low : -1074 ≤ e)
  (high : e ≤ 971) (positive : 0 < m)

include lower upper low high

theorem pack_exact :
    UnpackedFloat.pack .binary64 (.finite .positive m e positive) =
      packComponents .binary64 .positive (BitVec.ofNat 11 (e + 1075).toNat) (BitVec.ofNat 52 m) := by
  have length : m.log2 = 52 := (Nat.log2_eq_iff (by omega)).2 ⟨lower, upper⟩
  have biased : (e + (Format.binary64.exponentBias : Int) + (52 : Nat)).toNat = (e + 1075).toNat := by
    simp only [Format.exponentBias]
    omega
  simp only [UnpackedFloat.pack, biased, length]
  rw [if_neg (by omega)]
  exact if_pos rfl

theorem unpack_pack :
    (Float.Model.pack (.finite .positive m e positive)).unpack = .finite .positive m e positive := by
  have bits : (Float.Model.pack (.finite .positive m e positive)).toBits.toBitVec =
      packComponents .binary64 .positive (BitVec.ofNat 11 (e + 1075).toNat) (BitVec.ofNat 52 m) :=
    pack_exact lower upper low high positive
  have exponent : (BitVec.ofNat 11 (e + 1075).toNat).toNat = (e + 1075).toNat := by
    rw [BitVec.toNat_ofNat, Nat.mod_eq_of_lt (by omega)]
  have finite : BitVec.ofNat 11 (e + 1075).toNat ≠ -1#11 := fun same => by
    have := congrArg BitVec.toNat same
    rw [exponent, show (-1#11 : BitVec 11).toNat = 2047 by rfl] at this
    omega
  have normal : BitVec.ofNat 11 (e + 1075).toNat ≠ 0#11 := fun same => by
    have := congrArg BitVec.toNat same
    rw [exponent, BitVec.toNat_zero] at this
    omega
  have significand : (1#1 ++ BitVec.ofNat 52 m).toNat = m := by
    rw [BitVec.toNat_append, ← Nat.shiftLeft_add_eq_or_of_lt (BitVec.isLt _), BitVec.toNat_ofNat,
      Nat.shiftLeft_eq]
    simp only [BitVec.toNat_ofNat]
    omega
  rw [Float.Model.unpack, UnpackedFloat.unpack, bits]
  simp only [unpackMantissa_packComponents, unpackExponent_packComponents, unpackSign_packComponents,
    if_neg finite, if_neg normal, significand, exponent]
  have same : ((e + 1075).toNat : Int) - ((Format.binary64.exponentBias : Int) + (52 : Nat)) = e := by
    simp only [Format.exponentBias]
    omega
  rw [same]
  rfl

theorem units_pack :
    units (.ofModel (Float.Model.pack (.finite .positive m e positive))) =
      (m * 2 ^ (e + 1074).toNat : Nat) := by
  have bits : (Float.Model.pack (.finite .positive m e positive)).toBits.toNat =
      (e + 1075).toNat * 2 ^ 52 + (m - 2 ^ 52) := by
    change (UnpackedFloat.pack .binary64 (.finite .positive m e positive)).toNat = _
    rw [pack_exact lower upper low high positive, toNat_packComponents, BitVec.toNat_ofNat,
      BitVec.toNat_ofNat]
    omega
  have toBits : (Float.ofModel (Float.Model.pack (.finite .positive m e positive))).toBits.toNat =
      (e + 1075).toNat * 2 ^ 52 + (m - 2 ^ 52) := bits
  have nonnegative : ¬ 0x8000000000000000 ≤ (e + 1075).toNat * 2 ^ 52 + (m - 2 ^ 52) := by omega
  have below : ((e + 1075).toNat * 2 ^ 52 + (m - 2 ^ 52)) % 0x8000000000000000 =
      (e + 1075).toNat * 2 ^ 52 + (m - 2 ^ 52) := Nat.mod_eq_of_lt (by omega)
  rw [units, isNegative, index, toBits, below, decide_eq_false nonnegative, if_neg Bool.false_ne_true,
    show 2 ^ 52 = binade from rfl, magnitude_normal (by omega) (by unfold binade; omega)]
  rw [show binade + (m - binade) = m by unfold binade; omega,
    show (e + 1075).toNat - 1 = (e + 1074).toNat by omega]

end

/-! ### Whole numbers -/

/-- A positive number below `2 ^ 53` has 53 bits after the right shift. -/
theorem exists_significand {n : Nat} (positive : 0 < n) (small : n < 2 ^ 53) :
    ∃ k ≤ 52, n.log2 + k = 52 ∧ 2 ^ 52 ≤ n * 2 ^ k ∧ n * 2 ^ k < 2 ^ 53 := by
  have nonzero : n ≠ 0 := by omega
  have length : n.log2 ≤ 52 := by
    have := (Nat.log2_lt nonzero).2 small
    omega
  refine ⟨52 - n.log2, by omega, by omega, ?_, ?_⟩
  · calc 2 ^ 52 = 2 ^ n.log2 * 2 ^ (52 - n.log2) := by rw [← Nat.pow_add]; congr 1; omega
      _ ≤ n * 2 ^ (52 - n.log2) := Nat.mul_le_mul_right _ (Nat.log2_self_le nonzero)
  · calc n * 2 ^ (52 - n.log2) < 2 ^ (n.log2 + 1) * 2 ^ (52 - n.log2) :=
          Nat.mul_lt_mul_of_pos_right Nat.lt_log2_self (Nat.two_pow_pos _)
      _ = 2 ^ 53 := by rw [← Nat.pow_add]; congr 1; omega

theorem ofNat_finite {n k : Nat} (length : n.log2 + k = 52) (lower : 2 ^ 52 ≤ n * 2 ^ k)
    (upper : n * 2 ^ k < 2 ^ 53) (positive : 0 < n * 2 ^ k) :
    UnpackedFloat.ofNat .binary64 n = .finite .positive (n * 2 ^ k) (-k) positive := by
  have target : Format.binary64.targetExponent (totalExponent n 0) = -k := by
    simp only [Format.targetExponent, totalExponent, Format.mantissaBits, Format.minExponent]
    omega
  have widened : decreaseExponent n 0 (-k) = (n * 2 ^ k, -(k : Int)) := by
    simp [decreaseExponent, Nat.shiftLeft_eq]
  have sign : compare (n : Int) 0 = .gt := by
    have : 0 < n := Nat.pos_of_mul_pos_right positive
    rw [show compare (n : Int) 0 = if (n : Int) < 0 then .lt else if (n : Int) = 0 then .eq else .gt
      from rfl, if_neg (by omega), if_neg (by omega)]
  have rounded := roundWithAccuracy_exact .positive lower upper (e := -k) (by omega) 0 positive
  rw [Nat.pow_zero, Nat.mul_one, Int.natCast_zero, Int.sub_zero] at rounded
  simp only [UnpackedFloat.ofNat, UnpackedFloat.ofInt, UnpackedFloat.normalize, sign,
    UnpackedFloat.round, Int.toNat_natCast, target, widened, rounded]

theorem ofNat_eq {n : Nat} (small : n < 2 ^ 53) :
    Float.ofNat n = n.toUInt64.toFloat * Float.ofBits 0x3FF0000000000000 := by
  rw [Float.ofNat]
  exact dif_pos ⟨small, by decide⟩

/-- Multiplication by one keeps a double. -/
theorem mul_one_exact {m : Nat} {e : Int} (lower : 2 ^ 52 ≤ m) (upper : m < 2 ^ 53)
    (low : -1074 ≤ e) (high : e ≤ 971) (positive : 0 < m) :
    Float.ofModel (Float.Model.pack (.finite .positive m e positive)) *
        Float.ofBits 0x3FF0000000000000 =
      .ofModel (Float.Model.pack (.finite .positive m e positive)) := by
  have one : (Float.ofBits 0x3FF0000000000000).toModel.unpack =
      .finite .positive (2 ^ 52) (-52) (by decide) := by
    rfl
  change Float.ofModel (Float.Model.pack (UnpackedFloat.mul .binary64 _ _)) = _
  rw [unpack_pack lower upper low high positive, one]
  exact congrArg (Float.ofModel ∘ Float.Model.pack)
    (roundWithAccuracy_exact .positive lower upper low 52 positive)

/-- Below `2 ^ 53` a positive natural number is packed with its own bits. -/
theorem ofNat_pack {n k : Nat} (small : n < 2 ^ 53) (length : n.log2 + k = 52)
    (lower : 2 ^ 52 ≤ n * 2 ^ k) (upper : n * 2 ^ k < 2 ^ 53) (positive : 0 < n * 2 ^ k) :
    Float.ofNat n = .ofModel (Float.Model.pack (.finite .positive (n * 2 ^ k) (-k) positive)) := by
  have toFloat : n.toUInt64.toFloat =
      .ofModel (Float.Model.pack (.finite .positive (n * 2 ^ k) (-k) positive)) := by
    change Float.ofModel (Float.Model.pack (UnpackedFloat.ofNat .binary64 n.toUInt64.toNat)) = _
    have same : n.toUInt64.toNat = n := Nat.mod_eq_of_lt (by omega)
    rw [same, ofNat_finite length lower upper positive]
  rw [ofNat_eq small, toFloat, mul_one_exact lower upper (by omega) (by omega) positive]

theorem unitsPerOne_eq : unitsPerOne = 2 ^ 1074 := Nat.one_shiftLeft 1074

/-- Up to `2 ^ 53` every natural number is a double. -/
theorem units_ofNat {n : Nat} (h : n ≤ 2 ^ 53) : units (.ofNat n) = (n * unitsPerOne : Nat) := by
  rcases Nat.eq_or_lt_of_le h with rfl | small
  · decide +kernel
  rcases Nat.eq_zero_or_pos n with rfl | positive
  · decide +kernel
  obtain ⟨k, hk, length, lower, upper⟩ := exists_significand positive small
  have positive : 0 < n * 2 ^ k := by omega
  rw [ofNat_pack small length lower upper positive,
    units_pack lower upper (by omega) (by omega) positive]
  rw [Nat.mul_assoc, ← Nat.pow_add, show k + (-(k : Int) + 1074).toNat = 1074 by omega,
    unitsPerOne_eq]

/-! ### Finite results -/

/-- Only the exponent with all bits set is not finite. -/
theorem isFinite_unpack {exponent : BitVec 11} (h : exponent ≠ -1#11) (s : Sign)
    (significand : BitVec 52) :
    (UnpackedFloat.unpack .binary64 (packComponents .binary64 s exponent significand)).isFinite := by
  simp only [UnpackedFloat.unpack, unpackMantissa_packComponents, unpackExponent_packComponents,
    if_neg h]
  split
  · split <;> rfl
  · rfl

theorem isFinite_pack {s : Sign} {m : Nat} {e : Int} (high : e ≤ 971) (positive : 0 < m) :
    (Float.ofModel (Float.Model.pack (.finite s m e positive))).isFinite := by
  have biased : (e + (Format.binary64.exponentBias : Int) + (52 : Nat)).toNat ≤ 2046 := by
    simp only [Format.exponentBias]
    omega
  change (UnpackedFloat.unpack .binary64
    (UnpackedFloat.pack .binary64 (.finite s m e positive))).isFinite
  simp only [UnpackedFloat.pack]
  rw [if_neg (by omega)]
  split
  · refine isFinite_unpack (fun same => ?_) s _
    have := congrArg BitVec.toNat same
    rw [BitVec.toNat_ofNat, Nat.mod_eq_of_lt (by omega),
      show (-1#11 : BitVec 11).toNat = 2047 by rfl] at this
    omega
  · exact isFinite_unpack (by decide) s _

theorem mantissa_shiftRight_le (m : ExtendedMantissa) (k : Nat) :
    (m >>> k).mantissa ≤ m.mantissa := by
  change (k.repeat ExtendedMantissa.shiftRightOne m).mantissa ≤ m.mantissa
  induction k with
  | zero => exact Nat.le_refl _
  | succ k ih => exact Nat.le_trans (Nat.div_le_self _ 2) ih

theorem roundedMantissa_le (m : ExtendedMantissa) : m.roundedMantissa ≤ m.mantissa + 1 := by
  obtain ⟨m, round, sticky⟩ := m
  cases round <;> cases sticky <;>
    simp only [ExtendedMantissa.roundedMantissa, ExtendedMantissa.accuracy,
      Accuracy.roundToNearestEven] <;> omega

/-- Shifting a significand to its place makes it no longer, and lifts the exponent that much only. -/
theorem shiftToTargetExponent_le (m : Nat) (e : Int) (accuracy : Accuracy) :
    (shiftToTargetExponent .binary64 m e accuracy).1.mantissa ≤ m ∧
      (shiftToTargetExponent .binary64 m e accuracy).2 ≤ max e (max (m.log2 + e - 52) (-1074)) := by
  constructor
  · refine Nat.le_trans (mantissa_shiftRight_le _ _) (Nat.le_of_eq ?_)
    rcases accuracy with _ | _ | _ | _ <;> rfl
  · simp only [shiftToTargetExponent, shiftToExponent, Format.targetExponent, totalExponent,
      Format.mantissaBits, Format.minExponent]
    omega

/-- Rounding a whole number, or a part of one, of at most 200 bits does not overflow. -/
theorem isFinite_round {s : Sign} {m : Nat} {e : Int} {accuracy : Accuracy} (small : m < 2 ^ 200)
    (low : e ≤ 0) :
    (Float.ofModel (Float.Model.pack (roundWithAccuracy .binary64 s m e accuracy))).isFinite := by
  have log2_le {n k : Nat} (h : n < 2 ^ (k + 1)) : n.log2 ≤ k := by
    rcases Nat.eq_zero_or_pos n with rfl | positive
    · exact Nat.zero_le k
    · exact Nat.le_of_lt_succ ((Nat.log2_lt (by omega)).2 h)
  obtain ⟨first, firstExponent⟩ := shiftToTargetExponent_le m e accuracy
  have rounded := roundedMantissa_le (shiftToTargetExponent .binary64 m e accuracy).1
  have length : m.log2 ≤ 199 := log2_le small
  have length' : (shiftToTargetExponent .binary64 m e accuracy).1.roundedMantissa.log2 ≤ 200 :=
    log2_le (by omega)
  rw [roundWithAccuracy]
  generalize shiftToTargetExponent .binary64 m e accuracy = result at *
  obtain ⟨em, e'⟩ := result
  have secondExponent := (shiftToTargetExponent_le em.roundedMantissa e' .exact).2
  dsimp only at *
  split
  · exact isFinite_unpack (by decide) s 0
  · exact isFinite_pack (by omega) _

/-- A whole number that is read as a decimal is rounded from 53 zero bits after it. -/
theorem ofScientific_zero {n : Nat} (nonzero : n ≠ 0) :
    UnpackedFloat.ofScientific .binary64 n 0 =
      roundWithAccuracy .binary64 .positive (n * 2 ^ 53) (-53) .exact := by
  have inRange : ¬ (0 : Int) < -(2 ^ 11 + n.log2) := by omega
  simp only [UnpackedFloat.ofScientific, dif_neg nonzero]
  rw [if_neg (by decide), if_neg inRange, if_pos (Int.le_refl 0)]
  simp only [UnpackedFloat.mul, Nat.shiftLeft_eq, Int.toNat_zero, Nat.pow_zero, Nat.mul_one,
    Int.add_zero]
  rfl

/-- From `2 ^ 53` on a natural number is rounded. -/
theorem ofNat_of_large {n : Nat} (large : 2 ^ 53 ≤ n) :
    Float.ofNat n = .ofModel (Float.Model.pack
      (roundWithAccuracy .binary64 .positive (n * 2 ^ 53) (-53) .exact)) := by
  have model : Float.ofNat n = .ofModel (Float.Model.ofScientific n 0) :=
    dif_neg fun fast => Nat.not_lt.2 large fast.1
  rw [model, Float.Model.ofScientific, ofScientific_zero (by omega)]

/-- A natural number of 64 bits is rounded to a finite double. -/
theorem isFinite_ofNat {n : Nat} (h : n < 2 ^ 64) : (Float.ofNat n).isFinite := by
  by_cases small : n < 2 ^ 53
  · rcases Nat.eq_zero_or_pos n with rfl | positive
    · decide +kernel
    obtain ⟨k, -, length, lower, upper⟩ := exists_significand positive small
    rw [ofNat_pack small length lower upper (by omega)]
    exact isFinite_pack (by omega) _
  · rw [ofNat_of_large (Nat.not_lt.1 small)]
    exact isFinite_round (by omega) (by decide)

end Formula.Binary64
