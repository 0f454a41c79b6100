import Formula.Binary64.Basic
import Mathlib

/-!
# Finite doubles and rounding

A finite double is given by its sign and its index (`ofIndex_index`), and a double is finite when its
index is below that of infinity (`isFinite_iff`).

`indexOfUnits` is what `nearestIndex` computes from a number of units of `2⁻¹⁰⁷⁴`.  Written so, no
proof about rounding meets the power itself.  Rounding depends on the quotient alone
(`nearestIndex_mul_left`), gives back every double (`nearestIndex_magnitude`), and is zero or
infinite far outside the range.
-/

namespace Formula.Binary64

open Float.Model (UnpackedFloat)

/-! ### Sign and index -/

theorem toNat_toBits (v : Float) :
    v.toBits.toNat = (if isNegative v then 0x8000000000000000 else 0) + index v := by
  have bound := v.toBits.toNat_lt
  unfold isNegative index
  split <;> simp_all <;> omega

theorem toBits_inj {v w : Float} (h : v.toBits = w.toBits) : v = w := by
  obtain ⟨bits, valid⟩ := v
  obtain ⟨bits', valid'⟩ := w
  cases (h : bits = bits')
  rfl

theorem isFinite_iff {v : Float} : v.isFinite ↔ index v < infinite := by
  let bits : BitVec Float.Model.Format.binary64.numBits := v.toBits.toBitVec
  have exponent : UnpackedFloat.unpackExponent bits = -1#11 ↔ ¬ index v < infinite := by
    rw [← BitVec.toNat_inj, index, infinite]
    simp only [UnpackedFloat.unpackExponent, BitVec.toNat_cast, BitVec.extractLsb_toNat,
      Nat.shiftRight_eq_div_pow, bits, UInt64.toNat_toBitVec]
    rw [show (-1#11 : BitVec 11).toNat = 2047 from rfl]
    omega
  change (UnpackedFloat.unpack .binary64 bits).isFinite ↔ _
  unfold UnpackedFloat.unpack
  dsimp only
  split
  · next special =>
    have infinite := exponent.1 special
    split <;> exact iff_of_false Bool.false_ne_true infinite
  · next ordinary =>
    have finite : index v < infinite := Decidable.not_not.1 (mt exponent.2 ordinary)
    split
    · split <;> exact iff_of_true rfl finite
    · exact iff_of_true rfl finite

theorem ofIndex_index {v : Float} (h : index v ≤ infinite) :
    ofIndex (isNegative v) (index v) = v := by
  have bits : (ofIndex (isNegative v) (index v)).toBits = v.toBits := by
    apply UInt64.toNat_inj.1
    rw [toBits_ofIndex, Nat.min_eq_left h, toNat_toBits]
  exact toBits_inj bits

/-! ### Magnitudes -/

/-- A double with biased exponent `b` and significand bits `f` after the leading one. -/
theorem magnitude_normal {b f : Nat} (hb : 0 < b) (hf : f < binade) :
    magnitude (b * binade + f) = (binade + f) * 2 ^ (b - 1) := by
  have positive : 0 < binade := by decide
  have above : ¬ b * binade + f < binade :=
    Nat.not_lt.2 (Nat.le_trans (Nat.le_mul_of_pos_left binade hb) (Nat.le_add_right _ f))
  have quotient : (b * binade + f) / binade = b := by
    rw [Nat.mul_comm, Nat.mul_add_div positive, Nat.div_eq_of_lt hf, Nat.add_zero]
  rw [magnitude, if_neg above, Nat.mul_add_mod_of_lt hf, quotient, Nat.shiftLeft_eq]

/-! ### Rounding -/

/-- The length of a significand with 53 bits and zeros after them. -/
theorem log2_mul_two_pow {m : Nat} (lower : 2 ^ 52 ≤ m) (upper : m < 2 ^ 53) (j : Nat) :
    (m * 2 ^ j).log2 = 52 + j := by
  have positive : 0 < 2 ^ j := Nat.two_pow_pos j
  refine (Nat.log2_eq_iff (Nat.mul_ne_zero (by omega) (by omega))).2 ⟨?_, ?_⟩
  · rw [Nat.pow_add]
    exact Nat.mul_le_mul_right _ lower
  · rw [show 52 + j + 1 = 53 + j by omega, Nat.pow_add]
    exact Nat.mul_lt_mul_of_pos_right upper positive

/-- `nearestIndex` with the dividend in units of `2⁻¹⁰⁷⁴`. -/
def indexOfUnits (units den : Nat) : Nat :=
  let shift := (units / den).log2 - 52
  shift * binade + roundDiv units (den * 2 ^ shift)

theorem nearestIndex_eq (num den : Nat) :
    nearestIndex num den = indexOfUnits (num * 2 ^ 1074) den := by
  simp only [nearestIndex, indexOfUnits, Nat.shiftLeft_eq]

theorem roundDiv_mul_left {c : Nat} (hc : 0 < c) (num den : Nat) :
    roundDiv (c * num) (c * den) = roundDiv num den := by
  have twice : 2 * (c * (num % den)) = c * (2 * (num % den)) := Nat.mul_left_comm ..
  simp only [roundDiv, Nat.mul_div_mul_left num den hc, Nat.mul_mod_mul_left, twice,
    Nat.mul_lt_mul_left hc]

/-- A quotient rounds to one of the two natural numbers around it. -/
theorem roundDiv_mem (num den : Nat) :
    num / den ≤ roundDiv num den ∧ roundDiv num den ≤ num / den + 1 := by
  unfold roundDiv
  dsimp only
  split
  · omega
  · split <;> omega

theorem roundDiv_exact (n : Nat) {den : Nat} (hden : 0 < den) : roundDiv (n * den) den = n := by
  simp [roundDiv, Nat.mul_div_cancel _ hden, hden]

/-- A common factor of dividend and divisor does not matter. -/
theorem nearestIndex_mul_left {c : Nat} (hc : 0 < c) (num den : Nat) :
    nearestIndex (c * num) (c * den) = nearestIndex num den := by
  simp only [nearestIndex_eq, indexOfUnits, Nat.mul_assoc, Nat.mul_div_mul_left _ den hc,
    roundDiv_mul_left hc]

/-- Equal quotients round alike. -/
theorem nearestIndex_congr {num den num' den' : Nat} (hden : 0 < den) (hden' : 0 < den')
    (same : num * den' = num' * den) : nearestIndex num den = nearestIndex num' den' := by
  rw [← nearestIndex_mul_left hden' num den, ← nearestIndex_mul_left hden num' den',
    Nat.mul_comm den' num, same, Nat.mul_comm num' den, Nat.mul_comm den' den]

theorem indexOfUnits_magnitude {k one : Nat} (hone : 0 < one) :
    indexOfUnits (magnitude k * one) one = k := by
  rw [indexOfUnits, Nat.mul_div_cancel _ hone]
  by_cases subnormal : k < binade
  · have shift : k.log2 - 52 = 0 := by
      rcases Nat.eq_zero_or_pos k with rfl | positive
      · rfl
      · have length := (Nat.log2_lt (by omega)).2 (show k < 2 ^ 52 from subnormal)
        omega
    rw [magnitude, if_pos subnormal, shift, Nat.pow_zero, Nat.mul_one, roundDiv_exact k hone,
      Nat.zero_mul, Nat.zero_add]
  · obtain ⟨b, f, hb, hf, rfl⟩ : ∃ b f, 0 < b ∧ f < binade ∧ k = b * binade + f :=
      ⟨k / binade, k % binade, Nat.div_pos (Nat.not_lt.1 subnormal) (by decide),
        Nat.mod_lt k (by decide), (Nat.div_add_mod' k binade).symm⟩
    have significand : binade + f < 2 ^ 53 := by
      unfold binade at hf ⊢
      omega
    rw [magnitude_normal hb hf, log2_mul_two_pow (Nat.le_add_right binade f) significand,
      Nat.add_sub_cancel_left, Nat.mul_assoc, Nat.mul_comm _ one,
      roundDiv_exact _ (Nat.mul_pos hone (Nat.two_pow_pos _)), ← Nat.add_assoc, ← Nat.succ_mul,
      Nat.succ_eq_add_one, Nat.sub_add_cancel hb]

/-- Every double is nearest to itself. -/
theorem nearestIndex_magnitude (k : Nat) : nearestIndex (magnitude k) (2 ^ 1074) = k := by
  rw [nearestIndex_eq]
  exact indexOfUnits_magnitude (Nat.two_pow_pos 1074)

theorem indexOfUnits_eq_zero {units den : Nat} (h : 2 * units < den) :
    indexOfUnits units den = 0 := by
  have small : units < den := by omega
  simp [indexOfUnits, Nat.div_eq_of_lt small, roundDiv, Nat.mod_eq_of_lt small, h]

theorem indexOfUnits_of_small {num den n e : Nat} (hnum : num < 2 ^ n)
    (hden : 2 ^ (n + e + 1) ≤ den) :
    indexOfUnits (num * 2 ^ e) den = 0 := by
  apply indexOfUnits_eq_zero
  calc 2 * (num * 2 ^ e) < 2 * (2 ^ n * 2 ^ e) :=
        Nat.mul_lt_mul_of_pos_left (Nat.mul_lt_mul_of_pos_right hnum (Nat.two_pow_pos e)) (by decide)
    _ = 2 ^ (n + e + 1) := by rw [← Nat.pow_add, Nat.mul_comm, ← Nat.pow_succ]
    _ ≤ den := hden

theorem nearestIndex_zero {den : Nat} (hden : 0 < den) : nearestIndex 0 den = 0 := by
  have same (den' : Nat) (hden' : 0 < den') : nearestIndex 0 den = nearestIndex 0 den' :=
    nearestIndex_congr hden hden' (by simp)
  rw [same _ (Nat.two_pow_pos 1074)]
  exact nearestIndex_magnitude 0

/-- Less than half of the least positive double rounds to zero. -/
theorem nearestIndex_eq_zero {num den n : Nat} (hnum : num < 2 ^ n) (hden : 2 ^ (n + 1075) ≤ den) :
    nearestIndex num den = 0 := by
  rw [nearestIndex_eq]
  exact indexOfUnits_of_small (e := 1074) hnum hden

theorem le_indexOfUnits {units n : Nat} (hn : 52 ≤ n) (h : 2 ^ n ≤ units) :
    (n - 51) * binade ≤ indexOfUnits units 1 := by
  have nonzero : units ≠ 0 := by
    have := Nat.two_pow_pos n
    omega
  have length : n ≤ units.log2 := (Nat.le_log2 nonzero).2 h
  have quotient : binade ≤ units / 2 ^ (units.log2 - 52) := by
    apply (Nat.le_div_iff_mul_le (Nat.two_pow_pos _)).2
    rw [show binade = 2 ^ 52 from rfl, ← Nat.pow_add, Nat.add_sub_cancel' (by omega)]
    exact Nat.log2_self_le nonzero
  have rounded := Nat.le_trans quotient (roundDiv_mem units (2 ^ (units.log2 - 52))).1
  rw [indexOfUnits, Nat.div_one, Nat.one_mul, show n - 51 = n - 52 + 1 by omega, Nat.succ_mul]
  exact Nat.add_le_add (Nat.mul_le_mul_right _ (by omega)) rounded

theorem le_nearestIndex {num n : Nat} (h : 2 ^ n ≤ num) :
    (n + 1023) * binade ≤ nearestIndex num 1 := by
  rw [nearestIndex_eq]
  refine le_indexOfUnits (n := n + 1074) (by omega) ?_
  rw [Nat.pow_add]
  exact Nat.mul_le_mul_right _ h

/-- From `2 ^ 1024` on every quotient rounds to infinity. -/
theorem infinite_le_nearestIndex {num : Nat} (h : 2 ^ 1024 ≤ num) : infinite ≤ nearestIndex num 1 :=
  Nat.le_trans (show infinite ≤ (1024 + 1023) * binade by decide) (le_nearestIndex h)

end Formula.Binary64
