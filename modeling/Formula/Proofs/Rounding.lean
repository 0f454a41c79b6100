import Formula.Proofs.Exact

/-!
# Nearest doubles

`IsNearest x k` says that of all magnitudes the `k`-th is nearest to `x`, and that `k` is even if
another one is as near.  Magnitudes increase, so this is a matter of the midpoints on both sides
(`isNearest_of_between`).  Inside a binade they are multiples of one power of two
(`magnitude_scaled`), which is how `indexOfUnits` finds the nearest one (`isNearest_indexOfUnits`).

`RoundsTo` is rounding as the standard says it, for real numbers and finite doubles.  It is the same
as being nearest with an index below that of infinity (`roundsTo_iff`).  A number is out of range
from the midpoint after the last finite magnitude on, because that midpoint is a tie and the last
finite index is odd (`lt_infinite_iff`).
-/

noncomputable section

namespace Formula.Binary64

variable {x : ℝ} {j k : ℕ} {v w : Float}

/-! ### Magnitudes increase -/

/-- From the start of a binade to its end, magnitudes are multiples of a power of two. -/
theorem magnitude_scaled {s r : ℕ} (lower : s = 0 ∨ binade ≤ r) (upper : r ≤ 2 * binade) :
    magnitude (s * binade + r) = r * 2 ^ s := by
  rcases Nat.lt_or_ge r binade with subnormal | normal
  · obtain rfl : s = 0 := lower.resolve_right (Nat.not_le.2 subnormal)
    rw [Nat.zero_mul, Nat.zero_add, magnitude, if_pos subnormal, Nat.pow_zero, Nat.mul_one]
  · obtain ⟨f, rfl⟩ := Nat.exists_eq_add_of_le normal
    rcases Nat.lt_or_ge f binade with inside | last
    · rw [← Nat.add_assoc, ← Nat.succ_mul, magnitude_normal (Nat.succ_pos s) inside,
        Nat.succ_sub_one]
    · obtain rfl : f = binade := by omega
      have next := magnitude_normal (b := s + 2) (f := 0) (by omega) (by decide)
      rw [show s * binade + (binade + binade) = (s + 2) * binade + 0 by ring, next,
        Nat.add_sub_cancel (n := s + 1) (m := 1), Nat.pow_succ]
      ring

theorem exists_scaled (k : ℕ) :
    ∃ s r, k = s * binade + r ∧ (s = 0 ∨ binade ≤ r) ∧ r < 2 * binade := by
  rcases Nat.lt_or_ge k binade with subnormal | normal
  · exact ⟨0, k, by omega, .inl rfl, by omega⟩
  · have positive : 0 < binade := by decide
    obtain ⟨s, quotient⟩ := Nat.exists_eq_add_one.2 (Nat.div_pos normal positive)
    have split := Nat.div_add_mod' k binade
    have rest := Nat.mod_lt k positive
    rw [quotient, Nat.succ_mul] at split
    exact ⟨s, binade + k % binade, by omega, .inr (Nat.le_add_right ..), by omega⟩

theorem magnitude_strictMono : StrictMono magnitude := by
  refine strictMono_nat_of_lt_succ fun k => ?_
  obtain ⟨s, r, rfl, lower, upper⟩ := exists_scaled k
  rw [Nat.add_assoc, magnitude_scaled lower (Nat.le_of_lt upper),
    magnitude_scaled (lower.imp_right Nat.le_succ_of_le) upper]
  exact Nat.mul_lt_mul_of_pos_right (Nat.lt_succ_self r) (Nat.two_pow_pos s)

/-! ### Nearest magnitudes -/

/-- No magnitude is nearer to `x` than the `k`-th, and one is as near only if `k` is even. -/
structure IsNearest (x : ℝ) (k : ℕ) : Prop where
  nearest : ∀ j, |x - magnitude k| ≤ |x - magnitude j|
  even : ∀ j, j ≠ k → |x - magnitude j| = |x - magnitude k| → Even k

section

variable {a b : ℝ} (h : a < b)

include h

theorem abs_sub_le_iff_midpoint : |x - a| ≤ |x - b| ↔ 2 * x ≤ a + b := by
  have factor : (x - b) ^ 2 - (x - a) ^ 2 = (b - a) * (a + b - 2 * x) := by ring
  rw [← sq_le_sq, ← sub_nonneg, factor, mul_nonneg_iff_of_pos_left (sub_pos.2 h), sub_nonneg]

theorem abs_sub_le_iff_midpoint' : |x - b| ≤ |x - a| ↔ a + b ≤ 2 * x := by
  have factor : (x - a) ^ 2 - (x - b) ^ 2 = (b - a) * (2 * x - (a + b)) := by ring
  rw [← sq_le_sq, ← sub_nonneg, factor, mul_nonneg_iff_of_pos_left (sub_pos.2 h), sub_nonneg]

theorem abs_sub_eq_iff_midpoint : |x - a| = |x - b| ↔ 2 * x = a + b := by
  rw [le_antisymm_iff, abs_sub_le_iff_midpoint h, abs_sub_le_iff_midpoint' h, ← le_antisymm_iff]

end

theorem cast_magnitude_lt (h : j < k) : (magnitude j : ℝ) < magnitude k :=
  Nat.cast_lt.2 (magnitude_strictMono h)

theorem cast_magnitude_le (h : j ≤ k) : (magnitude j : ℝ) ≤ magnitude k :=
  Nat.cast_le.2 (magnitude_strictMono.monotone h)

/-- An index is nearest when the midpoints on both sides of its magnitude are not passed. -/
theorem isNearest_of_between (above : 2 * x ≤ magnitude k + magnitude (k + 1))
    (aboveTie : 2 * x = magnitude k + magnitude (k + 1) → Even k)
    (below : ∀ j, j + 1 = k → magnitude j + magnitude k ≤ 2 * x)
    (belowTie : ∀ j, j + 1 = k → 2 * x = magnitude j + magnitude k → Even k) : IsNearest x k := by
  have next {j : ℕ} (h : k < j) : (magnitude (k + 1) : ℝ) ≤ magnitude j := cast_magnitude_le h
  have previous {j : ℕ} (h : j < k) : ∃ i, i + 1 = k ∧ (magnitude j : ℝ) ≤ magnitude i :=
    ⟨k - 1, by omega, cast_magnitude_le (by omega)⟩
  refine ⟨fun j => ?_, fun j other same => ?_⟩
  · rcases Nat.lt_trichotomy j k with less | rfl | more
    · obtain ⟨i, hi, le⟩ := previous less
      rw [abs_sub_le_iff_midpoint' (cast_magnitude_lt less)]
      linarith [below i hi]
    · exact le_rfl
    · rw [abs_sub_le_iff_midpoint (cast_magnitude_lt more)]
      linarith [next more]
  · rcases Nat.lt_or_gt_of_ne other with less | more
    · obtain ⟨i, hi, le⟩ := previous less
      rw [abs_sub_eq_iff_midpoint (cast_magnitude_lt less)] at same
      exact belowTie i hi (le_antisymm (by linarith) (below i hi))
    · rw [eq_comm, abs_sub_eq_iff_midpoint (cast_magnitude_lt more)] at same
      exact aboveTie (le_antisymm above (by linarith [next more]))

/-- Between two even indices there is a nearer one. -/
theorem IsNearest.unique (h : IsNearest x j) (h' : IsNearest x k) : j = k := by
  by_contra different
  wlog less : j < k generalizing j k
  · exact this h' h (Ne.symm different) (Nat.lt_of_le_of_ne (Nat.not_lt.1 less) (Ne.symm different))
  have same := le_antisymm (h.nearest k) (h'.nearest j)
  have even := h.even k (Ne.symm different) same.symm
  have even' := h'.even j different same
  have between : j + 1 < k := by
    obtain ⟨m, rfl⟩ := even
    obtain ⟨n, rfl⟩ := even'
    omega
  have tie := (abs_sub_eq_iff_midpoint (cast_magnitude_lt less)).1 same
  have nearer := (abs_sub_le_iff_midpoint (cast_magnitude_lt (Nat.lt_succ_self j))).1
    (h.nearest (j + 1))
  linarith [cast_magnitude_lt between]

/-! ### Rounding by division -/

/-- A quotient is at most halfway to the next natural numbers from the one that it rounds to. -/
theorem roundDiv_between (num : ℕ) {den : ℕ} (positive : 0 < den) :
    (2 * num ≤ (2 * roundDiv num den + 1) * den ∧
        (2 * num = (2 * roundDiv num den + 1) * den → Even (roundDiv num den))) ∧
      2 * roundDiv num den * den ≤ 2 * num + den ∧
        (2 * roundDiv num den * den = 2 * num + den → Even (roundDiv num den)) := by
  have split := Nat.div_add_mod' num den
  have rest := Nat.mod_lt num positive
  unfold roundDiv
  dsimp only
  generalize num / den = q at *
  generalize num % den = m at *
  have lower : (2 * q + 1) * den = 2 * (q * den) + den := by ring
  have upper : (2 * (q + 1) + 1) * den = 2 * (q * den) + 3 * den := by ring
  have lower' : 2 * q * den = 2 * (q * den) := by ring
  have upper' : 2 * (q + 1) * den = 2 * (q * den) + 2 * den := by ring
  split
  · omega
  · split
    · omega
    · rcases Nat.mod_two_eq_zero_or_one q with even | odd
      · simp only [even, Nat.add_zero]
        have tie : Even q := Nat.even_iff.2 even
        exact ⟨⟨by omega, fun _ => tie⟩, by omega, fun _ => tie⟩
      · rw [odd]
        have tie : Even (q + 1) := Nat.even_iff.2 (by omega)
        exact ⟨⟨by omega, fun _ => tie⟩, by omega, fun _ => tie⟩

/-- Without the bits that a double cannot hold, a number lies in one binade. -/
theorem leading_bits (n : ℕ) :
    n / 2 ^ (n.log2 - 52) < 2 * binade ∧
      (n.log2 - 52 = 0 ∨ binade ≤ n / 2 ^ (n.log2 - 52)) := by
  constructor
  · rw [Nat.div_lt_iff_lt_mul (Nat.two_pow_pos _)]
    calc n < 2 ^ (n.log2 + 1) := Nat.lt_log2_self
      _ ≤ 2 ^ (52 + (n.log2 - 52) + 1) := Nat.pow_le_pow_right (by decide) (by omega)
      _ = 2 * binade * 2 ^ (n.log2 - 52) := by
        rw [show binade = 2 ^ 52 from rfl]
        ring
  · refine (Nat.le_total n.log2 52).imp Nat.sub_eq_zero_of_le fun long => ?_
    have nonzero : n ≠ 0 := by
      rintro rfl
      contradiction
    rw [Nat.le_div_iff_mul_le (Nat.two_pow_pos _), show binade = 2 ^ 52 from rfl, ← Nat.pow_add,
      Nat.add_sub_cancel' long]
    exact Nat.log2_self_le nonzero

/-- Whether a quotient passes midpoints is a matter of natural numbers. -/
theorem isNearest_div {units den : ℕ} (positive : 0 < den)
    (above : 2 * units ≤ (magnitude k + magnitude (k + 1)) * den ∧
      (2 * units = (magnitude k + magnitude (k + 1)) * den → Even k))
    (below : ∀ j, j + 1 = k → (magnitude j + magnitude k) * den ≤ 2 * units ∧
      (2 * units = (magnitude j + magnitude k) * den → Even k)) :
    IsNearest (units / den) k := by
  have divisor : (0 : ℝ) < den := Nat.cast_pos.2 positive
  have le (a b : ℕ) : 2 * (units / den : ℝ) ≤ a + b ↔ 2 * units ≤ (a + b) * den := by
    rw [← mul_div_assoc, div_le_iff₀ divisor]
    exact_mod_cast Iff.rfl
  have ge (a b : ℕ) : (a + b : ℝ) ≤ 2 * (units / den) ↔ (a + b) * den ≤ 2 * units := by
    rw [← mul_div_assoc, le_div_iff₀ divisor]
    exact_mod_cast Iff.rfl
  have eq (a b : ℕ) : 2 * (units / den : ℝ) = a + b ↔ 2 * units = (a + b) * den := by
    rw [← mul_div_assoc, div_eq_iff divisor.ne']
    exact_mod_cast Iff.rfl
  exact isNearest_of_between ((le ..).2 above.1) (fun tie => above.2 ((eq ..).1 tie))
    (fun j hj => (ge ..).2 (below j hj).1) fun j hj tie => (below j hj).2 ((eq ..).1 tie)

theorem even_index_iff (s r : ℕ) : Even (s * binade + r) ↔ Even r := by
  have even : Even (s * binade) := Even.mul_left (by decide) s
  rw [Nat.even_add, iff_true_left even]

section

variable {units den s r : ℕ} (lower : s = 0 ∨ binade ≤ r) (upper : r ≤ 2 * binade)

include lower upper

theorem magnitude_mul (den : ℕ) : magnitude (s * binade + r) * den = r * (den * 2 ^ s) := by
  rw [magnitude_scaled lower upper]
  ring

/-- A quotient below the end of its binade does not pass the midpoint above. -/
theorem midpoint_above (short : units < 2 * binade * (den * 2 ^ s))
    (above : 2 * units ≤ (2 * r + 1) * (den * 2 ^ s) ∧
      (2 * units = (2 * r + 1) * (den * 2 ^ s) → Even r)) :
    2 * units ≤ (magnitude (s * binade + r) + magnitude (s * binade + r + 1)) * den ∧
      (2 * units = (magnitude (s * binade + r) + magnitude (s * binade + r + 1)) * den →
        Even (s * binade + r)) := by
  have here := magnitude_mul lower upper den
  rcases Nat.lt_or_ge r (2 * binade) with inside | last
  · have next := magnitude_mul (lower.imp_right Nat.le_succ_of_le) inside den
    rw [Nat.add_mul, here, Nat.add_assoc, next, ← Nat.add_mul, even_index_iff,
      show r + r.succ = 2 * r + 1 by omega]
    exact above
  -- A quotient that rounds up to the next binade is below it.
  · obtain rfl : r = 2 * binade := Nat.le_antisymm upper last
    have more := magnitude_strictMono (Nat.lt_add_one (s * binade + 2 * binade))
    have next := Nat.mul_le_mul_right den (Nat.le_of_lt more)
    have strict : 2 * units < (magnitude (s * binade + 2 * binade) +
        magnitude (s * binade + 2 * binade + 1)) * den := by
      rw [Nat.add_mul]
      omega
    exact ⟨Nat.le_of_lt strict, fun tie => absurd tie (Nat.ne_of_lt strict)⟩

/-- A quotient from the start of its binade on does not pass the midpoint below. -/
theorem midpoint_below (positive : 0 < den) (start : s = 0 ∨ binade * (den * 2 ^ s) ≤ units)
    (below : 2 * r * (den * 2 ^ s) ≤ 2 * units + den * 2 ^ s ∧
      (2 * r * (den * 2 ^ s) = 2 * units + den * 2 ^ s → Even r))
    (before : j + 1 = s * binade + r) :
    (magnitude j + magnitude (s * binade + r)) * den ≤ 2 * units ∧
      (2 * units = (magnitude j + magnitude (s * binade + r)) * den → Even (s * binade + r)) := by
  have here := magnitude_mul lower upper den
  by_cases inside : s = 0 ∨ binade < r
  · have several : 0 < r := by
      rcases inside with rfl | inside <;> omega
    obtain ⟨r, rfl⟩ := Nat.exists_eq_add_one.2 several
    obtain rfl : j = s * binade + r := by omega
    have previous := magnitude_mul (inside.imp_right Nat.le_of_lt_succ) (Nat.le_of_lt upper) den
    have halfway : 2 * (r + 1) * (den * 2 ^ s) = (2 * r + 1) * (den * 2 ^ s) + den * 2 ^ s := by
      ring
    rw [Nat.add_mul, here, previous, ← Nat.add_mul, even_index_iff,
      show r + (r + 1) = 2 * r + 1 by omega]
    exact ⟨by omega, fun tie => below.2 (by omega)⟩
  -- The start of a binade is not above the quotient, which cannot be halfway down then.
  · obtain rfl : r = binade := by omega
    have start := start.resolve_left (not_or.1 inside).1
    have less := magnitude_strictMono (before ▸ Nat.lt_succ_self j : j < s * binade + binade)
    have previous := Nat.mul_lt_mul_of_pos_right less positive
    have strict : (magnitude j + magnitude (s * binade + binade)) * den < 2 * units := by
      rw [Nat.add_mul]
      omega
    exact ⟨Nat.le_of_lt strict, fun tie => absurd tie.symm (Nat.ne_of_lt strict)⟩

end

/-- Rounding a quotient finds the nearest magnitude. -/
theorem isNearest_indexOfUnits (units : ℕ) {den : ℕ} (positive : 0 < den) :
    IsNearest (units / den) (indexOfUnits units den) := by
  unfold indexOfUnits
  dsimp only
  obtain ⟨short, start⟩ := leading_bits (units / den)
  rw [Nat.div_div_eq_div_mul] at short start
  generalize (units / den).log2 - 52 = s at *
  have unit : 0 < den * 2 ^ s := Nat.mul_pos positive (Nat.two_pow_pos s)
  obtain ⟨down, up⟩ := roundDiv_mem units (den * 2 ^ s)
  obtain ⟨above, below⟩ := roundDiv_between units unit
  have lower := start.imp_right fun h => Nat.le_trans h down
  have upper := Nat.le_trans up short
  rw [Nat.div_lt_iff_lt_mul unit] at short
  rw [Nat.le_div_iff_mul_le unit] at start
  exact isNearest_div positive (midpoint_above lower upper short above) fun j before =>
    midpoint_below lower upper positive start below before

/-! ### The range of finite doubles -/

/-- Past an odd index, rounding goes up from the midpoint on. -/
theorem IsNearest.le_iff (h : IsNearest x k) (odd : ¬ Even j) :
    k ≤ j ↔ 2 * x < magnitude j + magnitude (j + 1) := by
  constructor
  · intro le
    have near := (abs_sub_le_iff_midpoint (cast_magnitude_lt (Nat.lt_succ_of_le le))).1
      (h.nearest (j + 1))
    refine lt_of_le_of_ne (near.trans (by linarith [cast_magnitude_le le])) fun tie => ?_
    rcases Nat.eq_or_lt_of_le le with rfl | less
    · have same := (abs_sub_eq_iff_midpoint (cast_magnitude_lt (Nat.lt_succ_self k))).2 tie
      exact odd (h.even (k + 1) (Nat.succ_ne_self k) same.symm)
    · linarith [cast_magnitude_lt less]
  · intro below
    by_contra more
    have less := Nat.not_le.1 more
    have near := (abs_sub_le_iff_midpoint' (cast_magnitude_lt less)).1 (h.nearest j)
    linarith [cast_magnitude_le (Nat.succ_le_of_lt less)]

/-- The midpoint of the last finite double and the number that would be the next one. -/
def overflow : ℕ := (2 ^ 54 - 1) * 2 ^ 970

theorem overflow_eq :
    (magnitude (infinite - 1) + magnitude (infinite - 1 + 1) : ℝ) =
      2 * (overflow * unitsPerOne) := by
  have last : magnitude (infinite - 1) = (2 * binade - 1) * 2 ^ 2045 := by
    rw [show infinite - 1 = 2045 * binade + (2 * binade - 1) by decide]
    exact magnitude_scaled (by decide) (by decide)
  have next : magnitude (infinite - 1 + 1) = 2 * binade * 2 ^ 2045 := by
    rw [show infinite - 1 + 1 = 2045 * binade + 2 * binade by decide]
    exact magnitude_scaled (by decide) (by decide)
  have sum : 2 * binade - 1 + 2 * binade = 2 ^ 54 - 1 := by decide
  have power (a b : ℕ) : 2 ^ (a + b + 1) = 2 * (2 ^ a * 2 ^ b) := by
    rw [Nat.pow_succ', Nat.pow_add]
  have twice : magnitude (infinite - 1) + magnitude (infinite - 1 + 1) =
      2 * (overflow * unitsPerOne) := by
    rw [last, next, ← Nat.add_mul, sum, power 970 1074, unitsPerOne_eq, overflow, Nat.mul_assoc,
      Nat.mul_left_comm]
  rw [← Nat.cast_add, twice, Nat.cast_mul, Nat.cast_mul, Nat.cast_ofNat]

theorem unitsPerOne_pos : (0 : ℝ) < unitsPerOne := by
  rw [unitsPerOne_eq]
  positivity

/-! ### Rounding real numbers -/

/--
The finite double that a real number rounds to: none is nearer, and when another number is as near,
the last bit is zero.  A real number that is as large as `overflow` rounds to no finite double.
-/
structure RoundsTo (x : ℝ) (v : Float) : Prop where
  inRange : |x| < overflow
  finite : v.isFinite
  nearest : ∀ w : Float, w.isFinite → |x - toReal v| ≤ |x - toReal w|
  even : ∀ w : Float, w.isFinite → toReal w ≠ toReal v → |x - toReal w| = |x - toReal v| →
    Even v.toBits.toNat

theorem even_toBits_iff : Even v.toBits.toNat ↔ Even (index v) := by
  have sign : Even (if isNegative v then 0x8000000000000000 else 0) := by
    split <;> decide
  rw [toNat_toBits, Nat.even_add, iff_true_left sign]

theorem toReal_eq (v : Float) : toReal v =
    if isNegative v then -(magnitude (index v) / unitsPerOne : ℝ)
    else magnitude (index v) / unitsPerOne := by
  rw [toReal, units]
  split
  · push_cast
    exact neg_div ..
  · rfl

/-- A number and a double of the same sign. -/
theorem mul_toReal_nonneg (negative : isNegative v → x ≤ 0) (positive : ¬ isNegative v → 0 ≤ x) :
    0 ≤ x * toReal v := by
  have size : (0 : ℝ) ≤ magnitude (index v) / unitsPerOne :=
    div_nonneg (Nat.cast_nonneg _) unitsPerOne_pos.le
  rw [toReal_eq]
  split
  · next sign => exact mul_nonneg_of_nonpos_of_nonpos (negative sign) (neg_nonpos.2 size)
  · next sign => exact mul_nonneg (positive sign) size

theorem abs_toReal (v : Float) : |toReal v| = magnitude (index v) / unitsPerOne := by
  have nonnegative : (0 : ℝ) ≤ magnitude (index v) / unitsPerOne :=
    div_nonneg (Nat.cast_nonneg _) unitsPerOne_pos.le
  rw [toReal_eq]
  split
  · rw [abs_neg, abs_of_nonneg nonnegative]
  · exact abs_of_nonneg nonnegative

/-- How far apart sizes are, in units. -/
theorem abs_sub_magnitude (x : ℝ) (v : Float) :
    |(|x| * unitsPerOne - magnitude (index v))| = |(|x| - |toReal v|)| * unitsPerOne := by
  have factor : |x| * unitsPerOne - magnitude (index v) = (|x| - |toReal v|) * unitsPerOne := by
    rw [abs_toReal, sub_mul, div_mul_cancel₀ _ unitsPerOne_pos.ne']
  rw [factor, abs_mul, abs_of_pos unitsPerOne_pos]

/-- Numbers are at least as far apart as their sizes. -/
theorem abs_sub_magnitude_le (x : ℝ) (v : Float) :
    |(|x| * unitsPerOne - magnitude (index v))| ≤ |x - toReal v| * unitsPerOne := by
  rw [abs_sub_magnitude]
  exact mul_le_mul_of_nonneg_right (abs_abs_sub_abs_le ..) unitsPerOne_pos.le

/-- Numbers of one sign are as far apart as their sizes. -/
theorem abs_sub_magnitude_eq (sign : 0 ≤ x * toReal v) :
    |(|x| * unitsPerOne - magnitude (index v))| = |x - toReal v| * unitsPerOne := by
  have same : |(|x| - |toReal v|)| = |x - toReal v| := by
    rw [← sq_eq_sq_iff_abs_eq_abs, sub_sq, sub_sq, sq_abs, sq_abs, mul_assoc 2, mul_assoc 2,
      ← abs_mul, abs_of_nonneg sign]
  rw [abs_sub_magnitude, same]

/-- The double of the sign of a number at an index. -/
theorem exists_index (x : ℝ) (below : k < infinite) :
    ∃ w : Float, w.isFinite ∧ index w = k ∧ 0 ≤ x * toReal w := by
  have place : index (ofIndex (x < 0) k) = k := index_ofIndex (Nat.le_of_lt below)
  have finite : (ofIndex (x < 0) k).isFinite := by
    rw [isFinite_iff, place]
    exact below
  refine ⟨ofIndex (x < 0) k, finite, place, mul_toReal_nonneg ?_ ?_⟩
  · rw [isNegative_ofIndex, decide_eq_true_iff]
    exact le_of_lt
  · rw [isNegative_ofIndex, decide_eq_true_iff, not_lt]
    exact id

theorem lt_infinite_iff (h : IsNearest (|x| * unitsPerOne) k) : k < infinite ↔ |x| < overflow := by
  have positive : 0 < infinite := by decide
  have odd : ¬ Even (infinite - 1) := by decide
  rw [Nat.lt_iff_le_pred positive, h.le_iff odd, overflow_eq, mul_lt_mul_iff_right₀ two_pos,
    mul_lt_mul_iff_left₀ unitsPerOne_pos]

/-- In range, the last finite magnitude is nearer than those after it. -/
theorem abs_sub_last_lt (inRange : |x| < overflow) (above : infinite ≤ j) :
    |(|x| * unitsPerOne - magnitude (infinite - 1))| < |(|x| * unitsPerOne - magnitude j)| := by
  have positive : 0 < infinite := by decide
  have less : infinite - 1 < j := Nat.lt_of_lt_of_le (Nat.sub_one_lt positive.ne') above
  rw [← not_le, abs_sub_le_iff_midpoint' (cast_magnitude_lt less), not_le]
  calc 2 * (|x| * unitsPerOne) < 2 * (overflow * unitsPerOne) :=
        mul_lt_mul_of_pos_left (mul_lt_mul_of_pos_right inRange unitsPerOne_pos) two_pos
    _ = magnitude (infinite - 1) + magnitude (infinite - 1 + 1) := overflow_eq.symm
    _ ≤ magnitude (infinite - 1) + magnitude j :=
      add_le_add_right (cast_magnitude_le (Nat.succ_le_of_lt less)) _

/-- What a number rounds to has its sign. -/
theorem RoundsTo.sign (h : RoundsTo x v) : 0 ≤ x * toReal v := by
  have near := h.nearest 0 (by decide)
  rw [toReal_zero, sub_zero, ← sq_le_sq] at near
  nlinarith [sq_nonneg (toReal v)]

theorem RoundsTo.isNearest (h : RoundsTo x v) : IsNearest (|x| * unitsPerOne) (index v) := by
  have here := abs_sub_magnitude_eq h.sign
  have positive : 0 < infinite := by decide
  have inside {j : ℕ} (below : j < infinite) :
      |(|x| * unitsPerOne - magnitude (index v))| ≤ |(|x| * unitsPerOne - magnitude j)| := by
    obtain ⟨w, finite, rfl, sign⟩ := exists_index x below
    rw [here, abs_sub_magnitude_eq sign]
    exact mul_le_mul_of_nonneg_right (h.nearest w finite) unitsPerOne_pos.le
  have outside {j : ℕ} (above : infinite ≤ j) :
      |(|x| * unitsPerOne - magnitude (index v))| < |(|x| * unitsPerOne - magnitude j)| :=
    (inside (Nat.sub_one_lt positive.ne')).trans_lt (abs_sub_last_lt h.inRange above)
  refine ⟨fun j => ?_, fun j other same => ?_⟩
  · rcases Nat.lt_or_ge j infinite with below | above
    · exact inside below
    · exact (outside above).le
  · rcases Nat.lt_or_ge j infinite with below | above
    · obtain ⟨w, finite, rfl, sign⟩ := exists_index x below
      rw [here, abs_sub_magnitude_eq sign, mul_left_inj' unitsPerOne_pos.ne'] at same
      refine even_toBits_iff.1 (h.even w finite (fun number => other ?_) same)
      have size := congrArg (|·|) number
      simp only [abs_toReal, div_left_inj' unitsPerOne_pos.ne'] at size
      exact magnitude_strictMono.injective (Nat.cast_injective size)
    · exact absurd same (outside above).ne'

/-- Of two numbers of the same size, a number other than zero is nearer to one. -/
theorem eq_zero_of_abs_sub_eq {a b : ℝ} (size : |a| = |b|) (different : a ≠ b)
    (same : |x - a| = |x - b|) : x = 0 := by
  obtain rfl : a = -b := (abs_eq_abs.1 size).resolve_left different
  have nonzero : b ≠ 0 := by
    rintro rfl
    exact different neg_zero
  rw [← sq_eq_sq_iff_abs_eq_abs] at same
  exact (mul_eq_zero.1 (by linarith : x * b = 0)).resolve_right nonzero

/-- A real number rounds to the finite double of its sign that is nearest to its size. -/
theorem roundsTo_iff :
    RoundsTo x v ↔
      0 ≤ x * toReal v ∧ index v < infinite ∧ IsNearest (|x| * unitsPerOne) (index v) := by
  constructor
  · intro h
    exact ⟨h.sign, isFinite_iff.1 h.finite, h.isNearest⟩
  · rintro ⟨sign, below, near⟩
    have here := abs_sub_magnitude_eq sign
    have nearest (w : Float) : |x - toReal v| ≤ |x - toReal w| := by
      refine le_of_mul_le_mul_right ?_ unitsPerOne_pos
      rw [← here]
      exact (near.nearest _).trans (abs_sub_magnitude_le x w)
    refine ⟨(lt_infinite_iff near).1 below, isFinite_iff.2 below, fun w _ => nearest w,
      fun w _ different same => even_toBits_iff.2 ?_⟩
    by_cases place : index w = index v
    · have size : |toReal w| = |toReal v| := by rw [abs_toReal, abs_toReal, place]
      obtain rfl := eq_zero_of_abs_sub_eq size different same
      have zero := nearest 0
      rw [toReal_zero, sub_zero, abs_zero, zero_sub, abs_neg, abs_nonpos_iff] at zero
      rw [zero, abs_zero, abs_eq_zero] at size
      exact absurd (size.trans zero.symm) different
    · refine near.even _ place (le_antisymm ?_ (near.nearest _))
      rw [here, ← same]
      exact abs_sub_magnitude_le x w

end Formula.Binary64

end
