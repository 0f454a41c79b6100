import Formula.Proofs.Whole

/-!
# Equal numbers

Doubles are compared as numbers: the two zeros are equal and a NaN differs from itself.  This is an
equivalence on all doubles but NaNs, since it compares what is left when the sign of a zero is
dropped (`beq_iff`).  The double of a natural number is never a NaN, however large the number is
(`ofNat_beq_self`).
-/

namespace Formula.Binary64

open Float.Model Float.Model.UnpackedFloat

/-- A double without the sign of a zero. -/
def unsignedZero : UnpackedFloat → UnpackedFloat
  | .zero _ => .zero .positive
  | u => u

theorem unpacked_beq_iff (u w : UnpackedFloat) :
    u.beq w ↔ unsignedZero u = unsignedZero w ∧ u.isNaN = false := by
  have same (s : Sign) : compare s s = .eq := by cases s <;> rfl
  rcases u with (_ | _) | _ | (_ | _) | ⟨_ | _, m, e, _⟩ <;>
    rcases w with (_ | _) | _ | (_ | _) | ⟨_ | _, m', e', _⟩ <;>
    simp [UnpackedFloat.beq, UnpackedFloat.compare, unsignedZero, UnpackedFloat.isNaN, same,
      and_comm]

theorem beq_iff {v w : Float} :
    v == w ↔ unsignedZero v.toModel.unpack = unsignedZero w.toModel.unpack ∧ v.isNaN = false :=
  unpacked_beq_iff ..

theorem beq_self_iff {v : Float} : v == v ↔ v.isNaN = false :=
  beq_iff.trans (and_iff_right rfl)

theorem isNaN_eq_of_unsignedZero {v w : Float}
    (h : unsignedZero v.toModel.unpack = unsignedZero w.toModel.unpack) : v.isNaN = w.isNaN := by
  have same (u : UnpackedFloat) : (unsignedZero u).isNaN = u.isNaN := by cases u <;> rfl
  calc v.isNaN = (unsignedZero v.toModel.unpack).isNaN := (same _).symm
    _ = (unsignedZero w.toModel.unpack).isNaN := congrArg _ h
    _ = w.isNaN := same _

theorem beq_symm {v w : Float} (h : v == w) : w == v := by
  obtain ⟨same, number⟩ := beq_iff.1 h
  exact beq_iff.2 ⟨same.symm, isNaN_eq_of_unsignedZero same ▸ number⟩

theorem beq_trans {u v w : Float} (h : u == v) (h' : v == w) : u == w := by
  obtain ⟨same, number⟩ := beq_iff.1 h
  exact beq_iff.2 ⟨same.trans (beq_iff.1 h').1, number⟩

/-! ### Natural numbers -/

theorem isNaN_of_isFinite {v : Float} (h : v.isFinite) : v.isNaN = false := by
  change v.toModel.unpack.isFinite at h
  change v.toModel.unpack.isNaN = false
  cases number : v.toModel.unpack <;> simp_all [UnpackedFloat.isFinite, UnpackedFloat.isNaN]

/-- Packing makes no NaN of a number: too large an exponent makes it infinite. -/
theorem isNaN_pack (s : Sign) (m : Nat) (e : Int) (positive : 0 < m) :
    (Float.ofModel (Float.Model.pack (.finite s m e positive))).isNaN = false := by
  by_cases high : e ≤ 971
  · exact isNaN_of_isFinite (isFinite_pack high positive)
  · have infinite : UnpackedFloat.pack .binary64 (.finite s m e positive) =
        packComponents .binary64 s (-1#11) 0#52 := by
      simp only [UnpackedFloat.pack, Format.exponentBias]
      exact if_pos (by omega)
    change (UnpackedFloat.unpack .binary64
      (UnpackedFloat.pack .binary64 (.finite s m e positive))).isNaN = false
    rw [infinite, UnpackedFloat.unpack]
    simp [UnpackedFloat.isNaN]

theorem isNaN_round (s : Sign) (m : Nat) (e : Int) (accuracy : Accuracy) :
    (Float.ofModel (Float.Model.pack (roundWithAccuracy .binary64 s m e accuracy))).isNaN =
      false := by
  rw [roundWithAccuracy]
  dsimp only
  split
  · exact isNaN_of_isFinite (isFinite_unpack (by decide) s 0)
  · exact isNaN_pack ..

/-- A natural number equals itself as a double, which may be infinite. -/
theorem ofNat_beq_self (n : Nat) : Float.ofNat n == Float.ofNat n := by
  refine beq_self_iff.2 ?_
  by_cases small : n < 2 ^ 53
  · exact isNaN_of_isFinite (isFinite_ofNat (by omega))
  · rw [ofNat_of_large (Nat.not_lt.1 small)]
    exact isNaN_round ..

end Formula.Binary64
