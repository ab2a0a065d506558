import DataRules.Proofs.Double.Integers

set_option autoImplicit false

/-!
# Neutral: a factor of one and a summand of zero

Multiplying by one gives the double itself, whether it is NaN, an infinity or one of the
smallest numbers, and so does adding zero, except that the zero with a minus sign loses it.
No result of these is rounded, since a stored number is exact on the grid that it is rounded
to.
-/

namespace DataRules.Double

open Float.Model Float.Model.UnpackedFloat

/-- A mantissa of fewer than 53 bits is shifted no further than to the smallest exponent. -/
theorem shiftToTargetExponent_subnormal {c k : Nat} {e : Int} (hpos : 0 < c) (hc : c.log2 < 52)
    (he : (k : Int) + e = -1074) :
    shiftToTargetExponent .binary64 (c * 2 ^ k) e .exact = (⟨c, false, false⟩, -1074) := by
  have hlog : (c * 2 ^ k).log2 = c.log2 + k := log2_mul_two_pow (Nat.ne_of_gt hpos) k
  have hshift : (max (totalExponent (c * 2 ^ k) e - 53) (-1074) - e).toNat = k := by
    rw [totalExponent, hlog]
    omega
  rw [shiftToTargetExponent, targetExponent_binary64]
  simp only [shiftToExponent, hshift, shiftRight_exact, Prod.mk.injEq, true_and]
  omega

/-- A stored number is not rounded, with however many zeros its mantissa is written. -/
theorem Stored.roundWithAccuracy_eq {s : Sign} {m : Nat} {e : Int} {hpos : 0 < m}
    (h : Stored (.finite s m e hpos)) (k : Nat) :
    roundWithAccuracy .binary64 s (m * 2 ^ k) (e - k) .exact = .finite s m e hpos := by
  cases h with
  | finite _ _ hm hlow _ =>
      rw [roundWithAccuracy_exact hm hpos (by omega)]
      simp only [UnpackedFloat.finite.injEq, true_and]
      omega
  | subnormal _ _ hm =>
      have hfirst := shiftToTargetExponent_subnormal (k := k) (e := -1074 - k) hpos hm (by omega)
      have hlast := shiftToTargetExponent_subnormal (k := 0) (e := -1074) hpos hm (by omega)
      rw [Nat.pow_zero, Nat.mul_one] at hlast
      exact DataRules.Double.roundWithAccuracy_eq s hfirst hlast hpos

/-- Multiplying a stored number by one gives it back. -/
theorem Stored.mul_one_eq {u : UnpackedFloat} (h : Stored u) (hone : 0 < 2 ^ 52) :
    UnpackedFloat.mul .binary64 u (.finite .positive (2 ^ 52) (-52) hone) = u := by
  have hsign : ∀ s : Sign, s * .positive = s := by
    intro s
    cases s <;> rfl
  cases u with
  | notANumber => rfl
  | infinity s => exact congrArg UnpackedFloat.infinity (hsign s)
  | zero s => exact congrArg UnpackedFloat.zero (hsign s)
  | finite s m e hpos =>
      rw [UnpackedFloat.mul, hsign]
      exact h.roundWithAccuracy_eq 52

theorem mul_one_eq (x : Float) : x * 1 = x := by
  have hone : (1 : Float).toModel.unpack = .finite .positive (2 ^ 52) (-52) (by decide) := by rfl
  refine toModel_injective ?_
  show Float.Model.pack (UnpackedFloat.mul .binary64 x.toModel.unpack
    (1 : Float).toModel.unpack) = x.toModel
  rw [hone, (stored_unpack x.toModel).mul_one_eq, pack_unpack]

theorem add_zero_eq {x : Float} (hx : x ≠ -0) : x + 0 = x := by
  have hzero : (0 : Float).toModel.unpack = .zero .positive := by rfl
  have hsum : UnpackedFloat.add .binary64 x.toModel.unpack (.zero .positive) =
      x.toModel.unpack := by
    cases hunpack : x.toModel.unpack with
    | notANumber => rfl
    | infinity s => rfl
    | zero s =>
        rw [← hunpack, unpack_eq_zero hunpack hx]
        rfl
    | finite s m e hpos => rfl
  refine toModel_injective ?_
  show Float.Model.pack (UnpackedFloat.add .binary64 x.toModel.unpack
    (0 : Float).toModel.unpack) = x.toModel
  rw [hzero, hsum, pack_unpack]

end DataRules.Double
