import DataRules.Proofs.Json.Numbers

set_option autoImplicit false

/-!
# Scaling: where scaling is exact

Up to 53 bits of digits are a double, and so is a power of ten up to `10 ^ 22`.  Of such digits
and such a power one multiplication or division gives the double nearest to the number, so a
reader that scales reads every short number as one that rounds correctly does, and restores it.
-/

namespace DataRules.Double

variable {cs : List Char} {n : Nat}

/-- Powers of ten up to the twenty-second are in the table of those that are exact. -/
theorem powerOfTen_eq : ∀ k : Fin 23,
    powerOfTen k = Float.exactlyRepresentablePowersOfTen[k] := by
  decide +kernel

theorem le_ofDigitChars (cs : List Char) (n : Nat) : n ≤ Nat.ofDigitChars 10 cs n := by
  induction cs generalizing n with
  | nil => exact le_rfl
  | cons c cs ih =>
      rw [Nat.ofDigitChars_cons]
      exact le_trans (by omega) (ih _)

/-- Digits of a number that 64 bits hold are all taken. -/
theorem Numeral.takeOn_eq (h : Nat.ofDigitChars 10 cs n < UInt64.size) :
    takeOn n cs = (Nat.ofDigitChars 10 cs n, []) := by
  induction cs generalizing n with
  | nil => rfl
  | cons c cs ih =>
      rw [Nat.ofDigitChars_cons] at h ⊢
      have hfits : withDigit n c < UInt64.size := lt_of_le_of_lt (le_ofDigitChars cs _) h
      rw [takeOn, if_pos hfits]
      exact ih h

theorem scale_eq_toFloat {digits : Nat} {exponent : Int} (hdigits : digits < 2 ^ 53)
    (hexponent : exponent.natAbs ≤ 22) :
    scale digits.toUInt64.toFloat exponent = (⟨digits, exponent⟩ : Decimal).toFloat := by
  have hpower := powerOfTen_eq ⟨exponent.natAbs, Nat.lt_succ_of_le hexponent⟩
  simp only [Fin.getElem_fin] at hpower
  rw [Decimal.toFloat, Float.ofScientific, dif_pos ⟨hdigits, hexponent⟩]
  simp only [← hpower]
  rw [scale]
  by_cases hnegative : exponent < 0
  · have htimes : (exponent.natAbs - 1) / maxPowerOfTen = 0 :=
      Nat.div_eq_of_lt (show exponent.natAbs - 1 < 308 by omega)
    rw [if_neg (by omega), htimes]
    simp only [hnegative, decide_true, if_true, shrink, Nat.mul_zero, Nat.sub_zero]
  · have hsmall : exponent ≤ (maxPowerOfTen : Int) :=
      show exponent ≤ ((308 : Nat) : Int) by omega
    rw [if_pos (by omega), if_pos hsmall, show exponent.toNat = exponent.natAbs by omega]
    simp only [hnegative, decide_false, Bool.false_eq_true, if_false]

namespace Numeral

/-- The digits have 53 bits at most, and the power of ten that goes with them is a double. -/
def IsShort (n : Numeral) : Prop := n.decimal.digits < 2 ^ 53 ∧ n.decimal.exponent.natAbs ≤ 22

instance (n : Numeral) : Decidable n.IsShort := inferInstanceAs (Decidable (_ ∧ _))

/-- A short numeral is scaled to the double nearest to it. -/
theorem scaled_eq_toFloat {n : Numeral} (h : n.IsShort) : n.scaled = n.toFloat := by
  obtain ⟨hdigits, hexponent⟩ := h
  have hall : Nat.ofDigitChars 10 n.fraction (Nat.ofDigitChars 10 n.whole 0) =
      n.decimal.digits := (Nat.ofDigitChars_append 0).symm
  have hfits : Nat.ofDigitChars 10 n.fraction (Nat.ofDigitChars 10 n.whole 0) < UInt64.size := by
    rw [hall]
    exact hdigits.trans (by decide)
  have hwhole := takeOn_eq (lt_of_le_of_lt (le_ofDigitChars n.fraction _) hfits)
  have hpower : n.power + (0 : Nat) - (n.fraction.length - 0 : Nat) = n.decimal.exponent := by
    simp only [decimal]
    omega
  have hscale := scale_eq_toFloat hdigits hexponent
  simp only [scaled, hwhole, takeOn_eq hfits, List.length_nil, hpower, hall, hscale]
  rfl

/-- Digits of 56 bits may be scaled to a neighbour of the nearest double. -/
example : scaled ⟨false, ['5', '1'], "248178375505404".toList, 0⟩ = 51.24817837550541 ∧
    toFloat ⟨false, ['5', '1'], "248178375505404".toList, 0⟩ = 51.248178375505404 := by
  decide +kernel

end Numeral

end DataRules.Double

namespace DataRules.Json

open DataRules.Double

/-- A double is restored by scaling when the numeral that is written for it is short. -/
theorem restores_scaled {x : Float} {n : Numeral}
    (hnumber : IsNumber n false (Layout.json.chars x)) (hvalue : n.toFloat = x)
    (hshort : n.IsShort) : Restores Numeral.scaled (.float x) :=
  restores_of_isNumber hnumber ((Numeral.scaled_eq_toFloat hshort).trans hvalue)

end DataRules.Json
