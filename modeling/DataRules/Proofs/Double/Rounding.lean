import DataRules.Double.Binary
import Mathlib

set_option autoImplicit false

/-!
# Rounding: what rounding to a double gives

A magnitude `m · 2 ^ e` is rounded to a significand of 53 bits.  For magnitudes
that are natural numbers there are two cases.  Below `2 ^ 53` the number is kept
as it is, whichever way it was written down as `m · 2 ^ e`; from there on, the
result has a positive exponent, or is infinite once it is packed.
-/

namespace DataRules.Double

open Float.Model Float.Model.UnpackedFloat

/-! ## Bits shifted out -/

theorem log2_mul_two_pow {n : Nat} (hn : n ≠ 0) (k : Nat) : (n * 2 ^ k).log2 = n.log2 + k := by
  have hmul : n * 2 ^ k ≠ 0 := Nat.mul_ne_zero hn (Nat.ne_of_gt (Nat.two_pow_pos k))
  rw [Nat.log2_eq_iff hmul]
  constructor
  · rw [Nat.pow_add]
    exact Nat.mul_le_mul_right _ (Nat.log2_self_le hn)
  · rw [Nat.add_right_comm, Nat.pow_add]
    exact Nat.mul_lt_mul_of_pos_right Nat.lt_log2_self (Nat.two_pow_pos k)

theorem log2_eq_52_iff {c : Nat} : c.log2 = 52 ↔ 2 ^ 52 ≤ c ∧ c < 2 ^ 53 := by
  by_cases hc : c = 0
  · subst hc
    simp
  · exact Nat.log2_eq_iff hc

/-- Each shift halves the mantissa. -/
theorem mantissa_shiftRight (em : ExtendedMantissa) (n : Nat) :
    (em >>> n).mantissa = em.mantissa / 2 ^ n := by
  show (n.repeat ExtendedMantissa.shiftRightOne em).mantissa = _
  induction n with
  | zero => exact (Nat.div_one _).symm
  | succ n ih =>
      rw [Nat.repeat, ExtendedMantissa.shiftRightOne, ih, Nat.div_div_eq_div_mul, Nat.pow_succ]

theorem mantissa_ofMantissaAndAccuracy (m : Nat) (accuracy : Accuracy) :
    (ExtendedMantissa.ofMantissaAndAccuracy m accuracy).mantissa = m := by
  rcases accuracy with _ | _ | _ | _ <;> rfl

/-- Shifting zeros out loses nothing. -/
theorem shiftRight_exact (c n : Nat) :
    ExtendedMantissa.ofMantissaAndAccuracy (c * 2 ^ n) .exact >>> n = ⟨c, false, false⟩ := by
  show n.repeat ExtendedMantissa.shiftRightOne ⟨c * 2 ^ n, false, false⟩ = _
  induction n generalizing c with
  | zero => rw [Nat.repeat, Nat.pow_zero, Nat.mul_one]
  | succ n ih =>
      have hsplit : c * 2 ^ (n + 1) = c * 2 * 2 ^ n := by
        rw [Nat.pow_succ, Nat.mul_comm (2 ^ n) 2, Nat.mul_assoc]
      rw [Nat.repeat, hsplit, ih, ExtendedMantissa.shiftRightOne]
      simp

/-- Rounding goes to the mantissa or to the next one. -/
theorem roundedMantissa_bounds (em : ExtendedMantissa) :
    em.mantissa ≤ em.roundedMantissa ∧ em.roundedMantissa ≤ em.mantissa + 1 := by
  rcases em with ⟨m, round, sticky⟩
  cases round <;> cases sticky <;>
    simp only [ExtendedMantissa.roundedMantissa, ExtendedMantissa.accuracy,
      Accuracy.roundToNearestEven] <;> omega

theorem targetExponent_binary64 (t : Int) :
    Format.binary64.targetExponent t = max (t - 53) (-1074) := rfl

/-- Where the exponent is not too small, a mantissa of at least 53 bits is shifted
until 53 are left. -/
theorem shiftToTargetExponent_eq {m : Nat} {e : Int} (accuracy : Accuracy) (hm : 52 ≤ m.log2)
    (he : -1074 ≤ (m.log2 : Int) - 52 + e) :
    shiftToTargetExponent .binary64 m e accuracy =
      (ExtendedMantissa.ofMantissaAndAccuracy m accuracy >>> (m.log2 - 52),
        (m.log2 : Int) - 52 + e) := by
  have hshift : (max (totalExponent m e - 53) (-1074) - e).toNat = m.log2 - 52 := by
    rw [totalExponent]
    omega
  rw [shiftToTargetExponent, targetExponent_binary64]
  simp only [shiftToExponent, hshift, Prod.mk.injEq, true_and]
  omega

/-! ## Rounding -/

/-- Rounding shifts to the target exponent, rounds, and shifts once more. -/
theorem roundWithAccuracy_eq {m : Nat} {e first last : Int} {accuracy : Accuracy}
    {em em' : ExtendedMantissa} (s : Sign)
    (hfirst : shiftToTargetExponent .binary64 m e accuracy = (em, first))
    (hlast : shiftToTargetExponent .binary64 em.roundedMantissa first .exact = (em', last))
    (hpos : 0 < em'.mantissa) :
    roundWithAccuracy .binary64 s m e accuracy = .finite s em'.mantissa last hpos := by
  simp only [roundWithAccuracy, hfirst, hlast]
  rw [dif_neg (Nat.ne_of_gt hpos)]

/-- A significand of 53 bits stays where it is. -/
theorem shiftToTargetExponent_self {c : Nat} {k : Int} (hc : c.log2 = 52) (hk : -1074 ≤ k) :
    shiftToTargetExponent .binary64 c k .exact = (⟨c, false, false⟩, k) := by
  rw [shiftToTargetExponent_eq .exact (by omega) (by omega), hc, Prod.mk.injEq]
  exact ⟨rfl, by omega⟩

/-- A number with a significand of 53 bits is not rounded. -/
theorem roundWithAccuracy_exact {c k : Nat} {e : Int} (hc : c.log2 = 52) (hpos : 0 < c)
    (he : -1074 ≤ (k : Int) + e) (s : Sign) :
    roundWithAccuracy .binary64 s (c * 2 ^ k) e .exact = .finite s c (k + e) hpos := by
  have hlog : (c * 2 ^ k).log2 = 52 + k := by
    rw [log2_mul_two_pow (Nat.ne_of_gt hpos), hc]
  have hfirst : shiftToTargetExponent .binary64 (c * 2 ^ k) e .exact =
      (⟨c, false, false⟩, (k : Int) + e) := by
    rw [shiftToTargetExponent_eq .exact (by omega) (by omega), hlog, Nat.add_sub_cancel_left,
      shiftRight_exact, Prod.mk.injEq]
    exact ⟨rfl, by omega⟩
  exact roundWithAccuracy_eq s hfirst (shiftToTargetExponent_self hc he) hpos

/-- Where the exponent is not too small, rounding gives a significand of 53 bits: the
rounded mantissa, or half of it where rounding carried into a bit more. -/
theorem roundWithAccuracy_normal {m n : Nat} {e : Int} {accuracy : Accuracy} (hm : 52 ≤ m.log2)
    (he : -1074 ≤ (m.log2 : Int) - 52 + e)
    (hn : (ExtendedMantissa.ofMantissaAndAccuracy m accuracy >>> (m.log2 - 52)).roundedMantissa = n)
    (s : Sign) :
    ∃ (c : Nat) (k : Int) (hpos : 0 < c), c.log2 = 52 ∧
      roundWithAccuracy .binary64 s m e accuracy = .finite s c k hpos ∧
      (c = n ∧ k = (m.log2 : Int) - 52 + e ∨
        c = 2 ^ 52 ∧ n = 2 ^ 53 ∧ k = (m.log2 : Int) - 52 + e + 1) := by
  have hfirst := shiftToTargetExponent_eq accuracy hm he
  generalize hem : ExtendedMantissa.ofMantissaAndAccuracy m accuracy >>> (m.log2 - 52) = em
    at hn hfirst
  have hmantissa : 2 ^ 52 ≤ em.mantissa ∧ em.mantissa < 2 ^ 53 := by
    have hlow : 2 ^ m.log2 ≤ m := Nat.log2_self_le (by rintro rfl; simp at hm)
    have hhigh : m < 2 ^ (m.log2 + 1) := Nat.lt_log2_self
    rw [← hem, mantissa_shiftRight, mantissa_ofMantissaAndAccuracy]
    constructor
    · rw [Nat.le_div_iff_mul_le (Nat.two_pow_pos _), ← Nat.pow_add]
      rwa [Nat.add_sub_cancel' hm]
    · rw [Nat.div_lt_iff_lt_mul (Nat.two_pow_pos _), ← Nat.pow_add]
      rwa [show 53 + (m.log2 - 52) = m.log2 + 1 by omega]
  have hrounded := roundedMantissa_bounds em
  rw [hn] at hrounded
  rcases Nat.lt_or_ge n (2 ^ 53) with hr | hr
  · have hlog : n.log2 = 52 := log2_eq_52_iff.mpr ⟨by omega, hr⟩
    have hlast := shiftToTargetExponent_self hlog he
    rw [← hn] at hlast
    exact ⟨em.roundedMantissa, _, by omega, hn ▸ hlog, roundWithAccuracy_eq s hfirst hlast _,
      .inl ⟨hn, rfl⟩⟩
  · -- the carry: all 53 bits were ones
    have hcarry : n = 2 ^ 52 * 2 ^ 1 := by omega
    have hlast : shiftToTargetExponent .binary64 em.roundedMantissa ((m.log2 : Int) - 52 + e)
        .exact = (⟨2 ^ 52, false, false⟩, (m.log2 : Int) - 52 + e + 1) := by
      have hlog : (2 ^ 52 * 2 ^ 1).log2 = 53 := by decide
      rw [hn, hcarry, shiftToTargetExponent_eq .exact (by omega) (by omega), hlog,
        shiftRight_exact, Prod.mk.injEq]
      exact ⟨rfl, by omega⟩
    exact ⟨2 ^ 52, _, by decide, by decide, roundWithAccuracy_eq s hfirst hlast _,
      .inr ⟨rfl, hcarry, rfl⟩⟩

/-! ## Natural numbers -/

/-- The magnitude `m · 2 ^ e` is the natural number `n`. -/
def Amounts (m : Nat) (e : Int) (n : Nat) : Prop := m * 2 ^ e.toNat = n * 2 ^ (-e).toNat

instance (m : Nat) (e : Int) (n : Nat) : Decidable (Amounts m e n) :=
  inferInstanceAs (Decidable (_ = _))

section Natural

variable {n m : Nat} {e : Int}

theorem Amounts.self (n : Nat) : Amounts n 0 n := rfl

/-- A number may be written with a smaller exponent. -/
theorem Amounts.shift (n k : Nat) : Amounts (n * 2 ^ k) (-k) n := by
  rw [Amounts, Int.neg_neg, Int.toNat_natCast, show (-(k : Int)).toNat = 0 by omega, Nat.pow_zero,
    Nat.mul_one]

/-- The exponents of a product are added. -/
theorem Amounts.mul {n' m' : Nat} {e' : Int} (h : Amounts m e n) (h' : Amounts m' e' n') :
    Amounts (m * m') (e + e') (n * n') := by
  -- what the positive and the negative parts of the exponents cancel when added
  obtain ⟨t, hup, hdown⟩ : ∃ t, e.toNat + e'.toNat = (e + e').toNat + t ∧
      (-e).toNat + (-e').toNat = (-(e + e')).toNat + t :=
    ⟨e.toNat + e'.toNat - (e + e').toNat, by omega, by omega⟩
  rw [Amounts] at h h' ⊢
  refine Nat.eq_of_mul_eq_mul_right (Nat.two_pow_pos t) ?_
  calc m * m' * 2 ^ (e + e').toNat * 2 ^ t
      = m * m' * (2 ^ e.toNat * 2 ^ e'.toNat) := by
        rw [Nat.mul_assoc, ← Nat.pow_add, ← Nat.pow_add, hup]
    _ = m * 2 ^ e.toNat * (m' * 2 ^ e'.toNat) := Nat.mul_mul_mul_comm _ _ _ _
    _ = n * 2 ^ (-e).toNat * (n' * 2 ^ (-e').toNat) := by rw [h, h']
    _ = n * n' * (2 ^ (-e).toNat * 2 ^ (-e').toNat) := (Nat.mul_mul_mul_comm _ _ _ _).symm
    _ = n * n' * 2 ^ (-(e + e')).toNat * 2 ^ t := by
        rw [← Nat.pow_add, hdown, Nat.pow_add, ← Nat.mul_assoc]

theorem Amounts.pos (h : Amounts m e n) (hn : 0 < n) : 0 < m := by
  refine Nat.pos_of_ne_zero ?_
  rintro rfl
  rw [Amounts, Nat.zero_mul] at h
  exact absurd h.symm (Nat.ne_of_gt (Nat.mul_pos hn (Nat.two_pow_pos _)))

theorem Amounts.log2_add (h : Amounts m e n) (hn : 0 < n) : (m.log2 : Int) + e = n.log2 := by
  have hpos : m ≠ 0 := Nat.ne_of_gt (h.pos hn)
  have hlog := congrArg Nat.log2 h
  rw [log2_mul_two_pow hpos, log2_mul_two_pow (Nat.ne_of_gt hn)] at hlog
  omega

/-- A natural number as a significand of 53 bits and an exponent; one below
`2 ^ 53` has no other form. -/
def unpackedNat (n : Nat) : UnpackedFloat :=
  if h : n = 0 then .zero .positive
  else .finite .positive (n * 2 ^ (52 - n.log2)) ((n.log2 : Int) - 52)
    (Nat.mul_pos (Nat.pos_of_ne_zero h) (Nat.two_pow_pos _))

theorem unpackedNat_of_pos (hn : 0 < n) :
    unpackedNat n = .finite .positive (n * 2 ^ (52 - n.log2)) ((n.log2 : Int) - 52)
      (Nat.mul_pos hn (Nat.two_pow_pos _)) :=
  dif_neg (Nat.ne_of_gt hn)

theorem log2_lt_of_lt (hn : 0 < n) (hsmall : n < 2 ^ 53) : n.log2 < 53 :=
  (Nat.log2_lt (Nat.ne_of_gt hn)).mpr hsmall

theorem log2_significand (hn : 0 < n) (hsmall : n < 2 ^ 53) :
    (n * 2 ^ (52 - n.log2)).log2 = 52 := by
  have hlog := log2_lt_of_lt hn hsmall
  rw [log2_mul_two_pow (Nat.ne_of_gt hn)]
  omega

/-- A natural number below `2 ^ 53` is not rounded. -/
theorem roundWithAccuracy_of_lt (hn : 0 < n) (hsmall : n < 2 ^ 53) (hm : 52 ≤ m.log2)
    (hvalue : Amounts m e n) :
    roundWithAccuracy .binary64 .positive m e .exact = unpackedNat n := by
  have hlog := hvalue.log2_add hn
  have hn53 := log2_lt_of_lt hn hsmall
  have hsplit : m = n * 2 ^ (52 - n.log2) * 2 ^ (m.log2 - 52) := by
    refine Nat.eq_of_mul_eq_mul_right (Nat.two_pow_pos e.toNat) ?_
    rw [Amounts] at hvalue
    rw [hvalue, Nat.mul_assoc, Nat.mul_assoc, ← Nat.pow_add, ← Nat.pow_add]
    congr 2
    omega
  rw [hsplit, roundWithAccuracy_exact (log2_significand hn hsmall)
    (Nat.mul_pos hn (Nat.two_pow_pos _)) (by omega), unpackedNat_of_pos hn]
  congr 1
  omega

/-- Nor is it when the mantissa has to be brought to 53 bits first. -/
theorem round_of_lt (hn : 0 < n) (hsmall : n < 2 ^ 53) (hvalue : Amounts m e n) :
    UnpackedFloat.round .binary64 .positive m e = unpackedNat n := by
  have hlog := hvalue.log2_add hn
  have hpos : m ≠ 0 := Nat.ne_of_gt (hvalue.pos hn)
  rw [UnpackedFloat.round, targetExponent_binary64, totalExponent]
  simp only [decreaseExponent, Nat.shiftLeft_eq]
  generalize hshift : (e - max ((m.log2 : Int) + 1 + e - 53) (-1074)).toNat = shift
  refine roundWithAccuracy_of_lt hn hsmall ?_ ?_
  · rw [log2_mul_two_pow hpos]
    omega
  · have hmul := hvalue.mul (Amounts.shift 1 shift)
    rwa [Nat.one_mul, Nat.mul_one] at hmul

/-- A natural number from `2 ^ 53` on is rounded to a multiple of two. -/
theorem roundWithAccuracy_of_le (hlarge : 2 ^ 53 ≤ n) (hm : 52 ≤ m.log2)
    (hvalue : Amounts m e n) :
    ∃ (c : Nat) (k : Int) (hpos : 0 < c), c.log2 = 52 ∧ 1 ≤ k ∧
      roundWithAccuracy .binary64 .positive m e .exact = .finite .positive c k hpos := by
  have hn : 0 < n := by omega
  have hlog := hvalue.log2_add hn
  have hn53 : 53 ≤ n.log2 := (Nat.le_log2 (Nat.ne_of_gt hn)).mpr hlarge
  have hmin : -1074 ≤ (m.log2 : Int) - 52 + e := by omega
  obtain ⟨c, k, hpos, hc, hround, hk⟩ := roundWithAccuracy_normal hm hmin rfl .positive
  exact ⟨c, k, hpos, hc, by omega, hround⟩

end Natural

end DataRules.Double
