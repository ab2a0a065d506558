import DataRules.Number.Fixed
import DataRules.Proofs.Double.Nearest

set_option autoImplicit false

/-!
# Fixed: fixed-point decimals as rational numbers

A fixed-point decimal is a rational number, and a result that does not fit into one gives
up as many places as it takes.  Zeros at the end cost nothing, so an integer below the
bound always fits.  Any other result is rounded to the places that are left.
-/

namespace DataRules.Number.Fixed

open DataRules.Double Float.Model.UnpackedFloat

/-- The decimal as a rational number. -/
def toRat (d : Fixed) : ℚ := d.coefficient / 10 ^ d.scale

/-- The decimal is within the bounds on its places and its coefficient. -/
def Fits (d : Fixed) : Prop := d.scale ≤ maxScale ∧ d.coefficient.natAbs < bound

instance (d : Fixed) : Decidable d.Fits := inferInstanceAs (Decidable (_ ∧ _))

/-- The decimal with the last places dropped, rounded half to even. -/
def without (d : Fixed) (places : Nat) : Fixed :=
  ⟨withSign d.coefficient (roundDiv .even d.coefficient.natAbs (10 ^ places)), d.scale - places⟩

variable {d r : Fixed} {i : Int}

/-! ## Rounding a quotient -/

theorem roundDiv_of_dvd (tie : Tie) {num den : Nat} (hden : 0 < den) (h : den ∣ num) :
    roundDiv tie num den = num / den := by
  unfold roundDiv
  rw [Nat.mod_eq_zero_of_dvd h]
  exact if_neg (by omega)

/-- A quotient is rounded half to even the way a double is, by what its remainder tells. -/
theorem roundDiv_even_eq {num den : Nat} (hden : 0 < den) :
    roundDiv .even num den = (ExtendedMantissa.ofMantissaAndAccuracy (num / den)
      (accuracyOfFraction (num % den) den)).roundedMantissa := by
  unfold roundDiv accuracyOfFraction
  generalize num / den = q
  generalize num % den = rest
  by_cases hzero : rest = 0
  · have hstay : ¬(den < 2 * rest ∨ 2 * rest = den ∧ Tie.even.goesUp q = true) := by
      rintro (hlt | ⟨heq, -⟩) <;> omega
    rw [if_neg hstay, if_pos hzero]
    rfl
  · rw [if_neg hzero]
    cases hcompare : compare (2 * rest) den with
    | lt =>
        have hlt := Nat.compare_eq_lt.mp hcompare
        exact if_neg (by omega)
    | eq =>
        have heq := Nat.compare_eq_eq.mp hcompare
        show _ = q + q % 2
        by_cases hodd : q % 2 = 1
        · have hup : Tie.even.goesUp q = true := beq_iff_eq.mpr hodd
          rw [if_pos (.inr ⟨heq, hup⟩), hodd]
        · have hstay : ¬(den < 2 * rest ∨ 2 * rest = den ∧ Tie.even.goesUp q = true) := by
            rintro (hlt | ⟨-, hup⟩)
            · omega
            · exact hodd (beq_iff_eq.mp hup)
          rw [if_neg hstay, Nat.mod_two_ne_one.mp hodd, Nat.add_zero]
    | gt =>
        have hgt := Nat.compare_eq_gt.mp hcompare
        exact if_pos (.inl hgt)

theorem roundsTo_roundDiv (num : Nat) {den : Nat} (hden : 0 < den) :
    RoundsTo (roundDiv .even num den) ((num : ℚ) / den) := by
  rw [roundDiv_even_eq hden]
  exact (locates_quotient hden).roundsTo

/-- Up to a half is rounded to zero. -/
theorem eq_zero_of_roundsTo {n : Nat} {f : ℚ} (h : RoundsTo n f) (hf : f ≤ 1 / 2) : n = 0 := by
  by_contra hn
  have hpos : (1 : ℚ) ≤ n := by exact_mod_cast Nat.one_le_iff_ne_zero.mpr hn
  obtain ⟨-, hnear⟩ := abs_le.mp h.near
  have hone : (n : ℚ) = 1 := by linarith
  have hhalf : |(n : ℚ) - f| = 1 / 2 := by
    rw [abs_of_nonneg (by linarith)]
    linarith
  have hodd : n = 1 := by exact_mod_cast hone
  exact absurd (h.even hhalf) (hodd ▸ by decide)

/-! ## Integers -/

theorem natAbs_withSign (like : Int) (n : Nat) : (withSign like n).natAbs = n := by
  unfold withSign
  split <;> omega

theorem withSign_natAbs (i : Int) : withSign i i.natAbs = i := by
  unfold withSign
  split <;> omega

theorem toRat_eq_intCast_iff : d.toRat = i ↔ d.coefficient = i * 10 ^ d.scale := by
  rw [toRat, div_eq_iff (by positivity)]
  norm_cast

theorem natAbs_coefficient (h : d.toRat = i) :
    d.coefficient.natAbs = i.natAbs * 10 ^ d.scale := by
  rw [toRat_eq_intCast_iff.mp h, Int.natAbs_mul, Int.natAbs_pow]
  rfl

/-- The decimal is an integer exactly when its integer form is the integer. -/
theorem toInt?_eq_some_iff : d.toInt? = some i ↔ d.toRat = i := by
  have hpow : ((10 : Int) ^ d.scale) ≠ 0 := by positivity
  have hunit : ((Nat.pow 10 d.scale : Nat) : Int) = 10 ^ d.scale := by
    exact_mod_cast rfl
  rw [toRat_eq_intCast_iff, toInt?]
  simp only [hunit]
  constructor
  · intro h
    split at h
    · next hmod =>
        obtain rfl := Option.some.inj h
        exact (Int.ediv_mul_cancel (Int.dvd_of_emod_eq_zero hmod)).symm
    · cases h
  · intro h
    rw [h, if_pos (Int.mul_emod_left _ _), Int.mul_ediv_cancel _ hpow]

/-! ## Dropping places -/

theorem toRat_withSign (d : Fixed) (n scale : Nat) :
    (⟨withSign d.coefficient n, scale⟩ : Fixed).toRat =
      (if d.coefficient < 0 then -1 else 1) * (n / 10 ^ scale) := by
  unfold toRat withSign
  split
  · push_cast
    ring
  · push_cast
    ring

theorem toRat_eq (d : Fixed) :
    d.toRat = (if d.coefficient < 0 then -1 else 1) * (d.coefficient.natAbs / 10 ^ d.scale) := by
  have h := toRat_withSign d d.coefficient.natAbs d.scale
  rwa [withSign_natAbs] at h

/-- Zeros are dropped for free. -/
theorem toRat_without {places : Nat} (hplaces : places ≤ d.scale)
    (h : 10 ^ places ∣ d.coefficient.natAbs) : (d.without places).toRat = d.toRat := by
  have hpow : 0 < 10 ^ places := Nat.pow_pos (by decide)
  obtain ⟨n, hn⟩ := h
  have hscale : (10 : ℚ) ^ d.scale = 10 ^ places * 10 ^ (d.scale - places) :=
    (pow_mul_pow_sub 10 hplaces).symm
  rw [without, toRat_withSign, toRat_eq d, roundDiv_of_dvd .even hpow ⟨n, hn⟩, hn,
    Nat.mul_div_cancel_left _ hpow, hscale]
  push_cast
  rw [mul_div_mul_left _ _ (by positivity)]

theorem fit?_eq (d : Fixed) :
    d.fit? = ((List.range (d.scale + 1)).find? fun places => (d.without places).Fits).map
      d.without := by
  rw [← List.findSome?_guard, List.map_findSome?]
  unfold fit?
  congr 1
  funext places
  simp only [Function.comp_apply, Option.guard, decide_eq_true_iff, without, Fits,
    natAbs_withSign, Option.map_if]
  rfl

/-- As few places are dropped as it takes to fit. -/
theorem fit?_eq_some_iff : d.fit? = some r ↔
    ∃ places ≤ d.scale, (∀ fewer < places, ¬(d.without fewer).Fits) ∧ (d.without places).Fits ∧
      r = d.without places := by
  rw [fit?_eq, Option.map_eq_some_iff]
  constructor
  · rintro ⟨places, hfind, rfl⟩
    obtain ⟨hfits, hmem, hfewer⟩ := List.find?_range_eq_some.mp hfind
    refine ⟨places, Nat.le_of_lt_succ (List.mem_range.mp hmem), fun fewer hlt => ?_,
      of_decide_eq_true hfits, rfl⟩
    simpa using hfewer fewer hlt
  · rintro ⟨places, hplaces, hfewer, hfits, rfl⟩
    refine ⟨places, List.find?_range_eq_some.mpr ⟨decide_eq_true hfits,
      List.mem_range.mpr (Nat.lt_succ_of_le hplaces), fun fewer hlt => ?_⟩, rfl⟩
    simpa using hfewer fewer hlt

/-- A decimal has no form when its integer part is too large. -/
theorem not_fits_of_fit?_eq_none (h : d.fit? = none) : ¬(d.without d.scale).Fits := by
  rw [fit?_eq, Option.map_eq_none_iff, List.find?_eq_none] at h
  simpa using h d.scale (List.mem_range.mpr (Nat.lt_succ_self _))

/-- A decimal that fits is kept as it is. -/
theorem fit?_eq_self (h : d.Fits) : d.fit? = some d := by
  have hself : d.without 0 = d := by
    rw [without, Nat.pow_zero, roundDiv_of_dvd .even Nat.one_pos (Nat.one_dvd _), Nat.div_one,
      withSign_natAbs, Nat.sub_zero]
  refine fit?_eq_some_iff.mpr ⟨0, Nat.zero_le _, fun _ hfewer => absurd hfewer (Nat.not_lt_zero _),
    hself.symm ▸ h, hself.symm⟩

/-- A decimal without places is kept as it is or has no form. -/
theorem eq_of_fit?_of_scale_zero (hscale : d.scale = 0) (h : d.fit? = some r) :
    r.toRat = d.toRat := by
  obtain ⟨places, hplaces, -, -, rfl⟩ := fit?_eq_some_iff.mp h
  obtain rfl : places = 0 := by omega
  exact toRat_without hplaces (Nat.one_dvd _)

/-- An integer below the bound keeps its value. -/
theorem exists_fit?_of_toRat (hd : d.toRat = i) (hi : i.natAbs < bound) :
    ∃ r, d.fit? = some r ∧ r.toRat = i := by
  have hcoefficient := natAbs_coefficient hd
  have hfits : (d.without d.scale).Fits := by
    refine ⟨(Nat.sub_self _).le.trans (Nat.zero_le _), ?_⟩
    rw [without, natAbs_withSign, hcoefficient,
      roundDiv_of_dvd .even (Nat.pow_pos (by decide)) (Nat.dvd_mul_left _ _),
      Nat.mul_div_cancel _ (Nat.pow_pos (by decide))]
    exact hi
  cases hfit : d.fit? with
  | none => exact absurd hfits (not_fits_of_fit?_eq_none hfit)
  | some r =>
      obtain ⟨places, hplaces, -, -, rfl⟩ := fit?_eq_some_iff.mp hfit
      refine ⟨_, rfl, ?_⟩
      rw [toRat_without hplaces, hd]
      rw [hcoefficient]
      exact (Nat.pow_dvd_pow 10 hplaces).mul_left _

/-! ## What dropping places costs -/

theorem abs_toRat (d : Fixed) : |d.toRat| = d.coefficient.natAbs / 10 ^ d.scale := by
  rw [toRat, abs_div, abs_of_pos (show (0 : ℚ) < 10 ^ d.scale by positivity), abs_intCast]

/-- Dropping places changes the decimal by half a unit of the last place left. -/
theorem abs_toRat_without_sub_le {places : Nat} (hplaces : places ≤ d.scale) :
    |(d.without places).toRat - d.toRat| ≤ 1 / 2 / 10 ^ (d.scale - places) := by
  have hpow : 0 < 10 ^ places := Nat.pow_pos (by decide)
  have hunit : (0 : ℚ) < 10 ^ (d.scale - places) := by positivity
  have hscale : (10 : ℚ) ^ d.scale = 10 ^ places * 10 ^ (d.scale - places) :=
    (pow_mul_pow_sub 10 hplaces).symm
  have hsign : |(if d.coefficient < 0 then -1 else 1 : ℚ)| = 1 := by split <;> norm_num
  have hnear := (roundsTo_roundDiv d.coefficient.natAbs hpow).near
  push_cast at hnear
  rw [without, toRat_withSign, toRat_eq d, ← mul_sub, abs_mul, hsign, one_mul, hscale, ← div_div,
    ← sub_div, abs_div, abs_of_pos hunit]
  exact div_le_div_of_nonneg_right hnear hunit.le

/-- Where the places are few enough and the decimal still does not fit, the coefficient is
too large. -/
theorem le_quotient_of_not_fits {places : Nat} (hscale : d.scale - places ≤ maxScale)
    (h : ¬(d.without places).Fits) : (2 : ℚ) ^ 95 ≤ d.coefficient.natAbs / 10 ^ places := by
  have hpow : 0 < 10 ^ places := Nat.pow_pos (by decide)
  have hlarge : bound ≤ roundDiv .even d.coefficient.natAbs (10 ^ places) := by
    rw [Fits, not_and_or, not_lt, without, natAbs_withSign] at h
    exact h.resolve_left (not_not_intro hscale)
  have hcast : (2 : ℚ) ^ 96 ≤ roundDiv .even d.coefficient.natAbs (10 ^ places) := by
    exact_mod_cast hlarge
  have hnear := (roundsTo_roundDiv d.coefficient.natAbs hpow).near
  push_cast at hnear
  linarith [(abs_le.mp hnear).2]

/-- A decimal that has no form is large. -/
theorem le_abs_toRat_of_fit?_eq_none (h : d.fit? = none) : (2 : ℚ) ^ 95 ≤ |d.toRat| := by
  rw [abs_toRat]
  exact le_quotient_of_not_fits ((Nat.sub_self _).le.trans (Nat.zero_le _))
    (not_fits_of_fit?_eq_none h)

/-- A result that fits has its last place at 28 places after the point, or else it has as
many digits as there is room for, or it is exact. -/
theorem abs_toRat_sub_le_of_fit? (h : d.fit? = some r) :
    |r.toRat - d.toRat| ≤ 1 / (2 * 10 ^ 28) ∨ |r.toRat - d.toRat| ≤ |d.toRat| / 2 ^ 92 := by
  obtain ⟨places, hplaces, hfewer, hfits, rfl⟩ := fit?_eq_some_iff.mp h
  have herror := abs_toRat_without_sub_le hplaces
  by_cases hlast : d.scale - places = maxScale
  · refine .inl (herror.trans (le_of_eq ?_))
    rw [hlast, div_div]
    rfl
  · refine .inr ?_
    cases places with
    | zero =>
        rw [toRat_without hplaces (Nat.one_dvd _), sub_self, abs_zero]
        positivity
    | succ fewer =>
        -- with one place more, the coefficient was too large
        have hscale : d.scale - fewer ≤ maxScale := by
          have hle : d.scale - (fewer + 1) ≤ maxScale := hfits.1
          omega
        have hquotient := le_quotient_of_not_fits hscale (hfewer fewer (Nat.lt_succ_self fewer))
        have hunit : (0 : ℚ) < 10 ^ (d.scale - (fewer + 1)) := by positivity
        have hsplit : (10 : ℚ) ^ d.scale = 10 ^ fewer * (10 * 10 ^ (d.scale - (fewer + 1))) := by
          rw [← pow_succ', ← pow_add]
          congr 1
          omega
        refine herror.trans ?_
        rw [abs_toRat, hsplit, ← div_div, div_div _ _ ((2 : ℚ) ^ 92), div_le_div_iff₀ hunit
          (by positivity)]
        calc (1 : ℚ) / 2 * (10 * 10 ^ (d.scale - (fewer + 1)) * 2 ^ 92)
            ≤ (2 : ℚ) ^ 95 * 10 ^ (d.scale - (fewer + 1)) := by linarith
          _ ≤ (d.coefficient.natAbs : ℚ) / 10 ^ fewer * 10 ^ (d.scale - (fewer + 1)) :=
            mul_le_mul_of_nonneg_right hquotient hunit.le

/-- A decimal that is not more than half a unit of the 28th place vanishes. -/
theorem exists_fit?_of_small (h : |d.toRat| ≤ 1 / (2 * 10 ^ 28)) :
    ∃ r, d.fit? = some r ∧ r.toRat = 0 := by
  cases hfit : d.fit? with
  | none =>
      have hlarge := le_abs_toRat_of_fit?_eq_none hfit
      linarith
  | some r =>
      obtain ⟨places, hplaces, -, hfits, rfl⟩ := fit?_eq_some_iff.mp hfit
      refine ⟨_, rfl, ?_⟩
      have hpow : 0 < 10 ^ places := Nat.pow_pos (by decide)
      have hleft : (10 : ℚ) ^ (d.scale - places) ≤ 10 ^ 28 :=
        pow_le_pow_right₀ (by norm_num) hfits.1
      have hscale : (10 : ℚ) ^ d.scale = 10 ^ places * 10 ^ (d.scale - places) :=
        (pow_mul_pow_sub 10 hplaces).symm
      have hquotient : (d.coefficient.natAbs : ℚ) / (10 ^ places : Nat) =
          |d.toRat| * 10 ^ (d.scale - places) := by
        rw [abs_toRat, hscale, ← div_div, div_mul_cancel₀ _ (by positivity)]
        push_cast
        rfl
      have hhalf : (d.coefficient.natAbs : ℚ) / (10 ^ places : Nat) ≤ 1 / 2 := by
        rw [hquotient]
        calc |d.toRat| * 10 ^ (d.scale - places) ≤ 1 / (2 * 10 ^ 28) * 10 ^ 28 :=
              mul_le_mul h hleft (by positivity) (by positivity)
          _ = 1 / 2 := by norm_num
      have hzero := eq_zero_of_roundsTo (roundsTo_roundDiv _ hpow) hhalf
      rw [without, toRat_withSign, hzero, Nat.cast_zero, zero_div, mul_zero]

end DataRules.Number.Fixed
