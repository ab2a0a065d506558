import DataRules.Proofs.Double.Closeness
import DataRules.Proofs.Number.Fixed

set_option autoImplicit false

/-!
# Magnitude: the double of a fixed-point decimal

The magnitude of a decimal is put together from its integer part and the quotient of its
places, and the sum is rounded at the last place.  With at most 15 digits and 22 places
that last step recovers the digits, and the result is the double nearest to the decimal.
With more of them it is not always the nearest, but never far from the decimal.
-/

namespace DataRules.Number.Fixed

open DataRules.Double Float.Model

/-! ## Powers of ten -/

/-- The computed power differs from the power of ten by one rounding at most. -/
theorem power_table : ∀ s : Fin 29, (whole? (power s)).any (fun i =>
    decide ((i - 10 ^ s.val).natAbs * 2 ^ 53 ≤ 10 ^ s.val)) = true := by
  decide +kernel

/-- Up to 22 places it does not differ. -/
theorem power_table_exact : ∀ s : Fin 23, whole? (power s) = some (10 ^ s.val) := by
  decide +kernel

variable {n s : Nat} {x : Float} {v : ℚ}

theorem isClose_power (hs : s ≤ maxScale) : IsClose 1 (power s) (10 ^ s) := by
  have hentry := power_table ⟨s, Nat.lt_succ_of_le hs⟩
  obtain ⟨i, hi, hnear⟩ := (Option.any_eq_true _ _).mp hentry
  refine ⟨i, whole?_eq_some_iff.mp hi, ?_⟩
  have hpart : |(i : ℚ) - 10 ^ s| ≤ 1 / 2 ^ 53 * 10 ^ s := by
    have hle : ((i - 10 ^ s).natAbs : ℚ) * 2 ^ 53 ≤ 10 ^ s := by
      exact_mod_cast of_decide_eq_true hnear
    have habs : |(i : ℚ) - 10 ^ s| = ((i - 10 ^ s).natAbs : ℚ) := by
      rw [← abs_intCast]
      push_cast
      rfl
    rw [habs]
    linarith
  exact Close.of_part hpart (by positivity)

theorem toRat?_power (hs : s ≤ 22) : toRat? (power s) = some (10 ^ s) := by
  have hentry := whole?_eq_some_iff.mp (power_table_exact ⟨s, Nat.lt_succ_of_le hs⟩)
  rw [hentry]
  push_cast
  rfl

theorem isClose_ofNat (hn : n ≤ 2 ^ 100) : IsClose 1 (Float.ofNat n) n :=
  (rounded_ofNat (by decide) hn).isClose (Nat.cast_nonneg n)

theorem toRat?_ofNat_pow (hs : s ≤ 22) : toRat? (Float.ofNat (10 ^ s)) = some (10 ^ s) := by
  have hbound : 10 ^ s ≤ 2 ^ 100 :=
    calc 10 ^ s ≤ 10 ^ 22 := Nat.pow_le_pow_right (by decide) hs
      _ ≤ 2 ^ 100 := by norm_num
  have hrounded := (rounded_ofNat (by decide) hbound).nearest.exact
  push_cast at hrounded
  exact hrounded ⟨power s, toRat?_power hs⟩

/-! ## Rounding to an integer -/

/-- An integer no more than a half away is what rounding gives: the number itself when it is
whole, and the double of the integer otherwise. -/
theorem exists_roundHalfAway (hx : toRat? x = some v) :
    ∃ i : Int, |(i : ℚ) - v| ≤ 1 / 2 ∧
      (v = i ∧ roundHalfAway x = x ∨ roundHalfAway x = Float.ofInt i) := by
  obtain ⟨b, hb, rfl⟩ := Option.map_eq_some_iff.mp hx
  by_cases hwhole : b.isWhole = true
  · have hvalue : b.toRat = b.truncate := Binary.toRat_eq_intCast_iff.mpr ⟨hwhole, rfl⟩
    refine ⟨b.truncate, ?_, .inl ⟨hvalue, ?_⟩⟩
    · rw [hvalue, sub_self, abs_zero]
      norm_num
    · simp only [roundHalfAway, hb, hwhole, if_true]
  · refine ⟨b.roundHalfAway, ?_, .inr ?_⟩
    · have hden : (0 : ℚ) < b.ratio.2 := by exact_mod_cast b.ratio_den_pos
      have hdouble : 0 < 2 * b.ratio.2 := Nat.mul_pos (by decide) b.ratio_den_pos
      have hnear : |(((2 * b.ratio.1 + b.ratio.2) / (2 * b.ratio.2) : Nat) : ℚ) -
          b.ratio.1 / b.ratio.2| ≤ 1 / 2 := by
        have hlow : (((2 * b.ratio.1 + b.ratio.2) / (2 * b.ratio.2) : Nat) : ℚ) *
            (2 * b.ratio.2) ≤ 2 * b.ratio.1 + b.ratio.2 := by
          exact_mod_cast Nat.div_mul_le_self _ _
        have hhigh : (2 : ℚ) * b.ratio.1 + b.ratio.2 <
            2 * b.ratio.2 * (((2 * b.ratio.1 + b.ratio.2) / (2 * b.ratio.2) : Nat) + 1) := by
          exact_mod_cast Nat.lt_mul_div_succ (2 * b.ratio.1 + b.ratio.2) hdouble
        generalize (2 * b.ratio.1 + b.ratio.2) / (2 * b.ratio.2) = k at hlow hhigh
        rw [sub_div' hden.ne', abs_div, abs_of_pos hden, div_le_iff₀ hden, abs_le]
        constructor <;> linarith
      rw [Binary.roundHalfAway, Binary.signed, Binary.toRat_eq]
      split
      · rw [Int.cast_neg, Int.cast_natCast, neg_sub_neg, abs_sub_comm]
        exact hnear
      · rw [Int.cast_natCast]
        exact hnear
    · simp only [roundHalfAway, hb, hwhole, if_false, Bool.false_eq_true]

/-- A number less than a half from an integer is rounded to it. -/
theorem toRat?_roundHalfAway {i : Int} (hx : toRat? x = some v) (hnear : |v - i| < 1 / 2)
    (hi : i.natAbs ≤ 2 ^ 53) : toRat? (roundHalfAway x) = some (i : ℚ) := by
  obtain ⟨j, hj, hresult⟩ := exists_roundHalfAway hx
  have hij : j = i := by
    have hlt : |(j : ℚ) - i| < 1 := by
      calc |(j : ℚ) - i| ≤ |(j : ℚ) - v| + |v - i| := abs_sub_le _ _ _
        _ < 1 := by linarith
    have hint : |j - i| < 1 := by exact_mod_cast hlt
    exact sub_eq_zero.mp (Int.abs_lt_one_iff.mp hint)
  subst hij
  rcases hresult with ⟨hv, hresult⟩ | hresult
  · rw [hresult, hx, hv]
  · rw [hresult]
    exact toRat?_ofInt hi

/-- A large number is changed little. -/
theorem isClose_roundHalfAway (hx : toRat? x = some v) (hlow : 2 ^ 48 ≤ v) (hhigh : v ≤ 2 ^ 98) :
    IsClose 18 (roundHalfAway x) v := by
  obtain ⟨i, hi, hresult⟩ := exists_roundHalfAway hx
  have hv : 0 ≤ v := le_trans (by norm_num) hlow
  obtain ⟨hbelow, habove⟩ := abs_le.mp hi
  obtain ⟨n, rfl⟩ : ∃ n : Nat, i = n := by
    refine Int.eq_ofNat_of_zero_le ?_
    have hpos : (0 : ℚ) < i := by linarith
    exact_mod_cast hpos.le
  rw [Int.cast_natCast] at hi hbelow habove
  have hclose : Close 17 n v := by
    refine Close.of_error (hi.trans ?_) (by norm_num) hv
    push_cast
    linarith
  rcases hresult with ⟨-, hresult⟩ | hresult
  · rw [hresult]
    exact ⟨v, hx, (Close.zero_iff.mpr rfl).mono (Nat.zero_le 18) hv hv⟩
  · have hbound : n ≤ 2 ^ 100 := by
      have hle : (n : ℚ) ≤ 2 ^ 100 := by linarith
      exact_mod_cast hle
    obtain ⟨r, hr, hone⟩ := isClose_ofNat hbound
    rw [hresult]
    exact ⟨r, hr, hone.trans hclose⟩

/-! ## The magnitude -/

theorem isEqual_zero_iff {x : Float} : isEqual x 0 = true ↔ toRat? x = some 0 := by
  have hzero : (0 : Float).toModel.unpack = .zero .positive := by rfl
  rw [isEqual, beq_iff_eq, order?, Float.Model.compare, hzero, toRat?_eq]
  cases x.toModel.unpack with
  | notANumber => simp [UnpackedFloat.compare, unpackedRat?]
  | infinity s => cases s <;> simp [UnpackedFloat.compare, unpackedRat?]
  | zero s => simp [UnpackedFloat.compare, unpackedRat?]
  | finite s m e hpos =>
      have hm : m ≠ 0 := Nat.ne_of_gt hpos
      have he : (2 : ℚ) ^ e ≠ 0 := zpow_ne_zero e two_ne_zero
      cases s <;> simp [UnpackedFloat.compare, unpackedRat?, UnpackedFloat.Sign.apply, hm, he]

theorem pow_le_of_le_maxScale (hs : s ≤ maxScale) : 10 ^ s ≤ 2 ^ 100 :=
  calc 10 ^ s ≤ 10 ^ 28 := Nat.pow_le_pow_right (by decide) hs
    _ ≤ 2 ^ 100 := by norm_num

theorem isClose_unit (hs : s ≤ maxScale) : IsClose 1 (Float.ofNat (10 ^ s)) (10 ^ s) := by
  have hclose := isClose_ofNat (pow_le_of_le_maxScale hs)
  push_cast at hclose
  exact hclose

/-- Without places after the point the magnitude is the double of the integer part. -/
theorem magnitude_of_dvd (hs : s ≤ maxScale) (h : 10 ^ s ∣ n) :
    magnitude n s = Float.ofNat (n / 10 ^ s) := by
  unfold magnitude
  split
  · next hzero => rw [hzero, pow_zero, Nat.div_one]
  · obtain ⟨r, hr, hclose⟩ := isClose_unit hs
    have hrpos : r ≠ 0 := by
      have hlow := (hclose.half_le (by decide) (by positivity)).1
      have hpow : (0 : ℚ) < 10 ^ s := by positivity
      linarith
    have hzero : toRat? (Float.ofNat 0) = some 0 := by
      exact_mod_cast toRat?_ofInt (i := 0) (by decide)
    have htail : toRat? (Float.ofNat 0 / Float.ofNat (10 ^ s)) = some 0 := by
      have hrounded := rounded_div hzero hr hrpos (.inl (zero_div r))
      rw [zero_div] at hrounded
      exact hrounded.nearest.exact ⟨_, hzero⟩
    simp only [Nat.pow_eq, Nat.mod_eq_zero_of_dvd h, isEqual_zero_iff.mpr htail, if_true]

/-- A natural number of some size over a power of ten in use is moderate. -/
theorem moderate_quotient {m : Nat} (hm : m ≠ 0) (hbound : m ≤ 10 ^ 30) (hs : s ≤ maxScale) :
    Moderate ((m : ℚ) / 10 ^ s) := by
  have hpow : (0 : ℚ) < 10 ^ s := by positivity
  have hunitLow : (1 : ℚ) ≤ 10 ^ s := one_le_pow₀ (by norm_num)
  have hunitHigh : (10 : ℚ) ^ s ≤ 10 ^ 28 := pow_le_pow_right₀ (by norm_num) hs
  have hlow : (1 : ℚ) ≤ m := by exact_mod_cast Nat.pos_of_ne_zero hm
  have hhigh : (m : ℚ) ≤ 10 ^ 30 := by exact_mod_cast hbound
  constructor
  · rw [div_le_div_iff₀ (by norm_num) hpow]
    linarith
  · rw [div_le_iff₀ hpow]
    linarith

theorem le_of_lt_bound (hn : n < bound) : n ≤ 10 ^ 30 := hn.le.trans (by decide)

/-- The sum of the integer part and the places, brought back to the digits. -/
theorem isClose_digits {j : Nat} (hj : j ≤ 1) (hs : s ≤ maxScale) (hn : n < bound)
    (hfraction : n % 10 ^ s ≠ 0)
    (hwhole : IsClose j (Float.ofNat (n / 10 ^ s)) (n / 10 ^ s : Nat))
    (hplaces : IsClose j (Float.ofNat (n % 10 ^ s)) (n % 10 ^ s : Nat))
    (hunit : IsClose j (Float.ofNat (10 ^ s)) (10 ^ s)) (hpower : IsClose j (power s) (10 ^ s)) :
    toRat? (Float.ofNat (n % 10 ^ s) / Float.ofNat (10 ^ s)) ≠ some 0 ∧
    IsClose (3 * j + 3) ((Float.ofNat (n / 10 ^ s) +
      Float.ofNat (n % 10 ^ s) / Float.ofNat (10 ^ s)) * power s) n := by
  have hpow : (0 : ℚ) < 10 ^ s := by positivity
  have hplacesLe : n % 10 ^ s ≤ n := Nat.mod_le _ _
  have hn0 : n ≠ 0 := by omega
  have hbound := le_of_lt_bound hn
  have hsplit : ((n / 10 ^ s : Nat) : ℚ) + (n % 10 ^ s : Nat) / 10 ^ s = n / 10 ^ s := by
    have hdigits : (n : ℚ) = 10 ^ s * (n / 10 ^ s : Nat) + (n % 10 ^ s : Nat) := by
      exact_mod_cast (Nat.div_add_mod n (10 ^ s)).symm
    rw [eq_div_iff hpow.ne', add_mul, div_mul_cancel₀ _ hpow.ne', hdigits]
    ring
  have hmoderateTail := moderate_quotient hfraction (hplacesLe.trans hbound) hs
  have htail : IsClose (j + j + 1) (Float.ofNat (n % 10 ^ s) / Float.ofNat (10 ^ s))
      ((n % 10 ^ s : Nat) / 10 ^ s) :=
    hplaces.div hunit (Nat.cast_nonneg _) hpow (by omega) hmoderateTail
  have hsum : IsClose (j + j + 1 + 1) (Float.ofNat (n / 10 ^ s) +
      Float.ofNat (n % 10 ^ s) / Float.ofNat (10 ^ s)) (n / 10 ^ s) := by
    have hmoderate := moderate_quotient hn0 hbound hs
    rw [← hsplit] at hmoderate ⊢
    exact (hwhole.mono (by omega) (Nat.cast_nonneg _)).add htail (by omega) hmoderate
  refine ⟨htail.ne_zero hmoderateTail.pos, ?_⟩
  have hproduct : (n : ℚ) / 10 ^ s * 10 ^ s = n := div_mul_cancel₀ _ hpow.ne'
  have hmoderate : Moderate ((n : ℚ) / 10 ^ s * 10 ^ s) := by
    rw [hproduct]
    simpa using moderate_quotient (s := 0) hn0 hbound (Nat.zero_le _)
  have hdigits := hsum.mul hpower (by positivity) hpow.le (by omega) hmoderate
  rw [hproduct] at hdigits
  exact hdigits.mono (by omega) (Nat.cast_nonneg n)

/-- The magnitude where there are places after the point. -/
theorem magnitude_of_fraction (hs : s ≠ 0)
    (htail : toRat? (Float.ofNat (n % 10 ^ s) / Float.ofNat (10 ^ s)) ≠ some 0) :
    magnitude n s = roundHalfAway ((Float.ofNat (n / 10 ^ s) +
      Float.ofNat (n % 10 ^ s) / Float.ofNat (10 ^ s)) * power s) / power s := by
  unfold magnitude
  rw [if_neg hs]
  simp only [Nat.pow_eq]
  exact if_neg fun hequal => htail (isEqual_zero_iff.mp hequal)

theorem quotient_eq_of_dvd (h : 10 ^ s ∣ n) : (n : ℚ) / 10 ^ s = (n / 10 ^ s : Nat) := by
  have hpow : ((10 ^ s : Nat) : ℚ) ≠ 0 := by positivity
  rw [Nat.cast_div h hpow]
  push_cast
  rfl

/-- With at most 15 digits and 22 places the magnitude is the decimal rounded. -/
theorem rounded_magnitude (hn : n < 10 ^ 15) (hs : s ≤ 22) :
    Rounded (magnitude n s) (n / 10 ^ s) := by
  have hpow : (0 : ℚ) < 10 ^ s := by positivity
  have hsmall : ∀ m : Nat, m ≤ n → toRat? (Float.ofNat m) = some (m : ℚ) := by
    intro m hm
    exact_mod_cast toRat?_ofInt (i := m) (by show m ≤ 2 ^ 53; omega)
  by_cases hfraction : n % 10 ^ s = 0
  · have hdvd : 10 ^ s ∣ n := Nat.dvd_of_mod_eq_zero hfraction
    rw [magnitude_of_dvd (hs.trans (by decide)) hdvd, quotient_eq_of_dvd hdvd]
    exact rounded_of_toRat? (hsmall _ (Nat.div_le_self _ _))
  · have hscale : s ≠ 0 := by
      rintro rfl
      exact hfraction (Nat.mod_one n)
    have hexact : ∀ m : Nat, m ≤ n → IsClose 0 (Float.ofNat m) m :=
      fun m hm => isClose_zero_iff.mpr (hsmall m hm)
    have hbound : n < bound := hn.trans (by decide)
    obtain ⟨htail, v, hv, hclose⟩ := isClose_digits (Nat.zero_le 1) (hs.trans (by decide)) hbound
      hfraction (hexact _ (Nat.div_le_self _ _)) (hexact _ (Nat.mod_le _ _))
      (isClose_zero_iff.mpr (toRat?_ofNat_pow hs)) (isClose_zero_iff.mpr (toRat?_power hs))
    -- fewer than `10 ^ 15` digits are recovered after three roundings
    have hnear : |v - (n : Int)| < 1 / 2 := by
      have herror := hclose.error (by norm_num) (Nat.cast_nonneg n)
      have hdigits : (n : ℚ) < 10 ^ 15 := by exact_mod_cast hn
      rw [Int.cast_natCast]
      push_cast at herror
      linarith
    have hrecovered := toRat?_roundHalfAway hv hnear (by show n ≤ 2 ^ 53; omega)
    rw [Int.cast_natCast] at hrecovered
    have hmoderate : Moderate ((n : ℚ) / 10 ^ s) :=
      moderate_quotient (fun hzero => hfraction (by rw [hzero, Nat.zero_mod])) (le_of_lt_bound hbound)
        (hs.trans (by decide))
    rw [magnitude_of_fraction hscale htail]
    exact rounded_div hrecovered (toRat?_power hs) hpow.ne'
      (hmoderate.inRange (Nat.zero_le _) (Close.zero_iff.mpr rfl))

/-- A number of digits after six roundings is close to them when it is rounded to an
integer: it is the number itself, unless the number is large. -/
theorem isClose_recovered (hn : n < bound) (hx : IsClose 6 x n) :
    IsClose 24 (roundHalfAway x) n := by
  obtain ⟨v, hv, hclose⟩ := hx
  have hnonneg : (0 : ℚ) ≤ n := Nat.cast_nonneg n
  rcases Nat.lt_or_ge n (2 ^ 49) with hsmall | hlarge
  · have hnear : |v - (n : Int)| < 1 / 2 := by
      have herror := hclose.error (by norm_num) hnonneg
      have hdigits : (n : ℚ) < 2 ^ 49 := by exact_mod_cast hsmall
      rw [Int.cast_natCast]
      push_cast at herror
      linarith
    have hrecovered := toRat?_roundHalfAway hv hnear (by show n ≤ 2 ^ 53; omega)
    rw [Int.cast_natCast] at hrecovered
    exact (isClose_zero_iff.mpr hrecovered).mono (Nat.zero_le _) hnonneg
  · obtain ⟨hlow, hhigh⟩ := hclose.half_le (by decide) hnonneg
    have hdigitsLow : (2 : ℚ) ^ 49 ≤ n := by exact_mod_cast hlarge
    have hdigitsHigh : (n : ℚ) ≤ 2 ^ 96 := by exact_mod_cast hn.le
    obtain ⟨r, hr, hrounded⟩ := isClose_roundHalfAway hv (by linarith) (by linarith)
    exact ⟨r, hr, hrounded.trans hclose⟩

/-- In any case the magnitude is close to the decimal. -/
theorem isClose_magnitude (hn : n < bound) (hs : s ≤ maxScale) :
    IsClose 26 (magnitude n s) (n / 10 ^ s) := by
  have hpow : (0 : ℚ) < 10 ^ s := by positivity
  have hnonneg : (0 : ℚ) ≤ n / 10 ^ s := by positivity
  have hclose : ∀ m : Nat, m ≤ n → IsClose 1 (Float.ofNat m) m :=
    fun m hm => isClose_ofNat ((hm.trans hn.le).trans (by decide))
  by_cases hfraction : n % 10 ^ s = 0
  · have hdvd : 10 ^ s ∣ n := Nat.dvd_of_mod_eq_zero hfraction
    rw [magnitude_of_dvd hs hdvd, quotient_eq_of_dvd hdvd]
    exact (hclose _ (Nat.div_le_self _ _)).mono (by decide) (Nat.cast_nonneg _)
  · have hscale : s ≠ 0 := by
      rintro rfl
      exact hfraction (Nat.mod_one n)
    obtain ⟨htail, hdigits⟩ := isClose_digits le_rfl hs hn hfraction
      (hclose _ (Nat.div_le_self _ _)) (hclose _ (Nat.mod_le _ _)) (isClose_unit hs)
      (isClose_power hs)
    have hmoderate : Moderate ((n : ℚ) / 10 ^ s) :=
      moderate_quotient (fun hzero => hfraction (by rw [hzero, Nat.zero_mod])) (le_of_lt_bound hn)
        hs
    rw [magnitude_of_fraction hscale htail]
    exact (isClose_recovered hn hdigits).div (isClose_power hs) (Nat.cast_nonneg n) hpow (by decide)
      hmoderate

/-! ## The double of a decimal -/

variable {d : Fixed}

/-- What holds of the magnitude, and on both sides of zero, holds of the decimal. -/
theorem toFloat_of_magnitude {P : Float → ℚ → Prop} (hneg : ∀ {x q}, P x q → P (-x) (-q))
    (h : P (magnitude d.coefficient.natAbs d.scale) (d.coefficient.natAbs / 10 ^ d.scale)) :
    P d.toFloat d.toRat := by
  rw [toRat_eq]
  unfold toFloat
  dsimp only
  split
  · rw [neg_one_mul]
    exact hneg h
  · rwa [one_mul]

theorem rounded_toFloat (hdigits : d.coefficient.natAbs < 10 ^ 15) (hscale : d.scale ≤ 22) :
    Rounded d.toFloat d.toRat :=
  toFloat_of_magnitude Rounded.neg (rounded_magnitude hdigits hscale)

theorem isNear_toFloat (h : d.Fits) : IsNear 26 d.toFloat d.toRat :=
  toFloat_of_magnitude IsNear.neg ((isClose_magnitude h.2 h.1).isNear (by positivity))

/-- An integer in decimal form becomes the integer rounded. -/
theorem rounded_toFloat_of_int {i : Int} (h : d.Fits) (hd : d.toRat = i) :
    Rounded d.toFloat d.toRat := by
  refine toFloat_of_magnitude Rounded.neg ?_
  have hdvd : 10 ^ d.scale ∣ d.coefficient.natAbs := by
    rw [natAbs_coefficient hd]
    exact Nat.dvd_mul_left _ _
  rw [magnitude_of_dvd h.1 hdvd, quotient_eq_of_dvd hdvd]
  exact rounded_ofNat (by decide : 100 < 1023)
    (((Nat.div_le_self _ _).trans h.2.le).trans (by decide))

/-! ## The short form of a double -/

/-- Doubles that compare as equal are the same, or both are zeros. -/
theorem eq_or_zeros_of_isEqual {x y : Float} (h : isEqual x y = true) :
    x = y ∨ toRat? x = some 0 ∧ toRat? y = some 0 := by
  obtain ⟨-, -, hcases⟩ := (UnpackedFloat.beq_iff_ne_notANumber_and_eq _ _).mp h
  rw [toRat?_eq, toRat?_eq]
  rcases hcases with hequal | ⟨hx, hy⟩ | ⟨hx, hy⟩
  · exact .inl (eq_of_unpack_eq hequal)
  · rw [hx, hy]
    exact .inr ⟨rfl, rfl⟩
  · rw [hx, hy]
    exact .inr ⟨rfl, rfl⟩

theorem toRat?_eq_of_isEqual {x y : Float} (h : isEqual x y = true) : toRat? x = toRat? y := by
  rcases eq_or_zeros_of_isEqual h with rfl | ⟨hx, hy⟩
  · rfl
  · rw [hx, hy]

theorem scale_ofDecimal_le (negative : Bool) (e : Decimal) :
    (ofDecimal negative e).scale ≤ maxScale := by
  unfold ofDecimal
  dsimp only
  split
  · exact Nat.zero_le _
  · split
    · assumption
    · exact le_rfl

/-- The short form has at most 15 digits and 28 places, and its double compares as equal. -/
theorem isEqual_of_ofFloat? (h : ofFloat? x = some d) :
    d.coefficient.natAbs < 10 ^ 15 ∧ d.scale ≤ maxScale ∧ isEqual d.toFloat x = true := by
  unfold ofFloat? at h
  split at h
  · cases h
  · next b hb =>
      dsimp only at h
      split at h
      · next hshort =>
          obtain rfl := Option.some.inj h
          exact ⟨hshort.1, scale_ofDecimal_le _ _, hshort.2⟩
      · cases h

/-- The short form has at most 15 digits and 28 places, and its double is the number. -/
theorem ofFloat?_spec (h : ofFloat? x = some d) :
    d.coefficient.natAbs < 10 ^ 15 ∧ d.scale ≤ maxScale ∧ toRat? x = toRat? d.toFloat := by
  obtain ⟨hdigits, hscale, hequal⟩ := isEqual_of_ofFloat? h
  exact ⟨hdigits, hscale, (toRat?_eq_of_isEqual hequal).symm⟩

theorem abs_toRat_le_of_ofFloat? (h : ofFloat? x = some d) : |d.toRat| ≤ 10 ^ 15 := by
  have hdigits : (d.coefficient.natAbs : ℚ) ≤ 10 ^ 15 := by
    exact_mod_cast (ofFloat?_spec h).1.le
  have hpow : (1 : ℚ) ≤ 10 ^ d.scale := one_le_pow₀ (by norm_num)
  rw [abs_toRat, div_le_iff₀ (by positivity)]
  calc (d.coefficient.natAbs : ℚ) ≤ 10 ^ 15 := hdigits
    _ ≤ 10 ^ 15 * 10 ^ d.scale := le_mul_of_one_le_right (by norm_num) hpow

theorem isNear_of_ofFloat? (h : ofFloat? x = some d) : IsNear 26 x d.toRat := by
  obtain ⟨hdigits, hscale, hvalue⟩ := ofFloat?_spec h
  obtain ⟨factor, hfactor, hclose⟩ := isNear_toFloat (d := d) ⟨hscale, hdigits.trans (by decide)⟩
  exact ⟨factor, hvalue.trans hfactor, hclose⟩

/-- An integer is its own short form. -/
theorem toRat?_of_ofFloat? (h : ofFloat? x = some d) (hscale : d.scale = 0) :
    toRat? x = some d.toRat := by
  obtain ⟨hdigits, -, hvalue⟩ := ofFloat?_spec h
  have hint : d.toRat = (d.coefficient : ℚ) := by rw [toRat, hscale, pow_zero, div_one]
  have hrounded := rounded_toFloat hdigits (by omega)
  rw [hvalue]
  exact hrounded.nearest.exact (hint ▸ ⟨_, toRat?_ofInt (by omega)⟩)

end DataRules.Number.Fixed
