import DataRules.Double.Decimal
import DataRules.Proofs.Double.Neutral
import DataRules.Proofs.Double.Order

set_option autoImplicit false

/-!
# Conversion: the double that a decimal is rounded to

A magnitude is rounded to the nearest double, from halfway past the greatest one on to
infinity, and down to zero below the smallest.  There is one such double for every
magnitude, and reading a decimal gives it: whether the power of ten comes from the table
or is computed, one exact product or quotient is rounded once.
-/

namespace DataRules.Double

open Float.Model Float.Model.UnpackedFloat

/-- The double is the magnitude `q` rounded. -/
inductive IsRoundingOf (x : Float) (q : ℚ) : Prop where
  | finite {b : Binary} (hbelow : q < overflow) (hb : Binary.ofFloat? x = some b)
      (hsign : b.negative = false) (hnearest : b.NearestTo q)
  | infinite (hlarge : overflow ≤ q) (hunpack : x.toModel.unpack = .infinity .positive)

/-! ## There is one -/

theorem Binary.negative_eq_false {b : Binary} (h : 0 < b.toRat) : b.negative = false := by
  refine Bool.eq_false_iff.mpr fun hnegative => absurd h (not_lt_of_ge ?_)
  rw [toRat, signed, if_pos hnegative, Int.cast_neg, neg_mul, neg_nonpos]
  positivity

/-- A double is told from its sign and the number that it is. -/
theorem eq_of_toRat_eq {x y : Float} {b c : Binary} (hb : Binary.ofFloat? x = some b)
    (hc : Binary.ofFloat? y = some c) (hsign : b.negative = c.negative)
    (hvalue : b.toRat = c.toRat) : x = y := by
  have hx : unpackedRat? x.toModel.unpack = some b.toRat := by
    rw [← toRat?_eq, Binary.toRat?_eq hb]
  have hy : unpackedRat? y.toModel.unpack = some b.toRat := by
    rw [← toRat?_eq, Binary.toRat?_eq hc, hvalue]
  have hcompare := (stored_unpack x.toModel).compare_of_unpackedRat? (stored_unpack y.toModel) hx hy
  have hsame : b.sign = c.sign := by rw [Binary.sign, hsign, Binary.sign]
  rw [compare_eq_iff_eq.mpr rfl] at hcompare
  refine eq_of_unpack_eq ?_
  rcases Binary.unpack_of_ofFloat? hb with ⟨-, hzero⟩ | ⟨hpos, hfinite⟩ <;>
    rcases Binary.unpack_of_ofFloat? hc with ⟨-, hzero'⟩ | ⟨hpos', hfinite'⟩
  · rw [hzero, hzero', hsame]
  · rw [hzero, hfinite'] at hcompare
    cases hs : c.sign <;> rw [hs] at hcompare <;> cases hcompare
  · rw [hfinite, hzero'] at hcompare
    cases hs : b.sign <;> rw [hs] at hcompare <;> cases hcompare
  · rw [hfinite, hfinite', compare_finite_eq_iff] at hcompare
    obtain ⟨-, hmantissa, hexponent⟩ := hcompare
    rw [hfinite, hfinite']
    simp only [UnpackedFloat.finite.injEq]
    exact ⟨hsame, hmantissa, hexponent⟩

/-- A number of at most 53 bits within the range of the exponents is a double. -/
theorem isDouble_of_lt {c : Nat} {k : Int} (hc : c < 2 ^ 53) (hlow : -1074 ≤ k) (hhigh : k ≤ 971) :
    IsDouble (c * 2 ^ k) := by
  have hpacked : ∀ {u : UnpackedFloat} {q : ℚ}, Stored u → unpackedRat? u = some q →
      IsDouble q := by
    intro u q hu hq
    exact ⟨.ofModel (.pack u), (toRat?_of_stored hu rfl).trans hq⟩
  rcases Nat.eq_zero_or_pos c with rfl | hpos
  · rw [Nat.cast_zero, zero_mul]
    exact hpacked (.zero .positive) rfl
  · have hlog := log2_lt_of_lt hpos hc
    -- zeros are appended as far as 53 bits and the smallest exponent allow
    obtain ⟨j, hj⟩ : ∃ j : Nat, c.log2 + j = 52 ∧ -1074 ≤ k - j ∨
        c.log2 + j < 52 ∧ k - j = -1074 := ⟨min (52 - c.log2) (k + 1074).toNat, by omega⟩
    have hpos' : 0 < c * 2 ^ j := Nat.mul_pos hpos (Nat.two_pow_pos j)
    have hlog' : (c * 2 ^ j).log2 = c.log2 + j := log2_mul_two_pow (Nat.ne_of_gt hpos) j
    have hvalue : unpackedRat? (.finite .positive (c * 2 ^ j) (k - j) hpos') =
        some ((c : ℚ) * 2 ^ k) := congrArg some (appendZeros_value c j k)
    rcases hj with ⟨hfull, hmin⟩ | ⟨hshort, hmin⟩
    · exact hpacked (.finite .positive hpos' (hlog'.trans hfull) hmin (by omega)) hvalue
    · rw [hmin] at hvalue
      exact hpacked (.subnormal .positive hpos' (by omega)) hvalue

theorem Binary.bounds_of_ofFloat? {x : Float} {b : Binary} (h : ofFloat? x = some b) :
    b.mantissa < 2 ^ 53 ∧ -1074 ≤ b.exponent ∧ b.exponent ≤ 971 := by
  have hstored := stored_unpack x.toModel
  rcases b with ⟨negative, m, e⟩
  rcases unpack_of_ofFloat? h with ⟨hzero, -⟩ | ⟨hpos, hunpack⟩
  · cases hzero
    exact ⟨Nat.two_pow_pos 53, (by decide : (-1074 : Int) ≤ 0), (by decide : (0 : Int) ≤ 971)⟩
  · rw [hunpack] at hstored
    cases hstored with
    | finite _ _ hm hlow hhigh => exact ⟨(log2_eq_52_iff.mp hm).2, hlow, hhigh⟩
    | subnormal _ _ hm =>
        have hlt := (Nat.log2_lt (Nat.ne_of_gt hpos)).mp hm
        exact ⟨hlt.trans (by norm_num), le_rfl, (by decide : (-1074 : Int) ≤ 971)⟩

/-- Between two doubles with even mantissas there is another one: next to the one with the
smaller exponent. -/
theorem exists_isDouble_between {m n : Nat} {e f : Int} (hm : m < 2 ^ 53 ∧ -1074 ≤ e ∧ e ≤ 971)
    (hn : n < 2 ^ 53 ∧ -1074 ≤ f ∧ f ≤ 971) (heven : 2 ∣ m) (heven' : 2 ∣ n)
    (hlt : (m : ℚ) * 2 ^ e < n * 2 ^ f) :
    ∃ w, IsDouble w ∧ (m : ℚ) * 2 ^ e < w ∧ w < n * 2 ^ f := by
  rcases le_total e f with hle | hle
  · obtain ⟨j, hj⟩ := Int.eq_ofNat_of_zero_le (sub_nonneg.mpr hle)
    have hpow : (0 : ℚ) < 2 ^ e := zpow_pos two_pos e
    obtain rfl : e = f - j := by omega
    rw [← appendZeros_value n j f] at hlt ⊢
    have hmn : m < n * 2 ^ j := by exact_mod_cast lt_of_mul_lt_mul_right hlt hpow.le
    have hn2 : 2 ∣ n * 2 ^ j := heven'.mul_right _
    refine ⟨(m + 1 : Nat) * 2 ^ (f - j), isDouble_of_lt (by omega) hm.2.1 hm.2.2, ?_, ?_⟩
    · exact mul_lt_mul_of_pos_right (by exact_mod_cast Nat.lt_succ_self m) hpow
    · exact mul_lt_mul_of_pos_right (by exact_mod_cast (by omega : m + 1 < n * 2 ^ j)) hpow
  · obtain ⟨j, hj⟩ := Int.eq_ofNat_of_zero_le (sub_nonneg.mpr hle)
    have hpow : (0 : ℚ) < 2 ^ f := zpow_pos two_pos f
    obtain rfl : f = e - j := by omega
    rw [← appendZeros_value m j e] at hlt ⊢
    have hmn : m * 2 ^ j < n := by exact_mod_cast lt_of_mul_lt_mul_right hlt hpow.le
    have hm2 : 2 ∣ m * 2 ^ j := heven.mul_right _
    refine ⟨(n - 1 : Nat) * 2 ^ (e - j), isDouble_of_lt (by omega) hn.2.1 hn.2.2, ?_, ?_⟩
    · exact mul_lt_mul_of_pos_right (by exact_mod_cast (by omega : m * 2 ^ j < n - 1)) hpow
    · exact mul_lt_mul_of_pos_right (by exact_mod_cast (by omega : n - 1 < n)) hpow

theorem Binary.toRat_of_nonneg {b : Binary} (h : b.negative = false) :
    b.toRat = b.mantissa * 2 ^ b.exponent := by
  rw [toRat, signed, h, if_neg Bool.false_ne_true, Int.cast_natCast]

/-- Two doubles equally far from `q` and both with even mantissas are not nearest to it. -/
theorem not_lt_of_nearestTo {x y : Float} {b c : Binary} {q : ℚ} (hb : Binary.ofFloat? x = some b)
    (hc : Binary.ofFloat? y = some c) (hbsign : b.negative = false) (hcsign : c.negative = false)
    (hbq : b.NearestTo q) (hcq : c.NearestTo q) : ¬b.toRat < c.toRat := by
  intro hlt
  have hbdouble : IsDouble b.toRat := ⟨x, Binary.toRat?_eq hb⟩
  have hcdouble : IsDouble c.toRat := ⟨y, Binary.toRat?_eq hc⟩
  have hequal : |b.toRat - q| = |c.toRat - q| :=
    le_antisymm (hbq.closest hcdouble) (hcq.closest hbdouble)
  have hbeven := hbq.even hcdouble hequal.symm hlt.ne'
  have hceven := hcq.even hbdouble hequal hlt.ne
  obtain ⟨w, hw, hbw, hwc⟩ : ∃ w, IsDouble w ∧ b.toRat < w ∧ w < c.toRat := by
    rw [Binary.toRat_of_nonneg hbsign, Binary.toRat_of_nonneg hcsign] at hlt ⊢
    exact exists_isDouble_between (Binary.bounds_of_ofFloat? hb) (Binary.bounds_of_ofFloat? hc)
      hbeven hceven hlt
  -- `q` is halfway between the two, and `w` is nearer
  have hmiddle : c.toRat - q = -(b.toRat - q) :=
    (abs_eq_abs.mp hequal.symm).resolve_left fun hsame => hlt.ne' (sub_left_injective hsame)
  have hnearer : |w - q| < |b.toRat - q| := by
    rw [abs_of_neg (by linarith : b.toRat - q < 0), abs_lt]
    constructor <;> linarith
  exact absurd (hbq.closest hw) hnearer.not_ge

theorem IsRoundingOf.unique {x y : Float} {q : ℚ} (hx : IsRoundingOf x q)
    (hy : IsRoundingOf y q) : x = y := by
  cases hx with
  | finite hbelow hb hbsign hbq =>
      cases hy with
      | finite _ hc hcsign hcq =>
          refine eq_of_toRat_eq hb hc (hbsign.trans hcsign.symm) (le_antisymm ?_ ?_)
          · exact le_of_not_gt (not_lt_of_nearestTo hc hb hcsign hbsign hcq hbq)
          · exact le_of_not_gt (not_lt_of_nearestTo hb hc hbsign hcsign hbq hcq)
      | infinite hlarge => exact absurd hbelow hlarge.not_gt
  | infinite hlarge hunpack =>
      cases hy with
      | finite hbelow => exact absurd hbelow hlarge.not_gt
      | infinite _ hunpack' => exact eq_of_unpack_eq (hunpack.trans hunpack'.symm)

/-- A double is not rounded. -/
theorem isRoundingOf_self {x : Float} {b : Binary} (hb : Binary.ofFloat? x = some b)
    (hsign : b.negative = false) : IsRoundingOf x b.toRat := by
  obtain ⟨hmantissa, -, hexponent⟩ := Binary.bounds_of_ofFloat? hb
  obtain ⟨c, hc, hnearest⟩ := nearest_of_toRat? (Binary.toRat?_eq hb)
  obtain rfl := Option.some.inj (hb.symm.trans hc)
  refine .finite ?_ hb hsign hnearest
  have hlt : (b.mantissa : ℚ) < 2 ^ 53 - 1 / 2 := by
    have hle : (b.mantissa : ℚ) + 1 ≤ 2 ^ 53 := by exact_mod_cast hmantissa
    linarith
  rw [Binary.toRat_of_nonneg hsign]
  calc (b.mantissa : ℚ) * 2 ^ b.exponent ≤ b.mantissa * 2 ^ (971 : Int) := by
        gcongr
        norm_num
    _ < overflow := mul_lt_mul_of_pos_right hlt (zpow_pos two_pos _)

/-! ## One rounding -/

section

variable {x : Float} {m n : Nat} {e f : Int} {q : ℚ}

/-- A number below the smallest 53 bits is shifted to the smallest exponent. -/
theorem shiftToTargetExponent_smallest (accuracy : Accuracy) (he : e ≤ -1074)
    (hm : (m.log2 : Int) - 52 + e ≤ -1074) :
    shiftToTargetExponent .binary64 m e accuracy =
      (ExtendedMantissa.ofMantissaAndAccuracy m accuracy >>> (-1074 - e).toNat, -1074) := by
  have hshift : (max (totalExponent m e - 53) (-1074) - e).toNat = (-1074 - e).toNat := by
    rw [totalExponent]
    omega
  rw [shiftToTargetExponent, targetExponent_binary64]
  simp only [shiftToExponent, hshift, Prod.mk.injEq, true_and]
  omega

/-- Of the smallest numbers fewer bits are kept, and none of those below half of the
smallest double. -/
theorem roundWithAccuracy_smallest (accuracy : Accuracy) (he : e ≤ -1074)
    (hm : (m.log2 : Int) - 52 + e < -1074)
    (hn : (ExtendedMantissa.ofMantissaAndAccuracy m accuracy >>>
      (-1074 - e).toNat).roundedMantissa = n) (s : Sign) :
    n ≤ 2 ^ 52 ∧ roundWithAccuracy .binary64 s m e accuracy =
      if h : n = 0 then .zero s else .finite s n (-1074) (Nat.pos_of_ne_zero h) := by
  have hfirst := shiftToTargetExponent_smallest accuracy he hm.le
  have hbounds := (roundedMantissa_bounds (ExtendedMantissa.ofMantissaAndAccuracy m accuracy >>>
    (-1074 - e).toNat)).2
  have hkept : m / 2 ^ (-1074 - e).toNat < 2 ^ 52 := by
    rw [Nat.div_lt_iff_lt_mul (Nat.two_pow_pos _), ← Nat.pow_add]
    exact Nat.lt_log2_self.trans_le (Nat.pow_le_pow_right two_pos (by omega))
  rw [hn, mantissa_shiftRight, mantissa_ofMantissaAndAccuracy] at hbounds
  have hle : n ≤ 2 ^ 52 := by omega
  refine ⟨hle, ?_⟩
  have hlog : n.log2 ≤ 52 := by
    rcases Nat.eq_zero_or_pos n with rfl | hpos
    · simp
    · exact Nat.le_of_lt_succ ((Nat.log2_lt (Nat.ne_of_gt hpos)).mpr (by omega))
  have hlast := shiftToTargetExponent_smallest (m := n) (e := -1074) .exact le_rfl (by omega)
  simp only [roundWithAccuracy, hfirst, hn, hlast, mantissa_shiftRight,
    mantissa_ofMantissaAndAccuracy, sub_self, Int.toNat_zero, pow_zero, Nat.div_one]

theorem lt_overflow_of_units {u : ℚ} (hu : u ≤ 2 ^ 52 + 1 / 2) :
    u * 2 ^ (-1074 : Int) < overflow := by
  have hone : (2 : ℚ) ^ (-1074 : Int) ≤ 1 := zpow_le_one_of_nonpos₀ one_le_two (by decide)
  have hlast : (1 : ℚ) ≤ 2 ^ (971 : Int) := one_le_zpow₀ one_le_two (by decide)
  calc u * 2 ^ (-1074 : Int) ≤ (2 ^ 52 + 1 / 2) * 1 := by gcongr
    _ < (2 ^ 53 - 1 / 2) * 1 := by norm_num
    _ ≤ overflow := mul_le_mul_of_nonneg_left hlast (by norm_num)

/-- Rounding in the smallest units. -/
theorem isRoundingOf_smallest {u : ℚ} (hrounds : RoundsTo n u) (hn : n ≤ 2 ^ 52)
    (hx : x.toModel = .pack (if h : n = 0 then .zero .positive
      else .finite .positive n (-1074) (Nat.pos_of_ne_zero h))) :
    IsRoundingOf x (u * 2 ^ (-1074 : Int)) := by
  have hbelow : u * 2 ^ (-1074 : Int) < overflow := by
    have hnear := (abs_le.mp hrounds.near).1
    have hnRat : (n : ℚ) ≤ 2 ^ 52 := by exact_mod_cast hn
    exact lt_overflow_of_units (by linarith)
  obtain ⟨b, hb, hsign, hmantissa, hvalue⟩ : ∃ b, Binary.ofFloat? x = some b ∧
      b.negative = false ∧ b.mantissa = n ∧ b.toRat = n * 2 ^ (-1074 : Int) := by
    by_cases hzero : n = 0
    · subst hzero
      rw [dif_pos rfl] at hx
      have hunpack : x.toModel.unpack = .zero .positive := hx ▸ Stored.unpack_pack (.zero .positive)
      refine ⟨⟨false, 0, 0⟩, by rw [Binary.ofFloat?, hunpack], rfl, rfl, ?_⟩
      rw [Binary.toRat_of_nonneg rfl, Nat.cast_zero, zero_mul, zero_mul]
    · rw [dif_neg hzero] at hx
      have hstored : Stored (.finite .positive n (-1074) (Nat.pos_of_ne_zero hzero)) := by
        rcases Nat.lt_or_eq_of_le hn with hlt | rfl
        · exact .subnormal _ _ ((Nat.log2_lt hzero).mpr hlt)
        · exact .finite _ _ (log2_eq_52_iff.mpr ⟨le_rfl, by norm_num⟩) le_rfl (by decide)
      have hunpack := hx ▸ hstored.unpack_pack
      refine ⟨⟨false, n, -1074⟩, by rw [Binary.ofFloat?, hunpack], rfl, rfl, ?_⟩
      rw [Binary.toRat_of_nonneg rfl]
  have hnearest : b.NearestTo ((Sign.positive.apply 1 : Int) * (u * 2 ^ (-1074 : Int))) := by
    refine hrounds.nearestTo (fun hlt => absurd hlt (lt_irrefl _)) ?_ (fun h => hmantissa ▸ h)
    rw [hvalue]
    simp [Sign.apply]
  refine .finite hbelow hb hsign ?_
  simpa [Sign.apply] using hnearest

/-- Rounding where 53 bits are left for the magnitude. -/
theorem isRoundingOf_normal {accuracy : Accuracy} (hm : 52 ≤ m.log2)
    (he : -1074 ≤ (m.log2 : Int) - 52 + e)
    (hlocates : Locates (ExtendedMantissa.ofMantissaAndAccuracy m accuracy) q)
    (hx : x.toModel = .pack (roundWithAccuracy .binary64 .positive m e accuracy)) :
    IsRoundingOf x (q * 2 ^ e) := by
  have hm0 : m ≠ 0 := by
    rintro rfl
    simp at hm
  rcases rounded_or_infinite hm hlocates he hx with ⟨hbelow, hrounded⟩ | ⟨hlarge, hunpack⟩
  · simp only [Sign.apply, Int.cast_one, one_mul] at hrounded
    have hpos : 0 < q * 2 ^ e :=
      mul_pos ((zpow_pos two_pos _).trans_le (hlocates.log2_bounds hm0).1) (zpow_pos two_pos e)
    obtain ⟨b, hb, hnearest⟩ := hrounded.nearest
    refine .finite hbelow hb (Binary.negative_eq_false ?_) hnearest
    -- the error is less than the magnitude
    have herror := hrounded.error (Binary.toRat?_eq hb)
    rw [abs_of_pos hpos] at herror
    have hlow := (abs_le.mp herror).1
    have hhalf : q * 2 ^ e / 2 ^ 53 < q * 2 ^ e := div_lt_self hpos (by norm_num)
    linarith
  · exact .infinite hlarge hunpack

/-- A magnitude with 53 bits or more is rounded, and so is one in units as small as any. -/
theorem isRoundingOf_roundWithAccuracy {accuracy : Accuracy} (hm : 52 ≤ m.log2 ∨ e ≤ -1074)
    (hlocates : Locates (ExtendedMantissa.ofMantissaAndAccuracy m accuracy) q)
    (hx : x.toModel = .pack (roundWithAccuracy .binary64 .positive m e accuracy)) :
    IsRoundingOf x (q * 2 ^ e) := by
  by_cases hnormal : 52 ≤ m.log2 ∧ -1074 ≤ (m.log2 : Int) - 52 + e
  · exact isRoundingOf_normal hnormal.1 hnormal.2 hlocates hx
  · have he : e ≤ -1074 := by omega
    obtain ⟨hn, hround⟩ := roundWithAccuracy_smallest accuracy he
      (show (m.log2 : Int) - 52 + e < -1074 by omega) rfl .positive
    rw [hround] at hx
    have hvalue : q / 2 ^ (-1074 - e).toNat * 2 ^ (-1074 : Int) = q * 2 ^ e := by
      have hpower : (2 : ℚ) ^ (-1074 : Int) = 2 ^ (-1074 - e).toNat * 2 ^ e := by
        rw [← zpow_natCast, ← zpow_add₀ two_ne_zero]
        congr 1
        omega
      rw [hpower, ← mul_assoc, div_mul_cancel₀ _ (by positivity)]
    rw [← hvalue]
    exact isRoundingOf_smallest (hlocates.shiftRight _).roundsTo hn hx

theorem isRoundingOf_mul {hpos : 0 < m} {hpos' : 0 < n} (hm : 52 ≤ m.log2)
    (hx : x.toModel = .pack (UnpackedFloat.mul .binary64 (.finite .positive m e hpos)
      (.finite .positive n f hpos'))) :
    IsRoundingOf x (m * 2 ^ e * (n * 2 ^ f)) := by
  have hvalue : (m : ℚ) * 2 ^ e * (n * 2 ^ f) = (m * n : Nat) * 2 ^ (e + f) := by
    rw [zpow_add₀ two_ne_zero, Nat.cast_mul]
    ring
  have hlog : 52 ≤ (m * n).log2 := by
    rw [Nat.le_log2 (Nat.ne_of_gt (Nat.mul_pos hpos hpos'))]
    calc 2 ^ 52 ≤ m := (Nat.le_log2 (Nat.ne_of_gt hpos)).mp hm
      _ ≤ m * n := Nat.le_mul_of_pos_right m hpos'
  rw [hvalue]
  exact isRoundingOf_roundWithAccuracy (.inl hlog) (locates_exact _) hx

theorem isRoundingOf_div {hpos : 0 < m} {hpos' : 0 < n}
    (hx : x.toModel = .pack (UnpackedFloat.div .binary64 (.finite .positive m e hpos)
      (.finite .positive n f hpos'))) :
    IsRoundingOf x (m * 2 ^ e / (n * 2 ^ f)) := by
  obtain ⟨num, t, hcore, hvalue, hbits⟩ := divCore_value (e := e) (f := f) hpos hpos'
  rw [UnpackedFloat.div, hcore] at hx
  rw [← hvalue]
  exact isRoundingOf_roundWithAccuracy (hbits.imp_left (le_log2_quotient hpos'))
    (locates_quotient hpos') hx

/-- A fraction is converted by rounding its magnitude. -/
theorem Binary.isRoundingOf_toFloat {b : Binary} (hsign : b.negative = false)
    (hpos : 0 < b.mantissa) : IsRoundingOf b.toFloat b.toRat := by
  rw [toRat_of_nonneg hsign]
  generalize htarget :
    max ((b.mantissa.log2 : Int) + 1 + b.exponent - 53) (-1074) = target
  have htoFloat : b.toFloat.toModel = .pack (roundWithAccuracy .binary64 .positive
      (b.mantissa * 2 ^ (b.exponent - target).toNat)
      (b.exponent - ((b.exponent - target).toNat : Nat)) .exact) := by
    rw [← htarget, ← Nat.shiftLeft_eq, toFloat, hsign, if_neg Bool.false_ne_true]
    rfl
  have hlog := log2_mul_two_pow (Nat.ne_of_gt hpos) (b.exponent - target).toNat
  rw [← appendZeros_value b.mantissa (b.exponent - target).toNat b.exponent]
  exact isRoundingOf_roundWithAccuracy (by omega) (locates_exact _) htoFloat

/-- What is not more than half of the smallest double is rounded to zero. -/
theorem isRoundingOf_zero (hq : 0 ≤ q) (hsmall : q ≤ 2 ^ (-1075 : Int))
    (hx : x.toModel = .pack (.zero .positive)) : IsRoundingOf x q := by
  have hunits : q / 2 ^ (-1074 : Int) * 2 ^ (-1074 : Int) = q :=
    div_mul_cancel₀ q (zpow_pos two_pos _).ne'
  have hrounds : RoundsTo 0 (q / 2 ^ (-1074 : Int)) := by
    refine ⟨?_, fun _ => dvd_zero 2⟩
    rw [Nat.cast_zero, zero_sub, abs_neg, abs_of_nonneg (by positivity),
      div_le_iff₀ (zpow_pos two_pos _)]
    refine hsmall.trans (le_of_eq ?_)
    rw [show (-1075 : Int) = -1074 - 1 by norm_num, zpow_sub_one₀ two_ne_zero]
    ring
  rw [← hunits]
  exact isRoundingOf_smallest hrounds (Nat.zero_le _) hx

/-! ## Decimals -/

theorem overflow_le : overflow ≤ 2 ^ (1024 : Int) := by
  calc overflow ≤ 2 ^ 53 * 2 ^ (971 : Int) :=
        mul_le_mul_of_nonneg_right (by norm_num) (zpow_pos two_pos _).le
    _ = 2 ^ (1024 : Int) := by
        rw [← zpow_natCast, ← zpow_add₀ two_ne_zero]
        norm_num

/-- Digits with a power of ten past the range. -/
theorem overflow_le_decimal {digits : Nat} (hdigits : 0 < digits) (he : 2048 < e) :
    overflow ≤ digits * 10 ^ e := by
  have hone : (1 : ℚ) ≤ digits := by exact_mod_cast hdigits
  calc overflow ≤ 2 ^ (1024 : Int) := overflow_le
    _ ≤ 2 ^ e := zpow_le_zpow_right₀ one_le_two (by omega)
    _ ≤ 10 ^ e := zpow_le_zpow_left₀ (by omega) two_pos.le (by norm_num)
    _ ≤ digits * 10 ^ e := le_mul_of_one_le_left (by positivity) hone

theorem decimal_le_smallest {digits : Nat} (he : e < -(2048 + (digits.log2 : Int))) :
    (digits : ℚ) * 10 ^ e ≤ 2 ^ (-1075 : Int) := by
  have hdigits : (digits : ℚ) ≤ 2 ^ ((digits.log2 : Int) + 1) := by
    rw [← Nat.cast_succ, zpow_natCast]
    exact_mod_cast Nat.lt_log2_self.le
  have hpower : (10 : ℚ) ^ e ≤ 2 ^ e := by
    obtain ⟨k, rfl⟩ : ∃ k : Nat, e = -k := ⟨e.natAbs, by omega⟩
    rw [zpow_neg, zpow_neg, zpow_natCast, zpow_natCast]
    gcongr
    norm_num
  calc (digits : ℚ) * 10 ^ e ≤ 2 ^ ((digits.log2 : Int) + 1) * 2 ^ e := by gcongr
    _ = 2 ^ ((digits.log2 : Int) + 1 + e) := (zpow_add₀ two_ne_zero _ _).symm
    _ ≤ 2 ^ (-1075 : Int) := zpow_le_zpow_right₀ one_le_two (by omega)

/-- Without the table the power is computed, unless it is out of range. -/
theorem isRoundingOf_unpackedOfScientific {digits : Nat}
    (hx : x.toModel = .pack (UnpackedFloat.ofScientific .binary64 digits e)) :
    IsRoundingOf x (digits * 10 ^ e) := by
  rw [UnpackedFloat.ofScientific] at hx
  have hbits : (2 : Int) ^ Format.binary64.exponentBits = 2048 := rfl
  split at hx
  · next hzero =>
      rw [hzero, Nat.cast_zero, zero_mul]
      exact isRoundingOf_zero le_rfl (by positivity) hx
  · next hdigits =>
      split at hx
      · next hhuge =>
          refine .infinite (overflow_le_decimal (Nat.pos_of_ne_zero hdigits) (hbits ▸ hhuge)) ?_
          rw [hx, (Stored.infinity .positive).unpack_pack]
      · split at hx
        · next htiny =>
            exact isRoundingOf_zero (by positivity) (decimal_le_smallest (hbits ▸ htiny)) hx
        · split at hx
          · next he =>
              obtain ⟨k, rfl⟩ := Int.eq_ofNat_of_zero_le he
              simp only [Nat.shiftLeft_eq] at hx
              have hlog : 52 ≤ (digits * 2 ^ 53).log2 := by
                rw [log2_mul_two_pow hdigits]
                omega
              have hproduct := isRoundingOf_mul (n := 10 ^ k) (e := -53) hlog hx
              have hshifted : ((digits * 2 ^ 53 : Nat) : ℚ) * 2 ^ (-53 : Int) = digits := by
                simpa using appendZeros_value digits 53 0
              rw [hshifted] at hproduct
              simpa using hproduct
          · next he =>
              have hquotient := isRoundingOf_div hx
              obtain ⟨k, rfl⟩ : ∃ k : Nat, e = -k := ⟨e.natAbs, by omega⟩
              simpa [div_eq_mul_inv] using hquotient

end

theorem Amounts.value {m n : Nat} {e : Int} (h : Amounts m e n) : (m : ℚ) * 2 ^ e = n := by
  have hpower : (2 : ℚ) ^ e = 2 ^ e.toNat / 2 ^ (-e).toNat := by
    rw [← zpow_natCast, ← zpow_natCast, ← zpow_sub₀ two_ne_zero]
    congr 1
    omega
  have hvalue : (m : ℚ) * 2 ^ e.toNat = n * 2 ^ (-e).toNat := by exact_mod_cast h
  rw [hpower, ← mul_div_assoc, hvalue, mul_div_cancel_right₀ _ (by positivity)]

/-- With the table, a product or a quotient of two doubles is rounded. -/
theorem isRoundingOf_table {digits k : Nat} (hdigits : digits < 2 ^ 53)
    (hsize : k < Float.exactlyRepresentablePowersOfTen.size) :
    IsRoundingOf (digits.toUInt64.toFloat * Float.exactlyRepresentablePowersOfTen[k])
        (digits * 10 ^ k) ∧
      IsRoundingOf (digits.toUInt64.toFloat / Float.exactlyRepresentablePowersOfTen[k])
        (digits / 10 ^ k) := by
  obtain ⟨m, t, hpos, hpower, hm, hten⟩ := eq_of_isPowerOfTen (isPowerOfTen_table ⟨k, hsize⟩)
  rw [Fin.getElem_fin] at hpower
  have hunpack : digits.toUInt64.toFloat.toModel.unpack = unpackedNat digits := by
    show (Float.Model.ofUInt64 digits.toUInt64).unpack = _
    rw [ofUInt64_eq hdigits, (Stored.unpackedNat hdigits).unpack_pack]
  have hmul : (digits.toUInt64.toFloat * Float.exactlyRepresentablePowersOfTen[k]).toModel =
      .pack (UnpackedFloat.mul .binary64 (unpackedNat digits) (.finite .positive m t hpos)) := by
    rw [← hunpack, ← hpower]
    rfl
  have hdiv : (digits.toUInt64.toFloat / Float.exactlyRepresentablePowersOfTen[k]).toModel =
      .pack (UnpackedFloat.div .binary64 (unpackedNat digits) (.finite .positive m t hpos)) := by
    rw [← hunpack, ← hpower]
    rfl
  have htenValue := hten.value
  push_cast at htenValue
  rcases Nat.eq_zero_or_pos digits with rfl | hn
  · rw [Nat.cast_zero, zero_mul, zero_div]
    exact ⟨isRoundingOf_zero le_rfl (by positivity) hmul,
      isRoundingOf_zero le_rfl (by positivity) hdiv⟩
  · rw [unpackedNat_of_pos hn] at hmul hdiv
    have hvalue := (amounts_unpackedNat hn hdigits).value
    rw [← hvalue, ← htenValue]
    exact ⟨isRoundingOf_mul (log2_significand hn hdigits).ge hmul, isRoundingOf_div hdiv⟩

/-- Reading a decimal gives the double that it is rounded to. -/
theorem Decimal.isRoundingOf_toFloat (d : Decimal) :
    IsRoundingOf d.toFloat (d.digits * 10 ^ d.exponent) := by
  have hexponent : d.exponent = if d.exponent < 0 then Int.negOfNat d.exponent.natAbs
      else Int.ofNat d.exponent.natAbs := by
    split
    · rw [Int.negOfNat_eq, Int.ofNat_eq_natCast]
      omega
    · rw [Int.ofNat_eq_natCast]
      omega
  rw [toFloat, Float.ofScientific]
  split
  · next hfast =>
      have hsize : d.exponent.natAbs < Float.exactlyRepresentablePowersOfTen.size :=
        Nat.lt_succ_of_le hfast.2
      obtain ⟨hproduct, hquotient⟩ := isRoundingOf_table hfast.1 hsize
      by_cases hnegative : d.exponent < 0
      · have hpower : (10 : ℚ) ^ d.exponent = (10 ^ d.exponent.natAbs)⁻¹ := by
          rw [← zpow_natCast, ← zpow_neg]
          congr 1
          omega
        simp only [hnegative, decide_true, if_true]
        rw [hpower, ← div_eq_mul_inv]
        exact hquotient
      · have hpower : (10 : ℚ) ^ d.exponent = 10 ^ d.exponent.natAbs := by
          rw [← zpow_natCast]
          congr 1
          omega
        simp only [hnegative, decide_false, Bool.false_eq_true, if_false]
        rw [hpower]
        exact hproduct
  · refine isRoundingOf_unpackedOfScientific ?_
    simp only [decide_eq_true_iff, ← hexponent]
    rfl

end DataRules.Double
