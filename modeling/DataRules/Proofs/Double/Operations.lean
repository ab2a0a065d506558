import DataRules.Proofs.Double.Nearest

set_option autoImplicit false

/-!
# Operations: what double arithmetic rounds

A sum, a difference, a product and a quotient of doubles are the exact results rounded,
as long as the exact result is zero or has a magnitude that 53 bits are left for.  The
operations differ in how they come to a mantissa and residual bits; from there on,
rounding and packing are the same.
-/

namespace DataRules.Double

open Float.Model Float.Model.UnpackedFloat

/-- The number is zero, or large enough to keep 53 bits and small enough to be finite
when it is rounded. -/
def InRange (q : ℚ) : Prop := q = 0 ∨ 2 ^ (-1022 : Int) ≤ |q| ∧ |q| < 2 ^ (1023 : Int)

theorem InRange.magnitude {s : Sign} {v : ℚ} (h : InRange (s.apply 1 * v)) (hv : 0 < v) :
    2 ^ (-1022 : Int) ≤ v ∧ v < 2 ^ (1023 : Int) := by
  have habs : |(s.apply 1 : ℚ) * v| = v := by rw [abs_mul, abs_apply_one, one_mul, abs_of_pos hv]
  have hne : (s.apply 1 : ℚ) * v ≠ 0 := by
    rw [← abs_pos, habs]
    exact hv
  have hbounds := h.resolve_left hne
  rwa [habs] at hbounds

/-! ## Rounding and packing -/

theorem ofFloat?_of_unpack {x : Float} {s : Sign} {m : Nat} {e : Int} {hpos : 0 < m}
    (h : x.toModel.unpack = .finite s m e hpos) :
    ∃ b, Binary.ofFloat? x = some b ∧ b.mantissa = m ∧ b.toRat = s.apply 1 * (m * 2 ^ e) := by
  rw [Binary.ofFloat?, h]
  cases s with
  | negative =>
      refine ⟨⟨true, m, e⟩, rfl, rfl, ?_⟩
      simp [Binary.toRat, Binary.signed, Sign.apply]
  | positive =>
      refine ⟨⟨false, m, e⟩, rfl, rfl, ?_⟩
      simp [Binary.toRat, Binary.signed, Sign.apply]

/-- The bits of the mantissa bound the number that it locates. -/
theorem Locates.log2_bounds {m : Nat} {accuracy : Accuracy} {f : ℚ} (hm : m ≠ 0)
    (h : Locates (ExtendedMantissa.ofMantissaAndAccuracy m accuracy) f) :
    2 ^ (m.log2 : Int) ≤ f ∧ f < 2 ^ ((m.log2 : Int) + 1) := by
  have hbounds := h.bounds
  rw [mantissa_ofMantissaAndAccuracy] at hbounds
  have hlow : ((2 ^ m.log2 : Nat) : ℚ) ≤ m := by exact_mod_cast Nat.log2_self_le hm
  have hhigh : (m : ℚ) + 1 ≤ ((2 ^ (m.log2 + 1) : Nat) : ℚ) := by exact_mod_cast Nat.lt_log2_self
  push_cast at hlow hhigh
  rw [← Nat.cast_succ, zpow_natCast, zpow_natCast]
  exact ⟨hlow.trans hbounds.1, hbounds.2.trans_le hhigh⟩

section

variable {x : Float} {s : Sign} {m : Nat} {e : Int} {f : ℚ}

/-- The leading bit of a number in range. -/
theorem Locates.log2_add_bounds {accuracy : Accuracy} (hm : m ≠ 0)
    (hlocates : Locates (ExtendedMantissa.ofMantissaAndAccuracy m accuracy) f)
    (hmin : 2 ^ (-1022 : Int) ≤ f * 2 ^ e) (hmax : f * 2 ^ e < 2 ^ (1023 : Int)) :
    -1022 < (m.log2 : Int) + 1 + e ∧ (m.log2 : Int) + e < 1023 := by
  obtain ⟨hlow, hhigh⟩ := hlocates.log2_bounds hm
  have htwo : (0 : ℚ) < 2 ^ e := zpow_pos two_pos e
  have hbelow : (2 : ℚ) ^ (-1022 : Int) < 2 ^ ((m.log2 : Int) + 1 + e) := by
    rw [zpow_add₀ two_ne_zero _ e]
    exact hmin.trans_lt (mul_lt_mul_of_pos_right hhigh htwo)
  have habove : (2 : ℚ) ^ ((m.log2 : Int) + e) < 2 ^ (1023 : Int) := by
    rw [zpow_add₀ two_ne_zero _ e]
    exact (mul_le_mul_of_nonneg_right hlow htwo.le).trans_lt hmax
  exact ⟨(zpow_lt_zpow_iff_right₀ one_lt_two).mp hbelow,
    (zpow_lt_zpow_iff_right₀ one_lt_two).mp habove⟩

/-- Halfway from the greatest double to the next power of two: from here on a magnitude is
rounded to an infinity. -/
def overflow : ℚ := (2 ^ 53 - 1 / 2) * 2 ^ (971 : Int)

theorem lt_overflow : (2 : ℚ) ^ (1023 : Int) < overflow := by
  calc (2 : ℚ) ^ (1023 : Int) = 2 ^ 52 * 2 ^ (971 : Int) := by
        rw [← zpow_natCast, ← zpow_add₀ two_ne_zero]
        norm_num
    _ < overflow := mul_lt_mul_of_pos_right (by norm_num) (zpow_pos two_pos _)

/-- In the greatest binade a number that is rounded to 53 bits is not past the halfway
point, where it would be rounded to the even number above. -/
theorem RoundsTo.lt_half {n : Nat} {f : ℚ} (h : RoundsTo n f) (hn : n < 2 ^ 53) :
    f < 2 ^ 53 - 1 / 2 := by
  have hnear := (abs_le.mp h.near).1
  have hnRat : (n : ℚ) ≤ 2 ^ 53 - 1 := by
    have hle : (n : ℚ) + 1 ≤ 2 ^ 53 := by exact_mod_cast hn
    linarith
  refine lt_of_le_of_ne (by linarith) ?_
  rintro rfl
  obtain rfl : n = 2 ^ 53 - 1 := by
    have hge : (2 : ℚ) ^ 53 - 1 ≤ n := by linarith
    have hge' : 2 ^ 53 ≤ n + 1 := by
      have hcast : (2 : ℚ) ^ 53 ≤ n + 1 := by linarith
      exact_mod_cast hcast
    omega
  exact absurd (h.even (by norm_num)) (by decide)

/-- A significand of 53 bits and its exponent, after the rounding of `n` in units of `2 ^ t`
has carried or not. -/
def Carried (n : Nat) (t : Int) (c : Nat) (k : Int) : Prop :=
  c = n ∧ k = t ∨ c = 2 ^ 52 ∧ n = 2 ^ 53 ∧ k = t + 1

section Carried

variable {n c : Nat} {t k : Int}

theorem Carried.value (h : Carried n t c k) : (c : ℚ) * 2 ^ k = n * 2 ^ t := by
  rcases h with ⟨rfl, rfl⟩ | ⟨rfl, rfl, rfl⟩
  · rfl
  · rw [zpow_add₀ two_ne_zero]
    norm_num
    ring

theorem Carried.exponent_le (h : Carried n t c k) : t ≤ k := by
  unfold Carried at h
  omega

theorem Carried.even (h : Carried n t c k) (hn : 2 ∣ n) : 2 ∣ c := by
  rcases h with ⟨rfl, rfl⟩ | ⟨rfl, rfl, rfl⟩
  · exact hn
  · decide

/-- What needs an exponent past the greatest is rounded to an infinity. -/
theorem Carried.overflow_le (h : Carried n t c k) {u : ℚ} (hrounds : RoundsTo n u)
    (hu : 2 ^ 52 ≤ u) (hk : 971 < k) : overflow ≤ u * 2 ^ t := by
  have hcarried : (971 : Int) ≤ t ∧ ((2 : ℚ) ^ 53 - 1 / 2 ≤ u ∨ 971 + 1 ≤ t) := by
    rcases h with ⟨-, rfl⟩ | ⟨-, rfl, rfl⟩
    · exact ⟨hk.le, .inr hk⟩
    · have hnear := (abs_le.mp hrounds.near).2
      push_cast at hnear
      exact ⟨by omega, .inl (by linarith)⟩
  unfold overflow
  rcases hcarried with ⟨ht, hlast | ht'⟩
  · gcongr
    · norm_num
  · calc ((2 : ℚ) ^ 53 - 1 / 2) * 2 ^ (971 : Int) ≤ 2 ^ 53 * 2 ^ (971 : Int) := by
          gcongr
          norm_num
      _ = 2 ^ 52 * 2 ^ (971 + 1 : Int) := by
          rw [zpow_add_one₀ two_ne_zero]
          ring
      _ ≤ u * 2 ^ t := by
          gcongr
          norm_num

theorem Carried.lt_overflow (h : Carried n t c k) {u : ℚ} (hrounds : RoundsTo n u)
    (hc : c < 2 ^ 53) (hk : k ≤ 971) : u * 2 ^ t < overflow := by
  unfold overflow
  rcases h with ⟨rfl, rfl⟩ | ⟨-, rfl, rfl⟩
  · have hlt := hrounds.lt_half hc
    calc u * 2 ^ k < (2 ^ 53 - 1 / 2) * 2 ^ k := by gcongr
      _ ≤ (2 ^ 53 - 1 / 2) * 2 ^ (971 : Int) := by
          gcongr
          · norm_num
  · have hnear := (abs_le.mp hrounds.near).1
    push_cast at hnear
    calc u * 2 ^ t < (2 ^ 53 - 1 / 2) * 2 * 2 ^ t := by
          gcongr
          linarith
      _ = (2 ^ 53 - 1 / 2) * 2 ^ (t + 1) := by
          rw [zpow_add_one₀ two_ne_zero]
          ring
      _ ≤ (2 ^ 53 - 1 / 2) * 2 ^ (971 : Int) := by
          gcongr
          · norm_num

end Carried

/-- Rounding and packing give the number rounded, or an infinity when the number is too
large. -/
theorem rounded_or_infinite {accuracy : Accuracy} (hm : 52 ≤ m.log2)
    (hlocates : Locates (ExtendedMantissa.ofMantissaAndAccuracy m accuracy) f)
    (he : -1074 ≤ (m.log2 : Int) - 52 + e)
    (hx : x.toModel = .pack (roundWithAccuracy .binary64 s m e accuracy)) :
    f * 2 ^ e < overflow ∧ Rounded x (s.apply 1 * (f * 2 ^ e)) ∨
      overflow ≤ f * 2 ^ e ∧ x.toModel.unpack = .infinity s := by
  have hm0 : m ≠ 0 := by
    rintro rfl
    simp at hm
  have hlow := (hlocates.log2_bounds hm0).1
  generalize hn : (ExtendedMantissa.ofMantissaAndAccuracy m accuracy >>>
    (m.log2 - 52)).roundedMantissa = n
  obtain ⟨c, k, hpos, hc, hround, hcarried⟩ := roundWithAccuracy_normal hm he hn s
  generalize ht : (m.log2 : Int) - 52 + e = t at he hcarried ⊢
  change Carried n t c k at hcarried
  -- `f` in units of the last place
  generalize hunits : f / 2 ^ (m.log2 - 52) = u
  have hrounds : RoundsTo n u := hunits ▸ hn ▸ (hlocates.shiftRight _).roundsTo
  have hu : 2 ^ 52 ≤ u := by
    rw [← hunits, le_div_iff₀ (by positivity), ← pow_add, Nat.add_sub_cancel' hm]
    exact_mod_cast hlow
  have hvalue : f * 2 ^ e = u * 2 ^ t := by
    have hpower : (2 : ℚ) ^ t = 2 ^ (m.log2 - 52) * 2 ^ e := by
      rw [← zpow_natCast, ← zpow_add₀ two_ne_zero, ← ht]
      congr 1
      omega
    rw [← hunits, hpower, ← mul_assoc, div_mul_cancel₀ _ (by positivity)]
  have hpow : (0 : ℚ) < 2 ^ t := zpow_pos two_pos t
  rw [hvalue]
  rcases lt_or_ge 971 k with hlarge | hk
  · right
    rw [hx, hround, pack_finite_of_lt s hpos hlarge]
    exact ⟨hcarried.overflow_le hrounds hu hlarge, Stored.unpack_pack (.infinity s)⟩
  · left
    have hunpack : x.toModel.unpack = .finite s c k hpos := by
      rw [hx, hround]
      exact unpack_pack_finite s hpos hc (he.trans hcarried.exponent_le) hk
    obtain ⟨b, hb, rfl, htoRat⟩ := ofFloat?_of_unpack hunpack
    rw [hcarried.value] at htoRat
    have hbelow := hcarried.lt_overflow hrounds (log2_eq_52_iff.mp hc).2 hk
    refine ⟨hbelow, ⟨b, hb, hrounds.nearestTo (fun _ => hu) htoRat hcarried.even⟩, fun {r} hr => ?_⟩
    rw [Binary.toRat?_eq hb] at hr
    obtain rfl := Option.some.inj hr
    rw [htoRat, ← mul_sub, ← sub_mul, abs_mul, abs_mul, abs_mul, abs_mul, abs_apply_one, one_mul,
      one_mul, abs_of_pos hpow, mul_div_right_comm]
    refine mul_le_mul_of_nonneg_right (hrounds.near.trans ?_) hpow.le
    rw [abs_of_nonneg (by linarith)]
    linarith

/-- A number in range is rounded and packed without overflow. -/
theorem rounded_roundWithAccuracy {accuracy : Accuracy} (hm : 52 ≤ m.log2)
    (hlocates : Locates (ExtendedMantissa.ofMantissaAndAccuracy m accuracy) f)
    (hmin : 2 ^ (-1022 : Int) ≤ f * 2 ^ e) (hmax : f * 2 ^ e < 2 ^ (1023 : Int))
    (hx : x.toModel = .pack (roundWithAccuracy .binary64 s m e accuracy)) :
    Rounded x (s.apply 1 * (f * 2 ^ e)) := by
  have hm0 : m ≠ 0 := by
    rintro rfl
    simp at hm
  obtain ⟨hmin', -⟩ := hlocates.log2_add_bounds hm0 hmin hmax
  refine ((rounded_or_infinite hm hlocates (by omega) hx).resolve_right fun h => ?_).2
  exact absurd (h.1.trans_lt hmax) lt_overflow.not_gt

/-- Zeros at the end of the mantissa are made up for by the exponent. -/
theorem appendZeros_value (m j : Nat) (e : Int) :
    ((m * 2 ^ j : Nat) : ℚ) * 2 ^ (e - j) = m * 2 ^ e := by
  rw [zpow_sub₀ two_ne_zero, zpow_natCast]
  push_cast
  field_simp

/-- A magnitude with any number of bits is brought to 53 of them first. -/
theorem rounded_round (hm : m ≠ 0) (hmin : 2 ^ (-1022 : Int) ≤ (m : ℚ) * 2 ^ e)
    (hmax : (m : ℚ) * 2 ^ e < 2 ^ (1023 : Int))
    (hx : x.toModel = .pack (UnpackedFloat.round .binary64 s m e)) :
    Rounded x (s.apply 1 * (m * 2 ^ e)) := by
  obtain ⟨hexponent, -⟩ := (locates_exact m).log2_add_bounds hm hmin hmax
  rw [UnpackedFloat.round, targetExponent_binary64, totalExponent] at hx
  simp only [decreaseExponent, Nat.shiftLeft_eq] at hx
  generalize hshift : (e - max ((m.log2 : Int) + 1 + e - 53) (-1074)).toNat = shift at hx
  have hlog : 52 ≤ (m * 2 ^ shift).log2 := by
    rw [log2_mul_two_pow hm]
    omega
  rw [← appendZeros_value m shift e] at hmin hmax ⊢
  exact rounded_roundWithAccuracy hlog (locates_exact _) hmin hmax hx

theorem signOf_apply (i : Int) : (signOf i).apply i.natAbs = i := by
  unfold signOf
  split
  · show -(i.natAbs : Int) = i
    omega
  · show (i.natAbs : Int) = i
    omega

theorem normalize_eq {i : Int} (hi : i ≠ 0) (e : Int) :
    UnpackedFloat.normalize .binary64 i e .positive =
      UnpackedFloat.round .binary64 (signOf i) i.natAbs e := by
  unfold UnpackedFloat.normalize signOf
  rcases lt_or_gt_of_ne hi with hlt | hgt
  · rw [Int.compare_eq_lt.mpr hlt, if_pos hlt, show (-i).toNat = i.natAbs by omega]
  · rw [Int.compare_eq_gt.mpr hgt, if_neg (by omega), show i.toNat = i.natAbs by omega]

/-- The double of a signed mantissa. -/
theorem rounded_normalize {i : Int} (hrange : InRange (i * 2 ^ e))
    (hx : x.toModel = .pack (UnpackedFloat.normalize .binary64 i e .positive)) :
    Rounded x (i * 2 ^ e) := by
  have hpower : (0 : ℚ) < 2 ^ e := zpow_pos two_pos e
  by_cases hi : i = 0
  · subst hi
    refine rounded_of_toRat? ?_
    rw [toRat?_eq, hx, Int.cast_zero, zero_mul]
    exact congrArg unpackedRat? (Stored.zero .positive).unpack_pack
  · have hmagnitude : (0 : ℚ) < i.natAbs * 2 ^ e :=
      mul_pos (by exact_mod_cast Int.natAbs_pos.mpr hi) hpower
    have hsigned : (i : ℚ) * 2 ^ e = (signOf i).apply 1 * (i.natAbs * 2 ^ e) := by
      have hcast := congrArg (fun n : Int => (n : ℚ))
        ((signOf_apply i).symm.trans (apply_eq_mul (signOf i) i.natAbs))
      rw [Int.cast_mul, Int.cast_natCast] at hcast
      rw [← mul_assoc, ← hcast]
    rw [normalize_eq hi] at hx
    rw [hsigned] at hrange ⊢
    obtain ⟨hmin, hmax⟩ := hrange.magnitude hmagnitude
    exact rounded_round (Int.natAbs_ne_zero.mpr hi) hmin hmax hx

end

/-! ## The operations -/

theorem toRat?_of_stored {z : Float} {u : UnpackedFloat} (hu : Stored u) (hz : z.toModel = .pack u) :
    toRat? z = unpackedRat? u := by
  rw [toRat?_eq, hz, hu.unpack_pack]

theorem apply_mul (s : Sign) (m : Nat) (r : ℚ) : (s.apply m : ℚ) * r = s.apply 1 * (m * r) := by
  rw [apply_eq_mul s m, Int.cast_mul, Int.cast_natCast, mul_assoc]

/-- A mantissa may be written with a smaller exponent. -/
theorem decreaseExponent_value {e t : Int} (h : t ≤ e) (s : Sign) (m : Nat) :
    (s.apply (decreaseExponent m e t).1 : ℚ) * 2 ^ t = s.apply m * 2 ^ e := by
  have hpower : (2 : ℚ) ^ e = 2 ^ (e - t).toNat * 2 ^ t := by
    rw [← zpow_natCast, ← zpow_add₀ two_ne_zero]
    congr 1
    omega
  rw [apply_mul, apply_mul, decreaseExponent, Nat.shiftLeft_eq, Nat.cast_mul, hpower, mul_assoc]
  norm_num

section

variable {x y z : Float} {a b : ℚ} {u v : UnpackedFloat}

theorem rounded_unpacked_add (hu : Stored u) (hv : Stored v) (ha : unpackedRat? u = some a)
    (hb : unpackedRat? v = some b) (hrange : InRange (a + b))
    (hz : z.toModel = .pack (UnpackedFloat.add .binary64 u v)) : Rounded z (a + b) := by
  cases u with
  | notANumber => cases ha
  | infinity s => cases ha
  | zero s =>
      obtain rfl : 0 = a := Option.some.inj ha
      rw [zero_add]
      cases v with
      | notANumber => cases hb
      | infinity t => cases hb
      | zero t =>
          obtain rfl : 0 = b := Option.some.inj hb
          refine rounded_of_toRat? ?_
          rw [UnpackedFloat.add] at hz
          split at hz
          · exact toRat?_of_stored (.zero s) hz
          · exact toRat?_of_stored (.zero .positive) hz
      | finite t m e hpos => exact rounded_of_toRat? ((toRat?_of_stored hv hz).trans hb)
  | finite s m e hpos =>
      obtain rfl : s.apply m * 2 ^ e = a := Option.some.inj ha
      cases v with
      | notANumber => cases hb
      | infinity t => cases hb
      | zero t =>
          obtain rfl : 0 = b := Option.some.inj hb
          rw [add_zero]
          exact rounded_of_toRat? (toRat?_of_stored hu hz)
      | finite t n f hpos' =>
          obtain rfl : t.apply n * 2 ^ f = b := Option.some.inj hb
          have hsum : ((s.apply m : ℚ) * 2 ^ e + t.apply n * 2 ^ f) =
              ((s.apply (decreaseExponent m e (min e f)).1 +
                t.apply (decreaseExponent n f (min e f)).1 : Int) : ℚ) * 2 ^ min e f := by
            rw [Int.cast_add, add_mul, decreaseExponent_value (min_le_left e f),
              decreaseExponent_value (min_le_right e f)]
          rw [hsum] at hrange ⊢
          exact rounded_normalize hrange hz

/-- A sum of doubles is the sum rounded. -/
theorem rounded_add (hx : toRat? x = some a) (hy : toRat? y = some b) (hrange : InRange (a + b)) :
    Rounded (x + y) (a + b) := by
  rw [toRat?_eq] at hx hy
  exact rounded_unpacked_add (stored_unpack _) (stored_unpack _) hx hy hrange rfl

theorem unpacked_sub_eq_add_neg (u v : UnpackedFloat) :
    UnpackedFloat.sub .binary64 u v = UnpackedFloat.add .binary64 u v.neg := by
  cases u with
  | notANumber => rfl
  | infinity s => cases v <;> rfl
  | zero s => cases v <;> rfl
  | finite s m e h =>
      cases v with
      | notANumber => rfl
      | infinity t => rfl
      | zero t => rfl
      | finite t n f h' =>
          simp only [UnpackedFloat.sub, UnpackedFloat.add, UnpackedFloat.neg, apply_neg,
            Int.sub_eq_add_neg]

/-- A difference of doubles is the difference rounded. -/
theorem rounded_sub (hx : toRat? x = some a) (hy : toRat? y = some b) (hrange : InRange (a - b)) :
    Rounded (x - y) (a - b) := by
  rw [toRat?_eq] at hx hy
  have hneg : unpackedRat? y.toModel.unpack.neg = some (-b) := by
    rw [unpackedRat?_neg, hy, Option.map_some]
  rw [sub_eq_add_neg] at hrange ⊢
  refine rounded_unpacked_add (stored_unpack _) (stored_unpack y.toModel).neg hx hneg hrange ?_
  exact congrArg Float.Model.pack (unpacked_sub_eq_add_neg _ _)

theorem apply_one_mul (s t : Sign) : ((s * t).apply 1 : ℚ) = s.apply 1 * t.apply 1 := by
  have hint : (s * t).apply 1 = s.apply 1 * t.apply 1 := by cases s <;> cases t <;> rfl
  rw [hint, Int.cast_mul]

/-- The product of two stored significands has enough bits, or is too small. -/
theorem le_log2_mul {s t : Sign} {m n : Nat} {e f : Int} {hpos : 0 < m} {hpos' : 0 < n}
    (hu : Stored (.finite s m e hpos)) (hv : Stored (.finite t n f hpos'))
    (hmin : 2 ^ (-1022 : Int) ≤ (m : ℚ) * 2 ^ e * (n * 2 ^ f)) : 52 ≤ (m * n).log2 := by
  have hmn : m * n ≠ 0 := Nat.ne_of_gt (Nat.mul_pos hpos hpos')
  have hlarge : ∀ c d : Nat, c.log2 = 52 → 0 < d → 2 ^ 52 ≤ c * d := by
    intro c d hc hd
    calc 2 ^ 52 ≤ c := (log2_eq_52_iff.mp hc).1
      _ ≤ c * d := Nat.le_mul_of_pos_right c hd
  rw [Nat.le_log2 hmn]
  cases hu with
  | finite _ _ hm => exact hlarge m n hm hpos'
  | subnormal _ _ hm =>
      cases hv with
      | finite _ _ hn =>
          rw [Nat.mul_comm]
          exact hlarge n m hn hpos
      | subnormal _ _ hn =>
          exfalso
          have hsmall : ∀ c : Nat, 0 < c → c.log2 < 52 →
              (c : ℚ) * 2 ^ (-1074 : Int) ≤ 2 ^ (-1022 : Int) := by
            intro c hc hlog
            have hlt : (c : ℚ) ≤ 2 ^ (52 : Int) := by
              exact_mod_cast ((Nat.log2_lt (Nat.ne_of_gt hc)).mp hlog).le
            calc (c : ℚ) * 2 ^ (-1074 : Int) ≤ 2 ^ (52 : Int) * 2 ^ (-1074 : Int) := by gcongr
              _ = 2 ^ (-1022 : Int) := by rw [← zpow_add₀ two_ne_zero]; norm_num
          have htiny : (2 : ℚ) ^ (-1022 : Int) * 2 ^ (-1022 : Int) < 2 ^ (-1022 : Int) := by
            rw [← zpow_add₀ two_ne_zero]
            exact zpow_lt_zpow_right₀ one_lt_two (by norm_num)
          exact absurd (hmin.trans (mul_le_mul (hsmall m hpos hm) (hsmall n hpos' hn) (by positivity)
            (by positivity))) (not_le_of_gt htiny)

/-- A product of doubles is the product rounded. -/
theorem rounded_mul (hx : toRat? x = some a) (hy : toRat? y = some b) (hrange : InRange (a * b)) :
    Rounded (x * y) (a * b) := by
  rw [toRat?_eq] at hx hy
  have hstoredX := stored_unpack x.toModel
  have hstoredY := stored_unpack y.toModel
  have hproduct : (x * y).toModel =
      .pack (UnpackedFloat.mul .binary64 x.toModel.unpack y.toModel.unpack) := rfl
  generalize x.toModel.unpack = u at hx hstoredX hproduct
  generalize y.toModel.unpack = v at hy hstoredY hproduct
  cases u with
  | notANumber => cases hx
  | infinity s => cases hx
  | zero s =>
      obtain rfl : 0 = a := Option.some.inj hx
      rw [zero_mul]
      refine rounded_of_toRat? ?_
      cases v with
      | notANumber => cases hy
      | infinity t => cases hy
      | zero t => exact toRat?_of_stored (.zero (s * t)) hproduct
      | finite t n f hpos' => exact toRat?_of_stored (.zero (s * t)) hproduct
  | finite s m e hpos =>
      obtain rfl : s.apply m * 2 ^ e = a := Option.some.inj hx
      cases v with
      | notANumber => cases hy
      | infinity t => cases hy
      | zero t =>
          obtain rfl : 0 = b := Option.some.inj hy
          rw [mul_zero]
          exact rounded_of_toRat? (toRat?_of_stored (.zero (s * t)) hproduct)
      | finite t n f hpos' =>
          obtain rfl : t.apply n * 2 ^ f = b := Option.some.inj hy
          have hvalue : (s.apply m : ℚ) * 2 ^ e * (t.apply n * 2 ^ f) =
              (s * t).apply 1 * ((m * n : Nat) * 2 ^ (e + f)) := by
            rw [apply_mul, apply_mul, apply_one_mul, zpow_add₀ two_ne_zero, Nat.cast_mul]
            ring
          have hmagnitude : (0 : ℚ) < (m * n : Nat) * 2 ^ (e + f) :=
            mul_pos (by exact_mod_cast Nat.mul_pos hpos hpos') (zpow_pos two_pos _)
          rw [hvalue] at hrange ⊢
          obtain ⟨hmin, hmax⟩ := hrange.magnitude hmagnitude
          have hlog : 52 ≤ (m * n).log2 := by
            refine le_log2_mul hstoredX hstoredY ?_
            rwa [mul_mul_mul_comm, ← zpow_add₀ two_ne_zero, ← Nat.cast_mul]
          exact rounded_roundWithAccuracy hlog (locates_exact _) hmin hmax hproduct

theorem apply_one_div (s t : Sign) : ((s / t).apply 1 : ℚ) = s.apply 1 / t.apply 1 := by
  have hint : (s / t).apply 1 = s.apply 1 * t.apply 1 := by cases s <;> cases t <;> rfl
  have hne : (t.apply 1 : ℚ) ≠ 0 := left_ne_zero_of_mul_eq_one (apply_one_mul_self t)
  rw [hint, Int.cast_mul, eq_div_iff hne, mul_assoc, apply_one_mul_self, mul_one]

/-- The dividend is brought to an exponent at which the quotient has enough bits, or is as
small as any. -/
theorem divCore_value {m n : Nat} {e f : Int} (hm : 0 < m) (hn : 0 < n) :
    ∃ num t, divCore .binary64 m e n f = (num / n, t, accuracyOfFraction (num % n) n) ∧
      (num : ℚ) / n * 2 ^ t = m * 2 ^ e / (n * 2 ^ f) ∧
      ((2 : ℚ) ^ (52 : Int) * 2 ^ t ≤ num / n * 2 ^ t ∨ t ≤ -1074) := by
  have hnRat : (0 : ℚ) < n := by exact_mod_cast hn
  rw [divCore, targetExponent_binary64, totalExponent, totalExponent]
  simp only [Nat.shiftLeft_eq]
  generalize hdigits : (m.log2 : Int) + 1 + e - (n.log2 + 1 + f) = digits
  generalize ht : min (e - f) (max (digits - 53) (-1074)) = t
  generalize hshift : (e - f - t).toNat = shift
  have hvalue : ((m * 2 ^ shift : Nat) : ℚ) / n * 2 ^ t = m * 2 ^ e / (n * 2 ^ f) := by
    have hpower : (2 : ℚ) ^ e = 2 ^ shift * 2 ^ t * 2 ^ f := by
      rw [← zpow_natCast, ← zpow_add₀ two_ne_zero, ← zpow_add₀ two_ne_zero]
      congr 1
      omega
    rw [hpower]
    push_cast
    field_simp
  refine ⟨m * 2 ^ shift, t, rfl, hvalue, ?_⟩
  rcases le_or_gt (digits - 53) (-1074) with hsmall | hlarge
  · exact .inr (by omega)
  · -- the quotient has `digits` bits before the point, or one less
    obtain ⟨hmlow, -⟩ := (locates_exact m).log2_bounds (Nat.ne_of_gt hm)
    obtain ⟨-, hnhigh⟩ := (locates_exact n).log2_bounds (Nat.ne_of_gt hn)
    have hpower : (2 : ℚ) ^ (digits - 1) * (2 ^ ((n.log2 : Int) + 1) * 2 ^ f) =
        2 ^ (m.log2 : Int) * 2 ^ e := by
      rw [← zpow_add₀ two_ne_zero, ← zpow_add₀ two_ne_zero, ← zpow_add₀ two_ne_zero]
      congr 1
      omega
    have hlow : 2 ^ (digits - 1) ≤ (m : ℚ) * 2 ^ e / (n * 2 ^ f) := by
      rw [le_div_iff₀ (by positivity)]
      calc (2 : ℚ) ^ (digits - 1) * (n * 2 ^ f)
          ≤ 2 ^ (digits - 1) * (2 ^ ((n.log2 : Int) + 1) * 2 ^ f) := by gcongr
        _ = 2 ^ (m.log2 : Int) * 2 ^ e := hpower
        _ ≤ m * 2 ^ e := by gcongr
    left
    rw [hvalue, ← zpow_add₀ two_ne_zero]
    exact (zpow_le_zpow_right₀ one_le_two (by omega)).trans hlow

/-- A quotient of `2 ^ 52` units or more has enough bits. -/
theorem le_log2_quotient {num n : Nat} {t : Int} (hn : 0 < n)
    (h : (2 : ℚ) ^ (52 : Int) * 2 ^ t ≤ num / n * 2 ^ t) : 52 ≤ (num / n).log2 := by
  have hnRat : (0 : ℚ) < n := by exact_mod_cast hn
  have hquotient : 2 ^ 52 ≤ num / n := by
    rw [Nat.le_div_iff_mul_le hn]
    have hle := le_of_mul_le_mul_right h (zpow_pos two_pos t)
    rw [le_div_iff₀ hnRat] at hle
    exact_mod_cast hle
  exact (Nat.le_log2 (by omega)).mpr hquotient

/-- A quotient of doubles is the quotient rounded. -/
theorem rounded_div (hx : toRat? x = some a) (hy : toRat? y = some b) (hb : b ≠ 0)
    (hrange : InRange (a / b)) : Rounded (x / y) (a / b) := by
  rw [toRat?_eq] at hx hy
  have hquotient : (x / y).toModel =
      .pack (UnpackedFloat.div .binary64 x.toModel.unpack y.toModel.unpack) := rfl
  generalize x.toModel.unpack = u at hx hquotient
  generalize y.toModel.unpack = v at hy hquotient
  cases v with
  | notANumber => cases hy
  | infinity t => cases hy
  | zero t => exact absurd (Option.some.inj hy).symm hb
  | finite t n f hn =>
      obtain rfl : t.apply n * 2 ^ f = b := Option.some.inj hy
      cases u with
      | notANumber => cases hx
      | infinity s => cases hx
      | zero s =>
          obtain rfl : 0 = a := Option.some.inj hx
          rw [zero_div]
          exact rounded_of_toRat? (toRat?_of_stored (.zero (s / t)) hquotient)
      | finite s m e hm =>
          obtain rfl : s.apply m * 2 ^ e = a := Option.some.inj hx
          have hvalue : (s.apply m : ℚ) * 2 ^ e / (t.apply n * 2 ^ f) =
              (s / t).apply 1 * (m * 2 ^ e / (n * 2 ^ f)) := by
            rw [apply_mul, apply_mul, apply_one_div, mul_div_mul_comm]
          have hmRat : (0 : ℚ) < m := by exact_mod_cast hm
          have hnRat : (0 : ℚ) < n := by exact_mod_cast hn
          rw [hvalue] at hrange ⊢
          obtain ⟨hmin, hmax⟩ := hrange.magnitude (by positivity)
          obtain ⟨num, e', hcore, hnum, hbits⟩ := divCore_value (e := e) (f := f) hm hn
          rw [UnpackedFloat.div, hcore] at hquotient
          rw [← hnum] at hmin hmax ⊢
          have hlog : 52 ≤ (num / n).log2 := by
            refine le_log2_quotient (t := e') hn (hbits.elim id fun hsmall => le_trans ?_ hmin)
            rw [← zpow_add₀ two_ne_zero]
            exact zpow_le_zpow_right₀ one_le_two (by omega)
          exact rounded_roundWithAccuracy hlog (locates_quotient hn) hmin hmax hquotient

end

/-! ## Whole numbers -/

namespace Binary

variable {b : Binary} {i : Int}

theorem ratio_value (b : Binary) : (b.mantissa : ℚ) * 2 ^ b.exponent = b.ratio.1 / b.ratio.2 := by
  unfold ratio
  split
  · next he =>
      obtain ⟨k, hk⟩ := Int.eq_ofNat_of_zero_le he
      rw [hk, Int.toNat_natCast, zpow_natCast]
      push_cast
      rw [div_one]
      norm_cast
  · next he =>
      obtain ⟨k, hk⟩ := Int.eq_ofNat_of_zero_le (show 0 ≤ -b.exponent by omega)
      have hneg : b.exponent = -(k : Int) := by omega
      rw [hneg, Int.neg_neg, Int.toNat_natCast, zpow_neg, zpow_natCast, div_eq_mul_inv]
      norm_cast

theorem toRat_eq (b : Binary) :
    b.toRat = if b.negative then -((b.ratio.1 : ℚ) / b.ratio.2) else b.ratio.1 / b.ratio.2 := by
  rw [← ratio_value]
  unfold toRat signed
  split
  · rw [Int.cast_neg, Int.cast_natCast, neg_mul]
  · rw [Int.cast_natCast]

theorem abs_toRat (b : Binary) : |b.toRat| = b.ratio.1 / b.ratio.2 := by
  have hnonneg : (0 : ℚ) ≤ b.ratio.1 / b.ratio.2 := by positivity
  rw [toRat_eq]
  split
  · rw [abs_neg, abs_of_nonneg hnonneg]
  · exact abs_of_nonneg hnonneg

/-- The fraction is an integer exactly when it is whole, and then it is the integer that
cutting it gives. -/
theorem toRat_eq_intCast_iff : b.toRat = i ↔ b.isWhole = true ∧ b.truncate = i := by
  have hden : (b.ratio.2 : ℚ) ≠ 0 := by exact_mod_cast Nat.ne_of_gt b.ratio_den_pos
  constructor
  · intro h
    have hratio : b.ratio.1 = i.natAbs * b.ratio.2 := by
      have habs := b.abs_toRat
      rw [h, abs_intCast, eq_div_iff hden] at habs
      exact_mod_cast habs.symm
    have hsign : b.signed i.natAbs = i := by
      have hnonneg : (0 : ℚ) ≤ b.ratio.1 / b.ratio.2 := by positivity
      rw [toRat_eq] at h
      unfold signed
      split at h
      · next hnegative =>
          have hle : (i : ℚ) ≤ 0 := by linarith
          have hi : i ≤ 0 := by exact_mod_cast hle
          rw [if_pos hnegative]
          omega
      · next hpositive =>
          have hle : (0 : ℚ) ≤ i := by linarith
          have hi : 0 ≤ i := by exact_mod_cast hle
          rw [if_neg hpositive]
          omega
    constructor
    · rw [isWhole, beq_iff_eq, hratio, Nat.mul_mod_left]
    · rw [truncate, hratio, Nat.mul_div_cancel _ b.ratio_den_pos, hsign]
  · rintro ⟨hwhole, rfl⟩
    have hratio : (b.ratio.1 : ℚ) / b.ratio.2 = (b.ratio.1 / b.ratio.2 : Nat) := by
      rw [div_eq_iff hden]
      exact_mod_cast ratio_eq_of_isWhole hwhole
    rw [toRat_eq, truncate, signed, hratio]
    split
    · rw [Int.cast_neg, Int.cast_natCast]
    · rw [Int.cast_natCast]

end Binary

/-- A double is whole exactly when it is the rational number of an integer. -/
theorem whole?_eq_some_iff {x : Float} {i : Int} : whole? x = some i ↔ toRat? x = some (i : ℚ) := by
  unfold whole? toRat?
  cases Binary.ofFloat? x with
  | none => simp
  | some b =>
      rw [Option.map_some, Option.some.injEq, Binary.toRat_eq_intCast_iff]
      by_cases hwhole : b.isWhole = true
      · simp [hwhole]
      · simp [hwhole]

theorem inRange_intCast {i : Int} {k : Nat} (hk : k < 1023) (hi : i.natAbs ≤ 2 ^ k) :
    InRange i := by
  by_cases hzero : i = 0
  · subst hzero
    exact .inl Int.cast_zero
  · have hone : (1 : ℚ) ≤ i.natAbs := by exact_mod_cast Int.natAbs_pos.mpr hzero
    have hmin : (2 : ℚ) ^ (-1022 : Int) ≤ 1 := zpow_le_one_of_nonpos₀ one_le_two (by decide)
    have hmax : (2 : ℚ) ^ (k : Int) < 2 ^ (1023 : Int) :=
      zpow_lt_zpow_right₀ one_lt_two (by exact_mod_cast hk)
    have hle : (i.natAbs : ℚ) ≤ 2 ^ (k : Int) := by
      rw [zpow_natCast]
      exact_mod_cast hi
    rw [InRange, abs_intCast]
    exact .inr ⟨hmin.trans hone, hle.trans_lt hmax⟩

/-- The integers up to `2 ^ 53` in magnitude are doubles. -/
theorem toRat?_ofInt {i : Int} (hi : i.natAbs ≤ 2 ^ 53) : toRat? (Float.ofInt i) = some (i : ℚ) := by
  refine whole?_eq_some_iff.mp ?_
  rcases Nat.lt_or_eq_of_le hi with hsmall | hlast
  · exact whole?_ofInt hsmall
  · rcases Int.natAbs_eq_iff.mp hlast with rfl | rfl
    · decide +kernel
    · decide +kernel

/-- A natural number past the table is converted by one rounding. -/
theorem toModel_ofNat_of_le {n : Nat} (hn : 2 ^ 53 ≤ n) : (Float.ofNat n).toModel =
    .pack (roundWithAccuracy .binary64 .positive (n * 2 ^ 53) (-53) .exact) := by
  show (Float.ofScientific n false 0).toModel = _
  rw [Float.ofScientific, dif_neg (by omega)]
  show Float.Model.pack (UnpackedFloat.ofScientific .binary64 n 0) = _
  have hmin : ¬(0 : Int) < -(2 ^ Format.binary64.exponentBits + (n.log2 : Int)) := by
    have hbits : (2 : Int) ^ Format.binary64.exponentBits = 2048 := rfl
    omega
  rw [UnpackedFloat.ofScientific, dif_neg (by omega), if_neg (by decide), if_neg hmin,
    if_pos (Int.le_refl 0)]
  simp only [UnpackedFloat.mul, Nat.shiftLeft_eq, Int.toNat_zero, Nat.pow_zero, Nat.mul_one,
    Int.add_zero]
  rfl

/-- The conversion of a natural number is the number rounded, or infinity. -/
theorem rounded_or_infinite_ofNat (n : Nat) :
    Rounded (Float.ofNat n) n ∨
      overflow ≤ n ∧ (Float.ofNat n).toModel.unpack = .infinity .positive := by
  rcases Nat.lt_or_ge n (2 ^ 53) with hsmall | hlarge
  · exact .inl (rounded_of_toRat? (toRat?_ofInt (i := n) hsmall.le))
  · have hpos : n ≠ 0 := by omega
    have hvalue : ((n * 2 ^ 53 : Nat) : ℚ) * 2 ^ (-53 : Int) = n := by
      rw [zpow_neg]
      push_cast
      exact mul_inv_cancel_right₀ (by positivity) _
    have hlog : (n * 2 ^ 53).log2 = n.log2 + 53 := log2_mul_two_pow hpos 53
    rw [← hvalue]
    refine (rounded_or_infinite (s := .positive) (by omega) (locates_exact _) (by omega)
      (toModel_ofNat_of_le hlarge)).imp_left fun hrounded => ?_
    simpa [Sign.apply] using hrounded.2

/-- The conversion of a natural number that is not too large is the number rounded. -/
theorem rounded_ofNat {n k : Nat} (hk : k < 1023) (hn : n ≤ 2 ^ k) :
    Rounded (Float.ofNat n) n := by
  refine (rounded_or_infinite_ofNat n).resolve_right fun ⟨hlarge, _⟩ => ?_
  have hpower : (n : ℚ) ≤ 2 ^ (k : Int) := by
    rw [zpow_natCast]
    exact_mod_cast hn
  have hlast : (2 : ℚ) ^ (k : Int) < 2 ^ (1023 : Int) :=
    zpow_lt_zpow_right₀ one_lt_two (by exact_mod_cast hk)
  exact absurd (hlarge.trans hpower) (hlast.trans lt_overflow).not_ge

end DataRules.Double
