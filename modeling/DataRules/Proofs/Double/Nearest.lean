import DataRules.Proofs.Double.Integers

set_option autoImplicit false

/-!
# Nearest: doubles as rational numbers

A finite double is a rational number.  A result that is no double is rounded to the
double nearest to it, and where two are as near, to the one whose mantissa is even.
The residual bits that rounding goes by say where the exact result lies between two
mantissas, and a significand of 53 bits leaves no nearer double on a finer grid.
-/

namespace DataRules.Double

open Float.Model Float.Model.UnpackedFloat

/-! ## Rational values -/

/-- The fraction as a rational number. -/
def Binary.toRat (b : Binary) : ℚ := b.signed b.mantissa * 2 ^ b.exponent

/-- The rational number that a finite double is. -/
def toRat? (x : Float) : Option ℚ := (Binary.ofFloat? x).map Binary.toRat

theorem Binary.toRat?_eq {x : Float} {b : Binary} (hb : ofFloat? x = some b) :
    toRat? x = some b.toRat := by
  rw [toRat?, hb, Option.map_some]

/-- Some double is the number. -/
def IsDouble (w : ℚ) : Prop := ∃ x, toRat? x = some w

/-- The rational number that an unpacked double is. -/
def unpackedRat? : UnpackedFloat → Option ℚ
  | .zero _ => some 0
  | .finite s m e _ => some (s.apply m * 2 ^ e)
  | _ => none

theorem toRat?_eq (x : Float) : toRat? x = unpackedRat? x.toModel.unpack := by
  unfold toRat? Binary.ofFloat?
  cases x.toModel.unpack with
  | notANumber => rfl
  | infinity s => rfl
  | zero s => cases s <;> simp [unpackedRat?, Binary.toRat, Binary.signed]
  | finite s m e h => cases s <;> simp [unpackedRat?, Binary.toRat, Binary.signed, Sign.apply]

theorem abs_intCast (i : Int) : |(i : ℚ)| = i.natAbs := by rw [Nat.cast_natAbs, Int.cast_abs]

theorem apply_eq_mul (s : Sign) (n : Int) : s.apply n = s.apply 1 * n := by
  cases s <;> simp [Sign.apply]

theorem apply_one_mul_self (s : Sign) : ((s.apply 1 : Int) : ℚ) * s.apply 1 = 1 := by
  cases s <;> simp [Sign.apply]

theorem abs_apply_one (s : Sign) : |((s.apply 1 : Int) : ℚ)| = 1 := by
  cases s <;> simp [Sign.apply]

theorem apply_neg (s : Sign) (n : Int) : (-s).apply n = -s.apply n := by
  cases s with
  | negative => exact (Int.neg_neg n).symm
  | positive => rfl

theorem unpackedRat?_neg (u : UnpackedFloat) :
    unpackedRat? u.neg = (unpackedRat? u).map (fun r => -r) := by
  cases u with
  | notANumber => rfl
  | infinity s => rfl
  | zero s => simp [UnpackedFloat.neg, unpackedRat?]
  | finite s m e h => simp [UnpackedFloat.neg, unpackedRat?, apply_neg]

theorem toRat?_neg {x : Float} {r : ℚ} (h : toRat? x = some r) : toRat? (-x) = some (-r) := by
  rw [toRat?_eq] at h ⊢
  rw [unpack_neg, unpackedRat?_neg, h, Option.map_some]

/-- A double has a significand of at most 53 bits and an exponent in range. -/
theorem IsDouble.significand {w : ℚ} (h : IsDouble w) :
    ∃ d k : Int, d.natAbs < 2 ^ 53 ∧ -1074 ≤ k ∧ k ≤ 971 ∧ w = d * 2 ^ k := by
  obtain ⟨x, hx⟩ := h
  rw [toRat?_eq] at hx
  have hstored := stored_unpack x.toModel
  generalize x.toModel.unpack = u at hx hstored
  have hsigned : ∀ (s : Sign) (c : Nat), (s.apply c).natAbs = c := by
    intro s c
    cases s <;> simp [Sign.apply]
  cases hstored with
  | notANumber => cases hx
  | infinity s => cases hx
  | zero s =>
      exact ⟨0, 0, by decide, by decide, by decide, by simpa [unpackedRat?] using hx.symm⟩
  | @finite c k s hpos hc hlow hhigh =>
      refine ⟨s.apply c, k, ?_, hlow, hhigh, (Option.some.inj hx).symm⟩
      rw [hsigned]
      exact (log2_eq_52_iff.mp hc).2
  | @subnormal c s hpos hc =>
      refine ⟨s.apply c, -1074, ?_, le_rfl, by decide, (Option.some.inj hx).symm⟩
      rw [hsigned]
      exact (Nat.log2_lt (Nat.ne_of_gt hpos)).mp (by omega)

/-! ## The nearest double -/

/-- The fraction is the nearest one to `q` that is a double. -/
structure Binary.NearestTo (b : Binary) (q : ℚ) : Prop where
  /-- No other double is nearer. -/
  closest {w : ℚ} : IsDouble w → |b.toRat - q| ≤ |w - q|
  /-- Where another one is as near, this one has the even mantissa. -/
  even {w : ℚ} : IsDouble w → |w - q| = |b.toRat - q| → w ≠ b.toRat → 2 ∣ b.mantissa

/-- The double is finite and the one nearest to `q`. -/
def Nearest (x : Float) (q : ℚ) : Prop := ∃ b, Binary.ofFloat? x = some b ∧ b.NearestTo q

/-- The double nearest to a double is that number. -/
theorem Nearest.exact {x : Float} {q : ℚ} (h : Nearest x q) (hq : IsDouble q) :
    toRat? x = some q := by
  obtain ⟨b, hb, hnearest⟩ := h
  have hzero : |b.toRat - q| = 0 := by
    refine le_antisymm ?_ (abs_nonneg _)
    simpa using hnearest.closest hq
  rw [Binary.toRat?_eq hb, sub_eq_zero.mp (abs_eq_zero.mp hzero)]

/-- Nothing is nearer to a double than it is to itself. -/
theorem nearest_of_toRat? {x : Float} {q : ℚ} (h : toRat? x = some q) : Nearest x q := by
  obtain ⟨b, hb, rfl⟩ := Option.map_eq_some_iff.mp h
  refine ⟨b, hb, fun _ => ?_, fun _ hequal hne => ?_⟩
  · rw [sub_self, abs_zero]
    exact abs_nonneg _
  · rw [sub_self, abs_zero, abs_eq_zero, sub_eq_zero] at hequal
    exact absurd hequal hne

theorem Binary.ofFloat?_neg (x : Float) :
    ofFloat? (-x) = (ofFloat? x).map fun b => { b with negative := !b.negative } := by
  unfold ofFloat?
  rw [unpack_neg]
  cases x.toModel.unpack with
  | notANumber => rfl
  | infinity s => rfl
  | zero s => cases s <;> rfl
  | finite s m e h => cases s <;> rfl

theorem IsDouble.neg {w : ℚ} (h : IsDouble w) : IsDouble (-w) := by
  obtain ⟨x, hx⟩ := h
  exact ⟨-x, toRat?_neg hx⟩

/-- Rounding is the same on both sides of zero. -/
theorem Nearest.neg {x : Float} {q : ℚ} (h : Nearest x q) : Nearest (-x) (-q) := by
  obtain ⟨b, hb, hnearest⟩ := h
  have hneg : toRat? (-x) = some (-b.toRat) := toRat?_neg (Binary.toRat?_eq hb)
  have hb' : Binary.ofFloat? (-x) = some { b with negative := !b.negative } := by
    rw [Binary.ofFloat?_neg, hb, Option.map_some]
  rw [toRat?, hb', Option.map_some, Option.some.injEq] at hneg
  have hflip : ∀ p : ℚ, |p - -q| = |-p - q| := by
    intro p
    rw [← abs_neg]
    congr 1
    ring
  refine ⟨_, hb', fun {w} hw => ?_, fun {w} hw hequal hne => ?_⟩
  · rw [hneg, hflip, neg_neg, hflip]
    exact hnearest.closest hw.neg
  · rw [hneg, hflip, hflip, neg_neg] at hequal
    refine hnearest.even hw.neg hequal fun hsame => hne ?_
    rw [hneg, ← hsame, neg_neg]

/-- The double is `q` rounded: it is the nearest one, and it differs from `q` by no more
than half a unit in the last place of a significand of 53 bits. -/
structure Rounded (x : Float) (q : ℚ) : Prop where
  nearest : Nearest x q
  error {r : ℚ} : toRat? x = some r → |r - q| ≤ |q| / 2 ^ 53

theorem Rounded.exists {x : Float} {q : ℚ} (h : Rounded x q) :
    ∃ r, toRat? x = some r ∧ |r - q| ≤ |q| / 2 ^ 53 := by
  obtain ⟨b, hb, -⟩ := h.nearest
  exact ⟨b.toRat, Binary.toRat?_eq hb, h.error (Binary.toRat?_eq hb)⟩

theorem Rounded.neg {x : Float} {q : ℚ} (h : Rounded x q) : Rounded (-x) (-q) := by
  refine ⟨h.nearest.neg, fun {r} hr => ?_⟩
  obtain ⟨t, ht, herror⟩ := h.exists
  obtain rfl := Option.some.inj ((toRat?_neg ht).symm.trans hr)
  rwa [neg_sub_neg, abs_sub_comm, abs_neg]

theorem rounded_of_toRat? {x : Float} {q : ℚ} (h : toRat? x = some q) : Rounded x q := by
  refine ⟨nearest_of_toRat? h, fun hr => ?_⟩
  obtain rfl := Option.some.inj (h.symm.trans hr)
  rw [sub_self, abs_zero]
  positivity

/-! ## Residual bits -/

/-- Where a number lies from the mantissa up, by the two residual bits. -/
def Locates (em : ExtendedMantissa) (f : ℚ) : Prop :=
  match em.accuracy with
  | .exact => f = em.mantissa
  | .inexact .lt => em.mantissa < f ∧ f < em.mantissa + 1 / 2
  | .inexact .eq => f = em.mantissa + 1 / 2
  | .inexact .gt => em.mantissa + 1 / 2 < f ∧ f < em.mantissa + 1

/-- The natural number is `f` rounded, a half going to the even one. -/
structure RoundsTo (n : Nat) (f : ℚ) : Prop where
  near : |(n : ℚ) - f| ≤ 1 / 2
  even : |(n : ℚ) - f| = 1 / 2 → 2 ∣ n

section Residual

variable {em : ExtendedMantissa} {f : ℚ}

theorem locates_exact (m : Nat) :
    Locates (ExtendedMantissa.ofMantissaAndAccuracy m .exact) m := rfl

/-- The remainder of a division tells where the quotient lies. -/
theorem locates_quotient {num den : Nat} (hden : 0 < den) :
    Locates (ExtendedMantissa.ofMantissaAndAccuracy (num / den)
      (accuracyOfFraction (num % den) den)) ((num : ℚ) / den) := by
  have hdenRat : (0 : ℚ) < den := by exact_mod_cast hden
  have hsplit : (num : ℚ) / den = (num / den : Nat) + (num % den : Nat) / (den : ℚ) := by
    have hnum : (num : ℚ) = den * (num / den : Nat) + (num % den : Nat) := by
      exact_mod_cast (Nat.div_add_mod num den).symm
    field_simp
    exact hnum
  have hrest : num % den < den := Nat.mod_lt num hden
  rw [hsplit]
  generalize num / den = m
  generalize num % den = rest at hrest
  unfold accuracyOfFraction
  split
  · next hzero => simp [Locates, ExtendedMantissa.ofMantissaAndAccuracy, ExtendedMantissa.accuracy,
      hzero]
  · next hne =>
      have hpos : (0 : ℚ) < (rest : ℚ) / den := by
        have hrestRat : (0 : ℚ) < rest := by exact_mod_cast Nat.pos_of_ne_zero hne
        positivity
      have hone : (rest : ℚ) / den < 1 := by
        rw [div_lt_one hdenRat]
        exact_mod_cast hrest
      cases hcompare : compare (2 * rest) den with
      | lt =>
          have hhalf : (rest : ℚ) / den < 1 / 2 := by
            rw [div_lt_div_iff₀ hdenRat (by norm_num)]
            have hlt := Nat.compare_eq_lt.mp hcompare
            exact_mod_cast (by omega : rest * 2 < 1 * den)
          exact ⟨lt_add_of_pos_right _ hpos, add_lt_add_right hhalf _⟩
      | eq =>
          have hhalf : (rest : ℚ) / den = 1 / 2 := by
            rw [div_eq_div_iff hdenRat.ne' (by norm_num)]
            have heq := Nat.compare_eq_eq.mp hcompare
            exact_mod_cast (by omega : rest * 2 = 1 * den)
          exact congrArg (fun part => (m : ℚ) + part) hhalf
      | gt =>
          have hhalf : 1 / 2 < (rest : ℚ) / den := by
            rw [div_lt_div_iff₀ (by norm_num) hdenRat]
            have hgt := Nat.compare_eq_gt.mp hcompare
            exact_mod_cast (by omega : 1 * den < rest * 2)
          exact ⟨add_lt_add_right hhalf _, add_lt_add_right hone _⟩

theorem Locates.bounds (h : Locates em f) : em.mantissa ≤ f ∧ f < em.mantissa + 1 := by
  unfold Locates at h
  split at h
  · constructor <;> linarith
  · constructor <;> linarith
  · constructor <;> linarith
  · constructor <;> linarith

/-- Rounding by the residual bits is rounding the number. -/
theorem Locates.roundsTo (h : Locates em f) : RoundsTo em.roundedMantissa f := by
  unfold Locates at h
  unfold ExtendedMantissa.roundedMantissa
  generalize em.mantissa = m at h ⊢
  cases haccuracy : em.accuracy with
  | exact =>
      rw [haccuracy] at h
      obtain rfl : f = m := h
      exact ⟨by simp [Accuracy.roundToNearestEven], by simp [Accuracy.roundToNearestEven]⟩
  | inexact order =>
      rw [haccuracy] at h
      cases order with
      | lt =>
          obtain ⟨hlow, hhigh⟩ : (m : ℚ) < f ∧ f < m + 1 / 2 := h
          have hnear : |(m : ℚ) - f| < 1 / 2 := abs_lt.mpr ⟨by linarith, by linarith⟩
          exact ⟨hnear.le, fun hhalf => absurd hhalf hnear.ne⟩
      | eq =>
          obtain rfl : f = m + 1 / 2 := h
          have hcast : ((m + m % 2 : Nat) : ℚ) - (m + 1 / 2) = (m % 2 : Nat) - 1 / 2 := by
            push_cast
            ring
          refine ⟨?_, fun _ => ?_⟩
          · show |((m + m % 2 : Nat) : ℚ) - (m + 1 / 2)| ≤ 1 / 2
            rw [hcast]
            rcases Nat.mod_two_eq_zero_or_one m with hm | hm <;> rw [hm] <;> norm_num
          · show 2 ∣ m + m % 2
            omega
      | gt =>
          obtain ⟨hlow, hhigh⟩ : (m : ℚ) + 1 / 2 < f ∧ f < m + 1 := h
          have hnear : |((m + 1 : Nat) : ℚ) - f| < 1 / 2 := by
            push_cast
            exact abs_lt.mpr ⟨by linarith, by linarith⟩
          exact ⟨hnear.le, fun hhalf => absurd hhalf hnear.ne⟩

/-- Shifting halves the number. -/
theorem Locates.shiftRightOne (h : Locates em f) : Locates em.shiftRightOne (f / 2) := by
  obtain ⟨m, round, sticky⟩ := em
  have hsplit : (m : ℚ) = 2 * (m / 2 : Nat) + (m % 2 : Nat) := by
    exact_mod_cast (Nat.div_add_mod m 2).symm
  rcases Nat.mod_two_eq_zero_or_one m with hm | hm <;> rw [hm] at hsplit <;>
    cases round <;> cases sticky <;>
    simp [Locates, ExtendedMantissa.shiftRightOne, ExtendedMantissa.accuracy, hm] at h ⊢ <;>
    push_cast at hsplit <;> first | linarith | (constructor <;> linarith)

theorem Locates.shiftRight (h : Locates em f) (n : Nat) : Locates (em >>> n) (f / 2 ^ n) := by
  show Locates (n.repeat ExtendedMantissa.shiftRightOne em) _
  induction n with
  | zero => rwa [Nat.repeat, pow_zero, div_one]
  | succ n ih =>
      rw [Nat.repeat, pow_succ, ← div_div]
      exact ih.shiftRightOne

end Residual

/-! ## No nearer double -/

section Grid

variable {n : Nat} {f : ℚ}

/-- Rounding to a natural number leaves nothing nearer among the integers, nor, when it has
53 bits, among the numbers with fewer. -/
theorem RoundsTo.closest (h : RoundsTo n f) {w : ℚ}
    (hw : (∃ z : Int, w = z) ∨ 2 ^ 52 ≤ f ∧ |w| < 2 ^ 52) :
    |(n : ℚ) - f| ≤ |w - f| ∧ (|w - f| = |(n : ℚ) - f| → w ≠ n → 2 ∣ n) := by
  have hinteger : ∀ z : Int, (z : ℚ) ≠ n → 1 / 2 ≤ |(z : ℚ) - f| := by
    intro z hne
    have hgap : (1 : ℚ) ≤ |(z : ℚ) - n| := by
      have hint : (1 : Int) ≤ |z - n| := Int.one_le_abs (sub_ne_zero.mpr (by exact_mod_cast hne))
      exact_mod_cast hint
    have htriangle : |(z : ℚ) - n| ≤ |(z : ℚ) - f| + |(n : ℚ) - f| := by
      rw [abs_sub_comm (n : ℚ) f]
      exact abs_sub_le _ _ _
    linarith [h.near]
  rcases hw with ⟨z, rfl⟩ | ⟨hlow, hsmall⟩
  · by_cases hz : (z : ℚ) = n
    · rw [hz]
      exact ⟨le_rfl, fun _ hne => absurd rfl hne⟩
    · have hfar := hinteger z hz
      exact ⟨h.near.trans hfar, fun hequal _ => h.even (le_antisymm h.near (hequal ▸ hfar))⟩
  · -- the least number of 53 bits stands between `w` and `f`
    have hleast : |(n : ℚ) - f| ≤ f - 2 ^ 52 := by
      by_cases hn : (n : ℚ) = 2 ^ 52
      · rw [hn, abs_sub_comm, abs_of_nonneg (by linarith)]
      · have hfar := hinteger (2 ^ 52) (by push_cast; exact fun heq => hn heq.symm)
        push_cast at hfar
        rw [abs_sub_comm, abs_of_nonneg (by linarith)] at hfar
        exact h.near.trans hfar
    have hwide : f - 2 ^ 52 < |w - f| := by
      rw [abs_sub_comm]
      exact lt_of_lt_of_le (by linarith [(abs_lt.mp hsmall).2]) (le_abs_self _)
    have hstrict := hleast.trans_lt hwide
    exact ⟨hstrict.le, fun hequal => absurd hequal hstrict.ne'⟩

/-- Measured in units of `2 ^ t`, a double is an integer, or it has less than 53 bits and the
units are not the smallest ones. -/
theorem IsDouble.units {w : ℚ} (h : IsDouble w) (s : Sign) (t : Int) :
    (∃ z : Int, s.apply 1 * w / 2 ^ t = z) ∨ -1074 < t ∧ |s.apply 1 * w / 2 ^ t| < 2 ^ 52 := by
  obtain ⟨d, k, hd, hk, -, rfl⟩ := h.significand
  have hscale : (s.apply 1 : ℚ) * (d * 2 ^ k) / 2 ^ t = s.apply 1 * d * 2 ^ (k - t) := by
    rw [zpow_sub₀ two_ne_zero]
    ring
  rw [hscale]
  rcases le_or_gt t k with hle | hlt
  · obtain ⟨j, hj⟩ := Int.eq_ofNat_of_zero_le (sub_nonneg.mpr hle)
    refine .inl ⟨s.apply 1 * d * 2 ^ j, ?_⟩
    rw [hj]
    push_cast
    rw [zpow_natCast]
  · refine .inr ⟨by omega, ?_⟩
    have hpower : (2 : ℚ) ^ (k - t) ≤ 2 ^ (-1 : Int) :=
      zpow_le_zpow_right₀ one_le_two (by omega)
    have hd' : |(d : ℚ)| < 2 ^ 53 := by
      rw [abs_intCast]
      exact_mod_cast hd
    have hpos : (0 : ℚ) < 2 ^ (k - t) := zpow_pos two_pos _
    rw [abs_mul, abs_mul, abs_apply_one, one_mul, abs_of_pos hpos]
    calc |(d : ℚ)| * 2 ^ (k - t) ≤ |(d : ℚ)| * 2 ^ (-1 : Int) := by gcongr
      _ < 2 ^ 53 * 2 ^ (-1 : Int) := by gcongr
      _ = 2 ^ 52 := by norm_num

/-- A significand that is a number rounded in units of `2 ^ t` is the nearest double to the
number, if it has 53 bits or the units are the smallest ones. -/
theorem RoundsTo.nearestTo (h : RoundsTo n f) {t : Int} (hlow : -1074 < t → 2 ^ 52 ≤ f)
    {b : Binary} {s : Sign} (hb : b.toRat = s.apply 1 * (n * 2 ^ t))
    (heven : 2 ∣ n → 2 ∣ b.mantissa) : b.NearestTo (s.apply 1 * (f * 2 ^ t)) := by
  have hunit : (0 : ℚ) < 2 ^ t := zpow_pos two_pos t
  have hsign := apply_one_mul_self s
  have hdistance : ∀ w : ℚ,
      |w - s.apply 1 * (f * 2 ^ t)| = |s.apply 1 * w / 2 ^ t - f| * 2 ^ t := by
    intro w
    have hfactor : w - s.apply 1 * (f * 2 ^ t) =
        s.apply 1 * ((s.apply 1 * w / 2 ^ t - f) * 2 ^ t) := by
      rw [sub_mul, div_mul_cancel₀ _ hunit.ne', mul_sub, ← mul_assoc (s.apply 1 : ℚ) _ w, hsign,
        one_mul]
    rw [hfactor, abs_mul, abs_apply_one, one_mul, abs_mul, abs_of_pos hunit]
  have hself : s.apply 1 * b.toRat / 2 ^ t = n := by
    rw [hb, ← mul_assoc, hsign, one_mul, mul_div_cancel_right₀ _ hunit.ne']
  have hgrid : ∀ {w : ℚ}, IsDouble w → (∃ z : Int, s.apply 1 * w / 2 ^ t = z) ∨
      2 ^ 52 ≤ f ∧ |s.apply 1 * w / 2 ^ t| < 2 ^ 52 := fun hw =>
    (hw.units s t).imp_right (And.imp_left hlow)
  constructor
  · intro w hw
    rw [hdistance, hdistance, hself]
    exact mul_le_mul_of_nonneg_right (h.closest (hgrid hw)).1 hunit.le
  · intro w hw hequal hne
    rw [hdistance, hdistance, hself] at hequal
    refine heven ((h.closest (hgrid hw)).2 (mul_right_cancel₀ hunit.ne' hequal) ?_)
    intro hsame
    refine hne ?_
    rw [← hself, div_left_inj' hunit.ne'] at hsame
    exact mul_left_cancel₀ (left_ne_zero_of_mul_eq_one hsign) hsame

end Grid

end DataRules.Double
