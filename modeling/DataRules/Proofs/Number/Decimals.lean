import DataRules.Proofs.Number.Integers
import DataRules.Proofs.Number.Magnitude

set_option autoImplicit false

/-!
# Decimals: arithmetic on short decimals

Two doubles that print as short decimals are added, subtracted and multiplied as the
decimals that they print as.  The result is exact where it is an integer of 64 bits, and
the double nearest to the exact result where that is a larger integer or a short decimal
of at most 22 places itself.  A result with more digits is only near: places past the 28th
are dropped, so a product can vanish, and the conversion to a double is not always the
nearest.
-/

namespace DataRules

open DataRules.Double DataRules.Number

/-- The rational number that a number is. -/
def Number.toRat? : Number → Option ℚ
  | .int n => some n.toInt
  | .float x => Double.toRat? x

namespace Arithmetic

/-- The result on decimals written out with all its places; quotients and remainders are
not taken on decimals. -/
def written? : Arithmetic → Fixed → Fixed → Option Fixed
  | .add, a, b =>
      some ⟨a.coefficientAt (max a.scale b.scale) + b.coefficientAt (max a.scale b.scale),
        max a.scale b.scale⟩
  | .subtract, a, b =>
      some ⟨a.coefficientAt (max a.scale b.scale) -
        b.coefficientAt (max a.scale b.scale), max a.scale b.scale⟩
  | .multiply, a, b => some ⟨a.coefficient * b.coefficient, a.scale + b.scale⟩
  | .divide, _, _ => none
  | .remainder, _, _ => none

/-- The result on rational numbers. -/
def onRats? : Arithmetic → ℚ → ℚ → Option ℚ
  | .add, p, q => some (p + q)
  | .subtract, p, q => some (p - q)
  | .multiply, p, q => some (p * q)
  | .divide, _, _ => none
  | .remainder, _, _ => none

/-- The operation gives the number of the double nearest to `q`. -/
def GivesNearest (op : Arithmetic) (x y : Float) (q : ℚ) : Prop :=
  ∃ z, Nearest z q ∧ op.apply x y = Number.ofFloat z

/-- What the operation gives on two doubles with the short forms `a` and `b`, when `d` is
the exact result written out. -/
structure Computes (op : Arithmetic) (x y : Float) (a b d : Fixed) : Prop where
  /-- The decimal written out is the exact result. -/
  value : op.onRats? a.toRat b.toRat = some d.toRat
  /-- An integer of 64 bits is given exactly. -/
  whole : ∀ i : Int64, d.toRat = (i.toInt : ℚ) → op.apply x y = .int i
  /-- A larger integer is given as the nearest double, from below `2 ^ 96` or when the
  operands are integers. -/
  large : ∀ k : Int, d.toRat = k → (∀ i : Int64, i.toInt ≠ k) →
    k.natAbs < 2 ^ 96 ∨ a.scale = 0 ∧ b.scale = 0 → op.GivesNearest x y d.toRat
  /-- A result that is short itself, with at most 22 places, is given as the nearest double. -/
  short : d.coefficient.natAbs < 10 ^ 15 → d.scale ≤ 22 → op.GivesNearest x y d.toRat
  /-- The result is zero exactly when nothing of it is left at 28 places. -/
  vanishes_iff : op.apply x y = .int 0 ↔ |d.toRat| ≤ 1 / (2 * 10 ^ 28)
  /-- Any other result is off by one part in `2 ^ 47` and a unit of the 28th place at most. -/
  accurate : ∃ v, (op.apply x y).toRat? = some v ∧
    |v - d.toRat| ≤ |d.toRat| / 2 ^ 47 + 1 / 10 ^ 28

variable {op : Arithmetic} {x y : Float} {a b d : Fixed}

/-! ## The exact result -/

theorem coefficientAt_value {s : Nat} (hs : d.scale ≤ s) :
    (d.coefficientAt s : ℚ) = d.toRat * 10 ^ s := by
  have hpow : (10 : ℚ) ^ s = 10 ^ d.scale * 10 ^ (s - d.scale) := (pow_mul_pow_sub 10 hs).symm
  have hcast : (d.coefficientAt s : ℚ) = d.coefficient * 10 ^ (s - d.scale) := by
    unfold Fixed.coefficientAt
    rw [Nat.pow_eq]
    push_cast
    rfl
  rw [hcast, Fixed.toRat, hpow, ← mul_assoc, div_mul_cancel₀ _ (by positivity)]

/-- The decimal written out is the exact result. -/
theorem onRats?_of_written? (h : op.written? a b = some d) :
    op.onRats? a.toRat b.toRat = some d.toRat := by
  cases op with
  | add =>
      obtain rfl := Option.some.inj h
      refine congrArg some (eq_div_of_mul_eq (by positivity) ?_)
      rw [Int.cast_add, coefficientAt_value (le_max_left _ _),
        coefficientAt_value (le_max_right _ _), add_mul]
  | subtract =>
      obtain rfl := Option.some.inj h
      refine congrArg some (eq_div_of_mul_eq (by positivity) ?_)
      rw [Int.cast_sub, coefficientAt_value (le_max_left _ _),
        coefficientAt_value (le_max_right _ _), sub_mul]
  | multiply =>
      obtain rfl := Option.some.inj h
      refine congrArg some ?_
      rw [Fixed.toRat, Fixed.toRat, Fixed.toRat, Int.cast_mul, pow_add, mul_div_mul_comm]
  | divide => cases h
  | remainder => cases h

theorem scale_of_written? (h : op.written? a b = some d) (ha : a.scale = 0) (hb : b.scale = 0) :
    d.scale = 0 := by
  cases op with
  | add | subtract | multiply =>
      obtain rfl := Option.some.inj h
      simp [ha, hb]
  | divide | remainder => cases h

theorem onFixed?_eq (h : op.written? a b = some d) : op.onFixed? a b = d.fit? := by
  cases op with
  | add =>
      obtain rfl := Option.some.inj h
      rfl
  | subtract =>
      obtain rfl := Option.some.inj h
      have hneg : ∀ s : Nat, (⟨-b.coefficient, b.scale⟩ : Fixed).coefficientAt s =
          -b.coefficientAt s := fun s => Int.neg_mul _ _
      show Fixed.sub? a b = _
      rw [Fixed.sub?, Fixed.add?]
      dsimp only
      rw [hneg, ← Int.sub_eq_add_neg]
  | multiply =>
      obtain rfl := Option.some.inj h
      rfl
  | divide => cases h
  | remainder => cases h

/-- The result is the decimal that fits, or that of the doubles where none does. -/
theorem apply_eq (hx : Fixed.ofFloat? x = some a) (hy : Fixed.ofFloat? y = some b)
    (hd : op.written? a b = some d) :
    op.apply x y = (d.fit?.map ofFixed).getD (ofFloat (op.onFloats x y)) := by
  have hfixed : op.inFixed? x y = d.fit? := by
    rw [inFixed?, hx, hy, ← onFixed?_eq hd]
    rfl
  rw [apply, hfixed]
  cases d.fit? <;> rfl

end Arithmetic

/-! ## The number of a decimal -/

namespace Number

variable {x : Float} {r : Fixed}

/-- Counting a whole double as an integer does not change it. -/
theorem toRat?_ofFloat (x : Float) : (ofFloat x).toRat? = Double.toRat? x := by
  unfold ofFloat
  cases hwhole : whole? x with
  | none => rfl
  | some k =>
      rw [Option.bind_some]
      cases hint : ofInt? k with
      | none => rfl
      | some n =>
          obtain ⟨i, rfl, rfl⟩ := ofInt?_eq_some_iff.mp hint
          exact (whole?_eq_some_iff.mp hwhole).symm

/-- Any other decimal is taken as a double. -/
theorem ofFixed_of_not_int (hr : ∀ i : Int64, r.toRat ≠ (i.toInt : ℚ)) :
    ofFixed r = ofFloat r.toFloat := by
  unfold ofFixed
  cases hint : r.toInt?.bind ofInt? with
  | none => rfl
  | some n =>
      obtain ⟨k, hk, hn⟩ := Option.bind_eq_some_iff.mp hint
      obtain ⟨i, rfl, -⟩ := ofInt?_eq_some_iff.mp hn
      exact absurd (Fixed.toInt?_eq_some_iff.mp hk) (hr i)

/-- With at most 15 digits it does not matter. -/
theorem ofFixed_of_short (hdigits : r.coefficient.natAbs < 10 ^ 15) (hscale : r.scale ≤ Fixed.maxScale) :
    ofFixed r = ofFloat r.toFloat := by
  by_cases hint : ∃ i : Int64, r.toRat = (i.toInt : ℚ)
  · obtain ⟨i, hi⟩ := hint
    have hsmall : i.toInt.natAbs ≤ 2 ^ 53 := by
      have hle : i.toInt.natAbs ≤ r.coefficient.natAbs := by
        rw [Fixed.natAbs_coefficient hi]
        exact Nat.le_mul_of_pos_right _ (Nat.pow_pos (by decide))
      omega
    have hrounded := Fixed.rounded_toFloat_of_int ⟨hscale, hdigits.trans (by decide)⟩ hi
    have hexact := hrounded.nearest.exact (hi ▸ ⟨_, toRat?_ofInt hsmall⟩)
    rw [ofFixed_of_int hi, ofFloat_of_int (hexact.trans (congrArg some hi))]
  · exact ofFixed_of_not_int (not_exists.mp hint)

/-- The number of a decimal is the decimal up to a few roundings. -/
theorem toRat?_ofFixed (hr : r.Fits) :
    ∃ v, (ofFixed r).toRat? = some v ∧ |v - r.toRat| ≤ 27 / 2 ^ 53 * |r.toRat| := by
  by_cases hint : ∃ i : Int64, r.toRat = (i.toInt : ℚ)
  · obtain ⟨i, hi⟩ := hint
    rw [ofFixed_of_int hi]
    refine ⟨_, rfl, ?_⟩
    rw [hi, sub_self, abs_zero]
    positivity
  · rw [ofFixed_of_not_int (not_exists.mp hint), toRat?_ofFloat]
    obtain ⟨v, hv, herror⟩ := (Fixed.isNear_toFloat hr).error (by norm_num)
    refine ⟨v, hv, herror.trans (le_of_eq ?_)⟩
    norm_num

end Number

namespace Arithmetic

variable {op : Arithmetic} {x y : Float} {a b d : Fixed}

/-! ## What the result is -/

theorem abs_toRat_mul_le (hx : Fixed.ofFloat? x = some a) (hy : Fixed.ofFloat? y = some b) :
    |a.toRat * b.toRat| ≤ 10 ^ 30 := by
  rw [abs_mul]
  calc |a.toRat| * |b.toRat| ≤ 10 ^ 15 * 10 ^ 15 :=
        mul_le_mul (Fixed.abs_toRat_le_of_ofFloat? hx) (Fixed.abs_toRat_le_of_ofFloat? hy)
          (abs_nonneg _) (by norm_num)
    _ = 10 ^ 30 := by norm_num

section

variable (hx : Fixed.ofFloat? x = some a) (hy : Fixed.ofFloat? y = some b)
  (hd : op.written? a b = some d)

include hx hy hd

theorem apply_of_fit? {r : Fixed} (hfit : d.fit? = some r) : op.apply x y = ofFixed r := by
  rw [apply_eq hx hy hd, hfit]
  rfl

theorem apply_of_fit?_eq_none (hfit : d.fit? = none) :
    op.apply x y = ofFloat (op.onFloats x y) := by
  rw [apply_eq hx hy hd, hfit]
  rfl

theorem apply_whole {i : Int64} (hi : d.toRat = (i.toInt : ℚ)) : op.apply x y = .int i := by
  have hbound : i.toInt.natAbs < Fixed.bound := by
    have hlow := Int64.le_toInt i
    have hhigh := Int64.toInt_lt i
    have hvalue : Fixed.bound = 2 ^ 96 := rfl
    omega
  obtain ⟨r, hfit, hr⟩ := Fixed.exists_fit?_of_toRat hi hbound
  rw [apply_of_fit? hx hy hd hfit, Number.ofFixed_of_int hr]

/-- A result that is short itself is written out without dropping a place. -/
theorem givesNearest_of_short (hdigits : d.coefficient.natAbs < 10 ^ 15) (hscale : d.scale ≤ 22) :
    op.GivesNearest x y d.toRat := by
  have hfits : d.Fits := ⟨hscale.trans (by decide), hdigits.trans (by decide)⟩
  have hrounded := Fixed.rounded_toFloat hdigits hscale
  refine ⟨d.toFloat, hrounded.nearest, ?_⟩
  rw [apply_of_fit? hx hy hd (Fixed.fit?_eq_self hfits), Number.ofFixed_of_short hdigits hfits.1]

/-- An integer that 64 bits do not hold, where no place is dropped. -/
theorem givesNearest_of_fit? {r : Fixed} {k : Int} (hfit : d.fit? = some r)
    (hr : r.toRat = d.toRat) (hk : d.toRat = k) (hlarge : ∀ i : Int64, i.toInt ≠ k) :
    op.GivesNearest x y d.toRat := by
  have hrounded := Fixed.rounded_toFloat_of_int (Fixed.bounds_of_fit?_eq_some hfit) (hr.trans hk)
  rw [hr] at hrounded
  refine ⟨r.toFloat, hrounded.nearest, ?_⟩
  rw [apply_of_fit? hx hy hd hfit]
  refine Number.ofFixed_of_not_int fun i hi => hlarge i ?_
  exact_mod_cast (hi.symm.trans hr).trans hk

/-- Only a product can be too large for a decimal. -/
theorem product_of_fit?_eq_none (hfit : d.fit? = none) :
    op = .multiply ∧ d.toRat = a.toRat * b.toRat := by
  have hlarge := Fixed.le_abs_toRat_of_fit?_eq_none hfit
  have ha := Fixed.abs_toRat_le_of_ofFloat? hx
  have hb := Fixed.abs_toRat_le_of_ofFloat? hy
  have hvalue := onRats?_of_written? hd
  cases op with
  | add =>
      have hsum : a.toRat + b.toRat = d.toRat := Option.some.inj hvalue
      have htriangle := abs_add_le a.toRat b.toRat
      rw [hsum] at htriangle
      linarith
  | subtract =>
      have hdifference : a.toRat - b.toRat = d.toRat := Option.some.inj hvalue
      have htriangle := abs_sub a.toRat b.toRat
      rw [hdifference] at htriangle
      linarith
  | multiply => exact ⟨rfl, (Option.some.inj hvalue).symm⟩
  | divide => cases hd
  | remainder => cases hd

/-- A product that is too large for a decimal is near in doubles. -/
theorem isNear_of_fit?_eq_none (hfit : d.fit? = none) :
    IsNear 53 (op.onFloats x y) d.toRat := by
  obtain ⟨rfl, hproduct⟩ := product_of_fit?_eq_none hx hy hd hfit
  have hlow := Fixed.le_abs_toRat_of_fit?_eq_none hfit
  have hhigh := abs_toRat_mul_le hx hy
  rw [hproduct] at hlow ⊢
  exact (Fixed.isNear_of_ofFloat? hx).mul (Fixed.isNear_of_ofFloat? hy) (by decide)
    ⟨by linarith, by linarith⟩

/-- The result is never far off. -/
theorem apply_accurate : ∃ v, (op.apply x y).toRat? = some v ∧
    |v - d.toRat| ≤ |d.toRat| / 2 ^ 47 + 1 / 10 ^ 28 := by
  cases hfit : d.fit? with
  | none =>
      obtain ⟨v, hv, herror⟩ := (isNear_of_fit?_eq_none hx hy hd hfit).error (by norm_num)
      rw [apply_of_fit?_eq_none hx hy hd hfit, Number.toRat?_ofFloat]
      refine ⟨v, hv, ?_⟩
      push_cast at herror
      linarith [abs_nonneg d.toRat]
  | some r =>
      obtain ⟨v, hv, herror⟩ := Number.toRat?_ofFixed (Fixed.bounds_of_fit?_eq_some hfit)
      rw [apply_of_fit? hx hy hd hfit]
      refine ⟨v, hv, ?_⟩
      have htriangle := abs_sub_le v r.toRat d.toRat
      have hsize : |r.toRat| ≤ |d.toRat| + |r.toRat - d.toRat| := by
        have hsplit := abs_add_le d.toRat (r.toRat - d.toRat)
        rwa [add_sub_cancel] at hsplit
      have hnonneg := abs_nonneg d.toRat
      rcases Fixed.abs_toRat_sub_le_of_fit? hfit with hdropped | hdropped <;> linarith

/-- The result is zero exactly when it rounds to zero at 28 places. -/
theorem apply_eq_zero_iff : op.apply x y = .int 0 ↔ |d.toRat| ≤ 1 / (2 * 10 ^ 28) := by
  constructor
  · intro hzero
    cases hfit : d.fit? with
    | none =>
        have hvalue : Double.toRat? (op.onFloats x y) = some 0 := by
          rw [← Number.toRat?_ofFloat, ← apply_of_fit?_eq_none hx hy hd hfit, hzero]
          rfl
        rw [(isNear_of_fit?_eq_none hx hy hd hfit).toRat?_eq_zero_iff.mp hvalue, abs_zero]
        positivity
    | some r =>
        have hr : r.toRat = 0 := by
          obtain ⟨v, hv, herror⟩ := Number.toRat?_ofFixed (Fixed.bounds_of_fit?_eq_some hfit)
          rw [← apply_of_fit? hx hy hd hfit, hzero] at hv
          obtain rfl : (0 : ℚ) = v := Option.some.inj hv
          rw [zero_sub, abs_neg] at herror
          exact abs_eq_zero.mp (by linarith [abs_nonneg r.toRat])
        have hdropped := Fixed.abs_toRat_sub_le_of_fit? hfit
        rw [hr, zero_sub, abs_neg] at hdropped
        rcases hdropped with hdropped | hdropped
        · exact hdropped
        · have hnonneg := abs_nonneg d.toRat
          linarith
  · intro hsmall
    obtain ⟨r, hfit, hr⟩ := Fixed.exists_fit?_of_small hsmall
    rw [apply_of_fit? hx hy hd hfit]
    exact Number.ofFixed_of_int (n := 0) hr

/-- A product of integers that is too large for a decimal is rounded once, in doubles. -/
theorem givesNearest_of_fit?_eq_none {k : Int} (hk : d.toRat = k) (ha : a.scale = 0)
    (hb : b.scale = 0) (hfit : d.fit? = none) : op.GivesNearest x y d.toRat := by
  obtain ⟨rfl, hproduct⟩ := product_of_fit?_eq_none hx hy hd hfit
  have hsmall : k.natAbs ≤ 2 ^ 100 := by
    have hfactors := abs_toRat_mul_le hx hy
    rw [← hproduct, hk, abs_intCast] at hfactors
    have hnat : k.natAbs ≤ 10 ^ 30 := by exact_mod_cast hfactors
    exact hnat.trans (by decide)
  have hrange : InRange d.toRat := hk ▸ inRange_intCast (by decide) hsmall
  rw [hproduct] at hrange ⊢
  have hrounded := rounded_mul (Fixed.toRat?_of_ofFloat? hx ha) (Fixed.toRat?_of_ofFloat? hy hb)
    hrange
  exact ⟨_, hrounded.nearest, apply_of_fit?_eq_none hx hy hd hfit⟩

theorem givesNearest_of_large {k : Int} (hk : d.toRat = k) (hlarge : ∀ i : Int64, i.toInt ≠ k)
    (hsize : k.natAbs < 2 ^ 96 ∨ a.scale = 0 ∧ b.scale = 0) : op.GivesNearest x y d.toRat := by
  rcases hsize with hbound | ⟨ha, hb⟩
  · obtain ⟨r, hfit, hr⟩ := Fixed.exists_fit?_of_toRat hk hbound
    exact givesNearest_of_fit? hx hy hd hfit (hr.trans hk.symm) hk hlarge
  · cases hfit : d.fit? with
    | none => exact givesNearest_of_fit?_eq_none hx hy hd hk ha hb hfit
    | some r =>
        have hr := Fixed.eq_of_fit?_of_scale_zero (scale_of_written? hd ha hb) hfit
        exact givesNearest_of_fit? hx hy hd hfit hr hk hlarge

end

/-- What a sum, a difference or a product of short decimals is. -/
theorem computes (hx : Fixed.ofFloat? x = some a) (hy : Fixed.ofFloat? y = some b)
    (hd : op.written? a b = some d) : op.Computes x y a b d where
  value := onRats?_of_written? hd
  whole _ hi := apply_whole hx hy hd hi
  large _ hk hlarge hsize := givesNearest_of_large hx hy hd hk hlarge hsize
  short hdigits hscale := givesNearest_of_short hx hy hd hdigits hscale
  vanishes_iff := apply_eq_zero_iff hx hy hd
  accurate := apply_accurate hx hy hd

/-- One tenth and two tenths are three tenths, although the sum of the doubles is not. -/
theorem computes_tenths : Fixed.ofFloat? 0.1 = some ⟨1, 1⟩ ∧ Fixed.ofFloat? 0.2 = some ⟨2, 1⟩ ∧
    add.written? ⟨1, 1⟩ ⟨2, 1⟩ = some ⟨3, 1⟩ ∧ add.Computes 0.1 0.2 ⟨1, 1⟩ ⟨2, 1⟩ ⟨3, 1⟩ :=
  have hx : Fixed.ofFloat? 0.1 = some ⟨1, 1⟩ := by decide +kernel
  have hy : Fixed.ofFloat? 0.2 = some ⟨2, 1⟩ := by decide +kernel
  ⟨hx, hy, rfl, computes hx hy rfl⟩

/-- The product of two short decimals vanishes without being zero. -/
theorem product_vanishes : Fixed.ofFloat? 1e-20 = some ⟨1, 20⟩ ∧
    multiply.written? ⟨1, 20⟩ ⟨1, 20⟩ = some ⟨1, 40⟩ ∧ (⟨1, 40⟩ : Fixed).toRat ≠ 0 ∧
    multiply.apply 1e-20 1e-20 = .int 0 := by
  refine ⟨by decide +kernel, rfl, ?_, by decide +kernel⟩
  rw [Fixed.toRat]
  norm_num

/-- A sum of 16 digits need not be the nearest double. -/
example : Fixed.ofFloat? 40000000000000 = some ⟨40000000000000, 0⟩ ∧
    Fixed.ofFloat? 1815911059724.77 = some ⟨181591105972477, 2⟩ ∧
    add.apply 40000000000000 1815911059724.77 ≠ .float 41815911059724.77 := by decide +kernel

end Arithmetic

end DataRules
