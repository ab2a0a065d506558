import DataRules.Number.Arithmetic
import DataRules.Proofs.Double.Digits
import DataRules.Proofs.Double.Operations
import DataRules.Proofs.Number.Fixed

set_option autoImplicit false

/-!
# Integers: arithmetic on whole numbers

Up to `2 ^ 53` in magnitude, sums, differences and products of integers are the exact
integers.  Integers of at most 15 digits are fixed-point decimals without places, and
their sums and products are as well; longer ones are computed with as doubles, which hold
all of these integers.  The two ways meet, so it does not show which one was taken.
-/

namespace DataRules

open DataRules.Double DataRules.Number

/-- The integer and all smaller ones are doubles. -/
def IsExact (i : Int) : Prop := i.natAbs ≤ 2 ^ 53

instance (i : Int) : Decidable (IsExact i) := inferInstanceAs (Decidable (_ ≤ _))

/-- The number is the integer. -/
def Number.IsInt (r : Number) (i : Int) : Prop := ∃ n : Int64, n.toInt = i ∧ r = .int n

theorem IsExact.exists_toInt {i : Int} (hi : IsExact i) : ∃ n : Int64, n.toInt = i := by
  unfold IsExact at hi
  exact ⟨Int64.ofInt i, Int64.toInt_ofInt_of_le (by omega) (by omega)⟩

namespace Number

/-- The integers of 64 bits are those that have such a form. -/
theorem ofInt?_eq_some_iff {i : Int} {r : Number} : ofInt? i = some r ↔ r.IsInt i := by
  have hmin : Int64.minValue.toInt = -2 ^ 63 := rfl
  have hmax : Int64.maxValue.toInt = 2 ^ 63 - 1 := rfl
  unfold ofInt?
  constructor
  · intro h
    split at h
    · next hfits =>
        obtain rfl := Option.some.inj h
        exact ⟨Int64.ofInt i, Int64.toInt_ofInt_of_le (by omega) (by omega), rfl⟩
    · cases h
  · rintro ⟨n, rfl, rfl⟩
    have hlow := Int64.le_toInt n
    have hhigh := Int64.toInt_lt n
    rw [if_pos (by omega), Int64.ofInt_toInt]

/-- A double that is an integer of 64 bits counts as that integer. -/
theorem ofFloat_of_int {x : Float} {n : Int64} (hx : toRat? x = some (n.toInt : ℚ)) :
    ofFloat x = .int n := by
  rw [ofFloat, whole?_eq_some_iff.mpr hx, Option.bind_some, ofInt?_eq_some_iff.mpr ⟨n, rfl, rfl⟩,
    Option.getD_some]

/-- An integer of 64 bits in decimal form is that integer. -/
theorem ofFixed_of_int {d : Fixed} {n : Int64} (hd : d.toRat = (n.toInt : ℚ)) :
    ofFixed d = .int n := by
  rw [ofFixed, Fixed.toInt?_eq_some_iff.mpr hd, Option.bind_some,
    ofInt?_eq_some_iff.mpr ⟨n, rfl, rfl⟩, Option.getD_some]

theorem isInt_ofFloat {x : Float} {i : Int} (hi : IsExact i) (hx : toRat? x = some (i : ℚ)) :
    IsInt (ofFloat x) i := by
  obtain ⟨n, rfl⟩ := hi.exists_toInt
  exact ⟨n, rfl, ofFloat_of_int hx⟩

theorem isInt_ofFixed {d : Fixed} {i : Int} (hi : IsExact i) (hd : d.toRat = i) :
    IsInt (ofFixed d) i := by
  obtain ⟨n, rfl⟩ := hi.exists_toInt
  exact ⟨n, rfl, ofFixed_of_int hd⟩

namespace Fixed

/-- The fixed-point form of an integer has no places. -/
theorem eq_of_ofFloat?_ofInt {i : Int} (hi : IsExact i) {d : Fixed}
    (h : ofFloat? (Float.ofInt i) = some d) : d = ⟨i, 0⟩ := by
  by_cases hzero : i = 0
  · subst hzero
    have hform : ofFloat? (Float.ofInt 0) = some ⟨0, 0⟩ := by decide +kernel
    rw [hform] at h
    exact (Option.some.inj h).symm
  rcases Nat.lt_or_eq_of_le hi with hsmall | hlast
  · obtain ⟨b, hb, hnegative, hvalue⟩ := Binary.ofFloat?_ofInt hsmall
    obtain ⟨hexponent, hdigits⟩ := shortest_of_amounts .up (Int.natAbs_pos.mpr hzero) hsmall hvalue
    simp only [ofFloat?, hb] at h
    split at h
    · obtain rfl := Option.some.inj h
      rw [ofDecimal, if_pos hexponent, Nat.pow_eq, hdigits, hnegative, Fixed.mk.injEq]
      refine ⟨?_, rfl⟩
      by_cases hi : i < 0
      · rw [decide_eq_true hi, if_pos rfl]
        omega
      · rw [decide_eq_false hi, if_neg Bool.false_ne_true]
        omega
    · cases h
  · -- `2 ^ 53` has 16 digits
    have hnone : ofFloat? (Float.ofInt i) = none := by
      rcases Int.natAbs_eq_iff.mp hlast with rfl | rfl
      · decide +kernel
      · decide +kernel
    rw [hnone] at h
    cases h

end Fixed

end Number

/-! ## The operations -/

namespace Arithmetic

/-- The operation gives the integer, in fixed-point decimals wherever the operands have such
a form, and in doubles. -/
structure Meets (op : Arithmetic) (x y : Float) (i : Int) : Prop where
  inFixed : ∀ d, op.inFixed? x y = some d → (ofFixed d).IsInt i
  onFloats : (ofFloat (op.onFloats x y)).IsInt i

variable {a b i : Int} {x y : Float}

theorem Meets.apply {op : Arithmetic} (h : op.Meets x y i) : (op.apply x y).IsInt i := by
  unfold Arithmetic.apply
  split
  · next d hd => exact h.inFixed d hd
  · exact h.onFloats

/-- The operation on the integers as decimals without places. -/
theorem onFixed?_of_inFixed? {op : Arithmetic} (ha : IsExact a) (hb : IsExact b) {d : Fixed}
    (h : op.inFixed? (Float.ofInt a) (Float.ofInt b) = some d) :
    op.onFixed? ⟨a, 0⟩ ⟨b, 0⟩ = some d := by
  obtain ⟨p, hp, h⟩ := Option.bind_eq_some_iff.mp h
  obtain ⟨q, hq, h⟩ := Option.bind_eq_some_iff.mp h
  rw [Fixed.eq_of_ofFloat?_ofInt ha hp, Fixed.eq_of_ofFloat?_ofInt hb hq] at h
  exact h

theorem isInt_of_fit? (hi : IsExact i) {d : Fixed} (h : Fixed.fit? ⟨i, 0⟩ = some d) :
    (ofFixed d).IsInt i := by
  have hbound : i.natAbs < Fixed.bound := Nat.lt_of_le_of_lt hi (by decide)
  rw [Fixed.fit?_eq_self ⟨Nat.zero_le _, hbound⟩] at h
  obtain rfl := Option.some.inj h
  refine isInt_ofFixed hi ?_
  rw [Fixed.toRat, pow_zero, div_one]

/-- The double nearest to an integer up to `2 ^ 53` is that integer. -/
theorem isInt_of_rounded (hi : IsExact i) (h : InRange (i : ℚ) → Rounded x i) :
    (ofFloat x).IsInt i := by
  have hrange : InRange (i : ℚ) := inRange_intCast (by decide) hi
  exact isInt_ofFloat hi ((h hrange).nearest.exact ⟨_, toRat?_ofInt hi⟩)

theorem add_meets (ha : IsExact a) (hb : IsExact b) (hsum : IsExact (a + b)) :
    add.Meets (Float.ofInt a) (Float.ofInt b) (a + b) := by
  constructor
  · intro d hd
    have hadd : Fixed.add? ⟨a, 0⟩ ⟨b, 0⟩ = some d := onFixed?_of_inFixed? ha hb hd
    refine isInt_of_fit? hsum ?_
    simpa [Fixed.add?, Fixed.coefficientAt] using hadd
  · refine isInt_of_rounded hsum fun hrange => ?_
    rw [Int.cast_add] at hrange ⊢
    exact rounded_add (toRat?_ofInt ha) (toRat?_ofInt hb) hrange

theorem subtract_meets (ha : IsExact a) (hb : IsExact b) (hdifference : IsExact (a - b)) :
    subtract.Meets (Float.ofInt a) (Float.ofInt b) (a - b) := by
  constructor
  · intro d hd
    have hsub : Fixed.sub? ⟨a, 0⟩ ⟨b, 0⟩ = some d := onFixed?_of_inFixed? ha hb hd
    refine isInt_of_fit? hdifference ?_
    simpa [Fixed.sub?, Fixed.add?, Fixed.coefficientAt, Int.sub_eq_add_neg] using hsub
  · refine isInt_of_rounded hdifference fun hrange => ?_
    rw [Int.cast_sub] at hrange ⊢
    exact rounded_sub (toRat?_ofInt ha) (toRat?_ofInt hb) hrange

theorem multiply_meets (ha : IsExact a) (hb : IsExact b) (hproduct : IsExact (a * b)) :
    multiply.Meets (Float.ofInt a) (Float.ofInt b) (a * b) := by
  constructor
  · intro d hd
    exact isInt_of_fit? hproduct (onFixed?_of_inFixed? ha hb hd)
  · refine isInt_of_rounded hproduct fun hrange => ?_
    rw [Int.cast_mul] at hrange ⊢
    exact rounded_mul (toRat?_ofInt ha) (toRat?_ofInt hb) hrange

/-- Negating the double of an integer negates the integer; the zero loses its sign. -/
theorem isInt_neg (ha : IsExact a) : (ofFloat (-Float.ofInt a)).IsInt (-a) := by
  have hminus : IsExact (-a) := by
    unfold IsExact
    rwa [Int.natAbs_neg]
  have hneg := toRat?_neg (toRat?_ofInt ha)
  rw [← Int.cast_neg] at hneg
  exact isInt_ofFloat hminus hneg

end Arithmetic

end DataRules
