import DataRules.Proofs.Double.Neutral
import DataRules.Proofs.Number.Decimals

set_option autoImplicit false

/-!
# Neutral: numbers that a step of arithmetic keeps

Multiplying by one and adding zero take a number as a double and count that double as a
number again.  A number that comes back from this is settled.  Doubles and sums are, and an
integer is when it is a double; a product of short decimals may be an exact integer that is
not, and it is what the next step of a product rounds.
-/

namespace DataRules

open DataRules.Double DataRules.Number

/-! ## Settled numbers -/

namespace Number

variable {x y : Float} {d : Fixed}

/-- Taken as a double and counted as a number again, the number comes back. -/
def IsSettled (r : Number) : Prop := ofFloat r.toFloat = r

/-- The conversion of an integer is the integer rounded. -/
theorem rounded_ofInt {i : Int} {k : Nat} (hk : k < 1023) (hi : i.natAbs ≤ 2 ^ k) :
    Rounded (Float.ofInt i) i := by
  cases i with
  | ofNat n => exact rounded_ofNat hk hi
  | negSucc n =>
      have hneg := (rounded_ofNat hk (n := n + 1) hi).neg
      have hcast : ((Int.negSucc n : Int) : ℚ) = -((n + 1 : Nat) : ℚ) := by
        rw [Int.negSucc_eq]
        push_cast
        ring
      rw [hcast]
      exact hneg

/-- An integer is settled exactly when it is a double. -/
theorem isSettled_int_iff {n : Int64} : (Number.int n).IsSettled ↔ IsDouble (n.toInt : ℚ) := by
  constructor
  · intro h
    have hvalue := toRat?_ofFloat (Number.int n).toFloat
    rw [h] at hvalue
    exact ⟨_, hvalue.symm⟩
  · intro h
    have hbound : n.toInt.natAbs ≤ 2 ^ 63 := by
      have hlow := Int64.le_toInt n
      have hhigh := Int64.toInt_lt n
      omega
    exact ofFloat_of_int ((rounded_ofInt (by decide) hbound).nearest.exact h)

/-- A double counts as itself or as an integer. -/
theorem ofFloat_eq_or (x : Float) : ofFloat x = .float x ∨ ∃ n, ofFloat x = .int n := by
  unfold ofFloat
  cases hint : (whole? x).bind ofInt? with
  | none => exact .inl rfl
  | some r =>
      obtain ⟨i, -, hr⟩ := Option.bind_eq_some_iff.mp hint
      obtain ⟨n, -, rfl⟩ := ofInt?_eq_some_iff.mp hr
      exact .inr ⟨n, rfl⟩

theorem isSettled_ofFloat (x : Float) : (ofFloat x).IsSettled := by
  rcases ofFloat_eq_or x with hfloat | ⟨n, hint⟩
  · rw [IsSettled, hfloat]
    exact hfloat
  · have hvalue := toRat?_ofFloat x
    rw [hint] at hvalue ⊢
    exact isSettled_int_iff.mpr ⟨x, hvalue.symm⟩

/-- A decimal counts as an integer or as a double. -/
theorem ofFixed_eq_or (d : Fixed) :
    (∃ n : Int64, ofFixed d = .int n) ∨ ofFixed d = ofFloat d.toFloat := by
  by_cases hint : ∃ n : Int64, d.toRat = (n.toInt : ℚ)
  · obtain ⟨n, hn⟩ := hint
    exact .inl ⟨n, ofFixed_of_int hn⟩
  · exact .inr (ofFixed_of_not_int (not_exists.mp hint))

theorem ofFloat_eq_of_isEqual (h : isEqual x y = true) : ofFloat x = ofFloat y := by
  rcases Fixed.eq_or_zeros_of_isEqual h with rfl | ⟨hx, hy⟩
  · rfl
  · rw [ofFloat_of_int (n := 0) hx, ofFloat_of_int (n := 0) hy]

/-- A double and its short form count as the same number. -/
theorem ofFixed_of_ofFloat? (h : Fixed.ofFloat? x = some d) : ofFixed d = ofFloat x := by
  obtain ⟨hdigits, hscale, hequal⟩ := Fixed.isEqual_of_ofFloat? h
  rw [ofFixed_of_short hdigits hscale, ofFloat_eq_of_isEqual hequal]

end Number

/-! ## One and zero -/

namespace Arithmetic

variable {op : Arithmetic} {x y : Float} {a b d : Fixed}

/-- An operation that leaves the short form as it is leaves the number. -/
theorem apply_of_written? (hx : Fixed.ofFloat? x = some a) (hy : Fixed.ofFloat? y = some b)
    (hd : op.written? a b = some a) : op.apply x y = ofFloat x := by
  obtain ⟨hdigits, hscale, -⟩ := Fixed.ofFloat?_spec hx
  have hfits : a.Fits := ⟨hscale, hdigits.trans (by decide)⟩
  rw [apply_of_fit? hx hy hd (Fixed.fit?_eq_self hfits), ofFixed_of_ofFloat? hx]

/-- Without short forms the operation is one on doubles. -/
theorem apply_of_not_short (h : Fixed.ofFloat? x = none ∨ Fixed.ofFloat? y = none) :
    op.apply x y = ofFloat (op.onFloats x y) := by
  have hfixed : op.inFixed? x y = none := by
    rcases h with hx | hy
    · rw [inFixed?, hx]
      rfl
    · rw [inFixed?, hy]
      cases Fixed.ofFloat? x <;> rfl
  rw [apply, hfixed]

/-- A product with one is the other factor. -/
theorem multiply_one (x : Float) : multiply.apply x 1 = ofFloat x := by
  cases hx : Fixed.ofFloat? x with
  | none =>
      rw [apply_of_not_short (.inl hx)]
      exact congrArg ofFloat (mul_one_eq x)
  | some a =>
      have hone : Fixed.ofFloat? 1 = some ⟨1, 0⟩ := by decide +kernel
      refine apply_of_written? hx hone ?_
      rw [written?, Int.mul_one, Nat.add_zero]

/-- A sum with zero is the other summand. -/
theorem add_zero_apply (x : Float) : add.apply x 0 = ofFloat x := by
  cases hx : Fixed.ofFloat? x with
  | none =>
      have hne : x ≠ -0 := by
        rintro rfl
        exact absurd hx (by decide +kernel)
      rw [apply_of_not_short (.inl hx)]
      exact congrArg ofFloat (add_zero_eq hne)
  | some a =>
      have hzero : Fixed.ofFloat? 0 = some ⟨0, 0⟩ := by decide +kernel
      refine apply_of_written? hx hzero ?_
      simp [written?, Fixed.coefficientAt]

/-! ## Results -/

/-- A result is settled unless it is an integer that is no double. -/
theorem isSettled_apply (h : ∀ n, op.apply x y = .int n → IsDouble (n.toInt : ℚ)) :
    (op.apply x y).IsSettled := by
  cases hfixed : op.inFixed? x y with
  | none =>
      rw [apply, hfixed]
      exact isSettled_ofFloat _
  | some d =>
      have hresult : op.apply x y = ofFixed d := by rw [apply, hfixed]
      rw [hresult] at h ⊢
      rcases ofFixed_eq_or d with ⟨n, hn⟩ | hfloat
      · rw [hn]
        exact isSettled_int_iff.mpr (h n hn)
      · rw [hfloat]
        exact isSettled_ofFloat _

/-- A sum of short decimals that is an integer is a small one. -/
theorem abs_le_of_add_eq_int {n : Int64} (hx : Fixed.ofFloat? x = some a)
    (hy : Fixed.ofFloat? y = some b) (hn : add.apply x y = .int n) : n.toInt.natAbs ≤ 2 ^ 53 := by
  obtain ⟨d, hd⟩ : ∃ d, add.written? a b = some d := ⟨_, rfl⟩
  obtain ⟨v, hv, herror⟩ := apply_accurate hx hy hd
  rw [hn] at hv
  obtain rfl : (n.toInt : ℚ) = v := Option.some.inj hv
  have hsum : a.toRat + b.toRat = d.toRat := Option.some.inj (onRats?_of_written? hd)
  have hsize : |d.toRat| ≤ 2 * 10 ^ 15 := by
    have htriangle := abs_add_le a.toRat b.toRat
    rw [hsum] at htriangle
    linarith [Fixed.abs_toRat_le_of_ofFloat? hx, Fixed.abs_toRat_le_of_ofFloat? hy]
  have hbound : |(n.toInt : ℚ)| ≤ 2 ^ 53 := by
    have hsplit := abs_add_le d.toRat (n.toInt - d.toRat)
    rw [add_sub_cancel] at hsplit
    calc |(n.toInt : ℚ)| ≤ |d.toRat| + (|d.toRat| / 2 ^ 47 + 1 / 10 ^ 28) :=
          hsplit.trans (add_le_add_right herror _)
      _ ≤ 2 * 10 ^ 15 + (2 * 10 ^ 15 / 2 ^ 47 + 1 / 10 ^ 28) := by gcongr
      _ ≤ 2 ^ 53 := by norm_num
  rw [abs_intCast] at hbound
  exact_mod_cast hbound

/-- A sum is settled. -/
theorem isSettled_add (x y : Float) : (add.apply x y).IsSettled := by
  cases hx : Fixed.ofFloat? x with
  | none =>
      rw [apply_of_not_short (.inl hx)]
      exact isSettled_ofFloat _
  | some a =>
      cases hy : Fixed.ofFloat? y with
      | none =>
          rw [apply_of_not_short (.inr hy)]
          exact isSettled_ofFloat _
      | some b =>
          refine isSettled_apply fun n hn => ?_
          exact ⟨_, toRat?_ofInt (abs_le_of_add_eq_int hx hy hn)⟩

end Arithmetic

end DataRules
