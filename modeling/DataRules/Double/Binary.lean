set_option autoImplicit false

/-!
# Double: exact binary fractions

A finite double is a signed fraction `± mantissa · 2 ^ exponent`.  Everything
that has to be exact about doubles (whether one is whole, its integer part, the
remainder of a division, its decimal digits) is computed on that fraction in
natural and integer arithmetic, and `toFloat` rounds a fraction back to the
nearest double.
-/

namespace DataRules.Double

open Float.Model

/-- The exact number `± mantissa · 2 ^ exponent`. -/
structure Binary where
  /-- The number carries a minus sign; zero has one too. -/
  negative : Bool
  mantissa : Nat
  exponent : Int
  deriving DecidableEq, Repr

namespace Binary

/-- The fraction that a finite double is, `none` for an infinity and for NaN. -/
def ofFloat? (x : Float) : Option Binary :=
  match x.toModel.unpack with
  | .finite .negative m e _ => some ⟨true, m, e⟩
  | .finite .positive m e _ => some ⟨false, m, e⟩
  | .zero .negative => some ⟨true, 0, 0⟩
  | .zero .positive => some ⟨false, 0, 0⟩
  | _ => none

/-- The nearest double, ties to the even mantissa; too large is infinite. -/
def toFloat (b : Binary) : Float :=
  let sign := if b.negative then UnpackedFloat.Sign.negative else .positive
  .ofModel (.pack (UnpackedFloat.round Format.binary64 sign b.mantissa b.exponent))

/-- The magnitude as a quotient of two natural numbers, the second one positive. -/
def ratio (b : Binary) : Nat × Nat :=
  if 0 ≤ b.exponent then (b.mantissa * Nat.pow 2 b.exponent.toNat, 1)
  else (b.mantissa, Nat.pow 2 (-b.exponent).toNat)

/-- The integer `± n` with the sign of the fraction. -/
def signed (b : Binary) (n : Nat) : Int := if b.negative then -(n : Int) else n

/-- The integer part: the fraction cut toward zero. -/
def truncate (b : Binary) : Int := b.signed (b.ratio.1 / b.ratio.2)

/-- The fraction is an integer. -/
def isWhole (b : Binary) : Bool := b.ratio.1 % b.ratio.2 == 0

/-- The nearest integer, a half going away from zero. -/
def roundHalfAway (b : Binary) : Int := b.signed ((2 * b.ratio.1 + b.ratio.2) / (2 * b.ratio.2))

/-- The mantissa that the fraction has at a smaller exponent `e`. -/
def mantissaAt (b : Binary) (e : Int) : Nat := b.mantissa * Nat.pow 2 (b.exponent - e).toNat

/-- What is left of `a` when the largest multiple of `b` that is no larger in
magnitude is taken away: exact, with the sign of `a`.  Zero for `b = 0`. -/
def remainder (a b : Binary) : Binary :=
  let e := min a.exponent b.exponent
  ⟨a.negative, a.mantissaAt e % b.mantissaAt e, e⟩

theorem ratio_den_pos (b : Binary) : 0 < b.ratio.2 := by
  unfold ratio
  split
  · exact Nat.one_pos
  · exact Nat.two_pow_pos _

/-- A whole fraction is its integer part. -/
theorem ratio_eq_of_isWhole {b : Binary} (h : b.isWhole = true) :
    b.ratio.1 = b.ratio.1 / b.ratio.2 * b.ratio.2 := by
  rw [isWhole, beq_iff_eq] at h
  exact (Nat.div_mul_cancel (Nat.dvd_of_mod_eq_zero h)).symm

theorem ofFloat?_isSome (x : Float) : (ofFloat? x).isSome = x.isFinite := by
  unfold ofFloat? Float.isFinite Float.Model.isFinite
  cases x.toModel.unpack with
  | notANumber => rfl
  | infinity s => rfl
  | zero s => cases s <;> rfl
  | finite s m e h => cases s <;> rfl

end Binary

/-! ## Questions about a double -/

/-- Positive infinity. -/
def infinity : Float := 1 / 0

/-- The double that is no number. -/
def nan : Float := 0 / 0

/-- The double as an integer, when it is a whole number. -/
def whole? (x : Float) : Option Int :=
  match Binary.ofFloat? x with
  | some b => if b.isWhole then some b.truncate else none
  | none => none

/-- The double cut toward zero and brought into `[-bound, bound]`; NaN is zero. -/
def truncateWithin (bound : Nat) (x : Float) : Int :=
  match Binary.ofFloat? x with
  | some b => max (-(bound : Int)) (min bound b.truncate)
  | none => if x.isNaN then 0 else if x < 0 then -bound else bound

/-- The remainder of the division whose quotient is cut toward zero.  It is NaN
without a finite dividend and a non-zero divisor, and the dividend itself when
the divisor is infinite. -/
def remainder (x y : Float) : Float :=
  match Binary.ofFloat? x, Binary.ofFloat? y with
  | some a, some b => if b.mantissa = 0 then nan else (Binary.remainder a b).toFloat
  | some _, none => if y.isNaN then y else x
  | none, _ => nan

/-- How two doubles compare; NaN compares with nothing, and the zeros are equal. -/
def order? (x y : Float) : Option Ordering := x.toModel.compare y.toModel

/-- The two doubles are the same number; NaN is no number. -/
def isEqual (x y : Float) : Bool := order? x y == some .eq

theorem neg_bound_le_truncateWithin (bound : Nat) (x : Float) :
    -(bound : Int) ≤ truncateWithin bound x := by
  unfold truncateWithin
  split
  · omega
  · split
    · omega
    · split <;> omega

private theorem compare_then_swap (e f : Int) (m n : Nat) :
    (compare f e).then (compare n m) = ((compare e f).then (compare m n)).swap := by
  rw [Ordering.swap_then, ← Std.OrientedOrd.eq_swap, ← Std.OrientedOrd.eq_swap]

private theorem unpacked_compare_swap (a b : UnpackedFloat) :
    b.compare a = (a.compare b).map Ordering.swap := by
  cases a with
  | notANumber => cases b <;> rfl
  | infinity s => cases s <;> rcases b with t | _ | t | ⟨t, _, _⟩ <;> (try cases t) <;> rfl
  | zero s => rcases b with t | _ | t | ⟨t, _, _⟩ <;> (try cases t) <;> rfl
  | finite s m e h =>
      cases s <;> rcases b with t | _ | t | ⟨t, n, f, _⟩ <;> (try cases t) <;> try rfl
      · exact congrArg (fun o => some o.swap) (compare_then_swap e f m n)
      · exact congrArg some (compare_then_swap e f m n)

/-- Exchanging the two doubles reverses the answer. -/
theorem order?_swap (x y : Float) : order? y x = (order? x y).map Ordering.swap :=
  unpacked_compare_swap x.toModel.unpack y.toModel.unpack

end DataRules.Double
