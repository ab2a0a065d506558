import DataRules.Proofs.Double.Packing

set_option autoImplicit false

/-!
# Integers: whole numbers among the doubles

An integer below `2 ^ 53` in magnitude converts to a double that is the same
number.  Such doubles compare as the integers do, with each other and with the
doubles of larger integers, which are rounded.  A decimal `digits · 10 ^ exponent`
without places after the point converts like the natural number that it is.
-/

namespace DataRules.Double

open Float.Model Float.Model.UnpackedFloat

/-! ## Decimals that are natural numbers -/

/-- The unpacked number is the double of a natural number from `2 ^ 53` on. -/
inductive IsLarge : UnpackedFloat → Prop where
  | infinity : IsLarge (.infinity .positive)
  | finite {c : Nat} {k : Int} (hpos : 0 < c) (hc : c.log2 = 52) (hk : 1 ≤ k) :
      IsLarge (.finite .positive c k hpos)

/-- The packed number is the double nearest to the natural number `n`, as far as
it matters when `n` is large. -/
def IsNearest (x : Float.Model) (n : Nat) : Prop :=
  (n < 2 ^ 53 → x = .pack (unpackedNat n)) ∧ (2 ^ 53 ≤ n → ∃ u, IsLarge u ∧ x = .pack u)

section

variable {m m' n n' : Nat} {e e' : Int}

theorem isNearest_roundWithAccuracy (hn : 0 < n) (hm : 52 ≤ m.log2) (hvalue : Amounts m e n) :
    IsNearest (.pack (roundWithAccuracy .binary64 .positive m e .exact)) n := by
  constructor
  · intro hsmall
    rw [roundWithAccuracy_of_lt hn hsmall hm hvalue]
  · intro hlarge
    obtain ⟨c, k, hpos, hc, hk, hround⟩ := roundWithAccuracy_of_le hlarge hm hvalue
    exact ⟨_, .finite hpos hc hk, congrArg Float.Model.pack hround⟩

/-- A product of natural numbers is rounded once. -/
theorem isNearest_mul (hn : 0 < n) (hn' : 0 < n') (hpos : 0 < m) (hpos' : 0 < m')
    (hm : 52 ≤ m.log2) (hvalue : Amounts m e n) (hvalue' : Amounts m' e' n') :
    IsNearest (.pack (UnpackedFloat.mul .binary64 (.finite .positive m e hpos)
      (.finite .positive m' e' hpos'))) (n * n') := by
  have hlog : 52 ≤ (m * m').log2 := by
    rw [Nat.le_log2 (Nat.ne_of_gt (Nat.mul_pos hpos hpos'))]
    calc 2 ^ 52 ≤ m := (Nat.le_log2 (Nat.ne_of_gt hpos)).mp hm
      _ ≤ m * m' := Nat.le_mul_of_pos_right m hpos'
  exact isNearest_roundWithAccuracy (Nat.mul_pos hn hn') hlog (hvalue.mul hvalue')

end

theorem amounts_unpackedNat {n : Nat} (hn : 0 < n) (hsmall : n < 2 ^ 53) :
    Amounts (n * 2 ^ (52 - n.log2)) ((n.log2 : Int) - 52) n := by
  have hlog := log2_lt_of_lt hn hsmall
  have hneg : (n.log2 : Int) - 52 = -((52 - n.log2 : Nat) : Int) := by omega
  rw [hneg]
  exact Amounts.shift n _

/-- The conversion of a natural number below `2 ^ 53`. -/
theorem ofUInt64_eq {n : Nat} (hsmall : n < 2 ^ 53) :
    Float.Model.ofUInt64 n.toUInt64 = .pack (unpackedNat n) := by
  have htoNat : n.toUInt64.toNat = n := by
    rw [Nat.toUInt64_eq, UInt64.toNat_ofNat_of_lt']
    exact Nat.lt_trans hsmall (by decide)
  show Float.Model.pack (UnpackedFloat.normalize .binary64 (n.toUInt64.toNat : Int) 0 .positive) = _
  rw [htoNat]
  rcases Nat.eq_zero_or_pos n with rfl | hn
  · rfl
  · have hcompare : compare (n : Int) 0 = .gt := Int.compare_eq_gt.mpr (by omega)
    rw [UnpackedFloat.normalize, hcompare]
    exact congrArg Float.Model.pack (round_of_lt hn hsmall (Amounts.self n))

/-- The unpacked number has a significand of 53 bits and is a power of ten. -/
def isPowerOfTen (e : Nat) : UnpackedFloat → Bool
  | .finite .positive m k _ => m.log2 = 52 && Amounts m k (10 ^ e)
  | _ => false

/-- The powers of ten that are doubles are tabulated correctly. -/
theorem isPowerOfTen_table : ∀ e : Fin Float.exactlyRepresentablePowersOfTen.size,
    isPowerOfTen e Float.exactlyRepresentablePowersOfTen[e].toModel.unpack = true := by
  decide +kernel

theorem eq_of_isPowerOfTen {e : Nat} {u : UnpackedFloat} (h : isPowerOfTen e u = true) :
    ∃ m k hpos, u = .finite .positive m k hpos ∧ m.log2 = 52 ∧ Amounts m k (10 ^ e) := by
  unfold isPowerOfTen at h
  split at h
  · next m k hpos =>
      rw [Bool.and_eq_true, decide_eq_true_iff, decide_eq_true_iff] at h
      exact ⟨m, k, hpos, rfl, h⟩
  · cases h

theorem isNearest_zero : IsNearest (.pack (.zero .positive)) 0 :=
  ⟨fun _ => rfl, fun h => absurd h (by decide)⟩

/-- Up to `2 ^ 53` the digits are multiplied by a power of ten from the table. -/
theorem isNearest_mul_table {digits e : Nat} (hdigits : digits < 2 ^ 53)
    (hsize : e < Float.exactlyRepresentablePowersOfTen.size) :
    IsNearest (.pack (UnpackedFloat.mul .binary64 (Float.Model.ofUInt64 digits.toUInt64).unpack
      Float.exactlyRepresentablePowersOfTen[e].toModel.unpack)) (digits * 10 ^ e) := by
  obtain ⟨m, k, hpos, hpower, hm, hvalue⟩ := eq_of_isPowerOfTen (isPowerOfTen_table ⟨e, hsize⟩)
  rw [Fin.getElem_fin] at hpower
  rw [ofUInt64_eq hdigits, (Stored.unpackedNat hdigits).unpack_pack, hpower]
  rcases Nat.eq_zero_or_pos digits with rfl | hn
  · rw [Nat.zero_mul]
    exact isNearest_zero
  · rw [unpackedNat_of_pos hn]
    exact isNearest_mul hn (Nat.pow_pos (by decide)) _ hpos
      (Nat.le_of_eq (log2_significand hn hdigits).symm) (amounts_unpackedNat hn hdigits) hvalue

/-- Otherwise the power is computed, unless it is so large that the result is infinite. -/
theorem isNearest_unpackedOfScientific (digits e : Nat) :
    IsNearest (.pack (UnpackedFloat.ofScientific .binary64 digits (e : Int)))
      (digits * 10 ^ e) := by
  rw [UnpackedFloat.ofScientific]
  split
  · next hzero =>
      rw [hzero, Nat.zero_mul]
      exact isNearest_zero
  · next hn =>
      have hdigits : 0 < digits := Nat.pos_of_ne_zero hn
      split
      · next hhuge =>
          have hlarge : 2 ^ 53 ≤ digits * 10 ^ e := by
            have hbound : (2 ^ 11 : Int) < e := hhuge
            have he : 16 ≤ e := by omega
            calc 2 ^ 53 ≤ 10 ^ 16 := by decide
              _ ≤ 10 ^ e := Nat.pow_le_pow_right (by decide) he
              _ ≤ digits * 10 ^ e := Nat.le_mul_of_pos_left _ hdigits
          exact ⟨fun hsmall => absurd hlarge (Nat.not_le_of_gt hsmall), fun _ => ⟨_, .infinity, rfl⟩⟩
      · rw [if_neg (by omega), if_pos (Int.natCast_nonneg e)]
        simp only [Nat.shiftLeft_eq, Int.toNat_natCast]
        have hbits : digits * 2 ^ Format.binary64.mantissaBits = digits * 2 ^ 53 := rfl
        refine isNearest_mul hdigits (Nat.pow_pos (by decide)) _ _ ?_
          (Amounts.shift digits 53) (Amounts.self _)
        rw [hbits, log2_mul_two_pow hn]
        omega

/-- The decimal `digits · 10 ^ e` is converted like the natural number that it is. -/
theorem isNearest_ofScientific (digits e : Nat) :
    IsNearest (Float.ofScientific digits false e).toModel (digits * 10 ^ e) := by
  rw [Float.ofScientific]
  split
  · next hfast =>
      have hsize : e < Float.exactlyRepresentablePowersOfTen.size := Nat.lt_succ_of_le hfast.2
      exact isNearest_mul_table hfast.1 hsize
  · exact isNearest_unpackedOfScientific digits e

/-! ## Integers -/

/-- The sign of an integer, positive for zero. -/
def signOf (i : Int) : Sign := if i < 0 then .negative else .positive

/-- An integer as a significand of 53 bits and an exponent. -/
def unpackedInt (i : Int) : UnpackedFloat :=
  if i < 0 then (unpackedNat i.natAbs).neg else unpackedNat i.natAbs

theorem unpackedInt_of_ne_zero {i : Int} (hi : i ≠ 0) :
    unpackedInt i = .finite (signOf i) (i.natAbs * 2 ^ (52 - i.natAbs.log2))
      ((i.natAbs.log2 : Int) - 52)
      (Nat.mul_pos (Int.natAbs_pos.mpr hi) (Nat.two_pow_pos _)) := by
  rw [unpackedInt, unpackedNat_of_pos (Int.natAbs_pos.mpr hi), signOf]
  split <;> rfl

/-- The unpacked number is the double of an integer of magnitude `2 ^ 53` or more. -/
inductive IsLargeSigned : UnpackedFloat → Prop where
  | infinity (s : Sign) : IsLargeSigned (.infinity s)
  | finite {c : Nat} {k : Int} (s : Sign) (hpos : 0 < c) (hk : 1 ≤ k) :
      IsLargeSigned (.finite s c k hpos)

theorem unpack_neg (x : Float) : (-x).toModel.unpack = x.toModel.unpack.neg :=
  (stored_unpack x.toModel).neg.unpack_pack

theorem ofInt_eq (i : Int) :
    Float.ofInt i = if i < 0 then -Float.ofNat i.natAbs else Float.ofNat i.natAbs := by
  cases i with
  | ofNat n => rfl
  | negSucc n =>
      rw [if_pos (Int.negSucc_lt_zero n)]
      rfl

theorem isNearest_ofNat (n : Nat) : IsNearest (Float.ofNat n).toModel n := by
  have h := isNearest_ofScientific n 0
  rwa [Nat.pow_zero, Nat.mul_one] at h

theorem toModel_ofNat {n : Nat} (hsmall : n < 2 ^ 53) :
    (Float.ofNat n).toModel = .pack (unpackedNat n) :=
  (isNearest_ofNat n).1 hsmall

/-- An integer below `2 ^ 53` in magnitude converts to a double with its digits. -/
theorem unpack_ofInt {i : Int} (hsmall : i.natAbs < 2 ^ 53) :
    (Float.ofInt i).toModel.unpack = unpackedInt i := by
  have hnat : (Float.ofNat i.natAbs).toModel.unpack = unpackedNat i.natAbs := by
    rw [toModel_ofNat hsmall, (Stored.unpackedNat hsmall).unpack_pack]
  rw [ofInt_eq, unpackedInt]
  split
  · rw [unpack_neg, hnat]
  · exact hnat

/-- What is packed as a large number stays one. -/
theorem IsLarge.packed {u : UnpackedFloat} (h : IsLarge u) :
    IsLargeSigned (Float.Model.pack u).unpack := by
  cases h with
  | infinity =>
      rw [(Stored.infinity .positive).unpack_pack]
      exact .infinity _
  | @finite c k hpos hc hk =>
      by_cases hhigh : 971 < k
      · rw [pack_finite_of_lt .positive hpos hhigh, (Stored.infinity .positive).unpack_pack]
        exact .infinity _
      · rw [unpack_pack_finite .positive hpos hc (by omega) (by omega)]
        exact .finite _ hpos hk

/-- Any other integer converts to a double with a positive exponent, or to an
infinity. -/
theorem isLargeSigned_ofInt {i : Int} (hlarge : 2 ^ 53 ≤ i.natAbs) :
    IsLargeSigned (Float.ofInt i).toModel.unpack := by
  obtain ⟨u, hu, hnat⟩ := (isNearest_ofNat i.natAbs).2 hlarge
  have hlargeNat := hu.packed
  rw [← hnat] at hlargeNat
  rw [ofInt_eq]
  split
  · rw [unpack_neg]
    generalize (Float.ofNat i.natAbs).toModel.unpack = v at hlargeNat
    cases hlargeNat with
    | infinity s => exact .infinity _
    | finite s hpos hk => exact .finite _ hpos hk
  · exact hlargeNat

/-! ## Comparing -/

theorem compare_finite_eq_iff {s s' : Sign} {c c' : Nat} {k k' : Int} {hpos : 0 < c}
    {hpos' : 0 < c'} :
    (UnpackedFloat.finite s c k hpos).compare (.finite s' c' k' hpos') = some .eq ↔
      s = s' ∧ c = c' ∧ k = k' := by
  cases s <;> cases s' <;>
    simp [UnpackedFloat.compare, Ordering.swap_eq_eq, Ordering.then_eq_eq, and_comm]

/-- An integer is told from its significand and its exponent. -/
theorem eq_of_significand {m n : Nat} (h : m * 2 ^ (52 - m.log2) = n * 2 ^ (52 - n.log2))
    (hlog : (m.log2 : Int) - 52 = (n.log2 : Int) - 52) : m = n := by
  have hsame : m.log2 = n.log2 := by omega
  rw [hsame] at h
  exact Nat.eq_of_mul_eq_mul_right (Nat.two_pow_pos _) h

theorem signOf_injective {i j : Int} (h : signOf i = signOf j) (habs : i.natAbs = j.natAbs) :
    i = j := by
  unfold signOf at h
  split at h <;> split at h <;> first | omega | cases h

theorem compare_unpackedInt_eq_iff {i j : Int} :
    (unpackedInt i).compare (unpackedInt j) = some .eq ↔ i = j := by
  by_cases hi : i = 0 <;> by_cases hj : j = 0
  · subst hi hj
    exact ⟨fun _ => rfl, fun _ => rfl⟩
  · subst hi
    have hne : (0 : Int) ≠ j := fun h => hj h.symm
    rw [unpackedInt_of_ne_zero hj, signOf]
    refine ⟨fun h => absurd h ?_, fun h => absurd h hne⟩
    split <;> simp [unpackedInt, unpackedNat, UnpackedFloat.compare]
  · subst hj
    rw [unpackedInt_of_ne_zero hi, signOf]
    refine ⟨fun h => absurd h ?_, fun h => absurd h hi⟩
    split <;> simp [unpackedInt, unpackedNat, UnpackedFloat.compare]
  · rw [unpackedInt_of_ne_zero hi, unpackedInt_of_ne_zero hj, compare_finite_eq_iff]
    constructor
    · rintro ⟨hsign, hsignificand, hexponent⟩
      exact signOf_injective hsign (eq_of_significand hsignificand hexponent)
    · rintro rfl
      exact ⟨rfl, rfl, rfl⟩

theorem compare_large_ne {i : Int} (hsmall : i.natAbs < 2 ^ 53) {u : UnpackedFloat}
    (hlarge : IsLargeSigned u) : (unpackedInt i).compare u ≠ some .eq := by
  by_cases hi : i = 0
  · subst hi
    have hzero : unpackedInt 0 = .zero .positive := rfl
    rw [hzero]
    cases hlarge with
    | infinity s => cases s <;> simp [UnpackedFloat.compare]
    | finite s => cases s <;> simp [UnpackedFloat.compare]
  · have hlog := log2_lt_of_lt (Int.natAbs_pos.mpr hi) hsmall
    rw [unpackedInt_of_ne_zero hi]
    cases hlarge with
    | infinity s => cases s <;> simp [UnpackedFloat.compare]
    | finite s hpos hk =>
        rw [ne_eq, compare_finite_eq_iff]
        rintro ⟨-, -, hexponent⟩
        omega

/-- An integer below `2 ^ 53` in magnitude and any other integer are the same double
only if they are the same integer. -/
theorem isEqual_ofInt {i : Int} (hsmall : i.natAbs < 2 ^ 53) (j : Int) :
    isEqual (Float.ofInt i) (Float.ofInt j) = decide (i = j) := by
  have hiff : order? (Float.ofInt i) (Float.ofInt j) = some .eq ↔ i = j := by
    show (Float.ofInt i).toModel.unpack.compare (Float.ofInt j).toModel.unpack = some .eq ↔ i = j
    rw [unpack_ofInt hsmall]
    by_cases hj : j.natAbs < 2 ^ 53
    · rw [unpack_ofInt hj]
      exact compare_unpackedInt_eq_iff
    · have hne : i ≠ j := by
        rintro rfl
        exact hj hsmall
      have hlarge := isLargeSigned_ofInt (Nat.le_of_not_lt hj)
      exact ⟨fun h => absurd h (compare_large_ne hsmall hlarge), fun h => absurd h hne⟩
  rw [isEqual, Bool.eq_iff_iff, beq_iff_eq, decide_eq_true_iff]
  exact hiff

/-- The double of an integer is a number. -/
theorem isNaN_ofInt {i : Int} (hsmall : i.natAbs < 2 ^ 53) : (Float.ofInt i).isNaN = false := by
  show (Float.ofInt i).toModel.unpack.isNaN = false
  rw [unpack_ofInt hsmall]
  by_cases hi : i = 0
  · subst hi
    rfl
  · rw [unpackedInt_of_ne_zero hi]
    rfl

/-! ## The exact fraction -/

namespace Binary

variable {b : Binary} {n : Nat}

/-- The fraction that the double of an integer is. -/
theorem ofFloat?_ofInt {i : Int} (hsmall : i.natAbs < 2 ^ 53) :
    ∃ b, ofFloat? (Float.ofInt i) = some b ∧ b.negative = decide (i < 0) ∧
      Amounts b.mantissa b.exponent i.natAbs := by
  rw [ofFloat?, unpack_ofInt hsmall]
  by_cases hi : i = 0
  · subst hi
    exact ⟨⟨false, 0, 0⟩, rfl, rfl, rfl⟩
  · have hvalue := amounts_unpackedNat (Int.natAbs_pos.mpr hi) hsmall
    rw [unpackedInt_of_ne_zero hi, signOf]
    by_cases hneg : i < 0
    · rw [if_pos hneg]
      exact ⟨⟨true, _, _⟩, rfl, (decide_eq_true hneg).symm, hvalue⟩
    · rw [if_neg hneg]
      exact ⟨⟨false, _, _⟩, rfl, (decide_eq_false hneg).symm, hvalue⟩

theorem ratio_of_amounts (h : Amounts b.mantissa b.exponent n) : b.ratio.1 = n * b.ratio.2 := by
  rw [Amounts] at h
  rw [ratio]
  split
  · next he =>
      rw [show (-b.exponent).toNat = 0 by omega, Nat.pow_zero] at h
      exact h
  · next he =>
      rw [show b.exponent.toNat = 0 by omega, Nat.pow_zero, Nat.mul_one] at h
      exact h

theorem toFloat_of_amounts (hn : 0 < n) (hsmall : n < 2 ^ 53) (hnegative : b.negative = false)
    (h : Amounts b.mantissa b.exponent n) : b.toFloat = Float.ofNat n := by
  rw [toFloat, hnegative, if_neg Bool.false_ne_true, round_of_lt hn hsmall h,
    ← toModel_ofNat hsmall]

end Binary

/-- The double of an integer below `2 ^ 53` in magnitude is that integer. -/
theorem whole?_ofInt {i : Int} (hsmall : i.natAbs < 2 ^ 53) : whole? (Float.ofInt i) = some i := by
  obtain ⟨b, hb, hnegative, hvalue⟩ := Binary.ofFloat?_ofInt hsmall
  have hratio := Binary.ratio_of_amounts hvalue
  have hwhole : b.isWhole = true := by
    rw [Binary.isWhole, hratio, Nat.mul_mod_left]
    rfl
  have htruncate : b.truncate = i := by
    rw [Binary.truncate, hratio, Nat.mul_div_cancel _ b.ratio_den_pos, Binary.signed, hnegative]
    split
    · next hi =>
        rw [decide_eq_true_iff] at hi
        omega
    · next hi =>
        rw [decide_eq_true_iff] at hi
        omega
  rw [whole?, hb]
  exact (if_pos hwhole).trans (congrArg some htruncate)

/-! ## The only double of an integer -/

/-- A whole fraction is a natural number. -/
theorem Binary.amounts_of_isWhole {b : Binary} (h : b.isWhole = true) :
    Amounts b.mantissa b.exponent (b.ratio.1 / b.ratio.2) := by
  have hratio := ratio_eq_of_isWhole h
  rw [Amounts]
  generalize b.ratio.1 / b.ratio.2 = n at hratio
  rw [ratio] at hratio
  split at hratio
  · next he =>
      rw [show (-b.exponent).toNat = 0 by omega]
      exact hratio
  · next he =>
      rw [show b.exponent.toNat = 0 by omega, Nat.pow_zero, Nat.mul_one]
      exact hratio

/-- There is one way to unpack to a natural number below `2 ^ 53`. -/
theorem unpack_eq_of_amounts {x : Float.Model} {s : Sign} {m n : Nat} {e : Int} {hpos : 0 < m}
    (hunpack : x.unpack = .finite s m e hpos) (hn : 0 < n) (hsmall : n < 2 ^ 53)
    (hvalue : Amounts m e n) :
    m = n * 2 ^ (52 - n.log2) ∧ e = (n.log2 : Int) - 52 := by
  have hlog := hvalue.log2_add hn
  have hn53 := log2_lt_of_lt hn hsmall
  rcases unpack_finite hunpack with hm | ⟨he, hm⟩
  · rw [Amounts, show e.toNat = 0 by omega, show (-e).toNat = 52 - n.log2 by omega, Nat.pow_zero,
      Nat.mul_one] at hvalue
    exact ⟨hvalue, by omega⟩
  · omega

theorem toModel_injective {x y : Float} (h : x.toModel = y.toModel) : x = y := by
  cases x
  cases y
  exact congrArg Float.ofModel h

/-- A double is told from what it is unpacked to. -/
theorem eq_of_unpack_eq {x y : Float} (h : x.toModel.unpack = y.toModel.unpack) : x = y := by
  refine toModel_injective ?_
  rw [← pack_unpack x.toModel, h, pack_unpack]

/-- The sign of a fraction. -/
def Binary.sign (b : Binary) : Sign := if b.negative then .negative else .positive

/-- A double with a fraction is a zero or is finite. -/
theorem Binary.unpack_of_ofFloat? {x : Float} {b : Binary} (h : ofFloat? x = some b) :
    b = ⟨b.negative, 0, 0⟩ ∧ x.toModel.unpack = .zero b.sign ∨
      ∃ hpos, x.toModel.unpack = .finite b.sign b.mantissa b.exponent hpos := by
  unfold ofFloat? at h
  split at h
  · next m e hpos hunpack =>
      obtain rfl := Option.some.inj h
      exact .inr ⟨hpos, hunpack⟩
  · next m e hpos hunpack =>
      obtain rfl := Option.some.inj h
      exact .inr ⟨hpos, hunpack⟩
  · next hunpack =>
      obtain rfl := Option.some.inj h
      exact .inl ⟨rfl, hunpack⟩
  · next hunpack =>
      obtain rfl := Option.some.inj h
      exact .inl ⟨rfl, hunpack⟩
  · cases h

theorem Binary.natAbs_signed (b : Binary) (n : Nat) : (b.signed n).natAbs = n := by
  rw [signed]
  split <;> omega

theorem Binary.signOf_signed (b : Binary) {n : Nat} (hn : 0 < n) :
    signOf (b.signed n) = b.sign := by
  rw [signOf, signed, sign]
  cases b.negative with
  | true => exact if_pos (by simp only [if_true]; omega)
  | false => exact if_neg (by simp)

theorem exists_of_whole? {x : Float} {i : Int} (h : whole? x = some i) :
    ∃ b, Binary.ofFloat? x = some b ∧ b.isWhole = true ∧ b.truncate = i := by
  unfold whole? at h
  split at h
  · next b hb =>
      split at h
      · next hisWhole => exact ⟨b, hb, hisWhole, Option.some.inj h⟩
      · cases h
  · cases h

/-- There is one zero without a minus sign. -/
theorem unpack_eq_zero {x : Float} {s : Sign} (hunpack : x.toModel.unpack = .zero s)
    (hzero : x ≠ -0) : x.toModel.unpack = .zero .positive := by
  cases s with
  | positive => exact hunpack
  | negative => exact absurd (eq_of_unpack_eq hunpack) hzero

/-- A whole fraction other than zero is unpacked like its integer. -/
theorem Binary.unpack_eq_unpackedInt {x : Float} {b : Binary} {hpos : 0 < b.mantissa}
    (hunpack : x.toModel.unpack = .finite b.sign b.mantissa b.exponent hpos)
    (hisWhole : b.isWhole = true) (hsmall : b.truncate.natAbs < 2 ^ 53) :
    x.toModel.unpack = unpackedInt b.truncate := by
  have hvalue := amounts_of_isWhole hisWhole
  rw [truncate] at hsmall ⊢
  generalize b.ratio.1 / b.ratio.2 = n at hvalue hsmall ⊢
  have habs : (b.signed n).natAbs = n := natAbs_signed b n
  have hn : 0 < n := by
    refine Nat.pos_of_ne_zero fun hn => ?_
    rw [hn, Amounts, Nat.zero_mul] at hvalue
    exact absurd hvalue (Nat.ne_of_gt (Nat.mul_pos hpos (Nat.two_pow_pos _)))
  have hi : b.signed n ≠ 0 := by omega
  rw [habs] at hsmall
  obtain ⟨hmantissa, hexponent⟩ := unpack_eq_of_amounts hunpack hn hsmall hvalue
  rw [hunpack, unpackedInt_of_ne_zero hi]
  simp only [UnpackedFloat.finite.injEq]
  rw [signOf_signed b hn, habs]
  exact ⟨rfl, hmantissa, hexponent⟩

/-- A double that is an integer below `2 ^ 53` in magnitude is the one that the integer
converts to, unless it is the zero with a minus sign. -/
theorem eq_ofInt_of_whole? {x : Float} {i : Int} (hsmall : i.natAbs < 2 ^ 53)
    (hwhole : whole? x = some i) (hzero : x ≠ -0) : x = Float.ofInt i := by
  obtain ⟨b, hb, hisWhole, rfl⟩ := exists_of_whole? hwhole
  have hunpacked : x.toModel.unpack = unpackedInt b.truncate := by
    rcases Binary.unpack_of_ofFloat? hb with ⟨hzeros, hunpack⟩ | ⟨hpos, hunpack⟩
    · have htruncate : b.truncate = 0 := by
        rw [hzeros]
        cases b.negative <;> rfl
      rw [unpack_eq_zero hunpack hzero, htruncate]
      rfl
    · exact Binary.unpack_eq_unpackedInt hunpack hisWhole hsmall
  exact eq_of_unpack_eq (hunpacked.trans (unpack_ofInt hsmall).symm)

/-- The double of an integer is not the zero with a minus sign. -/
theorem ofInt_ne_negZero (i : Int) : Float.ofInt i ≠ -0 := by
  intro h
  have hnegative : (-0 : Float).toModel.unpack = .zero .negative := by rfl
  rw [← h] at hnegative
  by_cases hsmall : i.natAbs < 2 ^ 53
  · rw [unpack_ofInt hsmall] at hnegative
    by_cases hi : i = 0
    · subst hi
      cases hnegative
    · rw [unpackedInt_of_ne_zero hi] at hnegative
      cases hnegative
  · have hlarge := isLargeSigned_ofInt (Nat.le_of_not_lt hsmall)
    rw [hnegative] at hlarge
    cases hlarge

end DataRules.Double
