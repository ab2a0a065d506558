import DataRules.Double.Layout
import DataRules.Proofs.Double.Integers

set_option autoImplicit false

/-!
# Digits: how the doubles of integers are written

The double of an integer below `2 ^ 53` in magnitude is written with the digits of
the integer.  The search for the shortest digits may end before the grid of units,
with the trailing zeros left out; but what it finds there is the integer itself,
since no other natural number reads as the same double, and the zeros are written
again.
-/

namespace DataRules.Double

open Float.Model Float.Model.UnpackedFloat

/-! ## What reads as an integer is that integer -/

theorem unpackedInt_natCast (n : Nat) : unpackedInt n = unpackedNat n := by
  rw [unpackedInt, if_neg (Int.not_lt.mpr (Int.natCast_nonneg n)), Int.natAbs_natCast]

/-- Two natural numbers with one nearest double are the same, when one of them is
below `2 ^ 53`. -/
theorem eq_of_isNearest {x : Float.Model} {m n : Nat} (hm : IsNearest x m) (hn : IsNearest x n)
    (hsmall : n < 2 ^ 53) : m = n := by
  have hx : x.unpack = unpackedInt n := by
    rw [hn.1 hsmall, (Stored.unpackedNat hsmall).unpack_pack, unpackedInt_natCast]
  have hself : (unpackedInt n).compare (unpackedInt n) = some .eq :=
    compare_unpackedInt_eq_iff.mpr rfl
  by_cases hmsmall : m < 2 ^ 53
  · have hxm : x.unpack = unpackedInt m := by
      rw [hm.1 hmsmall, (Stored.unpackedNat hmsmall).unpack_pack, unpackedInt_natCast]
    have hcompare : (unpackedInt m).compare (unpackedInt n) = some .eq := by
      rw [← hxm, hx, hself]
    exact Int.natCast_inj.mp (compare_unpackedInt_eq_iff.mp hcompare)
  · obtain ⟨u, hu, hpack⟩ := hm.2 (Nat.le_of_not_lt hmsmall)
    have hlarge := hu.packed
    rw [← hpack, hx] at hlarge
    exact absurd hself (compare_large_ne (i := n) hsmall hlarge)

namespace Decimal

/-- A decimal without places after the point that reads as an integer is that
integer. -/
theorem digits_eq_of_toFloat {d : Decimal} {n : Nat} (hexponent : 0 ≤ d.exponent)
    (hsmall : n < 2 ^ 53) (h : d.toFloat = Float.ofNat n) :
    d.digits * 10 ^ d.exponent.toNat = n := by
  have hd : IsNearest d.toFloat.toModel (d.digits * 10 ^ d.exponent.toNat) := by
    have hsign : decide (d.exponent < 0) = false := decide_eq_false (by omega)
    rw [toFloat, hsign, show d.exponent.natAbs = d.exponent.toNat by omega]
    exact isNearest_ofScientific _ _
  rw [h] at hd
  exact eq_of_isNearest hd (isNearest_ofNat n) hsmall

end Decimal

/-! ## The search for the shortest digits -/

namespace Shortest

theorem exponent_nonneg_of_mem_neighbours {tie : Tie} {num den n : Nat} {d : Decimal}
    (hscale : (n : Int) ≤ decimalScale num den) (h : d ∈ neighbours tie num den n) :
    0 ≤ d.exponent := by
  have hdrop : ∀ d : Decimal, 0 ≤ d.exponent → 0 ≤ d.dropZero.exponent := by
    intro d hd
    rw [Decimal.dropZero]
    split
    · exact Int.add_nonneg hd (by decide)
    · exact hd
  have hgrid : 0 ≤ decimalScale num den - n := by omega
  simp only [neighbours] at h
  split at h
  · rw [List.mem_singleton] at h
    rw [h]
    exact hgrid
  · split at h
    · rcases List.mem_cons.mp h with rfl | h
      · exact hgrid
      · rw [List.mem_singleton.mp h]
        exact hdrop _ hgrid
    · rcases List.mem_cons.mp h with rfl | h
      · exact hdrop _ hgrid
      · rw [List.mem_singleton.mp h]
        exact hgrid

/-- On the grid of units a natural number has itself alone for a neighbour. -/
theorem neighbours_units (tie : Tie) {n den : Nat} (hden : 0 < den)
    (hscale : decimalScale (n * den) den = digitCount n) :
    neighbours tie (n * den) den (digitCount n) = [⟨n, 0⟩] := by
  have hunits : inUnits (n * den) den 0 = (n * den, den) := by
    rw [inUnits, if_pos (Int.le_refl 0)]
    simp
  simp only [neighbours, hscale, Int.sub_self, hunits]
  rw [if_pos (Nat.mul_mod_left _ _), Nat.mul_div_cancel _ hden]

theorem decimalScale_of_whole {n den : Nat} (hn : 0 < n) (hden : 0 < den) :
    decimalScale (n * den) den = digitCount n := by
  rw [decimalScale, if_pos (Nat.le_mul_of_pos_left den hn), Nat.mul_div_cancel _ hden]

theorem digitCount_le {n : Nat} (hsmall : n < 2 ^ 53) : digitCount n ≤ 16 := by
  rw [digitCount, Nat.length_toDigits_le_iff (by decide) (by decide)]
  exact Nat.lt_trans hsmall (by decide)

/-- The search for an integer ends on the grid of units or before it. -/
theorem search_ofNat (tie : Tie) {n den : Nat} (hn : 0 < n) (hsmall : n < 2 ^ 53)
    (hden : 0 < den) :
    ∃ d, search tie (Float.ofNat n) (n * den) den = some d ∧
      0 ≤ d.exponent ∧ d.toFloat = Float.ofNat n := by
  have hscale := decimalScale_of_whole hn hden
  have hcount := digitCount_le hsmall
  obtain ⟨last, hlast⟩ : ∃ last, digitCount n = last + 1 :=
    Nat.exists_eq_succ_of_ne_zero (Nat.ne_of_gt Nat.length_toDigits_pos)
  have hfound : ∃ d, (List.range (digitCount n)).findSome? (fun k =>
      (neighbours tie (n * den) den (k + 1)).find? fun d => d.toFloat = Float.ofNat n) =
        some d := by
    rw [← Option.isSome_iff_exists, List.findSome?_isSome_iff]
    refine ⟨last, List.mem_range.mpr (by omega), ?_⟩
    rw [← hlast, neighbours_units tie hden hscale]
    have hunits : (⟨n, 0⟩ : Decimal).toFloat = Float.ofNat n := rfl
    simp [hunits]
  obtain ⟨d, hd⟩ := hfound
  refine ⟨d, ?_, ?_⟩
  · have hsplit : 17 = digitCount n + (17 - digitCount n) := by omega
    rw [search, hsplit, List.range_add, List.findSome?_append, hd]
    rfl
  · obtain ⟨k, hk, hneighbour⟩ := List.exists_of_findSome?_eq_some hd
    have hfloat : d.toFloat = Float.ofNat n := by simpa using List.find?_some hneighbour
    have hle : ((k + 1 : Nat) : Int) ≤ decimalScale (n * den) den := by
      rw [hscale]
      exact Int.ofNat_le.mpr (Nat.succ_le_of_lt (List.mem_range.mp hk))
    exact ⟨exponent_nonneg_of_mem_neighbours hle (List.mem_of_find?_eq_some hneighbour), hfloat⟩

end Shortest

/-- The shortest digits of an integer below `2 ^ 53` in magnitude are its own, the zeros at
the end left out or not. -/
theorem shortest_of_amounts (tie : Tie) {b : Binary} {n : Nat} (hn : 0 < n) (hsmall : n < 2 ^ 53)
    (hvalue : Amounts b.mantissa b.exponent n) :
    0 ≤ (shortest tie b).exponent ∧
      (shortest tie b).digits * 10 ^ (shortest tie b).exponent.toNat = n := by
  have hmantissa : b.mantissa ≠ 0 := Nat.ne_of_gt (hvalue.pos hn)
  have hmagnitude : ({ b with negative := false } : Binary).toFloat = Float.ofNat n :=
    Binary.toFloat_of_amounts hn hsmall rfl hvalue
  obtain ⟨d, hsearch, hexponent, hd⟩ := Shortest.search_ofNat tie hn hsmall b.ratio_den_pos
  have hshortest : shortest tie b = d := by
    rw [shortest, if_neg hmantissa]
    simp only [hmagnitude, Binary.ratio_of_amounts hvalue, hsearch, Option.getD_some]
  rw [hshortest]
  exact ⟨hexponent, Decimal.digits_eq_of_toFloat hexponent hsmall hd⟩

/-! ## Writing the digits -/

/-- Multiplying by a power of ten writes zeros at the end. -/
theorem toDigits_mul_pow {n : Nat} (hn : 0 < n) (k : Nat) :
    Nat.toDigits 10 (n * 10 ^ k) = Nat.toDigits 10 n ++ List.replicate k '0' := by
  induction k with
  | zero => rw [Nat.pow_zero, Nat.mul_one, List.replicate_zero, List.append_nil]
  | succ k ih =>
      have hpos : 0 < n * 10 ^ k := Nat.mul_pos hn (Nat.pow_pos (by decide))
      have hzero : Nat.toDigits 10 0 = ['0'] := rfl
      have hnext := Nat.toDigits_append_toDigits (b := 10) (by decide) hpos (d := 0) (by decide)
      rw [hzero, Nat.add_zero, Nat.mul_comm 10, Nat.mul_assoc, ← Nat.pow_succ] at hnext
      rw [← hnext, ih, List.append_assoc, List.replicate_succ']

namespace Layout

/-- A decimal that is an integer below `2 ^ 53` is written with the digits of the
integer. -/
theorem decimalChars_plain {d : Decimal} {n : Nat} (hn : 0 < n) (hsmall : n < 2 ^ 53)
    (hexponent : 0 ≤ d.exponent) (hd : d.digits * 10 ^ d.exponent.toNat = n) :
    plain.decimalChars d = Nat.toDigits 10 n := by
  have hdigits : 0 < d.digits := by
    refine Nat.pos_of_ne_zero ?_
    intro hzero
    rw [hzero, Nat.zero_mul] at hd
    omega
  have hchars : d.chars ++ List.replicate d.exponent.toNat '0' = Nat.toDigits 10 n := by
    rw [← hd, toDigits_mul_pow hdigits]
    rfl
  have hleading : d.leading = (digitCount n : Int) - 1 := by
    rw [digitCount, ← hchars, List.length_append, List.length_replicate, Decimal.leading]
    omega
  have hcount := Shortest.digitCount_le hsmall
  have hpos : 0 < digitCount n := Nat.length_toDigits_pos
  have hpositional : plain.positional d.leading = true := by
    rw [hleading]
    simp only [plain, Bool.and_eq_true, decide_eq_true_iff]
    omega
  rw [decimalChars, if_pos hpositional, positionalChars]
  simp only [hleading]
  rw [if_neg (by omega), if_pos hexponent, hchars]
  exact List.append_nil _

/-- The double of an integer below `2 ^ 53` in magnitude is written like the
integer. -/
theorem plain_chars_ofInt {i : Int} (hsmall : i.natAbs < 2 ^ 53) :
    plain.chars (Float.ofInt i) = intChars i := by
  by_cases hi : i = 0
  · subst hi
    decide +kernel
  · have hn : 0 < i.natAbs := Int.natAbs_pos.mpr hi
    obtain ⟨b, hb, hnegative, hvalue⟩ := Binary.ofFloat?_ofInt hsmall
    have hmantissa : b.mantissa ≠ 0 := Nat.ne_of_gt (hvalue.pos hn)
    obtain ⟨hexponent, hd⟩ := shortest_of_amounts plain.tie hn hsmall hvalue
    have hdigits := decimalChars_plain hn hsmall hexponent hd
    have hsign : (b.negative && (plain.showsNegativeZero || decide (b.mantissa ≠ 0))) =
        decide (i < 0) := by
      rw [hnegative, decide_eq_true hmantissa, Bool.or_true, Bool.and_true]
    rw [chars, hb]
    simp only [hdigits, hsign, decide_eq_true_iff, intChars]

end Layout

end DataRules.Double
