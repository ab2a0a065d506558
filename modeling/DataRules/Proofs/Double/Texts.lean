import DataRules.Double.Layout
import DataRules.Proofs.Double.Digits
import DataRules.Proofs.Double.Reading

set_option autoImplicit false

/-!
# Texts: the plain text of a double reads back

The shortest digits of a double are digits that read as it, and so are all of its digits
where the search has given up.  However the plain text lays the digits out, with a point
among them, with zeros before or after them, or with a power of ten, it is one numeral and
writes the same magnitude.
-/

namespace DataRules.Double

open Float.Model Float.Model.UnpackedFloat

/-! ## The shortest digits -/

namespace Shortest

theorem everyDigit_value (b : Binary) :
    ((everyDigit b).digits : ℚ) * 10 ^ (everyDigit b).exponent = b.mantissa * 2 ^ b.exponent := by
  unfold everyDigit
  split
  · next he =>
      obtain ⟨k, hk⟩ := Int.eq_ofNat_of_zero_le he
      rw [hk, Int.toNat_natCast, zpow_zero, mul_one, zpow_natCast]
      norm_cast
  · next he =>
      obtain ⟨k, hk⟩ : ∃ k : Nat, b.exponent = -k := ⟨b.exponent.natAbs, by omega⟩
      have hten : (10 : ℚ) ^ k = 5 ^ k * 2 ^ k := by
        rw [← mul_pow]
        norm_num
      rw [hk, Int.neg_neg, Int.toNat_natCast, zpow_neg, zpow_neg, zpow_natCast, zpow_natCast, hten,
        Nat.pow_eq]
      push_cast
      field_simp

end Shortest

/-- The shortest digits read as the magnitude of the fraction. -/
theorem toFloat_shortest (tie : Tie) {b : Binary} (hpos : 0 < b.mantissa) :
    (shortest tie b).toFloat = ({ b with negative := false } : Binary).toFloat := by
  rw [shortest, if_neg (Nat.ne_of_gt hpos)]
  dsimp only
  generalize hmagnitude : ({ b with negative := false } : Binary) = magnitude
  cases hsearch : Shortest.search tie magnitude.toFloat b.ratio.1 b.ratio.2 with
  | some d => exact toFloat_of_search_eq_some hsearch
  | none =>
      have hevery := (Shortest.everyDigit b).isRoundingOf_toFloat
      have hself := Binary.isRoundingOf_toFloat (b := magnitude) (hmagnitude ▸ rfl)
        (hmagnitude ▸ hpos)
      rw [Binary.toRat_of_nonneg (hmagnitude ▸ rfl)] at hself
      rw [Shortest.everyDigit_value] at hevery
      subst hmagnitude
      exact hevery.unique hself

/-- Halfway between two of the shortest decimals the layouts take different ones. -/
example : Layout.plain.chars 999999999999999.25 = "999999999999999.3".toList ∧
    Layout.json.chars 999999999999999.25 = "999999999999999.2".toList := by
  decide +kernel

theorem neg_neg_eq (x : Float) : - -x = x := by
  refine eq_of_unpack_eq ?_
  rw [unpack_neg, unpack_neg]
  cases x.toModel.unpack with
  | notANumber => rfl
  | infinity s => cases s <;> rfl
  | zero s => cases s <;> rfl
  | finite s m e h => cases s <;> rfl

/-- A double other than a zero is its magnitude with its sign. -/
theorem eq_toFloat_magnitude {x : Float} {b : Binary} (hb : Binary.ofFloat? x = some b)
    (hpos : 0 < b.mantissa) :
    x = if b.negative then -({ b with negative := false } : Binary).toFloat
      else ({ b with negative := false } : Binary).toFloat := by
  have hmagnitude : ∀ {y : Float}, Binary.ofFloat? y = some { b with negative := false } →
      y = ({ b with negative := false } : Binary).toFloat := by
    intro y hy
    exact (isRoundingOf_self hy rfl).unique (Binary.isRoundingOf_toFloat rfl hpos)
  split
  · next hnegative =>
      rw [← hmagnitude (y := -x), neg_neg_eq]
      rw [Binary.ofFloat?_neg, hb, Option.map_some, hnegative, Bool.not_true]
  · next hpositive =>
      refine hmagnitude ?_
      rw [hb, ← Bool.eq_false_iff.mpr hpositive]

/-! ## Laying the digits out -/

theorem ofDigitChars_zeros (k n : Nat) :
    Nat.ofDigitChars 10 (List.replicate k '0') n = n * 10 ^ k := by
  induction k generalizing n with
  | zero => rw [List.replicate_zero, Nat.pow_zero, Nat.mul_one]; rfl
  | succ k ih =>
      rw [List.replicate_succ, Nat.ofDigitChars_cons, ih, Nat.sub_self, Nat.pow_succ]
      ring

open Numeral

theorem Decimal.areDigits_chars (d : Decimal) : AreDigits d.chars := fun _ => isDigit_of_mem_chars

theorem areDigits_zeros (k : Nat) : AreDigits (List.replicate k '0') := by
  intro c hc
  rw [List.eq_of_mem_replicate hc]
  rfl

theorem areDigits_append {cs ds : List Char} (hcs : AreDigits cs) (hds : AreDigits ds) :
    AreDigits (cs ++ ds) := by
  intro c hc
  exact (List.mem_append.mp hc).elim (hcs c) (hds c)

/-- The text is a numeral without a sign for the decimal. -/
def Lays (d : Decimal) (text : List Char) : Prop :=
  ∃ whole fraction power mantissaText powerText, IsMantissa whole fraction mantissaText ∧
    IsPower power powerText ∧ text = mantissaText ++ powerText ∧
    (Numeral.magnitude ⟨false, whole, fraction, power⟩) = d.digits * 10 ^ d.exponent

/-- Digits with the point, or none, where the exponent wants it. -/
theorem lays_of_digits {d : Decimal} {whole fraction mantissaText powerText : List Char}
    {power : Int} (hmantissa : IsMantissa whole fraction mantissaText)
    (hpower : IsPower power powerText)
    (hdigits : Nat.ofDigitChars 10 (whole ++ fraction) 0 = d.digits)
    (hexponent : power - fraction.length = d.exponent) : Lays d (mantissaText ++ powerText) := by
  refine ⟨whole, fraction, power, mantissaText, powerText, hmantissa, hpower, rfl, ?_⟩
  rw [← Numeral.decimal_value]
  show ((Nat.ofDigitChars 10 (whole ++ fraction) 0 : Nat) : ℚ) * 10 ^ (power - fraction.length) = _
  rw [hdigits, hexponent]

theorem Decimal.length_chars_pos (d : Decimal) : 0 < d.chars.length :=
  List.length_pos_iff.mpr d.chars_ne_nil

theorem lays_positionalChars (d : Decimal) : Lays d (Layout.plain.positionalChars d) := by
  have hlength := d.length_chars_pos
  have hdigits := d.areDigits_chars
  have hleading : d.leading = d.exponent + d.chars.length - 1 := rfl
  rw [Layout.positionalChars]
  split
  · next hk =>
      have hzeros := areDigits_append (areDigits_zeros (-d.leading - 1).toNat) hdigits
      have hmantissa : IsMantissa ['0'] (List.replicate (-d.leading - 1).toNat '0' ++ d.chars)
          ('0' :: '.' :: (List.replicate (-d.leading - 1).toNat '0' ++ d.chars)) :=
        .point (areDigits_zeros 1) hzeros (.inl (List.cons_ne_nil _ _))
      rw [← List.append_nil ('0' :: _)]
      refine lays_of_digits hmantissa .none ?_ ?_
      · have hzero : Nat.ofDigitChars 10 ['0'] 0 = 0 := rfl
        rw [Nat.ofDigitChars_append, Nat.ofDigitChars_append, ofDigitChars_zeros, hzero,
          Nat.zero_mul, d.ofDigitChars_chars]
      · rw [List.length_append, List.length_replicate]
        omega
  · next hk =>
      split
      · next he =>
          have hzeros := areDigits_append hdigits (areDigits_zeros d.exponent.toNat)
          have hne : d.chars ++ List.replicate d.exponent.toNat '0' ≠ [] := by
            simp [d.chars_ne_nil]
          refine ⟨_, [], 0, _, [], .whole hzeros hne, .none, rfl, ?_⟩
          obtain ⟨k, hk⟩ := Int.eq_ofNat_of_zero_le he
          rw [Numeral.magnitude, Nat.ofDigitChars_append, d.ofDigitChars_chars, ofDigitChars_zeros,
            hk, Int.toNat_natCast, zpow_natCast, zpow_zero, mul_one]
          simp [Nat.ofDigitChars]
      · next he =>
          have hsplit : d.chars.take (d.leading + 1).toNat ++ d.chars.drop (d.leading + 1).toNat =
              d.chars := List.take_append_drop _ _
          have hne : d.chars.take (d.leading + 1).toNat ≠ [] := by
            rw [ne_eq, List.take_eq_nil_iff, not_or]
            exact ⟨by omega, d.chars_ne_nil⟩
          rw [← hsplit] at hdigits
          rw [← List.append_nil (_ ++ '.' :: _)]
          refine lays_of_digits (.point ?_ ?_ (.inl hne)) .none ?_ ?_
          · exact fun c hc => hdigits c (List.mem_append_left _ hc)
          · exact fun c hc => hdigits c (List.mem_append_right _ hc)
          · rw [hsplit]
            exact d.ofDigitChars_chars
          · rw [List.length_drop]
            omega

theorem isPower_plain (k : Int) :
    IsPower k ('e' :: ((if k < 0 then ['-'] else ['+']) ++ Nat.toDigits 10 k.natAbs)) := by
  have hdigits : AreDigits (Nat.toDigits 10 k.natAbs) := fun _ hc =>
    Nat.isDigit_of_mem_toDigits (by decide) (by decide) hc
  have hvalue : Nat.ofDigitChars 10 (Nat.toDigits 10 k.natAbs) 0 = k.natAbs :=
    Nat.ofDigitChars_toDigits (by decide) (by decide)
  split
  · next hk =>
      have hpower := IsPower.power (.inl rfl) .minus hdigits Nat.toDigits_ne_nil
      rw [if_pos rfl, hvalue, show -(k.natAbs : Int) = k by omega] at hpower
      exact hpower
  · next hk =>
      have hpower := IsPower.power (.inl rfl) .plus hdigits Nat.toDigits_ne_nil
      rw [if_neg Bool.false_ne_true, hvalue, show (k.natAbs : Int) = k by omega] at hpower
      exact hpower

theorem lays_exponentChars (d : Decimal) : Lays d (Layout.plain.exponentChars d) := by
  have hdigits := d.areDigits_chars
  have hvalue := d.ofDigitChars_chars
  have hleading : d.leading = d.exponent + d.chars.length - 1 := rfl
  have hpower := isPower_plain d.leading
  rw [Layout.exponentChars]
  generalize hchars : d.chars = chars at hdigits hvalue hleading
  match chars, hchars with
  | [], hchars => exact absurd hchars d.chars_ne_nil
  | [c], _ =>
      refine lays_of_digits (.whole hdigits (List.cons_ne_nil _ _)) hpower ?_ ?_
      · exact hvalue
      · simp only [List.length_singleton, List.length_nil] at hleading ⊢
        omega
  | c :: c' :: cs, _ =>
      have hfirst : AreDigits [c] := List.forall_mem_singleton.mpr (hdigits c List.mem_cons_self)
      have hrest : AreDigits (c' :: cs) := fun e he => hdigits e (List.mem_cons_of_mem c he)
      have hmantissa : IsMantissa [c] (c' :: cs) (c :: '.' :: c' :: cs) :=
        .point hfirst hrest (.inl (List.cons_ne_nil _ _))
      refine lays_of_digits hmantissa hpower ?_ ?_
      · exact hvalue
      · simp only [List.length_cons] at hleading ⊢
        omega

/-- The text of a decimal writes the decimal. -/
theorem lays_decimalChars (d : Decimal) : Lays d (Layout.plain.decimalChars d) := by
  rw [Layout.decimalChars]
  split
  · exact lays_positionalChars d
  · exact lays_exponentChars d

/-! ## Nothing is trimmed -/

theorem trim_eq_self {cs : List Char} (h : ∀ c ∈ cs, Text.isBlank c = false) :
    Text.trim cs = cs := by
  have hstart : ∀ {ds : List Char}, (∀ c ∈ ds, Text.isBlank c = false) →
      Text.trimStart ds = ds := by
    intro ds hds
    cases ds with
    | nil => rfl
    | cons c ds => exact Text.trimStart_eq_of_head (hds c List.mem_cons_self)
  rw [Text.trim, hstart h, Text.trimEnd, hstart, List.reverse_reverse]
  exact fun c hc => h c (List.mem_reverse.mp hc)

theorem isBlank_of_isDigit {c : Char} (h : c.isDigit = true) : Text.isBlank c = false := by
  rw [Char.isDigit, Bool.and_eq_true, decide_eq_true_iff, decide_eq_true_iff] at h
  have hlow : 48 ≤ c.toNat := UInt32.le_iff_toNat_le.mp h.1
  have hhigh : c.toNat ≤ 57 := UInt32.le_iff_toNat_le.mp h.2
  refine Bool.eq_false_iff.mpr fun hblank => ?_
  obtain ⟨r, hr, hfirst, hlast⟩ := Text.Ranges.contains_iff.mp hblank
  have hapart : ∀ r ∈ Text.blankRanges, r.2 < 48 ∨ 57 < r.1 := by
    simp [Text.blankRanges]
  have := hapart r hr
  omega

theorem not_isBlank_of_areDigits {cs : List Char} (h : AreDigits cs) :
    ∀ c ∈ cs, Text.isBlank c = false :=
  fun c hc => isBlank_of_isDigit (h c hc)

theorem not_isBlank_of_isSign {negative : Bool} {sign : List Char} (h : IsSign negative sign) :
    ∀ c ∈ sign, Text.isBlank c = false := by
  cases h with
  | none => exact fun _ hc => nomatch hc
  | plus => exact List.forall_mem_singleton.mpr (by decide)
  | minus => exact List.forall_mem_singleton.mpr (by decide)

theorem not_isBlank_of_isMantissa {whole fraction text : List Char}
    (h : IsMantissa whole fraction text) : ∀ c ∈ text, Text.isBlank c = false := by
  cases h with
  | whole hwhole _ => exact not_isBlank_of_areDigits hwhole
  | point hwhole hfraction _ =>
      rw [List.forall_mem_append, List.forall_mem_cons]
      exact ⟨not_isBlank_of_areDigits hwhole, by decide, not_isBlank_of_areDigits hfraction⟩

theorem not_isBlank_of_isPower {power : Int} {text : List Char} (h : IsPower power text) :
    ∀ c ∈ text, Text.isBlank c = false := by
  cases h with
  | none => exact fun _ hc => nomatch hc
  | power hmark hsign hdigits _ =>
      rw [List.forall_mem_cons, List.forall_mem_append]
      refine ⟨?_, not_isBlank_of_isSign hsign, not_isBlank_of_areDigits hdigits⟩
      rcases hmark with rfl | rfl <;> decide

theorem not_isBlank_of_isWritten {n : Numeral} {text : List Char} (h : n.IsWritten text) :
    ∀ c ∈ text, Text.isBlank c = false := by
  cases h with
  | intro hsign hmantissa hpower =>
      rw [List.forall_mem_append, List.forall_mem_append]
      exact ⟨not_isBlank_of_isSign hsign, not_isBlank_of_isMantissa hmantissa,
        not_isBlank_of_isPower hpower⟩

/-! ## Reading the text of a double -/

/-- A numeral by itself is read whole. -/
theorem ofTrimmed_of_isWritten {n : Numeral} {text : List Char} (h : n.IsWritten text) :
    ofTrimmed text = n.toFloat :=
  ofTrimmed_of_isLongest h.not_isInfinite h.isLongest h

/-- The characters are a numeral, or a sign and `Infinity`, and nothing else. -/
def IsReadWhole (cs : List Char) : Prop :=
  IsLongest cs cs ∨ ∃ negative sign, IsSign negative sign ∧ cs = sign ++ "Infinity".toList

/-- The characters are read whole, blanks aside, and as the double. -/
structure ReadsWholeAs (cs : List Char) (x : Float) : Prop where
  trimmed : Text.trim cs = cs
  whole : IsReadWhole cs
  reads : ofTrimmed cs = x

theorem Numeral.IsWritten.readsWholeAs {n : Numeral} {text : List Char} (h : n.IsWritten text) :
    ReadsWholeAs text n.toFloat :=
  ⟨trim_eq_self (not_isBlank_of_isWritten h), .inl h.isLongest, ofTrimmed_of_isWritten h⟩

/-- A sign and the text of a decimal are read as the double of the decimal. -/
theorem Lays.readsWholeAs {d : Decimal} {text sign : List Char} {negative : Bool}
    (h : Lays d text) (hsign : IsSign negative sign) :
    ReadsWholeAs (sign ++ text) (d.toSignedFloat negative) := by
  obtain ⟨whole, fraction, power, mantissaText, powerText, hmantissa, hpower, rfl, hvalue⟩ := h
  let n : Numeral := ⟨negative, whole, fraction, power⟩
  have hwritten : n.IsWritten (sign ++ (mantissaText ++ powerText)) :=
    .intro hsign hmantissa hpower
  have hround := n.decimal.isRoundingOf_toFloat
  rw [n.decimal_value, show n.magnitude = _ from hvalue] at hround
  have hsame : n.toFloat = d.toSignedFloat negative := by
    rw [Numeral.toFloat, Decimal.toSignedFloat, hround.unique d.isRoundingOf_toFloat]
    rfl
  exact hsame ▸ hwritten.readsWholeAs

/-- There is one NaN. -/
theorem eq_nan_of_isNaN {x : Float} (h : x.isNaN = true) : x = nan := by
  have hnan : x.toModel.unpack.isNaN = true := h
  cases hunpack : x.toModel.unpack with
  | notANumber => exact eq_of_unpack_eq hunpack
  | infinity s => rw [hunpack] at hnan; cases hnan
  | zero s => rw [hunpack] at hnan; cases hnan
  | finite s m e hpos => rw [hunpack] at hnan; cases hnan

theorem readsWholeAs_infinity : ReadsWholeAs "Infinity".toList infinity :=
  ⟨by decide +kernel, .inr ⟨false, [], .none, rfl⟩, IsInfinite.ofTrimmed_eq ⟨[], [], .none, rfl⟩⟩

theorem readsWholeAs_negInfinity : ReadsWholeAs "-Infinity".toList (-infinity) :=
  ⟨by decide +kernel, .inr ⟨true, ['-'], .minus, rfl⟩,
    IsInfinite.ofTrimmed_eq ⟨['-'], [], .minus, rfl⟩⟩

theorem readsWholeAs_zero : ReadsWholeAs ['0'] 0 := by
  have hlays : Lays ⟨0, 0⟩ ['0'] := lays_positionalChars ⟨0, 0⟩
  have hzero : Decimal.toSignedFloat false ⟨0, 0⟩ = 0 := by decide +kernel
  exact hzero ▸ hlays.readsWholeAs .none

/-- A double with digits is read back from them. -/
theorem readsWholeAs_of_mantissa_pos {x : Float} {b : Binary} (hb : Binary.ofFloat? x = some b)
    (hpos : 0 < b.mantissa) : ReadsWholeAs (Layout.plain.chars x) x := by
  have hx := eq_toFloat_magnitude hb hpos
  rw [← toFloat_shortest Layout.plain.tie hpos] at hx
  have hlays := lays_decimalChars (shortest Layout.plain.tie b)
  have hmantissa : decide (b.mantissa ≠ 0) = true := decide_eq_true (Nat.ne_of_gt hpos)
  rw [Layout.chars, hb]
  simp only [hmantissa, Bool.or_true, Bool.and_true]
  cases hnegative : b.negative with
  | true =>
      rw [hnegative, if_pos rfl] at hx
      have hread := hlays.readsWholeAs .minus
      rw [Decimal.toSignedFloat, if_pos rfl, ← hx] at hread
      exact hread
  | false =>
      rw [hnegative, if_neg Bool.false_ne_true] at hx
      have hread := hlays.readsWholeAs .none
      rw [Decimal.toSignedFloat, if_neg Bool.false_ne_true, ← hx] at hread
      exact hread

/-- The text of any double but NaN is read whole, and as the double, where the zero with a
minus sign has lost it. -/
theorem readsWholeAs_plain {x : Float} (hx : x.isNaN = false) :
    ReadsWholeAs (Layout.plain.chars x) (if x = -0 then 0 else x) := by
  cases hunpack : x.toModel.unpack with
  | notANumber =>
      have hnan : x.isNaN = true := by
        show x.toModel.unpack.isNaN = true
        rw [hunpack]
        rfl
      exact absurd hnan (hx ▸ Bool.false_ne_true)
  | infinity s =>
      cases s with
      | positive =>
          obtain rfl : x = infinity := eq_of_unpack_eq hunpack
          have hchars : Layout.plain.chars infinity = "Infinity".toList := by decide +kernel
          rw [hchars, if_neg (by decide +kernel)]
          exact readsWholeAs_infinity
      | negative =>
          obtain rfl : x = -infinity := eq_of_unpack_eq hunpack
          have hchars : Layout.plain.chars (-infinity) = "-Infinity".toList := by decide +kernel
          rw [hchars, if_neg (by decide +kernel)]
          exact readsWholeAs_negInfinity
  | zero s =>
      cases s with
      | positive =>
          obtain rfl : x = 0 := eq_of_unpack_eq hunpack
          have hchars : Layout.plain.chars 0 = ['0'] := by decide +kernel
          rw [hchars, ite_self]
          exact readsWholeAs_zero
      | negative =>
          obtain rfl : x = -0 := eq_of_unpack_eq hunpack
          have hchars : Layout.plain.chars (-0) = ['0'] := by decide +kernel
          rw [hchars, if_pos rfl]
          exact readsWholeAs_zero
  | finite s m e hpos =>
      have hne : x ≠ -0 := by
        rintro rfl
        cases hunpack
      obtain ⟨b, hb, rfl, -⟩ := ofFloat?_of_unpack hunpack
      rw [if_neg hne]
      exact readsWholeAs_of_mantissa_pos hb hpos

/-- Past twenty powers of ten the text has an exponent. -/
example : Layout.plain.chars 1e20 = "100000000000000000000".toList ∧
    Layout.plain.chars 1e21 = "1e+21".toList := by
  decide +kernel

/-- The digits of an integer are read as the double that it converts to. -/
theorem readsWholeAs_intChars (i : Int) : ReadsWholeAs (intChars i) (Float.ofInt i) := by
  have hlays : Lays ⟨i.natAbs, 0⟩ (Nat.toDigits 10 i.natAbs) := by
    have hdigits := Decimal.areDigits_chars ⟨i.natAbs, 0⟩
    have hvalue := Decimal.ofDigitChars_chars ⟨i.natAbs, 0⟩
    rw [← List.append_nil (Nat.toDigits 10 i.natAbs)]
    refine lays_of_digits (.whole hdigits Nat.toDigits_ne_nil) .none ?_ rfl
    rw [List.append_nil]
    exact hvalue
  have hfloat : (⟨i.natAbs, 0⟩ : Decimal).toFloat = Float.ofNat i.natAbs := rfl
  rw [intChars, ofInt_eq]
  split
  · have hread := hlays.readsWholeAs .minus
    rw [Decimal.toSignedFloat, if_pos rfl, hfloat] at hread
    exact hread
  · have hread := hlays.readsWholeAs .none
    rw [Decimal.toSignedFloat, if_neg Bool.false_ne_true, hfloat] at hread
    exact hread

end DataRules.Double
