import DataRules.Json.Parser
import DataRules.Json.Printer
import DataRules.Proofs.Double.Texts
import DataRules.Proofs.Number.Integers

set_option autoImplicit false

/-!
# Numbers: the numbers of a document read back

A document writes a number by a grammar of its own: no zero in front of other digits, digits on
both sides of a point, and a point or a power of ten in every number that is no integer.  The
reader takes such a number off whatever follows it, unless that goes on with the number.  An
integer is read back from what the printer writes, and a finite double is when its digits are
converted to the double that is nearest to them.
-/

namespace DataRules.Json

open DataRules.Double DataRules.Double.Numeral

/-! ## The grammar -/

/-- The digits before the point: a zero alone, or digits that start with no zero. -/
inductive IsWhole : List Char → Prop where
  | zero : IsWhole ['0']
  | digits {c : Char} {cs : List Char} (hfirst : c ≠ '0') (hdigits : AreDigits (c :: cs)) :
      IsWhole (c :: cs)

/-- A point with digits after it, or nothing. -/
inductive IsFraction : List Char → List Char → Prop where
  | none : IsFraction [] []
  | point {digits : List Char} (hdigits : AreDigits digits) (hne : digits ≠ []) :
      IsFraction digits ('.' :: digits)

/-- What stands before the digits of a number. -/
def signChars (negative : Bool) : List Char := if negative then ['-'] else []

/-- The text is the numeral as a document writes it, and whether that is an integer. -/
inductive IsNumber (n : Numeral) (isInteger : Bool) : List Char → Prop where
  | intro {fraction power : List Char} (hwhole : IsWhole n.whole)
      (hfraction : IsFraction n.fraction fraction) (hpower : IsPower n.power power)
      (hinteger : (fraction.isEmpty && power.isEmpty) = isInteger) :
      IsNumber n isInteger (signChars n.negative ++ (n.whole ++ (fraction ++ power)))

/-- The characters do not go on with a number that stands before them. -/
def Follows (cs : List Char) : Prop :=
  ∀ c ∈ cs.head?, c.isDigit = false ∧ c ≠ '.' ∧ c ≠ 'e' ∧ c ≠ 'E'

variable {rest text whole digits fraction power : List Char} {p : Int} {convert : Conversion}

theorem takeDigits_append_of_head (hdigits : AreDigits digits)
    (hrest : ∀ c ∈ rest.head?, c.isDigit = false) :
    takeDigits (digits ++ rest) = (digits, rest) := by
  have hnone : takeDigits rest = ([], rest) := by
    cases rest with
    | nil => rfl
    | cons c cs => exact takeDigits_of_not_isDigit (hrest c rfl) cs
  rw [takeDigits_of_areDigits hdigits, hnone, List.append_nil]

theorem IsWhole.take (h : IsWhole whole) (hrest : ∀ c ∈ rest.head?, c.isDigit = false) :
    Parser.takeWhole (whole ++ rest) = some (whole, rest) := by
  cases h with
  | zero => rfl
  | digits hfirst hdigits =>
      have hc := hdigits _ List.mem_cons_self
      rw [List.cons_append, Parser.takeWhole, if_neg hfirst, if_pos hc, ← List.cons_append,
        takeDigits_append_of_head hdigits hrest]

theorem IsFraction.take (h : IsFraction digits fraction)
    (hrest : ∀ c ∈ rest.head?, c.isDigit = false ∧ c ≠ '.') :
    Parser.takeFraction (fraction ++ rest) = some (digits, rest) := by
  cases h with
  | none =>
      rw [List.nil_append]
      unfold Parser.takeFraction
      split
      · exact absurd rfl (hrest _ rfl).2
      · rfl
  | point hdigits hne =>
      rw [List.cons_append, Parser.takeFraction,
        takeDigits_append_of_head hdigits fun c hc => (hrest c hc).1]
      exact if_neg hne

theorem takePower_append (h : IsPower p power) (hrest : Follows rest) :
    Parser.takePower (power ++ rest) = some (if power.isEmpty then none else some p, rest) := by
  cases h with
  | none =>
      cases rest with
      | nil => rfl
      | cons c cs =>
          obtain ⟨-, -, he, hE⟩ := hrest c rfl
          exact if_neg (not_or.mpr ⟨he, hE⟩)
  | power hmark hsign hdigits hne =>
      rw [List.cons_append, List.append_assoc, Parser.takePower, if_pos hmark,
        takeSign_append hsign (unsigned_of_areDigits hdigits hne rest)]
      simp only [takeDigits_append_of_head hdigits fun c hc => (hrest c hc).1, hne, if_false,
        List.isEmpty_cons, Bool.false_eq_true]

theorem IsFraction.isEmpty_eq (h : IsFraction digits fraction) :
    digits.isEmpty = fraction.isEmpty := by
  cases h with
  | none => rfl
  | point _ hne => exact List.isEmpty_eq_false_iff.mpr hne

theorem getD_of_isPower (h : IsPower p power) :
    (if power.isEmpty then none else some p).getD 0 = p := by
  cases h with
  | none => rfl
  | power _ _ _ _ => rfl

/-- A power of ten goes on with no digits and no point before it. -/
theorem not_digit_of_isPower (h : IsPower p power) (hrest : Follows rest) :
    ∀ c ∈ (power ++ rest).head?, c.isDigit = false ∧ c ≠ '.' := by
  cases h with
  | none => exact fun c hc => ⟨(hrest c hc).1, (hrest c hc).2.1⟩
  | power hmark _ _ _ =>
      intro c hc
      obtain rfl := Option.some.inj hc
      refine ⟨not_isDigit_of_mark hmark, ?_⟩
      rcases hmark with rfl | rfl <;> decide

theorem not_digit_of_isFraction (h : IsFraction digits fraction)
    (hrest : ∀ c ∈ rest.head?, c.isDigit = false ∧ c ≠ '.') :
    ∀ c ∈ (fraction ++ rest).head?, c.isDigit = false := by
  cases h with
  | none => exact fun c hc => (hrest c hc).1
  | point _ _ =>
      intro c hc
      obtain rfl := Option.some.inj hc
      rfl

/-- What is read of a number once its sign is known. -/
def takeUnsigned (convert : Conversion) (negative : Bool) (cs : List Char) :
    Option (Json × List Char) := do
  let (whole, afterWhole) ← Parser.takeWhole cs
  let (fraction, afterFraction) ← Parser.takeFraction afterWhole
  let (power, rest) ← Parser.takePower afterFraction
  let document ← Parser.ofNumeral? convert ⟨negative, whole, fraction, power.getD 0⟩
    (fraction.isEmpty && power.isNone)
  return (document, rest)

theorem number_signChars {c : Char} (hc : c ≠ '-') (negative : Bool) (cs : List Char) :
    Parser.number convert (signChars negative ++ (c :: cs)) =
      takeUnsigned convert negative (c :: cs) := by
  cases negative with
  | true => rfl
  | false =>
      show Parser.number convert (c :: cs) = _
      unfold Parser.number
      split
      next negative body hsplit =>
        split at hsplit
        · next hcs => exact absurd (List.cons.inj hcs).1 hc
        · next hcs =>
            obtain ⟨rfl, rfl⟩ := Prod.mk.inj hsplit
            rfl

theorem IsWhole.exists_cons (h : IsWhole whole) : ∃ c cs, whole = c :: cs ∧ c.isDigit = true := by
  cases h with
  | zero => exact ⟨'0', [], rfl, rfl⟩
  | digits _ hdigits => exact ⟨_, _, rfl, hdigits _ List.mem_cons_self⟩

/-- Without its sign a number is taken whole, and counts as the numeral that it is. -/
theorem takeUnsigned_append {n : Numeral} (hwhole : IsWhole n.whole)
    (hfraction : IsFraction n.fraction fraction) (hpower : IsPower n.power power)
    (hrest : Follows rest) :
    takeUnsigned convert n.negative (n.whole ++ (fraction ++ (power ++ rest))) =
      (Parser.ofNumeral? convert n (fraction.isEmpty && power.isEmpty)).map fun document =>
        (document, rest) := by
  have hafterFraction := not_digit_of_isPower hpower hrest
  have hafterWhole := not_digit_of_isFraction hfraction hafterFraction
  have hpowerNone : (if power.isEmpty then none else some n.power).isNone = power.isEmpty := by
    cases power with
    | nil => rfl
    | cons c cs => rfl
  simp only [takeUnsigned, hwhole.take hafterWhole, hfraction.take hafterFraction,
    takePower_append hpower hrest, Option.bind_eq_bind, Option.bind_some,
    hfraction.isEmpty_eq, getD_of_isPower hpower, hpowerNone]
  cases Parser.ofNumeral? convert n (fraction.isEmpty && power.isEmpty) with
  | none => rfl
  | some document => rfl

/-- So is a number with its sign. -/
theorem IsNumber.parse {n : Numeral} {isInteger : Bool} (h : IsNumber n isInteger text)
    (hrest : Follows rest) :
    Parser.number convert (text ++ rest) =
      (Parser.ofNumeral? convert n isInteger).map fun document => (document, rest) := by
  cases h with
  | intro hwhole hfraction hpower hinteger =>
      rw [← hinteger, ← takeUnsigned_append hwhole hfraction hpower hrest]
      obtain ⟨c, cs, hcons, hc⟩ := hwhole.exists_cons
      have hminus : c ≠ '-' := by
        rintro rfl
        exact absurd hc (by decide)
      simp only [List.append_assoc, hcons, List.cons_append]
      exact number_signChars hminus _ _

/-! ## Integers -/

/-- The digits of a positive number do not start with a zero. -/
theorem exists_toDigits_eq {n : Nat} (hn : 0 < n) :
    ∃ c cs, Nat.toDigits 10 n = c :: cs ∧ c ≠ '0' := by
  induction n using Nat.strong_induction_on with
  | _ n ih =>
      by_cases hsmall : n < 10
      · refine ⟨Nat.digitChar n, [], Nat.toDigits_of_lt_base hsmall, ?_⟩
        have hdigits : ∀ m : Fin 10, 0 < m.val → Nat.digitChar m ≠ '0' := by decide
        exact hdigits ⟨n, hsmall⟩ hn
      · have hpos : 0 < n / 10 := by omega
        obtain ⟨c, cs, hfront, hc⟩ := ih (n / 10) (by omega) hpos
        have hsplit := Nat.toDigits_append_toDigits (b := 10) (by decide) hpos (d := n % 10)
          (Nat.mod_lt n (by decide))
        rw [Nat.div_add_mod, hfront] at hsplit
        exact ⟨c, _, hsplit.symm, hc⟩

theorem isWhole_toDigits (n : Nat) : IsWhole (Nat.toDigits 10 n) := by
  have hdigits := Decimal.areDigits_chars ⟨n, 0⟩
  rcases Nat.eq_zero_or_pos n with rfl | hn
  · exact .zero
  · obtain ⟨c, cs, hcons, hc⟩ := exists_toDigits_eq hn
    rw [Decimal.chars, hcons] at hdigits
    exact hcons ▸ .digits hc hdigits

/-- By the conversion the number is read off its own text, with whatever may follow it left. -/
def Restores (convert : Conversion) (n : Number) : Prop :=
  ∀ (finite : n.isFinite = true) {rest : List Char}, Follows rest →
    Parser.number convert (numberChars n ++ rest) = some (.number n finite, rest)

/-- An integer is read back, and no conversion is asked for it. -/
theorem restores_int (convert : Conversion) (n : Int64) : Restores convert (.int n) := by
  intro finite rest hrest
  let numeral : Numeral := ⟨decide (n.toInt < 0), Nat.toDigits 10 n.toInt.natAbs, [], 0⟩
  have htext : intChars n.toInt = signChars numeral.negative ++ (numeral.whole ++ ([] ++ [])) := by
    simp only [intChars, signChars, numeral, List.append_nil, decide_eq_true_iff]
    split <;> rfl
  have hnumber : IsNumber numeral true (intChars n.toInt) :=
    htext ▸ .intro (isWhole_toDigits _) .none .none rfl
  have hvalue : Nat.ofDigitChars 10 numeral.whole 0 = n.toInt.natAbs :=
    Nat.ofDigitChars_toDigits (by decide) (by decide)
  have hsigned : (if numeral.negative then -(n.toInt.natAbs : Int) else n.toInt.natAbs) =
      n.toInt := by
    simp only [numeral, decide_eq_true_iff]
    split <;> omega
  have hzero : (true && !(numeral.negative && n.toInt.natAbs == 0)) = true := by
    rw [Bool.true_and, Bool.not_eq_true', Bool.and_eq_false_iff, beq_eq_false_iff_ne]
    simp only [numeral, decide_eq_false_iff_not]
    omega
  have hfits : Number.ofInt? n.toInt = some (.int n) :=
    Number.ofInt?_eq_some_iff.mpr ⟨n, rfl, rfl⟩
  have hcounts : Parser.ofNumeral? convert numeral true = some (.number (.int n) finite) := by
    simp only [Parser.ofNumeral?, hvalue, hzero, hsigned, hfits, if_true]
    rfl
  rw [numberChars, hnumber.parse hrest, hcounts]
  rfl

/-! ## Doubles -/

/-- Decimals of one value are read as one double. -/
theorem toFloat_eq_of_value {d e : Decimal}
    (h : (e.digits : ℚ) * 10 ^ e.exponent = d.digits * 10 ^ d.exponent) :
    e.toFloat = d.toFloat := by
  have hrounding := e.isRoundingOf_toFloat
  rw [h] at hrounding
  exact hrounding.unique d.isRoundingOf_toFloat

theorem toFloat_eq_of_shift {d e : Decimal} (k : Nat) (hdigits : e.digits = d.digits * 10 ^ k)
    (hexponent : e.exponent + k = d.exponent) : e.toFloat = d.toFloat := by
  refine toFloat_eq_of_value ?_
  rw [← hexponent, zpow_add₀ (by norm_num), zpow_natCast, hdigits]
  push_cast
  ring

/-- The text is the decimal as a number without a sign that shows it is no integer. -/
def Writes (d : Decimal) (text : List Char) : Prop :=
  ∃ (n : Numeral) (fraction power : List Char), IsWhole n.whole ∧ IsFraction n.fraction fraction ∧
    IsPower n.power power ∧ (fraction.isEmpty && power.isEmpty) = false ∧
    text = n.whole ++ (fraction ++ power) ∧ n.decimal.toFloat = d.toFloat

/-- Digits with the point, or a power of ten, where the exponent wants it. -/
theorem writes_of_digits {d : Decimal} {whole digits fraction power : List Char} {p : Int} (k : Nat)
    (hwhole : IsWhole whole) (hfraction : IsFraction digits fraction) (hpower : IsPower p power)
    (hdouble : (fraction.isEmpty && power.isEmpty) = false)
    (hdigits : Nat.ofDigitChars 10 (whole ++ digits) 0 = d.digits * 10 ^ k)
    (hexponent : p - digits.length + k = d.exponent) : Writes d (whole ++ (fraction ++ power)) :=
  ⟨⟨false, whole, digits, p⟩, fraction, power, hwhole, hfraction, hpower, hdouble, rfl,
    toFloat_eq_of_shift k hdigits hexponent⟩

/-- The digits of a decimal that is not zero start with no zero. -/
theorem exists_chars_eq {d : Decimal} (hd : 0 < d.digits) :
    ∃ c cs, d.chars = c :: cs ∧ c ≠ '0' ∧ AreDigits (c :: cs) := by
  obtain ⟨c, cs, hcons, hc⟩ := exists_toDigits_eq hd
  exact ⟨c, cs, hcons, hc, hcons ▸ d.areDigits_chars⟩

theorem isWhole_chars_append_zeros {d : Decimal} (hd : 0 < d.digits ∨ d.exponent = 0) :
    IsWhole (d.chars ++ List.replicate d.exponent.toNat '0') := by
  rcases hd with hpos | hzero
  · obtain ⟨c, cs, hcons, hc, hdigits⟩ := exists_chars_eq hpos
    have hall := areDigits_append hdigits (areDigits_zeros d.exponent.toNat)
    rw [hcons, List.cons_append] at *
    exact .digits hc hall
  · rw [hzero, Int.toNat_zero, List.replicate_zero, List.append_nil]
    exact isWhole_toDigits _

/-- Below one the digits stand after the point, zeros in front. -/
theorem writes_below_one {d : Decimal} (hk : d.leading < 0) :
    Writes d ('0' :: '.' :: (List.replicate (-d.leading - 1).toNat '0' ++ d.chars)) := by
  have hleading : d.leading = d.exponent + d.chars.length - 1 := rfl
  have hzeros := areDigits_append (areDigits_zeros (-d.leading - 1).toNat) d.areDigits_chars
  have hne : List.replicate (-d.leading - 1).toNat '0' ++ d.chars ≠ [] := by
    simp [d.chars_ne_nil]
  have hzero : Nat.ofDigitChars 10 ['0'] 0 = 0 := rfl
  rw [← List.append_nil (_ ++ d.chars)]
  refine writes_of_digits 0 .zero (.point hzeros hne) .none rfl ?_ ?_
  · rw [Nat.ofDigitChars_append, Nat.ofDigitChars_append, ofDigitChars_zeros, hzero, Nat.zero_mul,
      d.ofDigitChars_chars, Nat.pow_zero, Nat.mul_one]
  · rw [List.length_append, List.length_replicate]
    omega

/-- A whole decimal has its digits and the zeros of its exponent before the point, and one zero
after it. -/
theorem writes_whole {d : Decimal} (hd : 0 < d.digits ∨ d.exponent = 0) (he : 0 ≤ d.exponent) :
    Writes d (d.chars ++ List.replicate d.exponent.toNat '0' ++ Layout.json.wholeEnd) := by
  have hpoint : IsFraction ['0'] ['.', '0'] := .point (areDigits_zeros 1) (by simp)
  have hone : ∀ n, Nat.ofDigitChars 10 ['0'] n = n * 10 ^ 1 := ofDigitChars_zeros 1
  refine writes_of_digits (d.exponent.toNat + 1) (isWhole_chars_append_zeros hd) hpoint .none
    rfl ?_ ?_
  · rw [Nat.ofDigitChars_append, Nat.ofDigitChars_append, d.ofDigitChars_chars, ofDigitChars_zeros,
      hone, Nat.mul_assoc, ← Nat.pow_add]
  · rw [List.length_singleton]
    omega

/-- Any other decimal has the point among its digits. -/
theorem writes_point_inside {d : Decimal} (hd : 0 < d.digits) (hk : 0 ≤ d.leading)
    (he : d.exponent < 0) :
    Writes d (d.chars.take (d.leading + 1).toNat ++ '.' :: d.chars.drop (d.leading + 1).toNat) := by
  have hdigits := d.areDigits_chars
  have hleading : d.leading = d.exponent + d.chars.length - 1 := rfl
  obtain ⟨k, hfront⟩ : ∃ k, (d.leading + 1).toNat = k + 1 := ⟨d.leading.toNat, by omega⟩
  have hwhole : IsWhole (d.chars.take (k + 1)) := by
    obtain ⟨c, cs, hcons, hc, -⟩ := exists_chars_eq hd
    have hfirst : AreDigits (d.chars.take (k + 1)) :=
      fun e he => hdigits e (List.mem_of_mem_take he)
    rw [hcons, List.take_succ_cons] at hfirst ⊢
    exact .digits hc hfirst
  have hrest : AreDigits (d.chars.drop (k + 1)) := fun e he => hdigits e (List.mem_of_mem_drop he)
  have hne : d.chars.drop (k + 1) ≠ [] := by
    rw [ne_eq, List.drop_eq_nil_iff]
    omega
  have hsplit : d.chars.take (k + 1) ++ d.chars.drop (k + 1) = d.chars := List.take_append_drop _ _
  rw [hfront, ← List.append_nil ('.' :: _)]
  refine writes_of_digits 0 hwhole (.point hrest hne) .none rfl ?_ ?_
  · rw [hsplit, d.ofDigitChars_chars, Nat.pow_zero, Nat.mul_one]
  · rw [List.length_drop]
    omega

theorem writes_positionalChars {d : Decimal} (hd : 0 < d.digits ∨ d.exponent = 0) :
    Writes d (Layout.json.positionalChars d) := by
  rw [Layout.positionalChars]
  split
  · next hk => exact writes_below_one hk
  · next hk =>
      split
      · next he => exact writes_whole hd he
      · next he =>
          exact writes_point_inside (hd.resolve_right (by omega)) (not_lt.mp hk) (not_le.mp he)

theorem writes_exponentChars {d : Decimal} (hd : 0 < d.digits) :
    Writes d (Layout.json.exponentChars d) := by
  have hvalue := d.ofDigitChars_chars
  have hleading : d.leading = d.exponent + d.chars.length - 1 := rfl
  have hpower := isPower_plain d.leading
  obtain ⟨c, cs, hcons, hc, hdigits⟩ := exists_chars_eq hd
  have hfirst : IsWhole [c] :=
    .digits hc (List.forall_mem_singleton.mpr (hdigits c List.mem_cons_self))
  rw [Layout.exponentChars, hcons]
  rw [hcons] at hvalue hleading
  cases cs with
  | nil =>
      refine writes_of_digits 0 hfirst .none hpower rfl ?_ ?_
      · rw [Nat.pow_zero, Nat.mul_one]
        exact hvalue
      · simp only [List.length_singleton, List.length_nil] at hleading ⊢
        omega
  | cons c' cs =>
      have hrest : AreDigits (c' :: cs) := fun e he => hdigits e (List.mem_cons_of_mem c he)
      refine writes_of_digits 0 hfirst (.point hrest (List.cons_ne_nil _ _)) hpower rfl ?_ ?_
      · rw [Nat.pow_zero, Nat.mul_one]
        exact hvalue
      · simp only [List.length_cons] at hleading ⊢
        omega

/-- The text of a decimal writes the decimal. -/
theorem writes_decimalChars {d : Decimal} (hd : 0 < d.digits ∨ d = ⟨0, 0⟩) :
    Writes d (Layout.json.decimalChars d) := by
  rw [Layout.decimalChars]
  split
  · exact writes_positionalChars (hd.imp_right (congrArg Decimal.exponent))
  · next hlarge =>
      refine writes_exponentChars (hd.resolve_right ?_)
      rintro rfl
      exact hlarge rfl

/-- The decimal zero is read as the zero of its sign. -/
theorem ofFloat?_zero (negative : Bool) :
    Binary.ofFloat? (Decimal.toSignedFloat negative ⟨0, 0⟩) = some ⟨negative, 0, 0⟩ := by
  cases negative with
  | true => decide +kernel
  | false => decide +kernel

/-- The shortest digits of a finite double are those of zero, or start with no zero, and with
the sign they are read as the double. -/
theorem shortest_spec {x : Float} {b : Binary} (hb : Binary.ofFloat? x = some b) (tie : Tie) :
    (0 < (shortest tie b).digits ∨ shortest tie b = ⟨0, 0⟩) ∧
      (shortest tie b).toSignedFloat b.negative = x := by
  rcases Binary.unpack_of_ofFloat? hb with ⟨hzero, hunpack⟩ | ⟨hpos, -⟩
  · have hshortest : shortest tie b = ⟨0, 0⟩ := by
      rw [hzero]
      rfl
    rw [hshortest]
    refine ⟨.inr rfl, eq_of_unpack_eq ?_⟩
    rcases Binary.unpack_of_ofFloat? (ofFloat?_zero b.negative) with ⟨-, hsame⟩ | ⟨habsurd, -⟩
    · exact hsame.trans hunpack.symm
    · exact absurd habsurd (Nat.lt_irrefl 0)
  · have hx := eq_toFloat_magnitude hb hpos
    rw [← toFloat_shortest tie hpos] at hx
    refine ⟨.inl (Nat.pos_of_ne_zero fun hzero => ?_), hx.symm⟩
    -- without digits it would be read as a zero, whose mantissa is zero
    have hfloat : (shortest tie b).toFloat = (⟨0, 0⟩ : Decimal).toFloat :=
      toFloat_eq_of_value (by rw [hzero, Nat.cast_zero, zero_mul, zero_mul])
    rw [hfloat] at hx
    have hsame : x = Decimal.toSignedFloat b.negative ⟨0, 0⟩ := hx
    rw [hsame, ofFloat?_zero] at hb
    rw [← Option.some.inj hb] at hpos
    exact absurd hpos (Nat.lt_irrefl 0)

/-- The sign of a double is shown, also that of a zero. -/
theorem jsonChars_eq {x : Float} {b : Binary} (hb : Binary.ofFloat? x = some b) :
    Layout.json.chars x =
      signChars b.negative ++ Layout.json.decimalChars (shortest Layout.json.tie b) := by
  have hshows : Layout.json.showsNegativeZero = true := rfl
  rw [Layout.chars, hb]
  simp only [hshows, Bool.true_or, Bool.and_true, signChars]
  cases b.negative with
  | true => rfl
  | false => rfl

/-- The text of a finite double is a number, and the double is the one nearest to it. -/
theorem exists_isNumber_jsonChars {x : Float} (hfinite : x.isFinite = true) :
    ∃ n : Numeral, IsNumber n false (Layout.json.chars x) ∧ n.toFloat = x := by
  obtain ⟨b, hb⟩ : ∃ b, Binary.ofFloat? x = some b := by
    rw [← Option.isSome_iff_exists, Binary.ofFloat?_isSome, hfinite]
  obtain ⟨hdigits, hvalue⟩ := shortest_spec hb Layout.json.tie
  obtain ⟨n, fraction, power, hwhole, hfraction, hpower, hdouble, htext, hfloat⟩ :=
    writes_decimalChars hdigits
  let numeral : Numeral := { n with negative := b.negative }
  have hchars : Layout.json.chars x =
      signChars numeral.negative ++ (numeral.whole ++ (fraction ++ power)) := by
    rw [jsonChars_eq hb, htext]
  refine ⟨numeral, hchars ▸ .intro hwhole hfraction hpower hdouble, ?_⟩
  rw [← hvalue, Numeral.toFloat, Decimal.toSignedFloat, Decimal.toSignedFloat, ← hfloat]
  rfl

/-- A double is read back when its text is converted to it. -/
theorem restores_of_isNumber {x : Float} {n : Numeral}
    (hnumber : IsNumber n false (Layout.json.chars x)) (hconvert : convert n = x) :
    Restores convert (.float x) := by
  intro finite rest hrest
  have hcounts : Parser.ofNumeral? convert n false = some (.number (.float x) finite) := by
    show Parser.ofFinite? (convert n) = _
    rw [hconvert]
    exact dif_pos finite
  rw [numberChars, hnumber.parse hrest, hcounts]
  rfl

/-- A conversion to the nearest double reads every number back. -/
theorem restores_toFloat (n : Number) : Restores Numeral.toFloat n := by
  cases n with
  | int i => exact restores_int _ i
  | float x =>
      intro finite
      obtain ⟨n, hnumber, hvalue⟩ := exists_isNumber_jsonChars finite
      exact restores_of_isNumber hnumber hvalue finite

end DataRules.Json
