import DataRules.Double.Numeral
import Mathlib.Data.List.Basic

set_option autoImplicit false

/-!
# Grammar: numerals as they are written

A numeral is an optional sign, digits with at most one point among them, and a power of
ten or none.  The grammar says so without a scanner, and the scanner is sound and complete
for it: what it takes is a numeral, it takes every numeral whole, and with characters left
over it takes the longest one there is.
-/

namespace DataRules.Double.Numeral

/-! ## The grammar -/

/-- The characters are decimal digits. -/
def AreDigits (cs : List Char) : Prop := ∀ c ∈ cs, c.isDigit = true

/-- An optional sign, and whether it is a minus. -/
inductive IsSign : Bool → List Char → Prop where
  | none : IsSign false []
  | plus : IsSign false ['+']
  | minus : IsSign true ['-']

/-- Digits before and after a point, not none of both; without a point there are none
after it. -/
inductive IsMantissa (whole : List Char) : List Char → List Char → Prop where
  | whole (hwhole : AreDigits whole) (hne : whole ≠ []) : IsMantissa whole [] whole
  | point {fraction : List Char} (hwhole : AreDigits whole) (hfraction : AreDigits fraction)
      (hne : whole ≠ [] ∨ fraction ≠ []) : IsMantissa whole fraction (whole ++ '.' :: fraction)

/-- A power of ten, which has digits, or none. -/
inductive IsPower : Int → List Char → Prop where
  | none : IsPower 0 []
  | power {mark : Char} {negative : Bool} {sign digits : List Char}
      (hmark : mark = 'e' ∨ mark = 'E') (hsign : IsSign negative sign)
      (hdigits : AreDigits digits) (hne : digits ≠ []) :
      IsPower (if negative then -(Nat.ofDigitChars 10 digits 0 : Int)
        else Nat.ofDigitChars 10 digits 0) (mark :: (sign ++ digits))

/-- The text is the numeral written out. -/
inductive IsWritten (n : Numeral) : List Char → Prop where
  | intro {sign mantissa power : List Char} (hsign : IsSign n.negative sign)
      (hmantissa : IsMantissa n.whole n.fraction mantissa) (hpower : IsPower n.power power) :
      IsWritten n (sign ++ (mantissa ++ power))

/-- The text is a numeral at the start of the characters, and no longer text is. -/
structure IsLongest (cs text : List Char) : Prop where
  start : text <+: cs
  numeral : ∃ n, IsWritten n text
  longest {other : List Char} {n : Numeral} : other <+: cs → IsWritten n other →
    other.length ≤ text.length

/-! ## What is taken is written -/

theorem exists_sign (cs : List Char) :
    ∃ sign, cs = sign ++ (takeSign cs).2 ∧ IsSign (takeSign cs).1 sign := by
  unfold takeSign
  split
  · exact ⟨['-'], rfl, .minus⟩
  · exact ⟨['+'], rfl, .plus⟩
  · exact ⟨[], rfl, .none⟩

theorem areDigits_takeDigits (cs : List Char) : AreDigits (takeDigits cs).1 :=
  fun _ => isDigit_of_mem_takeDigits

theorem exists_mantissa {cs : List Char} {whole fraction after rest : List Char}
    (hwhole : takeDigits cs = (whole, after)) (hfraction : takeFraction after = (fraction, rest))
    (hne : ¬(whole = [] ∧ fraction = [])) :
    ∃ mantissa, cs = mantissa ++ rest ∧ IsMantissa whole fraction mantissa := by
  have hdigits : AreDigits whole := by
    have := areDigits_takeDigits cs
    rwa [hwhole] at this
  have hcs : whole ++ after = cs := by
    have := takeDigits_append cs
    rwa [hwhole] at this
  unfold takeFraction at hfraction
  split at hfraction
  · next tail =>
      have hfractionDigits : AreDigits fraction := by
        have := areDigits_takeDigits tail
        rwa [hfraction] at this
      have htail : fraction ++ rest = tail := by
        have := takeDigits_append tail
        rwa [hfraction] at this
      refine ⟨whole ++ '.' :: fraction, ?_, .point hdigits hfractionDigits ?_⟩
      · rw [List.append_assoc, List.cons_append, htail, hcs]
      · exact not_and_or.mp hne
  · cases hfraction
    exact ⟨whole, hcs.symm, .whole hdigits fun hwhole => hne ⟨hwhole, rfl⟩⟩

theorem exists_power (cs : List Char) :
    ∃ power, cs = power ++ (takePower cs).2 ∧ IsPower (takePower cs).1 power := by
  cases cs with
  | nil => exact ⟨[], rfl, .none⟩
  | cons mark tail =>
      by_cases hmark : mark = 'e' ∨ mark = 'E'
      · obtain ⟨sign, htail, hsign⟩ := exists_sign tail
        rcases htake : takeSign tail with ⟨negative, body⟩
        have hbody := takeDigits_append body
        have hdigits := areDigits_takeDigits body
        rcases hdigitsTake : takeDigits body with ⟨digits, rest⟩
        rw [htake] at htail hsign
        rw [hdigitsTake] at hbody hdigits
        simp only [takePower, if_pos hmark, htake, hdigitsTake]
        by_cases hne : digits = []
        · rw [if_pos hne]
          exact ⟨[], rfl, .none⟩
        · rw [if_neg hne]
          refine ⟨mark :: (sign ++ digits), ?_, .power hmark hsign hdigits hne⟩
          rw [List.cons_append, List.append_assoc, hbody, ← htail]
      · simp only [takePower, if_neg hmark]
        exact ⟨[], rfl, .none⟩

/-- What the scanner takes is a numeral. -/
theorem isWritten_of_scan {cs rest : List Char} {n : Numeral} (h : scan cs = some (n, rest)) :
    ∃ text, cs = text ++ rest ∧ n.IsWritten text := by
  obtain ⟨sign, hcs, hsign⟩ := exists_sign cs
  rcases hsignTake : takeSign cs with ⟨negative, body⟩
  rcases hwhole : takeDigits body with ⟨whole, after⟩
  rcases hfraction : takeFraction after with ⟨fraction, tail⟩
  obtain ⟨power, htail, hpower⟩ := exists_power tail
  rcases hpowerTake : takePower tail with ⟨p, last⟩
  rw [hsignTake] at hcs hsign
  rw [hpowerTake] at htail hpower
  simp only [scan, hsignTake, hwhole, hfraction, hpowerTake] at h
  split at h
  · cases h
  · next hne =>
      obtain ⟨mantissa, hbody, hmantissa⟩ := exists_mantissa hwhole hfraction hne
      cases h
      refine ⟨sign ++ (mantissa ++ power), ?_, .intro hsign hmantissa hpower⟩
      rw [List.append_assoc, List.append_assoc, ← htail, ← hbody, ← hcs]

/-! ## What is written is taken -/

/-- Characters that start with no sign. -/
def Unsigned (cs : List Char) : Prop := ∀ c ∈ cs.head?, c ≠ '-' ∧ c ≠ '+'

theorem unsigned_of_isDigit {c : Char} (h : c.isDigit = true) (cs : List Char) :
    Unsigned (c :: cs) := by
  intro d hd
  obtain rfl : c = d := Option.some.inj hd
  constructor
  · rintro rfl
    exact absurd h (by decide)
  · rintro rfl
    exact absurd h (by decide)

theorem takeSign_append {negative : Bool} {sign : List Char} (h : IsSign negative sign)
    {cs : List Char} (hcs : Unsigned cs) : takeSign (sign ++ cs) = (negative, cs) := by
  cases h with
  | none =>
      rw [List.nil_append]
      unfold takeSign
      split
      · exact absurd rfl (hcs _ rfl).1
      · exact absurd rfl (hcs _ rfl).2
      · rfl
  | plus => rfl
  | minus => rfl

theorem takeDigits_of_areDigits {digits : List Char} (h : AreDigits digits) (rest : List Char) :
    takeDigits (digits ++ rest) = (digits ++ (takeDigits rest).1, (takeDigits rest).2) := by
  rw [takeDigits, List.takeWhile_append_of_pos h, List.dropWhile_append_of_pos h, takeDigits]

theorem takeDigits_of_not_isDigit {c : Char} (h : c.isDigit = false) (cs : List Char) :
    takeDigits (c :: cs) = ([], c :: cs) := by
  rw [takeDigits, List.takeWhile_cons, List.dropWhile_cons, h]
  rfl

theorem takeDigits_suffix (cs : List Char) : (takeDigits cs).2 <:+ cs := List.dropWhile_suffix _

theorem takeFraction_suffix (cs : List Char) : (takeFraction cs).2 <:+ cs := by
  unfold takeFraction
  split
  · next tail => exact (takeDigits_suffix tail).trans (List.suffix_cons '.' tail)
  · exact List.suffix_rfl

theorem takePower_suffix (cs : List Char) : (takePower cs).2 <:+ cs := by
  obtain ⟨power, hcs, -⟩ := exists_power cs
  exact ⟨power, hcs.symm⟩

section Power

variable {p : Int} {power : List Char}

theorem not_isDigit_of_mark {mark : Char} (h : mark = 'e' ∨ mark = 'E') : mark.isDigit = false := by
  rcases h with rfl | rfl <;> rfl

/-- More digits are taken only where no power has been written. -/
theorem IsPower.digits (h : IsPower p power) (rest : List Char) :
    ∃ rest', (takeDigits (power ++ rest)).2 = power ++ rest' ∧ rest' <:+ rest ∧
      (rest = [] → (takeDigits (power ++ rest)).1 = []) := by
  cases h with
  | none =>
      refine ⟨(takeDigits rest).2, rfl, takeDigits_suffix rest, ?_⟩
      rintro rfl
      rfl
  | power hmark _ _ _ =>
      rw [List.cons_append, takeDigits_of_not_isDigit (not_isDigit_of_mark hmark)]
      exact ⟨rest, rfl, List.suffix_rfl, fun _ => rfl⟩

theorem IsPower.fraction (h : IsPower p power) (rest : List Char) :
    ∃ rest', (takeFraction (power ++ rest)).2 = power ++ rest' ∧ rest' <:+ rest ∧
      (rest = [] → (takeFraction (power ++ rest)).1 = []) := by
  cases h with
  | none =>
      refine ⟨(takeFraction rest).2, rfl, takeFraction_suffix rest, ?_⟩
      rintro rfl
      rfl
  | power hmark _ _ _ =>
      refine ⟨rest, ?_⟩
      rcases hmark with rfl | rfl
      · exact ⟨rfl, List.suffix_rfl, fun _ => rfl⟩
      · exact ⟨rfl, List.suffix_rfl, fun _ => rfl⟩

theorem unsigned_of_areDigits {digits : List Char} (h : AreDigits digits) (hne : digits ≠ [])
    (rest : List Char) : Unsigned (digits ++ rest) := by
  obtain ⟨c, cs, rfl⟩ := List.exists_cons_of_ne_nil hne
  exact unsigned_of_isDigit (h c List.mem_cons_self) (cs ++ rest)

theorem IsPower.take (h : IsPower p power) (rest : List Char) :
    (takePower (power ++ rest)).2 <:+ rest ∧ (rest = [] → (takePower (power ++ rest)).1 = p) := by
  cases h with
  | none =>
      refine ⟨takePower_suffix rest, ?_⟩
      rintro rfl
      rfl
  | @power mark negative sign digits hmark hsign hdigits hne =>
      rw [List.cons_append, List.append_assoc, takePower, if_pos hmark,
        takeSign_append hsign (unsigned_of_areDigits hdigits hne rest)]
      simp only [takeDigits_of_areDigits hdigits, List.append_eq_nil_iff, hne, false_and, if_false]
      refine ⟨takeDigits_suffix rest, ?_⟩
      rintro rfl
      rw [show (takeDigits []).1 = [] from rfl, List.append_nil]

end Power

section Written

variable {whole fraction mantissa power text : List Char} {p : Int} {n : Numeral}

theorem IsMantissa.unsigned (h : IsMantissa whole fraction mantissa) (rest : List Char) :
    Unsigned (mantissa ++ rest) := by
  cases h with
  | whole hwhole hne => exact unsigned_of_areDigits hwhole hne rest
  | point hwhole _ _ =>
      by_cases hne : whole = []
      · subst hne
        rintro c hc
        obtain rfl : '.' = c := Option.some.inj hc
        exact ⟨by decide, by decide⟩
      · rw [List.append_assoc]
        exact unsigned_of_areDigits hwhole hne _

/-- The mantissa is taken whole, and no more than digits beyond it. -/
theorem IsMantissa.take (h : IsMantissa whole fraction mantissa) (hpower : IsPower p power)
    (rest : List Char) :
    ∃ whole' fraction' after rest', takeDigits (mantissa ++ (power ++ rest)) = (whole', after) ∧
      takeFraction after = (fraction', power ++ rest') ∧ rest' <:+ rest ∧
      ¬(whole' = [] ∧ fraction' = []) ∧ (rest = [] → whole' = whole ∧ fraction' = fraction) := by
  cases h with
  | whole hwhole hne =>
      obtain ⟨middle, hmiddle, hsuffix, hdigits⟩ := hpower.digits rest
      obtain ⟨rest', hrest', hsuffix', hfraction⟩ := hpower.fraction middle
      refine ⟨_, (takeFraction (power ++ middle)).1, power ++ middle, rest',
        (takeDigits_of_areDigits hwhole _).trans (Prod.ext rfl hmiddle), Prod.ext rfl hrest',
        hsuffix'.trans hsuffix, ?_, ?_⟩
      · rw [List.append_eq_nil_iff]
        exact fun hempty => hne hempty.1.1
      · rintro rfl
        obtain rfl := List.suffix_nil.mp hsuffix
        rw [hdigits rfl, hfraction rfl, List.append_nil]
        exact ⟨rfl, rfl⟩
  | @point fraction hwhole hfraction hne =>
      obtain ⟨rest', hrest', hsuffix, hdigits⟩ := hpower.digits rest
      have hpoint := takeDigits_of_not_isDigit (c := '.') rfl (fraction ++ (power ++ rest))
      refine ⟨whole, fraction ++ (takeDigits (power ++ rest)).1,
        '.' :: (fraction ++ (power ++ rest)), rest', ?_, ?_, hsuffix, ?_, ?_⟩
      · rw [List.append_assoc, List.cons_append, takeDigits_of_areDigits hwhole, hpoint,
          List.append_nil]
      · rw [takeFraction, takeDigits_of_areDigits hfraction, hrest']
      · rw [List.append_eq_nil_iff]
        exact fun hempty => hne.elim (fun h => h hempty.1) (fun h => h hempty.2.1)
      · rintro rfl
        rw [hdigits rfl, List.append_nil]
        exact ⟨rfl, rfl⟩

/-- A numeral is taken whole, whatever follows it, and alone when nothing does. -/
theorem IsWritten.scan_append (h : n.IsWritten text) (rest : List Char) :
    ∃ n' rest', scan (text ++ rest) = some (n', rest') ∧ rest' <:+ rest ∧
      (rest = [] → n' = n) := by
  cases h with
  | @intro sign mantissa power hsign hmantissa hpower =>
      obtain ⟨whole', fraction', after, rest', hwhole, hfraction, hsuffix, hne, hsame⟩ :=
        hmantissa.take hpower rest
      obtain ⟨hsuffix', hpowerSame⟩ := hpower.take rest'
      have hsignTake := takeSign_append hsign (hmantissa.unsigned (power ++ rest))
      refine ⟨⟨n.negative, whole', fraction', (takePower (power ++ rest')).1⟩,
        (takePower (power ++ rest')).2, ?_, hsuffix'.trans hsuffix, ?_⟩
      · rw [List.append_assoc, List.append_assoc, scan, hsignTake]
        simp only [hwhole, hfraction, if_neg hne]
      · rintro rfl
        obtain rfl := List.suffix_nil.mp hsuffix
        rw [hpowerSame rfl, (hsame rfl).1, (hsame rfl).2]

theorem IsWritten.scan_eq (h : n.IsWritten text) : scan text = some (n, []) := by
  obtain ⟨n', rest', hscan, hsuffix, hsame⟩ := h.scan_append []
  rw [List.append_nil, List.suffix_nil.mp hsuffix, hsame rfl] at hscan
  exact hscan

/-- A text is one numeral at most. -/
theorem IsWritten.unique {n' : Numeral} (h : n.IsWritten text) (h' : n'.IsWritten text) :
    n = n' := by
  have hsame := h.scan_eq.symm.trans h'.scan_eq
  exact congrArg Prod.fst (Option.some.inj hsame)

end Written

/-! ## The longest numeral -/

variable {cs rest : List Char} {n : Numeral}

/-- The scanner takes the longest numeral. -/
theorem scan_eq_some_iff : scan cs = some (n, rest) ↔
    ∃ text, cs = text ++ rest ∧ n.IsWritten text ∧ IsLongest cs text := by
  constructor
  · intro hscan
    obtain ⟨text, rfl, hwritten⟩ := isWritten_of_scan hscan
    refine ⟨text, rfl, hwritten, List.prefix_append text rest, ⟨n, hwritten⟩, ?_⟩
    rintro other n' ⟨rest', hother⟩ hwritten'
    obtain ⟨last, rest'', hscan', hsuffix, -⟩ := hwritten'.scan_append rest'
    rw [hother, hscan] at hscan'
    cases hscan'
    have hlength := congrArg List.length hother
    have hle := hsuffix.length_le
    rw [List.length_append, List.length_append] at hlength
    omega
  · rintro ⟨text, rfl, hwritten, hlongest⟩
    obtain ⟨n', rest', hscan, hsuffix, hsame⟩ := hwritten.scan_append rest
    obtain ⟨text', hcs, hwritten'⟩ := isWritten_of_scan hscan
    have hle := hlongest.longest ⟨rest', hcs.symm⟩ hwritten'
    have hlength := congrArg List.length hcs
    rw [List.length_append, List.length_append] at hlength
    obtain rfl := hsuffix.eq_of_length_le (by omega)
    obtain rfl := List.append_cancel_right hcs
    rw [hscan, hwritten'.unique hwritten]

theorem scan_eq_none_iff : scan cs = none ↔ ∀ text n, text <+: cs → ¬IsWritten n text := by
  constructor
  · rintro hscan text n ⟨rest, rfl⟩ hwritten
    obtain ⟨n', rest', hscan', -⟩ := hwritten.scan_append rest
    rw [hscan] at hscan'
    cases hscan'
  · intro hno
    rw [Option.eq_none_iff_forall_ne_some]
    rintro ⟨n, rest⟩ hscan
    obtain ⟨text, hcs, hwritten⟩ := isWritten_of_scan hscan
    exact hno text n ⟨rest, hcs.symm⟩ hwritten

end DataRules.Double.Numeral
