import DataRules.Proofs.Json.Numbers

set_option autoImplicit false

/-!
# RoundTrip: documents read back from their texts

A printed document is read as the document that it is, whatever blanks the style puts at
its line breaks and after its colons.  Reading is only asked to take a part of a document
off what may follow it there, and a part starts with no blank and no closing bracket; from
this the containers follow from their items and fields, one level of nesting at a time.
What the reader asks of a document in turn is that it nests no deeper than the reader goes,
that the fields of its objects stand in the order of their keys, and that its numbers are
restored by the conversion that the reader uses.
-/

namespace DataRules

namespace Table

variable {α : Type}

theorem insert_of_forall_lt {key : String} {entries : List (String × α)}
    (h : ∀ entry ∈ entries, entry.1 < key) (a : α) :
    insert key a entries = entries ++ [(key, a)] := by
  induction entries with
  | nil => rfl
  | cons entry rest ih =>
      obtain ⟨k, b⟩ := entry
      obtain ⟨hk, hrest⟩ := List.forall_mem_cons.mp h
      rw [insert, if_neg (String.lt_asymm hk), if_neg (String.ne_of_lt hk), ih hrest,
        List.cons_append]

/-- Entries in the order of their keys are a table as they stand. -/
theorem ofList_of_ascending {entries : List (String × α)} (h : Ascending entries) :
    ofList entries = entries := by
  have hfold : ∀ (more table : List (String × α)), Ascending (table ++ more) →
      more.foldl (fun table entry => insert entry.1 entry.2 table) table = table ++ more := by
    intro more
    induction more with
    | nil => exact fun table _ => (List.append_nil table).symm
    | cons entry more ih =>
        intro table hascending
        have hlast : ∀ other ∈ table, other.1 < entry.1 := fun other hother =>
          (List.pairwise_append.mp hascending).2.2 other hother entry List.mem_cons_self
        rw [List.append_cons] at hascending ⊢
        rw [List.foldl_cons, insert_of_forall_lt hlast, ih _ hascending]
  exact hfold entries [] h

end Table

namespace Json.Parser

/-! ## Blanks -/

/-- The character may stand between the parts of a document. -/
def IsBlank (c : Char) : Prop := c = ' ' ∨ c = '\t' ∨ c = '\n' ∨ c = '\r'

instance (c : Char) : Decidable (IsBlank c) := inferInstanceAs (Decidable (_ ∨ _))

/-- All the characters may. -/
def AreBlanks (cs : List Char) : Prop := ∀ c ∈ cs, IsBlank c

variable {rest blanks lineBreak closing : List Char} {convert : Conversion}

theorem skipBlanks_eq (cs : List Char) : skipBlanks cs = cs.dropWhile fun c => IsBlank c := by
  have hchars : ∀ c, (decide (c = ' ') || decide (c = '\t') || decide (c = '\n') ||
      decide (c = '\r')) = decide (IsBlank c) := by
    intro c
    rw [Bool.eq_iff_iff, decide_eq_true_iff, IsBlank]
    simp only [Bool.or_eq_true, decide_eq_true_iff, or_assoc]
  exact congrArg (cs.dropWhile ·) (funext hchars)

theorem skipBlanks_append (h : AreBlanks blanks) (rest : List Char) :
    skipBlanks (blanks ++ rest) = skipBlanks rest := by
  rw [skipBlanks_eq, skipBlanks_eq]
  exact List.dropWhile_append_of_pos fun c hc => decide_eq_true (h c hc)

theorem skipBlanks_cons {c : Char} (h : ¬IsBlank c) (rest : List Char) :
    skipBlanks (c :: rest) = c :: rest := by
  rw [skipBlanks_eq, List.dropWhile_cons_of_neg]
  exact fun hblank => h (of_decide_eq_true hblank)

theorem areBlanks_nil : AreBlanks [] := fun _ h => absurd h List.not_mem_nil

theorem follows_nil : Follows [] := fun _ h => by cases h

theorem follows_cons {c : Char} (h : IsBlank c ∨ c = ',' ∨ c = ']' ∨ c = '\x7d')
    (rest : List Char) : Follows (c :: rest) := by
  intro d hd
  obtain rfl := Option.some.inj hd
  rcases h with (rfl | rfl | rfl | rfl) | rfl | rfl | rfl <;> decide

theorem follows_append (h : AreBlanks blanks) (hrest : Follows rest) :
    Follows (blanks ++ rest) := by
  cases blanks with
  | nil => exact hrest
  | cons c cs => exact follows_cons (.inl (h c List.mem_cons_self)) _

/-! ## Texts -/

theorem hexValue?_hexDigit : ∀ d < 16, hexValue? (hexDigit d) = some d := by decide

/-- A control character is read back from the two digits of its escape. -/
theorem unicodeEscape_of_lt {c : Char} (hcontrol : c.toNat < 0x20) (rest : List Char) :
    unicodeEscape ('0' :: '0' :: hexDigit (c.toNat / 16) :: hexDigit (c.toNat % 16) :: rest) =
      some (c, rest) := by
  have hzero : hexValue? '0' = some 0 := by decide
  have hhigh := hexValue?_hexDigit (c.toNat / 16) (by omega)
  have hlow := hexValue?_hexDigit (c.toNat % 16) (by omega)
  have hvalue : ((0 * 16 + 0) * 16 + c.toNat / 16) * 16 + c.toNat % 16 = c.toNat := by omega
  have hunit : c.toNat < 0xD800 ∨ 0xE000 ≤ c.toNat := by omega
  simp only [unicodeEscape, hexQuad, hzero, hhigh, hlow, Option.bind_eq_bind, Option.bind_some,
    Option.pure_def, hvalue, if_pos hunit, Char.ofNat_toNat]

/-- A character of a text is read back from its escape. -/
theorem textChar_escape (c : Char) (rest : List Char) :
    textChar (escape c ++ rest) = some (some c, rest) := by
  by_cases hletter : c ∈ ['"', '\\', '\x08', '\x0c', '\n', '\r', '\t']
  · simp only [List.mem_cons, List.not_mem_nil, or_false] at hletter
    rcases hletter with rfl | rfl | rfl | rfl | rfl | rfl | rfl <;> rfl
  · simp only [List.mem_cons, List.not_mem_nil, or_false, not_or] at hletter
    obtain ⟨hquote, hbackslash, hb, hf, hn, hr, ht⟩ := hletter
    rw [escape, if_neg hquote, if_neg hbackslash, if_neg hb, if_neg hf, if_neg hn, if_neg hr,
      if_neg ht]
    by_cases hcontrol : c.toNat < 0x20
    · rw [if_pos hcontrol]
      exact congrArg (Option.map fun read => (some read.1, read.2))
        (unicodeEscape_of_lt hcontrol rest)
    · rw [if_neg hcontrol, List.singleton_append, textChar.eq_def]
      simp only [if_neg hquote, if_neg hbackslash, if_neg hcontrol]

/-- Where each part is written with a character at least, there are as many characters as
parts. -/
theorem length_le_length_flatMap {α : Type} {written : α → List Char}
    (hwritten : ∀ a, written a ≠ []) (as : List α) : as.length ≤ (as.flatMap written).length := by
  induction as with
  | nil => exact Nat.zero_le _
  | cons a as ih =>
      have hpos := List.length_pos_iff.mpr (hwritten a)
      rw [List.flatMap_cons, List.length_append, List.length_cons]
      omega

theorem escape_ne_nil (c : Char) : escape c ≠ [] := by
  intro hnil
  have hread := textChar_escape c []
  rw [hnil] at hread
  cases hread

theorem textChars_escape (cs rest : List Char) {fuel : Nat} (hfuel : cs.length < fuel) :
    textChars fuel (cs.flatMap escape ++ '"' :: rest) = some (cs, rest) := by
  induction cs generalizing fuel with
  | nil =>
      obtain ⟨fuel, rfl⟩ := Nat.exists_eq_add_of_lt hfuel
      rfl
  | cons c cs ih =>
      rw [List.length_cons] at hfuel
      obtain ⟨fuel, rfl⟩ := Nat.exists_eq_add_of_lt hfuel
      rw [List.flatMap_cons, List.append_assoc, textChars, textChar_escape]
      have hmore := ih (show cs.length < cs.length + 1 + fuel by omega)
      simp only [Option.bind_eq_bind, Option.bind_some, hmore, Option.pure_def]

/-- A text is read back from the characters between its quotes. -/
theorem text_escape (s : String) (rest : List Char) :
    text (s.toList.flatMap escape ++ '"' :: rest) = some (s, rest) := by
  have hfuel : s.toList.length < (s.toList.flatMap escape ++ '"' :: rest).length + 1 := by
    have hle := length_le_length_flatMap escape_ne_nil s.toList
    rw [List.length_append]
    omega
  rw [text, textChars_escape _ _ hfuel]
  exact congrArg (fun s => some (s, rest)) String.ofList_toList

/-! ## Parts of a container -/

/-- What is written for a part is read as the part off whatever may follow it, and it starts
with no blank and no closing bracket. -/
structure IsReadBy {α : Type} (part : Parser α) (written : α → List Char) (a : α) : Prop where
  starts : ∃ c cs, written a = c :: cs ∧ ¬IsBlank c ∧ c ≠ ']' ∧ c ≠ '\x7d'
  read : ∀ {rest : List Char}, Follows rest → part (written a ++ rest) = some (a, rest)

/-- The parts after the first one, each after a comma and a line break. -/
def more {α : Type} (lineBreak : List Char) (written : α → List Char) (as : List α) :
    List Char :=
  as.flatMap fun a => ',' :: (lineBreak ++ written a)

section Containers

variable {α : Type} {part : Parser α} {written : α → List Char} {close : Char}

theorem IsReadBy.skip {a : α} (h : IsReadBy part written a) (hbreak : AreBlanks lineBreak)
    (rest : List Char) : skipBlanks (lineBreak ++ (written a ++ rest)) = written a ++ rest := by
  obtain ⟨c, cs, hwritten, hc, -, -⟩ := h.starts
  rw [skipBlanks_append hbreak, hwritten, List.cons_append, skipBlanks_cons hc]

/-- One part is read, and then as many as commas follow, up to the bracket. -/
theorem parts_written (hclose : close = ']' ∨ close = '\x7d') (hbreak : AreBlanks lineBreak)
    (hclosing : AreBlanks closing) (rest : List Char) {others : List α} :
    ∀ {first : α} {fuel : Nat}, (∀ a ∈ first :: others, IsReadBy part written a) →
      others.length < fuel →
      parts part close fuel (lineBreak ++ (written first ++
        (more lineBreak written others ++ (closing ++ close :: rest)))) =
        some (first :: others, rest) := by
  have hbracket : ¬IsBlank close ∧ close ≠ ',' := by
    rcases hclose with rfl | rfl <;> decide
  have hend : Follows (closing ++ close :: rest) :=
    follows_append hclosing (follows_cons (.inr (.inr hclose)) rest)
  induction others with
  | nil =>
      intro first fuel hread hfuel
      obtain ⟨fuel, rfl⟩ := Nat.exists_eq_add_of_lt hfuel
      have hfirst := hread first List.mem_cons_self
      rw [more, List.flatMap_nil, List.nil_append, parts, hfirst.skip hbreak, hfirst.read hend]
      simp only [Option.bind_eq_bind, Option.bind_some, skipBlanks_append hclosing,
        skipBlanks_cons hbracket.1, if_true, Option.pure_def]
  | cons second others ih =>
      intro first fuel hread hfuel
      rw [List.length_cons] at hfuel
      obtain ⟨fuel, rfl⟩ := Nat.exists_eq_add_of_lt hfuel
      obtain ⟨hfirst, hothers⟩ := List.forall_mem_cons.mp hread
      have hmore := ih hothers (show others.length < others.length + 1 + fuel by omega)
      have hcomma : more lineBreak written (second :: others) ++ (closing ++ close :: rest) =
          ',' :: (lineBreak ++ (written second ++
            (more lineBreak written others ++ (closing ++ close :: rest)))) := by
        simp only [more, List.flatMap_cons, List.cons_append, List.append_assoc]
      rw [hcomma, parts, hfirst.skip hbreak, hfirst.read (follows_cons (.inr (.inl rfl)) _)]
      simp only [Option.bind_eq_bind, Option.bind_some,
        skipBlanks_cons (show ¬IsBlank ',' by decide), if_neg hbracket.2.symm, if_true, hmore,
        Option.pure_def]

/-- The parts of a container are read back from what is written between its brackets. -/
theorem bracketed_written (hclose : close = ']' ∨ close = '\x7d') (hbreak : AreBlanks lineBreak)
    (hclosing : AreBlanks closing) (rest : List Char) {first : α} {others : List α}
    (hread : ∀ a ∈ first :: others, IsReadBy part written a) :
    bracketed part close (lineBreak ++ (written first ++
      (more lineBreak written others ++ (closing ++ close :: rest)))) =
      some (first :: others, rest) := by
  have hfirst := hread first List.mem_cons_self
  obtain ⟨c, cs, hwritten, -, hsquare, hcurly⟩ := hfirst.starts
  have hopen : c ≠ close := by
    rcases hclose with rfl | rfl
    · exact hsquare
    · exact hcurly
  have hfuel : others.length < (lineBreak ++ (written first ++
      (more lineBreak written others ++ (closing ++ close :: rest)))).length + 1 := by
    have hle : others.length ≤ (more lineBreak written others).length :=
      length_le_length_flatMap (fun a => List.cons_ne_nil _ _) others
    simp only [List.length_append]
    omega
  rw [bracketed, hfirst.skip hbreak, hwritten, List.cons_append]
  dsimp only
  rw [if_neg hopen, ← List.cons_append, ← hwritten]
  exact parts_written hclose hbreak hclosing rest hread hfuel

end Containers

/-! ## Documents that are no container -/

/-- A number starts with a digit or a minus. -/
theorem exists_cons_of_number {cs : List Char} {read : Json × List Char}
    (h : number convert cs = some read) :
    ∃ c rest, cs = c :: rest ∧ (c = '-' ∨ c.isDigit = true) := by
  cases cs with
  | nil => cases h
  | cons c rest =>
      refine ⟨c, rest, rfl, ?_⟩
      by_contra hneither
      obtain ⟨hminus, hdigit⟩ := not_or.mp hneither
      have hzero : c ≠ '0' := by
        rintro rfl
        exact hdigit rfl
      have hunsigned : number convert (c :: rest) = takeUnsigned convert false (c :: rest) :=
        number_signChars hminus false rest
      rw [takeUnsigned, takeWhole, if_neg hzero, if_neg hdigit] at hunsigned
      cases hunsigned.symm.trans h

theorem document_eq_scalar {c : Char} (hsquare : c ≠ '[') (hcurly : c ≠ '\x7b') (depth : Nat)
    (rest : List Char) :
    document convert depth (c :: rest) = scalar convert (c :: rest) := by
  cases depth with
  | zero => rfl
  | succ depth =>
      rw [document.eq_def]
      dsimp only
      split
      · next h => exact absurd (List.cons.inj h).1 hsquare
      · next h => exact absurd (List.cons.inj h).1 hcurly
      · rfl

/-- Quotes with a text between them are the text. -/
theorem scalar_quoted (s : String) (rest : List Char) :
    scalar convert (quoted s ++ rest) = some (.text s, rest) := by
  have hread := text_escape s rest
  rw [quoted, List.cons_append, List.append_assoc, List.singleton_append, scalar, hread]
  rfl

/-- What starts a number starts nothing else. -/
theorem ne_of_starts_number {c : Char} (hc : c = '-' ∨ c.isDigit = true) {d : Char}
    (hd : ¬(d = '-' ∨ d.isDigit = true)) : c ≠ d := by
  rintro rfl
  exact hd hc

theorem scalar_eq_number {c : Char} (hc : c = '-' ∨ c.isDigit = true) (rest : List Char) :
    scalar convert (c :: rest) = number convert (c :: rest) := by
  unfold scalar
  split
  · next h => exact absurd (List.cons.inj h).1 (ne_of_starts_number hc (by decide))
  · next h => exact absurd (List.cons.inj h).1 (ne_of_starts_number hc (by decide))
  · next h => exact absurd (List.cons.inj h).1 (ne_of_starts_number hc (by decide))
  · next h => exact absurd (List.cons.inj h).1 (ne_of_starts_number hc (by decide))
  · rfl

/-- A document with a first character that starts no container is read as a scalar is. -/
theorem isReadBy_of_scalar {doc : Json} {written : Json → List Char} (depth : Nat)
    (hstarts : ∃ c cs, written doc = c :: cs ∧ ¬IsBlank c ∧ c ≠ ']' ∧ c ≠ '\x7d' ∧
      c ≠ '[' ∧ c ≠ '\x7b')
    (hread : ∀ {rest : List Char}, Follows rest →
      scalar convert (written doc ++ rest) = some (doc, rest)) :
    IsReadBy (document convert depth) written doc := by
  obtain ⟨c, cs, hwritten, hblank, hsquare, hcurly, hopenSquare, hopenCurly⟩ := hstarts
  refine ⟨⟨c, cs, hwritten, hblank, hsquare, hcurly⟩, fun hrest => ?_⟩
  rw [hwritten, List.cons_append, document_eq_scalar hopenSquare hopenCurly, ← List.cons_append,
    ← hwritten, hread hrest]

end Json.Parser

namespace Json

/-! ## Documents -/

/-- A style has blanks alone at its line breaks and after its colons. -/
structure Style.IsReadable (style : Style) : Prop where
  lineBreak : ∀ depth, Parser.AreBlanks (style.lineBreak depth)
  colon : ∃ blanks, Parser.AreBlanks blanks ∧ style.colon = ':' :: blanks

theorem Style.compact_isReadable : Style.compact.IsReadable where
  lineBreak := fun _ => Parser.areBlanks_nil
  colon := ⟨[], Parser.areBlanks_nil, rfl⟩

theorem Style.indented_isReadable : Style.indented.IsReadable where
  lineBreak := by
    intro depth c hc
    rcases List.mem_cons.mp hc with rfl | hspace
    · exact .inr (.inr (.inl rfl))
    · exact .inl (List.eq_of_mem_replicate hspace)
  colon := ⟨[' '], fun _ h => .inl (List.mem_singleton.mp h), rfl⟩

/-- The containers of the document nest at most so deep, and the fields of its objects stand
in the order of their keys. -/
inductive Fits : Nat → Json → Prop where
  | null (depth : Nat) : Fits depth .null
  | bool (depth : Nat) (b : Bool) : Fits depth (.bool b)
  | number (depth : Nat) (n : Number) (finite : n.isFinite = true) : Fits depth (.number n finite)
  | text (depth : Nat) (s : String) : Fits depth (.text s)
  | list {depth : Nat} {items : List Json} (hitems : ∀ item ∈ items, Fits depth item) :
      Fits (depth + 1) (.list items)
  | object {depth : Nat} {fields : List (String × Json)} (hkeys : Table.Ascending fields)
      (hfields : ∀ field ∈ fields, Fits depth field.2) : Fits (depth + 1) (.object fields)

/-- The number stands in the document, at whatever depth. -/
inductive HasNumber : Json → Number → Prop where
  | self (n : Number) (finite : n.isFinite = true) : HasNumber (.number n finite) n
  | item {items : List Json} {doc : Json} {n : Number} (hmem : doc ∈ items)
      (hnumber : HasNumber doc n) : HasNumber (.list items) n
  | field {fields : List (String × Json)} {field : String × Json} {n : Number}
      (hmem : field ∈ fields) (hnumber : HasNumber field.2 n) : HasNumber (.object fields) n

/-- A field as it is written. -/
def fieldChars (style : Style) (depth : Nat) (field : String × Json) : List Char :=
  quoted field.1 ++ style.colon ++ chars style depth field.2

theorem moreItems_eq (style : Style) (depth : Nat) (items : List Json) :
    moreItems style depth items =
      Parser.more (style.lineBreak depth) (chars style depth) items := by
  induction items with
  | nil => rfl
  | cons item items ih =>
      rw [moreItems, ih, Parser.more, Parser.more, List.flatMap_cons, List.cons_append]

theorem moreFields_eq (style : Style) (depth : Nat) (fields : List (String × Json)) :
    moreFields style depth fields =
      Parser.more (style.lineBreak depth) (fieldChars style depth) fields := by
  induction fields with
  | nil => rfl
  | cons field fields ih =>
      obtain ⟨key, field⟩ := field
      simp only [moreFields, ih, Parser.more, List.flatMap_cons, List.cons_append, fieldChars,
        List.append_assoc]

namespace Parser

variable {style : Style} {n depth : Nat} {convert : Conversion}

/-- A field is read back when its document is. -/
theorem isReadBy_field (hstyle : style.IsReadable) {part : Parser Json}
    {entry : String × Json} (hfield : IsReadBy part (chars style depth) entry.2) :
    IsReadBy (field part) (fieldChars style depth) entry := by
  obtain ⟨blanks, hblanks, hcolon⟩ := hstyle.colon
  obtain ⟨key, value⟩ := entry
  refine ⟨⟨'"', _, rfl, by decide, by decide, by decide⟩, fun {rest} hrest => ?_⟩
  have hwritten : fieldChars style depth (key, value) ++ rest =
      '"' :: (key.toList.flatMap escape ++ '"' :: (':' :: (blanks ++
        (chars style depth value ++ rest)))) := by
    simp only [fieldChars, quoted, hcolon, List.cons_append, List.append_assoc, List.nil_append]
  rw [hwritten, field, text_escape]
  simp only [Option.bind_eq_bind, Option.bind_some, skipBlanks_cons (show ¬IsBlank ':' by decide),
    hfield.skip hblanks, hfield.read hrest, Option.pure_def]

/-- A number is read back when the conversion restores it. -/
theorem isReadBy_number (n depth : Nat) {x : Number} (finite : x.isFinite = true)
    (hx : Restores convert x) :
    IsReadBy (document convert n) (chars style depth) (.number x finite) := by
  have hall := hx finite follows_nil
  rw [List.append_nil] at hall
  obtain ⟨c, cs, hcons, hc⟩ := exists_cons_of_number hall
  have hne : ∀ {d : Char}, ¬(d = '-' ∨ d.isDigit = true) → c ≠ d := ne_of_starts_number hc
  have hblank : ¬IsBlank c := by
    rintro (rfl | rfl | rfl | rfl) <;> exact absurd hc (by decide)
  refine isReadBy_of_scalar n ⟨c, cs, hcons, hblank, hne (by decide), hne (by decide),
    hne (by decide), hne (by decide)⟩ fun {rest} hrest => ?_
  have hread := hx finite hrest
  rw [chars, ← hread, hcons]
  exact scalar_eq_number hc _

/-- A list is read back when its items are. -/
theorem isReadBy_list (hstyle : style.IsReadable) {items : List Json}
    (hitems : ∀ item ∈ items,
      IsReadBy (document convert n) (chars style (depth + 1)) item) :
    IsReadBy (document convert (n + 1)) (chars style depth) (.list items) := by
  cases items with
  | nil => exact ⟨⟨'[', _, rfl, by decide⟩, fun _ => rfl⟩
  | cons item items =>
      refine ⟨⟨'[', _, rfl, by decide⟩, fun {rest} _ => ?_⟩
      have hread := bracketed_written (.inl rfl) (hstyle.lineBreak (depth + 1))
        (hstyle.lineBreak depth) rest hitems
      have hwritten : chars style depth (.list (item :: items)) ++ rest =
          '[' :: (style.lineBreak (depth + 1) ++ (chars style (depth + 1) item ++
            (more (style.lineBreak (depth + 1)) (chars style (depth + 1)) items ++
              (style.lineBreak depth ++ ']' :: rest)))) := by
        simp only [chars, moreItems_eq, List.cons_append, List.append_assoc, List.nil_append]
      rw [hwritten, document, hread, Option.map_some]

/-- An object is read back when its fields are and their keys ascend. -/
theorem isReadBy_object (hstyle : style.IsReadable) {fields : List (String × Json)}
    (hkeys : Table.Ascending fields)
    (hfields : ∀ entry ∈ fields,
      IsReadBy (field (document convert n)) (fieldChars style (depth + 1)) entry) :
    IsReadBy (document convert (n + 1)) (chars style depth) (.object fields) := by
  cases fields with
  | nil => exact ⟨⟨'\x7b', _, rfl, by decide⟩, fun _ => rfl⟩
  | cons entry fields =>
      refine ⟨⟨'\x7b', _, rfl, by decide⟩, fun {rest} _ => ?_⟩
      have hread := bracketed_written (.inr rfl) (hstyle.lineBreak (depth + 1))
        (hstyle.lineBreak depth) rest hfields
      have hwritten : chars style depth (.object (entry :: fields)) ++ rest =
          '\x7b' :: (style.lineBreak (depth + 1) ++ (fieldChars style (depth + 1) entry ++
            (more (style.lineBreak (depth + 1)) (fieldChars style (depth + 1)) fields ++
              (style.lineBreak depth ++ '\x7d' :: rest)))) := by
        obtain ⟨key, value⟩ := entry
        simp only [chars, moreFields_eq, fieldChars, List.cons_append, List.append_assoc,
          List.nil_append]
      rw [hwritten, document, hread]
      exact congrArg (fun fields => some (Json.object fields, rest))
        (Table.ofList_of_ascending hkeys)

/-- A document that fits is read back from what is written of it when its numbers are. -/
theorem isReadBy_document (hstyle : style.IsReadable) {doc : Json} (h : Fits n doc)
    (hnumbers : ∀ x, doc.HasNumber x → Restores convert x) :
    ∀ depth, IsReadBy (document convert n) (chars style depth) doc := by
  induction h with
  | null n => exact fun depth => isReadBy_of_scalar n ⟨'n', _, rfl, by decide⟩ fun _ => rfl
  | bool n b =>
      intro depth
      cases b with
      | true => exact isReadBy_of_scalar n ⟨'t', _, rfl, by decide⟩ fun _ => rfl
      | false => exact isReadBy_of_scalar n ⟨'f', _, rfl, by decide⟩ fun _ => rfl
  | number n x finite =>
      exact fun depth => isReadBy_number n depth finite (hnumbers x (.self x finite))
  | text n s =>
      exact fun depth => isReadBy_of_scalar n ⟨'"', _, rfl, by decide⟩ fun _ => scalar_quoted s _
  | list _ ih =>
      exact fun depth => isReadBy_list hstyle fun item hitem =>
        ih item hitem (fun x hx => hnumbers x (.item hitem hx)) (depth + 1)
  | object hkeys _ ih =>
      exact fun depth => isReadBy_object hstyle hkeys fun entry hentry =>
        isReadBy_field hstyle
          (ih entry hentry (fun x hx => hnumbers x (.field hentry hx)) (depth + 1))

end Parser

/-- A document that nests no deeper than the reader goes is read back from its text when the
reader's conversion restores its numbers. -/
theorem parseBy_chars {convert : Conversion} {style : Style} (hstyle : style.IsReadable)
    {doc : Json} (h : Fits Parser.maxDepth doc)
    (hnumbers : ∀ x, doc.HasNumber x → Restores convert x) :
    parseBy convert (String.ofList (doc.chars style 0)) = some doc := by
  have hdocument := Parser.isReadBy_document hstyle h hnumbers 0
  have hskip := hdocument.skip Parser.areBlanks_nil []
  have hread := hdocument.read Parser.follows_nil
  rw [List.nil_append, List.append_nil] at hskip
  rw [List.append_nil] at hread
  rw [parseBy, String.toList_ofList, hskip, hread]
  rfl

/-! ## Readers and writers -/

/-- The reader takes each document that fits from the text that the writer makes of it. -/
def Reader.Inverts (read : Reader) (write : Json → String) : Prop :=
  ∀ doc : Json, doc.Fits Parser.maxDepth → read (write doc) = some doc

/-- A reader that makes of each numeral the nearest double inverts the writers of the two
styles. -/
theorem inverts_compress : Reader.Inverts (parseBy Double.Numeral.toFloat) compress :=
  fun _ h => parseBy_chars Style.compact_isReadable h fun x _ => restores_toFloat x

theorem inverts_pretty : Reader.Inverts (parseBy Double.Numeral.toFloat) pretty :=
  fun _ h => parseBy_chars Style.indented_isReadable h fun x _ => restores_toFloat x

end Json

end DataRules
