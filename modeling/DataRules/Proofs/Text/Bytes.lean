set_option autoImplicit false

/-!
# Bytes: the order of texts and of their encodings

Texts are ordered by code point.  Their UTF-8 bytes are in the same order: the
codes of two characters differ at a position that both have, and where they
differ first the smaller character has the smaller byte.
-/

namespace DataRules.Text

/-- The UTF-8 bytes of a text. -/
def bytes (s : String) : List UInt8 := s.toUTF8.data.toList

/-- The two lists differ at a position that both have, and where they differ first
the first list has the smaller byte. -/
inductive Precedes : List UInt8 → List UInt8 → Prop where
  | head {a b : UInt8} {as bs : List UInt8} (hlt : a < b) : Precedes (a :: as) (b :: bs)
  | tail {a : UInt8} {as bs : List UInt8} (hrest : Precedes as bs) : Precedes (a :: as) (a :: bs)

namespace Precedes

/-- What follows does not matter. -/
theorem append_lt {as bs : List UInt8} (h : Precedes as bs) (more more' : List UInt8) :
    as ++ more < bs ++ more' := by
  induction h with
  | head hlt => exact List.cons_lt_cons_iff.mpr (.inl hlt)
  | tail _ ih => exact List.cons_lt_cons_iff.mpr (.inr ⟨rfl, ih⟩)

theorem of_lt {m n : Nat} {as bs : List UInt8} (hlt : m < n) (hn : n < 256) :
    Precedes (.ofNat m :: as) (.ofNat n :: bs) := by
  refine .head ?_
  rw [UInt8.lt_iff_toNat_lt, UInt8.toNat_ofNat', UInt8.toNat_ofNat', Nat.mod_eq_of_lt hn,
    Nat.mod_eq_of_lt (Nat.lt_trans hlt hn)]
  exact hlt

theorem of_le {m n : Nat} {as bs : List UInt8} (hle : m ≤ n) (hn : n < 256)
    (hrest : m = n → Precedes as bs) : Precedes (.ofNat m :: as) (.ofNat n :: bs) := by
  rcases Nat.lt_or_eq_of_le hle with hlt | rfl
  · exact of_lt hlt hn
  · exact .tail (hrest rfl)

end Precedes

/-- The codes of two characters are in the order of the characters.  A code with
more bytes starts with a greater one, and among codes of one length the digits to
the base 64 decide. -/
theorem precedes_utf8EncodeChar {c d : Char} (h : c < d) :
    Precedes (String.utf8EncodeChar c) (String.utf8EncodeChar d) := by
  have hlt : c.val.toNat < d.val.toNat := h
  have hmax : d.val.toNat < 0x110000 := by
    rcases d.valid with hd | ⟨-, hd⟩
    · exact Nat.lt_trans hd (by decide)
    · exact hd
  unfold String.utf8EncodeChar
  generalize c.val.toNat = m, d.val.toNat = n at hlt hmax
  dsimp only
  by_cases hone : m ≤ 0x7f
  · rw [if_pos hone]
    repeat' split
    all_goals exact .of_lt (by omega) (by omega)
  · rw [if_neg hone, if_neg (by omega : ¬n ≤ 0x7f)]
    by_cases htwo : m ≤ 0x7ff
    · rw [if_pos htwo]
      split
      · refine .of_le (by omega) (by omega) fun _ => ?_
        exact .of_lt (by omega) (by omega)
      · split
        all_goals exact .of_lt (by omega) (by omega)
    · rw [if_neg htwo, if_neg (by omega : ¬n ≤ 0x7ff)]
      by_cases hthree : m ≤ 0xffff
      · rw [if_pos hthree]
        split
        · refine .of_le (by omega) (by omega) fun _ => ?_
          refine .of_le (by omega) (by omega) fun _ => ?_
          exact .of_lt (by omega) (by omega)
        · exact .of_lt (by omega) (by omega)
      · rw [if_neg hthree, if_neg (by omega : ¬n ≤ 0xffff)]
        refine .of_le (by omega) (by omega) fun _ => ?_
        refine .of_le (by omega) (by omega) fun _ => ?_
        refine .of_le (by omega) (by omega) fun _ => ?_
        exact .of_lt (by omega) (by omega)

theorem bytes_eq_flatMap (s : String) : bytes s = s.toList.flatMap String.utf8EncodeChar := by
  rw [bytes, String.toUTF8_eq_toByteArray, ← String.utf8Encode_toList, List.utf8Encode]
  exact List.toList_data_toByteArray

/-- Texts in order have bytes in order. -/
theorem bytes_lt {s t : String} (h : s < t) : bytes s < bytes t := by
  rw [String.lt_iff] at h
  rw [bytes_eq_flatMap, bytes_eq_flatMap]
  generalize s.toList = cs, t.toList = ds at h
  induction h with
  | @nil d ds =>
      obtain ⟨byte, more, hcode⟩ := List.exists_cons_of_ne_nil (String.utf8EncodeChar_ne_nil (c := d))
      rw [List.flatMap_nil, List.flatMap_cons, hcode]
      exact List.nil_lt_cons byte _
  | rel hlt =>
      rw [List.flatMap_cons, List.flatMap_cons]
      exact (precedes_utf8EncodeChar hlt).append_lt _ _
  | cons _ ih =>
      rw [List.flatMap_cons, List.flatMap_cons]
      exact List.append_left_lt ih

end DataRules.Text
