import DataRules.Text.Path

set_option autoImplicit false

/-!
# Segments: dotted names put together

No segment has a dot in it.  Two dotted names with a dot between them have the segments of
the first and then those of the second, and joining some names splits at any place into
joining the front ones and joining the back ones.  So a beginning of the segments of a
name, joined, is the name itself or is followed in it by a dot.
-/

namespace DataRules

namespace Text

/-- Joining is joining a front part and a back part, with a separator between them. -/
theorem joinWith_append (separator : Char) {front back : List (List Char)} (hfront : front ≠ [])
    (hback : back ≠ []) :
    joinWith separator (front ++ back) =
      joinWith separator front ++ separator :: joinWith separator back := by
  induction front with
  | nil => exact absurd rfl hfront
  | cons piece front ih =>
      rw [List.cons_append]
      cases front with
      | nil => exact joinWith_cons_of_ne_nil separator hback
      | cons next rest =>
          rw [joinWith_cons_of_ne_nil separator (List.append_ne_nil_of_left_ne_nil (by simp) back),
            ih (List.cons_ne_nil next rest),
            joinWith_cons_of_ne_nil separator (List.cons_ne_nil next rest), List.append_assoc,
            List.cons_append]

/-- A separator splits a text into the pieces before it and the pieces after it. -/
theorem split_append_separator (separator : Char) (front back : List Char) :
    split separator (front ++ separator :: back) =
      split separator front ++ split separator back := by
  induction front with
  | nil => simp [split]
  | cons c front ih =>
      simp only [List.cons_append, split, ih]
      split
      · rfl
      · cases hpieces : split separator front with
        | nil => exact absurd hpieces (split_ne_nil separator front)
        | cons piece pieces => rfl

/-- No piece holds the separator. -/
theorem separator_not_mem_of_mem_split {separator : Char} {cs piece : List Char}
    (h : piece ∈ split separator cs) : separator ∉ piece := by
  induction cs generalizing piece with
  | nil =>
      obtain rfl : piece = [] := by simpa [split] using h
      simp
  | cons c cs ih =>
      simp only [split] at h
      split at h
      · rcases List.mem_cons.mp h with rfl | hmem
        · simp
        · exact ih hmem
      · next hc =>
          split at h
          · next hnil => exact absurd hnil (split_ne_nil separator cs)
          · next first pieces hpieces =>
              rw [hpieces, List.forall_mem_cons] at ih
              rcases List.mem_cons.mp h with rfl | hmem
              · simp [Ne.symm hc, ih.1]
              · exact ih.2 piece hmem

end Text

namespace Path

/-- A name has a dot past its first character when it has a dot and none in front. -/
theorem isDotted_iff {name : String} :
    isDotted name = true ↔ '.' ∈ name.toList ∧ name.toList.head? ≠ some '.' := by
  unfold isDotted
  cases name.toList with
  | nil => simp
  | cons c cs =>
      simp only [Bool.and_eq_true, decide_eq_true_iff, List.contains_iff_mem, List.mem_cons,
        List.head?_cons, ne_eq, Option.some.injEq]
      constructor
      · rintro ⟨hc, hmem⟩
        exact ⟨.inr hmem, hc⟩
      · rintro ⟨hmem, hc⟩
        exact ⟨hc, hmem.resolve_left (Ne.symm hc)⟩

theorem dot_not_mem_of_mem_segments {name segment : String} (h : segment ∈ segments name) :
    '.' ∉ segment.toList := by
  obtain ⟨piece, hpiece, rfl⟩ := List.mem_map.mp h
  rw [String.toList_ofList]
  exact Text.separator_not_mem_of_mem_split hpiece

/-- A name without a dot is its only segment. -/
theorem segments_of_not_mem {name : String} (h : '.' ∉ name.toList) : segments name = [name] := by
  have hjoin : join [name] = name := String.ofList_toList
  rw [← segments_join (List.cons_ne_nil name []) (by simpa using h), hjoin]

/-- The segments of two names with a dot between them. -/
theorem segments_append (front back : String) :
    segments (front ++ "." ++ back) = segments front ++ segments back := by
  have hchars : (front ++ "." ++ back).toList = front.toList ++ '.' :: back.toList := by simp
  rw [segments, hchars, Text.split_append_separator, List.map_append]
  rfl

theorem join_append {front back : List String} (hfront : front ≠ []) (hback : back ≠ []) :
    join (front ++ back) = join front ++ "." ++ join back := by
  refine String.toList_injective ?_
  rw [join, List.map_append,
    Text.joinWith_append '.' (by simpa using hfront) (by simpa using hback)]
  simp [join]

/-- A beginning of some names, joined, is all of them joined or is followed there by a
dot. -/
theorem join_take_eq_or (names : List String) {n : Nat} (hpos : 0 < n) :
    join (names.take n) = join names ∨ ∃ rest, join names = join (names.take n) ++ "." ++ rest := by
  rcases Nat.lt_or_ge n names.length with hlt | hge
  · refine .inr ⟨join (names.drop n), ?_⟩
    have hfront : names.take n ≠ [] := by
      rw [ne_eq, List.take_eq_nil_iff]
      rintro (hzero | rfl)
      · omega
      · exact absurd hlt (Nat.not_lt_zero n)
    have hback : names.drop n ≠ [] := by simpa using hlt
    rw [← join_append hfront hback, List.take_append_drop]
  · rw [List.take_of_length_le hge]
    exact .inl rfl

end Path

end DataRules
