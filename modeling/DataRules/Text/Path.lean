import DataRules.Text.Split

set_option autoImplicit false

/-!
# Text: dotted names

A dot separates the segments of a data path (`"user.name"`) and of an operator
name (`"math.add"`).  This module splits a name into its segments, joins
segments with dots, and reads a segment as a position in a list.  A name always
has at least one segment, and joining what was split gives the name back.
-/

namespace DataRules.Path

/-- The segments of a dotted name. -/
def segments (name : String) : List String := (Text.split '.' name.toList).map String.ofList

/-- The dotted name with these segments. -/
def join (names : List String) : String :=
  String.ofList (Text.joinWith '.' (names.map String.toList))

/-- The position that a segment spells: decimal digits with no sign and no
needless leading zero, so that each position has one spelling. -/
def index? (segment : String) : Option Nat :=
  let position := Nat.ofDigitChars 10 segment.toList 0
  if Nat.toDigits 10 position = segment.toList then some position else none

/-- The name has a dot past its first character. -/
def isDotted (name : String) : Bool :=
  match name.toList with
  | [] => false
  | c :: cs => c ≠ '.' && cs.contains '.'

@[simp] theorem join_segments (name : String) : join (segments name) = name := by
  simp [join, segments, Function.comp_def]

theorem segments_ne_nil (name : String) : segments name ≠ [] := by
  simp [segments, Text.split_ne_nil]

/-- A dotted name has more than one segment. -/
theorem segments_of_isDotted {name : String} (h : isDotted name = true) :
    ∃ first next rest, segments name = first :: next :: rest := by
  have hmem : '.' ∈ name.toList := by
    unfold isDotted at h
    split at h
    · cases h
    · next c cs hname =>
        rw [Bool.and_eq_true, List.contains_iff_mem] at h
        rw [hname]
        exact List.mem_cons_of_mem c h.2
  obtain ⟨front, back, hname, hfront⟩ := List.eq_append_cons_of_mem hmem
  obtain ⟨next, rest, hback⟩ := List.exists_cons_of_ne_nil (Text.split_ne_nil '.' back)
  refine ⟨String.ofList front, String.ofList next, rest.map String.ofList, ?_⟩
  rw [segments, hname, Text.split_append_cons hfront, hback, List.map_cons, List.map_cons]

/-- Names without dots are the segments of the dotted name that they join to. -/
theorem segments_join {names : List String} (hne : names ≠ [])
    (h : ∀ name ∈ names, '.' ∉ name.toList) : segments (join names) = names := by
  have hpieces : ∀ piece ∈ names.map String.toList, '.' ∉ piece := by
    intro piece hpiece
    obtain ⟨name, hname, rfl⟩ := List.mem_map.mp hpiece
    exact h name hname
  have hsplit := Text.split_joinWith (by simpa using hne) hpieces
  rw [segments, join, String.toList_ofList, hsplit]
  simp [Function.comp_def]

/-- Two names or more join to a dotted name, unless the first one is empty or has a
dot in front. -/
theorem isDotted_join {first : String} (hempty : first ≠ "") (hdot : '.' ∉ first.toList)
    (next : String) (rest : List String) : isDotted (join (first :: next :: rest)) = true := by
  obtain ⟨c, cs, hfirst⟩ := List.exists_cons_of_ne_nil
    (fun hnil => hempty (String.toList_eq_nil_iff.mp hnil))
  have hjoin : (join (first :: next :: rest)).toList =
      c :: (cs ++ '.' :: Text.joinWith '.' (next.toList :: rest.map String.toList)) := by
    rw [join, String.toList_ofList, List.map_cons, List.map_cons,
      Text.joinWith_cons_of_ne_nil '.' (List.cons_ne_nil _ _), hfirst, List.cons_append]
  have hc : c ≠ '.' := by
    rintro rfl
    exact hdot (hfirst ▸ List.mem_cons_self)
  rw [isDotted, hjoin]
  simp [hc]

/-- A segment spells a position exactly when it is the position's digits. -/
theorem index?_eq_some_iff {segment : String} {n : Nat} :
    index? segment = some n ↔ segment.toList = Nat.toDigits 10 n := by
  simp only [index?]
  constructor
  · intro h
    split at h
    · next e =>
        obtain rfl := Option.some.inj h
        exact e.symm
    · cases h
  · intro h
    rw [h, Nat.ofDigitChars_toDigits (by decide) (by decide)]
    simp

end DataRules.Path
