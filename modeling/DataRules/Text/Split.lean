set_option autoImplicit false

/-!
# Text: splitting at a character

A text splits at a separator into the pieces between its occurrences.  There is
always at least one piece, no piece holds the separator, and joining the pieces
gives the text back.
-/

namespace DataRules.Text

/-- The pieces between the separators, in order. -/
def split (separator : Char) : List Char → List (List Char)
  | [] => [[]]
  | c :: cs =>
      if c = separator then [] :: split separator cs
      else
        match split separator cs with
        | [] => [[c]]
        | piece :: pieces => (c :: piece) :: pieces

/-- The pieces with a separator between each two. -/
def joinWith (separator : Char) : List (List Char) → List Char
  | [] => []
  | [piece] => piece
  | piece :: pieces => piece ++ separator :: joinWith separator pieces

theorem split_ne_nil (separator : Char) (cs : List Char) : split separator cs ≠ [] := by
  cases cs with
  | nil => simp [split]
  | cons c cs =>
      simp only [split]
      split
      · simp
      · split <;> simp

theorem joinWith_cons_of_ne_nil (separator : Char) {piece : List Char}
    {pieces : List (List Char)} (h : pieces ≠ []) :
    joinWith separator (piece :: pieces) = piece ++ separator :: joinWith separator pieces := by
  cases pieces with
  | nil => exact absurd rfl h
  | cons _ _ => rfl

/-- Splitting loses nothing. -/
@[simp] theorem joinWith_split (separator : Char) (cs : List Char) :
    joinWith separator (split separator cs) = cs := by
  induction cs with
  | nil => rfl
  | cons c cs ih =>
      simp only [split]
      split
      · next h =>
          rw [joinWith_cons_of_ne_nil separator (split_ne_nil separator cs), ih, h]
          rfl
      · split
        · next h => exact absurd h (split_ne_nil separator cs)
        · next piece pieces h =>
            rw [h] at ih
            cases pieces with
            | nil => simpa [joinWith] using congrArg (c :: ·) ih
            | cons _ _ => simpa [joinWith] using congrArg (c :: ·) ih

/-- A text without the separator is one piece. -/
theorem split_of_not_mem {separator : Char} {piece : List Char} (h : separator ∉ piece) :
    split separator piece = [piece] := by
  induction piece with
  | nil => rfl
  | cons c cs ih =>
      simp only [List.mem_cons, not_or] at h
      simp [split, Ne.symm h.1, ih h.2]

theorem split_append_cons {separator : Char} {piece : List Char} (h : separator ∉ piece)
    (cs : List Char) :
    split separator (piece ++ separator :: cs) = piece :: split separator cs := by
  induction piece with
  | nil => simp [split]
  | cons c piece ih =>
      simp only [List.mem_cons, not_or] at h
      simp [split, Ne.symm h.1, ih h.2]

/-- Pieces without the separator are the pieces of what they join to. -/
theorem split_joinWith {separator : Char} {pieces : List (List Char)} (hne : pieces ≠ [])
    (h : ∀ piece ∈ pieces, separator ∉ piece) :
    split separator (joinWith separator pieces) = pieces := by
  induction pieces with
  | nil => exact absurd rfl hne
  | cons piece pieces ih =>
      rw [List.forall_mem_cons] at h
      cases pieces with
      | nil => exact split_of_not_mem h.1
      | cons next rest =>
          rw [joinWith_cons_of_ne_nil separator (List.cons_ne_nil next rest), split_append_cons h.1,
            ih (List.cons_ne_nil next rest) h.2]

end DataRules.Text
