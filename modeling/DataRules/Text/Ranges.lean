set_option autoImplicit false

/-!
# Text: classes of characters as ranges

A class of characters that a standard lists is a list of closed ranges of code
points, in ascending order and with gaps between them, so that a class has one
list only.  This module holds the look-up and the questions that check a list.
-/

namespace DataRules.Text

/-- Closed ranges of code points. -/
abbrev Ranges : Type := List (Nat × Nat)

namespace Ranges

/-- The character is in one of the ranges. -/
def contains (ranges : Ranges) (c : Char) : Bool :=
  ranges.any fun r => r.1 ≤ c.toNat && c.toNat ≤ r.2

/-- The ranges are in ascending order with gaps between them. -/
def areApart : Ranges → Bool
  | [] => true
  | [r] => r.1 ≤ r.2
  | r :: next :: rest => r.1 ≤ r.2 && r.2 + 1 < next.1 && areApart (next :: rest)

/-- How many code points there are in ranges that are apart. -/
def size (ranges : Ranges) : Nat := ranges.foldl (fun count r => count + (r.2 + 1 - r.1)) 0

theorem contains_iff {ranges : Ranges} {c : Char} :
    ranges.contains c = true ↔ ∃ r ∈ ranges, r.1 ≤ c.toNat ∧ c.toNat ≤ r.2 := by
  simp [contains]

end Ranges

end DataRules.Text
