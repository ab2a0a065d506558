import DataRules.Text.Ranges

set_option autoImplicit false

/-!
# Text: blank characters and trimming

Reading a number from a text, and deciding whether a data text is empty, both
start by cutting blanks off the two ends.  A character is blank when it has the
Unicode property `White_Space`; this module holds that property as a table of
code point ranges and the cut itself, over lists of characters.
-/

namespace DataRules.Text

/-- The code points with the property `White_Space`. -/
def blankRanges : Ranges :=
  [(0x9, 0xD), (0x20, 0x20), (0x85, 0x85), (0xA0, 0xA0), (0x1680, 0x1680),
   (0x2000, 0x200A), (0x2028, 0x2029), (0x202F, 0x202F), (0x205F, 0x205F),
   (0x3000, 0x3000)]

/-- The character has the property `White_Space`. -/
def isBlank (c : Char) : Bool := blankRanges.contains c

/-- The list without its leading blanks. -/
def trimStart (cs : List Char) : List Char := cs.dropWhile isBlank

/-- The list without its trailing blanks. -/
def trimEnd (cs : List Char) : List Char := (trimStart cs.reverse).reverse

/-- The list without the blanks at its two ends. -/
def trim (cs : List Char) : List Char := trimEnd (trimStart cs)

/-- The text holds nothing but blanks. -/
def isBlankText (s : String) : Bool := s.toList.all isBlank

/-! ## The table -/

example : blankRanges.areApart = true := by decide
example : blankRanges.size = 25 := by decide

/-! ## The cut -/

theorem trimStart_eq_of_head {c : Char} {cs : List Char} (h : isBlank c = false) :
    trimStart (c :: cs) = c :: cs := by
  simp [trimStart, h]

end DataRules.Text
