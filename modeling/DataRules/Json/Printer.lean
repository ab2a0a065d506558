import DataRules.Json.Basic

set_option autoImplicit false

/-!
# Json: writing documents

A document is written on one line without spaces, or with one item a line and
two spaces of indentation a level.  The two styles differ in what stands at a
line break and after a colon; empty containers are closed at once in both.
-/

namespace DataRules.Json

open DataRules.Double

/-- Where a document has line breaks and spaces. -/
structure Style where
  /-- what stands before an item, or a closing bracket, at a nesting depth -/
  lineBreak : Nat → List Char
  /-- what stands between a key and its value -/
  colon : List Char

namespace Style

/-- One line without spaces. -/
def compact : Style := ⟨fun _ => [], [':']⟩

/-- One item a line, two spaces of indentation a level. -/
def indented : Style := ⟨fun depth => '\n' :: List.replicate (2 * depth) ' ', [':', ' ']⟩

end Style

/-- The hexadecimal digit of a number below sixteen, in lower case. -/
def hexDigit (n : Nat) : Char := Nat.digitChar n

/-- A character inside quotes.  Quote, backslash and the control characters
below U+0020 are escaped, and nothing else is. -/
def escape (c : Char) : List Char :=
  if c = '"' then ['\\', '"']
  else if c = '\\' then ['\\', '\\']
  else if c = '\x08' then ['\\', 'b']
  else if c = '\x0c' then ['\\', 'f']
  else if c = '\n' then ['\\', 'n']
  else if c = '\r' then ['\\', 'r']
  else if c = '\t' then ['\\', 't']
  else if c.toNat < 0x20 then
    ['\\', 'u', '0', '0', hexDigit (c.toNat / 16), hexDigit (c.toNat % 16)]
  else [c]

/-- A text in quotes. -/
def quoted (s : String) : List Char := '"' :: (s.toList.flatMap escape ++ ['"'])

/-- The text of a number. -/
def numberChars : Number → List Char
  | .int n => intChars n.toInt
  | .float x => Layout.json.chars x

mutual

/-- The document, the outermost bracket standing at a nesting depth. -/
def chars (style : Style) (depth : Nat) : Json → List Char
  | .null => "null".toList
  | .bool b => (if b then "true" else "false").toList
  | .number n _ => numberChars n
  | .text s => quoted s
  | .list [] => "[]".toList
  | .list (item :: items) =>
      '[' :: (style.lineBreak (depth + 1) ++ chars style (depth + 1) item ++
        moreItems style (depth + 1) items ++ style.lineBreak depth ++ [']'])
  | .object [] => "\x7b\x7d".toList
  | .object ((key, field) :: fields) =>
      '\x7b' :: (style.lineBreak (depth + 1) ++ quoted key ++ style.colon ++
        chars style (depth + 1) field ++ moreFields style (depth + 1) fields ++
        style.lineBreak depth ++ ['\x7d'])

/-- The items after the first, each after a comma. -/
def moreItems (style : Style) (depth : Nat) : List Json → List Char
  | [] => []
  | item :: items =>
      ',' :: (style.lineBreak depth ++ chars style depth item ++ moreItems style depth items)

/-- The fields after the first, each after a comma. -/
def moreFields (style : Style) (depth : Nat) : List (String × Json) → List Char
  | [] => []
  | (key, field) :: fields =>
      ',' :: (style.lineBreak depth ++ quoted key ++ style.colon ++ chars style depth field ++
        moreFields style depth fields)

end

/-- The document on one line. -/
def compress (document : Json) : String := String.ofList (document.chars .compact 0)

/-- The document with one item a line. -/
def pretty (document : Json) : String := String.ofList (document.chars .indented 0)

end DataRules.Json
