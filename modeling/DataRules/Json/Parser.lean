import DataRules.Json.Basic
import DataRules.Json.Scaling
import DataRules.Table

set_option autoImplicit false

/-!
# Json: reading documents

A document is read strictly: blanks are space, tab, line feed and carriage
return only, numbers have no leading zero and digits on both sides of a point,
escapes are those of the standard with surrogates in pairs, and nothing may
follow the document.  Containers nest at most `maxDepth` deep, and the depth
that is left is what the reader recurs on.  Of two fields under one key the
later one stays.  How a numeral becomes a double is left open until the end, where
`parse?` takes the quick way of `Numeral.scaled`.
-/

namespace DataRules.Json

/-- A reader of texts: the document that a text holds, if any. -/
abbrev Reader : Type := String → Option Json

/-- A reader of a part of a text: what it read, and the characters after it. -/
abbrev Parser (α : Type) : Type := List Char → Option (α × List Char)

/-- A way to make a double of a numeral; too large a numeral is infinite. -/
abbrev Conversion : Type := Double.Numeral → Float

namespace Parser

open DataRules.Double

/-- The greatest number of containers inside one another. -/
def maxDepth : Nat := 127

/-- The characters after the blanks at the start. -/
def skipBlanks (cs : List Char) : List Char :=
  cs.dropWhile fun c => c = ' ' || c = '\t' || c = '\n' || c = '\r'

/-! ## Numbers -/

/-- The digits of an integer part: a zero alone, or digits without one in front. -/
def takeWhole : Parser (List Char)
  | [] => none
  | c :: cs =>
      if c = '0' then some (['0'], cs)
      else if c.isDigit then some (Numeral.takeDigits (c :: cs))
      else none

/-- The digits after a point, of which there is at least one; no point, no
digits. -/
def takeFraction : Parser (List Char)
  | '.' :: cs =>
      let (digits, rest) := Numeral.takeDigits cs
      if digits = [] then none else some (digits, rest)
  | cs => some ([], cs)

/-- A power of ten, which has at least one digit; `none` when there is no power. -/
def takePower : Parser (Option Int)
  | [] => some (none, [])
  | c :: cs =>
      if c = 'e' ∨ c = 'E' then
        let (negative, body) := Numeral.takeSign cs
        let (digits, rest) := Numeral.takeDigits body
        let n := Nat.ofDigitChars 10 digits 0
        if digits = [] then none else some (some (if negative then -(n : Int) else n), rest)
      else some (none, c :: cs)

/-- A finite double, as a number of a document. -/
def ofFinite? (x : Float) : Option Json :=
  if h : (Number.float x).isFinite = true then some (.number (.float x) h) else none

/-- The number of a numeral.  Without a point and a power it is an integer if 64
bits hold it, and the integer minus zero is the double; a double too large for
its range has no number. -/
def ofNumeral? (convert : Conversion) (numeral : Numeral) (isInteger : Bool) : Option Json :=
  let n := Nat.ofDigitChars 10 numeral.whole 0
  if isInteger && !(numeral.negative && n == 0) then
    match Number.ofInt? (if numeral.negative then -(n : Int) else n) with
    | some i => if h : i.isFinite = true then some (.number i h) else none
    | none => ofFinite? (convert numeral)
  else ofFinite? (convert numeral)

/-- A number. -/
def number (convert : Conversion) : Parser Json := fun cs => do
  let (negative, body) := match cs with
    | '-' :: rest => (true, rest)
    | rest => (false, rest)
  let (whole, afterWhole) ← takeWhole body
  let (fraction, afterFraction) ← takeFraction afterWhole
  let (power, rest) ← takePower afterFraction
  let document ← ofNumeral? convert ⟨negative, whole, fraction, power.getD 0⟩
    (fraction.isEmpty && power.isNone)
  return (document, rest)

/-! ## Texts -/

/-- The value of a hexadecimal digit, in either case. -/
def hexValue? (c : Char) : Option Nat :=
  if c.isDigit then some (c.toNat - '0'.toNat)
  else if 'a' ≤ c ∧ c ≤ 'f' then some (c.toNat - 'a'.toNat + 10)
  else if 'A' ≤ c ∧ c ≤ 'F' then some (c.toNat - 'A'.toNat + 10)
  else none

/-- Four hexadecimal digits. -/
def hexQuad : Parser Nat
  | a :: b :: c :: d :: rest => do
      let a ← hexValue? a
      let b ← hexValue? b
      let c ← hexValue? c
      let d ← hexValue? d
      return (((a * 16 + b) * 16 + c) * 16 + d, rest)
  | _ => none

/-- The character of a `\u` escape, the `\u` already read.  A high surrogate takes
the low one that has to follow it. -/
def unicodeEscape : Parser Char := fun cs => do
  let (unit, rest) ← hexQuad cs
  if unit < 0xD800 ∨ 0xE000 ≤ unit then return (Char.ofNat unit, rest)
  else if unit < 0xDC00 then
    match rest with
    | '\\' :: 'u' :: rest =>
        let (low, rest) ← hexQuad rest
        if 0xDC00 ≤ low ∧ low < 0xE000 then
          return (Char.ofNat (0x10000 + (unit - 0xD800) * 0x400 + (low - 0xDC00)), rest)
        else none
    | _ => none
  else none

/-- The character that a one-letter escape stands for. -/
def escaped? (c : Char) : Option Char :=
  if c = '"' ∨ c = '\\' ∨ c = '/' then some c
  else if c = 'b' then some '\x08'
  else if c = 'f' then some '\x0c'
  else if c = 'n' then some '\n'
  else if c = 'r' then some '\r'
  else if c = 't' then some '\t'
  else none

/-- One character inside quotes, or `none` for the closing quote. -/
def textChar : Parser (Option Char)
  | [] => none
  | c :: rest =>
      if c = '"' then some (none, rest)
      else if c = '\\' then
        match rest with
        | 'u' :: rest => (unicodeEscape rest).map fun (c, rest) => (some c, rest)
        | e :: rest => (escaped? e).map fun c => (some c, rest)
        | [] => none
      else if c.toNat < 0x20 then none
      else some (some c, rest)

/-- The characters up to the closing quote, at most `fuel` of them. -/
def textChars : Nat → Parser (List Char)
  | 0, _ => none
  | fuel + 1, cs => do
      let (c?, rest) ← textChar cs
      match c? with
      | none => return ([], rest)
      | some c =>
          let (more, rest) ← textChars fuel rest
          return (c :: more, rest)

/-- A text, its opening quote already read. -/
def text : Parser String := fun cs =>
  (textChars (cs.length + 1) cs).map fun (chars, rest) => (String.ofList chars, rest)

/-! ## Documents -/

/-- A given word. -/
def word (expected : String) (document : Json) : Parser Json := fun cs =>
  if expected.toList.isPrefixOf cs then some (document, cs.drop expected.length) else none

/-- A document that is no container. -/
def scalar (convert : Conversion) : Parser Json := fun cs =>
  match cs with
  | 'n' :: _ => word "null" .null cs
  | 't' :: _ => word "true" (.bool true) cs
  | 'f' :: _ => word "false" (.bool false) cs
  | '"' :: rest => (text rest).map fun (s, rest) => (.text s, rest)
  | _ => number convert cs

/-- Parts with commas between them up to a closing bracket, at most `fuel` of
them and at least one. -/
def parts {α : Type} (part : Parser α) (close : Char) : Nat → Parser (List α)
  | 0, _ => none
  | fuel + 1, cs => do
      let (a, rest) ← part (skipBlanks cs)
      match skipBlanks rest with
      | [] => none
      | c :: rest =>
          if c = close then return ([a], rest)
          else if c = ',' then
            let (more, rest) ← parts part close fuel rest
            return (a :: more, rest)
          else none

/-- The parts of a container, its opening bracket already read. -/
def bracketed {α : Type} (part : Parser α) (close : Char) : Parser (List α) := fun cs =>
  match skipBlanks cs with
  | [] => none
  | c :: rest => if c = close then some ([], rest) else parts part close (cs.length + 1) cs

/-- A key, a colon and a document. -/
def field (document : Parser Json) : Parser (String × Json)
  | '"' :: cs => do
      let (key, rest) ← text cs
      match skipBlanks rest with
      | ':' :: rest =>
          let (value, rest) ← document (skipBlanks rest)
          return ((key, value), rest)
      | _ => none
  | _ => none

/-- A document with no blank in front, in which containers nest at most `depth`
deep. -/
def document (convert : Conversion) : Nat → Parser Json
  | 0, cs => scalar convert cs
  | depth + 1, cs =>
      match cs with
      | '[' :: rest =>
          (bracketed (document convert depth) ']' rest).map fun (items, rest) => (.list items, rest)
      | '\x7b' :: rest =>
          (bracketed (field (document convert depth)) '\x7d' rest).map fun (fields, rest) =>
            (.object (Table.ofList fields), rest)
      | _ => scalar convert cs

end Parser

/-- The document that a text holds, if it holds one and nothing else. -/
def parseBy (convert : Conversion) : Reader := fun s =>
  match Parser.document convert Parser.maxDepth (Parser.skipBlanks s.toList) with
  | some (result, rest) => if Parser.skipBlanks rest = [] then some result else none
  | none => none

/-- The reader of the program. -/
def parse? : Reader := parseBy Double.Numeral.scaled

end DataRules.Json
