import DataRules.Eval.Registry
import DataRules.Number.Arithmetic
import DataRules.Value.Equality

set_option autoImplicit false

/-!
# Eval: the built-in operations

The built-in operations are functions of evaluated arguments.  None of them
fails: an argument that is not given counts as null, and one of the wrong kind
is converted, or leads to NaN, `false` or an empty result.  `catalog` lists them
under their names.
-/

namespace DataRules.Builtin

open DataRules.Double

/-- An argument, null where there is none. -/
def arg (args : List Value) (i : Nat) : Value := args.getD i .null

/-! ## Comparison -/

/-- The two values compare as asked for; values without an order do not. -/
def relates (holds : Ordering → Bool) (a b : Value) : Bool := (a.order? b).any holds

/-- A comparison of two arguments; a third one makes it a range, whose first and
whose last two have to compare. -/
def relation (holds : Ordering → Bool) (args : List Value) : Value :=
  match args with
  | a :: b :: c :: _ => .bool (relates holds a b && relates holds b c)
  | _ => .bool (relates holds (arg args 0) (arg args 1))

/-- Equality after conversion. -/
def looselyEqual (args : List Value) : Bool := (arg args 0).looselyEquals (arg args 1)

/-- Equality without conversion. -/
def equal (args : List Value) : Bool := (arg args 0).equals (arg args 1)

/-! ## Arithmetic -/

/-- An operation on the first two arguments. -/
def binary (op : Arithmetic) (args : List Value) : Value :=
  .number (op.apply (arg args 0).toNumber (arg args 1).toNumber)

/-- An operation on all arguments from the left, starting from an integer. -/
def fold (op : Arithmetic) (start : Int64) (args : List Value) : Value :=
  .number (args.foldl (fun total next => op.apply total.toFloat next.toNumber) (.int start))

/-- The difference of the first two arguments, or the negation of the only one. -/
def subtract : List Value → Value
  | [] => .nan
  | [only] => .ofFloat (-only.toNumber)
  | a :: b :: _ => .number (Arithmetic.subtract.apply a.toNumber b.toNumber)

/-- The smaller of two doubles. -/
def lesser (x y : Float) : Float := if y < x then y else x

/-- The greater of two doubles. -/
def greater (x y : Float) : Float := if x < y then y else x

/-- All arguments taken together by `pick`, starting from `start`; NaN among them
is the result. -/
def extremum (pick : Float → Float → Float) (start : Float) (args : List Value) : Value :=
  let numbers := args.map Value.toNumber
  if numbers.any Float.isNaN then .nan else .ofFloat (numbers.foldl pick start)

/-! ## Texts and lists -/

/-- The texts of the arguments one after another, null showing as nothing. -/
def concat (args : List Value) : Value := .text (String.join (args.map Value.inlineText))

/-- The first list occurs in the second as a stretch. -/
def occursIn (needle : List Char) : List Char → Bool
  | [] => needle.isEmpty
  | c :: cs => needle.isPrefixOf (c :: cs) || occursIn needle cs

/-- The first argument occurs in the second: as a part of a text, or as an item of
a list. -/
def contains (args : List Value) : Bool :=
  match arg args 1 with
  | .text haystack => occursIn (arg args 0).toText.toList haystack.toList
  | .list items => items.any fun item => item.equals (arg args 0)
  | _ => false

/-- The characters of a list from a position on.  A position below zero counts
from the end; so does the end of the stretch when the length is below zero. -/
def slice (cs : List Char) (start : Int) (length? : Option Int) : List Char :=
  let size : Int := cs.length
  let first := if start < 0 then size + start else start
  let past :=
    match length? with
    | none => size
    | some length => if length < 0 then size + length else first + length
  (cs.take past.toNat).drop first.toNat

/-- A part of the text of the first argument, from the position in the second, of
the length in the third.  Both are cut toward zero, and reaching past either end
of the text is reaching that end. -/
def substring (args : List Value) : Value :=
  let cs := (arg args 0).toText.toList
  let whole := fun v : Value => truncateWithin cs.length v.toNumber
  .text (String.ofList (slice cs (whole (arg args 1)) (args[2]?.map whole)))

/-- The arguments in one list, the items of those that are lists in their place. -/
def merge (args : List Value) : Value :=
  .list (args.flatMap Value.asList)

/-! ## The catalog -/

/-- The first argument, which is logged. -/
def log {σ : Type} (args : List Value) : Eval σ Value := do
  .emit (Json.ofValue (arg args 0))
  return arg args 0

/-- A function of the arguments that does nothing else. -/
def plain {σ : Type} (f : List Value → Value) (args : List Value) : Eval σ Value :=
  pure (f args)

/-- The built-in operations under their names. -/
def catalog {σ : Type} : List (String × (List Value → Eval σ Value)) :=
  [("==", plain fun args => .bool (looselyEqual args)),
   ("!=", plain fun args => .bool (!looselyEqual args)),
   ("===", plain fun args => .bool (equal args)),
   ("!==", plain fun args => .bool (!equal args)),
   (">", plain (relation (· == .gt))),
   (">=", plain (relation (· != .lt))),
   ("<", plain (relation (· == .lt))),
   ("<=", plain (relation (· != .gt))),
   ("!!", plain fun args => .bool (arg args 0).isTruthy),
   ("!", plain fun args => .bool (!(arg args 0).isTruthy)),
   ("%", plain (binary .remainder)),
   ("/", plain (binary .divide)),
   ("+", plain (fold .add 0)),
   ("*", plain (fold .multiply 1)),
   ("-", plain subtract),
   ("min", plain (extremum lesser infinity)),
   ("max", plain (extremum greater (-infinity))),
   ("cat", plain concat),
   ("in", plain fun args => .bool (contains args)),
   ("substr", plain substring),
   ("merge", plain merge),
   ("log", log)]

/-- The names of the built-in operations, in catalog order. -/
def names : List String := (catalog (σ := Unit)).map Prod.fst

end DataRules.Builtin

namespace DataRules.Registry

/-- The registry with the built-in operations. -/
def builtins {σ : Type} : Registry σ :=
  ofList (Builtin.catalog.map fun entry => (entry.1, .function entry.2))

end DataRules.Registry
