import DataRules.Table
import DataRules.Text.Path
import DataRules.Value.Basic

set_option autoImplicit false

/-!
# Value: reading data at a path

A path leads from a value into its parts: a segment is a key of an object or a
position in a list.  The operators `var`, `missing` and `missing_some` read data
this way.  A path may fail to resolve, and only then a default takes its place;
what a path resolves to is never replaced.
-/

namespace DataRules.Value

/-- The part of a value that a segment names. -/
def child? : Value → String → Option Value
  | .object fields, segment => Table.lookup segment fields
  | .list items, segment => (Path.index? segment).bind fun i => items[i]?
  | _, _ => none

/-- The part at the end of a chain of segments. -/
def follow? (v : Value) : List String → Option Value
  | [] => some v
  | segment :: segments => (v.child? segment).bind fun part => part.follow? segments

/-- The part that a path leads to; the empty path leads to the value itself. -/
def at? (v : Value) (path : String) : Option Value :=
  if path = "" then some v else v.follow? (Path.segments path)

/-- What `var` reads: the part at the path that the first argument names, where
null names the whole, and the second argument, or null, when there is none. -/
def read (data : Value) (args : List Value) : Value :=
  match args.headD .null with
  | .null => data
  | path => (data.at? path.toText).getD (args.getD 1 .null)

/-- The value counts as missing: it is null or the empty text. -/
def isMissing : Value → Bool
  | .null => true
  | .text s => s = ""
  | _ => false

/-- The keys under which the data has nothing, null or the empty text. -/
def missingKeys (data : Value) (keys : List Value) : List Value :=
  keys.filter fun key => (data.read [key]).isMissing

/-- What `missing` gives: the missing keys among its arguments, or among the
items of its first argument when that is a list. -/
def missing (data : Value) (args : List Value) : Value :=
  match args with
  | .list keys :: _ => .list (data.missingKeys keys)
  | _ => .list (data.missingKeys args)

/-- The keys that the second argument of `missing_some` lists. -/
def optionalKeys : List Value → List Value
  | _ :: .list keys :: _ => keys
  | _ :: key :: _ => [key]
  | _ => []

/-- What `missing_some` gives: nothing once as many keys are present as the first
argument asks for, and every missing key before. -/
def missingSome (data : Value) (args : List Value) : Value :=
  let keys := optionalKeys args
  let absent := data.missingKeys keys
  if (args.headD .null).toNumber ≤ Float.ofNat (keys.length - absent.length) then .list []
  else .list absent

theorem follow?_append (v : Value) (front back : List String) :
    v.follow? (front ++ back) = (v.follow? front).bind fun part => part.follow? back := by
  induction front generalizing v with
  | nil => rfl
  | cons segment front ih =>
      simp only [List.cons_append, follow?]
      cases v.child? segment with
      | none => rfl
      | some part => exact ih part

theorem length_missingKeys_le (data : Value) (keys : List Value) :
    (data.missingKeys keys).length ≤ keys.length := List.length_filter_le _ _

end DataRules.Value
