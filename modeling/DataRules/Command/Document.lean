import DataRules.Command.Guide
import DataRules.Eval.Engine
import DataRules.Json.Parser
import DataRules.Rule.Paths
import DataRules.Rule.Pattern

set_option autoImplicit false

/-!
# Command: the operations on texts

The commands take rules, data and patterns as JSON texts.  This module holds
what each of them computes, with the built-in operations, and how each can fail;
the text that comes first in the order rule, data or pattern decides which
failure is reported.  The reader of the texts is a parameter, which the program
fills with `Json.parse?`.
-/

namespace DataRules.Command

/-- What a JSON text was given as. -/
inductive Role where
  | rule
  | data
  | pattern
  deriving DecidableEq, Repr

namespace Role

/-- The word for it. -/
def name : Role → String
  | .rule => "rule"
  | .data => "data"
  | .pattern => "pattern"

end Role

/-- Why a command failed. -/
inductive Failure where
  /-- a text is no JSON document -/
  | malformed (role : Role)
  /-- the evaluation failed -/
  | evaluation (error : Error)
  /-- the data on standard input is not UTF-8 -/
  | undecodable
  /-- the guide has no topic of that name -/
  | unknownTopic (name : String)
  deriving DecidableEq, Repr

namespace Failure

/-- The text of a failure. -/
def message : Failure → String
  | .malformed role => "Invalid JSON in " ++ role.name
  | .evaluation error => "Evaluation error: " ++ error.message
  | .undecodable => "IO error: stream did not contain valid UTF-8"
  | .unknownTopic name =>
      "Unknown category: '" ++ name ++ "'\nRun 'jsonlogic docs' to see available categories."

end Failure

section

variable (read : Json.Reader)

/-- The value that a JSON text holds. -/
def readValue (role : Role) (text : String) : Except Failure Value :=
  match read text with
  | some document => .ok document.toValue
  | none => .error (.malformed role)

/-- The data context that a text holds; a text of blanks, or none, is null. -/
def readData (text? : Option String) : Except Failure Value :=
  match text? with
  | some text => if Text.isBlankText text then .ok .null else readValue read .data text
  | none => .ok .null

/-- The rule and the data of an evaluation. -/
def readApplication (rule : String) (data? : Option String) : Except Failure (Value × Value) := do
  let rule ← readValue read .rule rule
  let data ← readData read data?
  return (rule, data)

/-- The result of a rule on a data context, and what the evaluation logged. -/
def applyBy (rule : String) (data? : Option String) : Except Failure Json × List Json :=
  match readApplication read rule data? with
  | .error failure => (.error failure, [])
  | .ok (rule, data) =>
      let outcome := ((Registry.builtins.apply rule data).run ()).1
      match outcome.result with
      | .ok result => (.ok (Json.ofValue result), outcome.log)
      | .error error => (.error (.evaluation error), outcome.log)

/-- The data paths that a rule reads. -/
def pathsBy (rule : String) : Except Failure Json := do
  let rule ← readValue read .rule rule
  return .list ((Rule.ofValue rule).paths.map .text)

/-- Whether a rule fits a pattern. -/
def fitsBy (rule pattern : String) : Except Failure Bool := do
  let rule ← readValue read .rule rule
  let pattern ← readValue read .pattern pattern
  return Pattern.fits pattern rule

end

/-- The evaluation of a rule's text on that of a data context. -/
def applyTexts : String → Option String → Except Failure Json × List Json := applyBy Json.parse?

/-- The data paths that a rule's text reads. -/
def pathsOfText : String → Except Failure Json := pathsBy Json.parse?

/-- Whether a rule's text fits that of a pattern. -/
def fitsTexts : String → String → Except Failure Bool := fitsBy Json.parse?

/-- The topic of the guide with a name. -/
def findTopic (name : String) : Except Failure Guide.Topic :=
  match Guide.Topic.ofName? name with
  | some topic => .ok topic
  | none => .error (.unknownTopic name)

end DataRules.Command
