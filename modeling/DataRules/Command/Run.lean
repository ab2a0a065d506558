import DataRules.Command.Document
import DataRules.Command.Line
import DataRules.Json.Printer
import DataRules.Text.Split

set_option autoImplicit false

/-!
# Command: running the program

A run takes the arguments and the bytes of standard input, and reports what it
prints and the status it ends with: zero, one after a failure, and two after a
command line that makes no sense.  Standard input is the data of `apply` when
the command line gives none, and is not looked at otherwise.
-/

namespace DataRules.Command

/-- What a run leaves behind. -/
structure Report where
  exit : Nat
  output : String
  /-- the lines on standard error -/
  diagnostics : List String
  deriving DecidableEq, Repr

/-- The lines of a text. -/
def lines (text : String) : List String := (Text.split '\n' text.toList).map String.ofList

namespace Report

/-- A run that printed a text and succeeded. -/
def success (output : String) : Report := ⟨0, output, []⟩

/-- A run that failed. -/
def failure (failure : Failure) : Report := ⟨1, "", lines failure.message⟩

/-- A run without a sensible command line. -/
def misuse : Report := ⟨2, "", []⟩

/-- The report on a result, which is printed as a text. -/
def ofResult {α : Type} (result : Except Failure α) (text : α → String) : Report :=
  match result with
  | .ok a => success (text a)
  | .error f => failure f

end Report

/-- The line that a log entry shows as. -/
def logLine (entry : Json) : String := "INFO value=" ++ entry.compress

/-- The name and the version of the program. -/
def versionText : String := "jsonlogic 0.1.0"

/-- The commands, in a few lines. -/
def usage : String :=
  "Usage: jsonlogic <COMMAND>

Commands:
  apply      Evaluate a rule against JSON data
  uses-data  List the data paths a rule reads
  rule-like  Check whether a rule matches a pattern
  docs       List documentation categories
  doc        Show documentation for a specific category
"

/-- The data of `apply`: the text on the command line, else standard input. -/
def dataText (data? : Option String) (input : ByteArray) : Except Failure String :=
  match data? with
  | some text => .ok text
  | none =>
      match String.fromUTF8? input with
      | some text => .ok text
      | none => .error .undecodable

/-- The run of `apply`, which shows what the evaluation logged. -/
def runApply (rule : String) (data? : Option String) (style : Json → String)
    (input : ByteArray) : Report :=
  match dataText data? input with
  | .error f => Report.failure f
  | .ok data =>
      let (result, log) := applyTexts rule (some data)
      let report := Report.ofResult result fun document => style document ++ "\n"
      { report with diagnostics := log.map logLine ++ report.diagnostics }

/-- The run of a request. -/
def Request.run (request : Request) (input : ByteArray) : Report :=
  match request with
  | .apply rule data? pretty =>
      runApply rule data? (if pretty then Json.pretty else Json.compress) input
  | .usesData rule =>
      Report.ofResult (pathsOfText rule) fun paths => paths.compress ++ "\n"
  | .ruleLike rule pattern =>
      Report.ofResult (fitsTexts rule pattern) fun b => if b then "true\n" else "false\n"
  | .docs => Report.success Guide.overview
  | .doc topic => Report.ofResult (findTopic topic) Guide.Topic.text
  | .help => Report.success usage
  | .version => Report.success (versionText ++ "\n")

/-- The run of a command line. -/
def run (arguments : List String) (input : ByteArray) : Report :=
  match Request.ofArguments? arguments with
  | some request => request.run input
  | none => Report.misuse

/-- The run needs standard input: it is an `apply` without data. -/
def readsInput (arguments : List String) : Bool :=
  match Request.ofArguments? arguments with
  | some (.apply _ none _) => true
  | _ => false

end DataRules.Command
