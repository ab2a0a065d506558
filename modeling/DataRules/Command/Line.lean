set_option autoImplicit false

/-!
# Command: the command line

The first argument names a command and the others are its options and operands,
mixed freely.  An option has a short and a long form; short ones can be written
together, the value of an option follows it, at once or after `=`, or is the
next argument.  After `--` everything is an operand.  Arguments are read from the
left, and the first one that does not fit ends the reading.
-/

namespace DataRules.Command

/-- A command with its operands. -/
inductive Request where
  | apply (rule : String) (data? : Option String) (pretty : Bool)
  | usesData (rule : String)
  | ruleLike (rule pattern : String)
  | docs
  | doc (topic : String)
  | help
  | version
  deriving DecidableEq, Repr

/-- A command that takes options and operands. -/
inductive Verb where
  | apply
  | usesData
  | ruleLike
  | docs
  | doc
  deriving DecidableEq, Repr

namespace Verb

/-- The names of the commands. -/
def table : List (String × Verb) :=
  [("apply", .apply), ("uses-data", .usesData), ("rule-like", .ruleLike), ("docs", .docs),
   ("doc", .doc)]

/-- The command with a name. -/
def ofName? (name : String) : Option Verb := table.lookup name

/-- How many operands the command takes. -/
def arity : Verb → Nat
  | .apply => 1
  | .usesData => 1
  | .ruleLike => 2
  | .docs => 0
  | .doc => 1

end Verb

/-- An option of a command. -/
inductive Flag where
  /-- the data as a text -/
  | data
  /-- indented output -/
  | pretty
  /-- a description of the command -/
  | help
  deriving DecidableEq, Repr

namespace Flag

/-- The option with a long form. -/
def ofWord? (verb : Verb) (word : List Char) : Option Flag :=
  if word = "help".toList then some .help
  else if verb = .apply && word = "data".toList then some .data
  else if verb = .apply && word = "pretty".toList then some .pretty
  else none

/-- The option with a short form. -/
def ofLetter? (verb : Verb) (letter : Char) : Option Flag :=
  if letter = 'h' then some .help
  else if verb = .apply && letter = 'd' then some .data
  else if verb = .apply && letter = 'p' then some .pretty
  else none

end Flag

/-- What has been read so far. -/
structure Reading where
  operands : List String := []
  data? : Option String := none
  pretty : Bool := false
  deriving DecidableEq, Repr

/-- How one argument is taken. -/
inductive Step where
  /-- the reading goes on -/
  | next (reading : Reading)
  /-- the next argument is the data -/
  | awaitData (reading : Reading)
  /-- the description of the command is asked for -/
  | help
  /-- the argument does not fit -/
  | misuse
  deriving DecidableEq, Repr

namespace Reading

/-- The reading with one more operand, if the command takes another. -/
def addOperand (reading : Reading) (verb : Verb) (operand : String) : Step :=
  if reading.operands.length < verb.arity then
    .next { reading with operands := reading.operands ++ [operand] }
  else .misuse

/-- The reading with the data, which is given once. -/
def setData (reading : Reading) (text : String) : Step :=
  if reading.data?.isSome then .misuse else .next { reading with data? := some text }

/-- The reading with indented output, which is asked for once. -/
def setPretty (reading : Reading) : Step :=
  if reading.pretty then .misuse else .next { reading with pretty := true }

/-- A long option, without its dashes; a value stands after `=`. -/
def takeWord (reading : Reading) (verb : Verb) (chars : List Char) : Step :=
  let word := chars.takeWhile (· ≠ '=')
  let value := chars.dropWhile (· ≠ '=')
  match Flag.ofWord? verb word, value with
  | some .data, [] => .awaitData reading
  | some .data, _ :: text => reading.setData (String.ofList text)
  | some .pretty, [] => reading.setPretty
  | some .help, [] => .help
  | _, _ => .misuse

/-- Short options written together, without their dash.  The value of an option
takes the rest of them, and an `=` before it does not count. -/
def takeLetters (reading : Reading) (verb : Verb) : List Char → Step
  | [] => .next reading
  | letter :: rest =>
      match Flag.ofLetter? verb letter with
      | some .data =>
          match rest with
          | [] => .awaitData reading
          | '=' :: text => reading.setData (String.ofList text)
          | text => reading.setData (String.ofList text)
      | some .pretty =>
          match reading.setPretty with
          | .next reading => reading.takeLetters verb rest
          | step => step
      | some .help => .help
      | none => .misuse

/-- One argument before `--`. -/
def take (reading : Reading) (verb : Verb) (argument : String) : Step :=
  match argument.toList with
  | '-' :: '-' :: word => reading.takeWord verb word
  | '-' :: letter :: letters => reading.takeLetters verb (letter :: letters)
  | _ => reading.addOperand verb argument

/-- The operands after `--`. -/
def takeOperands (verb : Verb) : Reading → List String → Option Reading
  | reading, [] => some reading
  | reading, operand :: rest =>
      match reading.addOperand verb operand with
      | .next reading => takeOperands verb reading rest
      | _ => none

/-- The request that a complete reading makes. -/
def request? (reading : Reading) (verb : Verb) : Option Request :=
  match verb, reading.operands with
  | .apply, [rule] => some (.apply rule reading.data? reading.pretty)
  | .usesData, [rule] => some (.usesData rule)
  | .ruleLike, [rule, pattern] => some (.ruleLike rule pattern)
  | .docs, [] => some .docs
  | .doc, [topic] => some (.doc topic)
  | _, _ => none

end Reading

/-- An argument can be the value of the option before it: it is no option. -/
def isOperand (argument : String) : Bool :=
  match argument.toList with
  | '-' :: _ :: _ => false
  | _ => true

/-- The arguments of a command, from a reading on. -/
def readArguments (verb : Verb) : Reading → List String → Option Request
  | reading, [] => reading.request? verb
  | reading, argument :: rest =>
      if argument = "--" then
        (Reading.takeOperands verb reading rest).bind fun reading => reading.request? verb
      else
        match reading.take verb argument, rest with
        | .next reading, rest => readArguments verb reading rest
        | .awaitData reading, text :: rest =>
            if isOperand text then
              match reading.setData text with
              | .next reading => readArguments verb reading rest
              | _ => none
            else none
        | .awaitData _, [] => none
        | .help, _ => some .help
        | .misuse, _ => none

/-- The names after `help`: one command or none. -/
def readHelp : List String → Option Request
  | [] => some .help
  | [name] => if name = "help" || (Verb.ofName? name).isSome then some .help else none
  | _ => none

/-- The request that a command line makes, if it makes sense. -/
def Request.ofArguments? : List String → Option Request
  | [] => none
  | first :: rest =>
      if first = "--help" || first.toList.take 2 = ['-', 'h'] then some .help
      else if first = "--version" || first.toList.take 2 = ['-', 'V'] then some .version
      else if first = "help" then readHelp rest
      else
        match Verb.ofName? first with
        | some verb => readArguments verb {} rest
        | none => none

end DataRules.Command
