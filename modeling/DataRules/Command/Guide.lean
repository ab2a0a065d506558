set_option autoImplicit false

/-!
# Command: the operator guide

The guide describes the operators in eight topics, with an overview of them.  A
topic is asked for by one of its names, in any case and with `-` for `_`.  A
text here is what the program prints, to its last line break.
-/

namespace DataRules.Guide

/-- A part of the guide. -/
inductive Topic where
  | rules
  | data
  | logic
  | comparison
  | arithmetic
  | arrays
  | strings
  | patterns
  deriving DecidableEq, Repr

/-- The overview of the topics. -/
def overview : String :=
"JSONLOGIC DOCUMENTATION

Rules are JSON values. An object with exactly one key is an operation,
\x7b\"operator\": [arguments]\x7d; a list is a list of rules; everything else is
returned as it is.

DOCUMENTATION CATEGORIES

  rules             Rule shapes, argument sugar, evaluation order
  data              var, missing, missing_some
  logic             Truthiness, if / ?:, and, or, !, !!
  comparison        ==, ===, !=, !==, <, <=, >, >=
  arithmetic        +, -, *, /, %, min, max
  arrays            map, filter, reduce, all, none, some, merge, in
  strings           cat, substr, in
  patterns          rule-like matching and uses-data

QUICK REFERENCE

  \x7b\"var\": \"a.b\"\x7d                      Read data
  \x7b\"if\": [cond, then, else]\x7d          Branch
  \x7b\"and\": [a, b]\x7d                     First falsy, or last
  \x7b\"map\": [list, rule]\x7d               Rule per element
  \x7b\"log\": value\x7d                      Log and pass through

Run 'jsonlogic doc <category>' for detailed documentation.
"

/-- Rule shapes, argument sugar and evaluation order. -/
def rulesText : String :=
"RULES - Shapes and Evaluation

OPERATIONS
  \x7b\"operator\": [arg, arg, ...]\x7d
    An object with exactly one key. Arguments are evaluated first, then the
    operator runs on the results.

  \x7b\"operator\": arg\x7d
    A single non-list argument is shorthand for a one-element list:
    \x7b\"var\": \"a\"\x7d is the same rule as \x7b\"var\": [\"a\"]\x7d.

LITERALS
  Numbers, strings, booleans and null evaluate to themselves. So do objects
  with zero or several keys: \x7b\"a\": 1, \"b\": 2\x7d is data, not an operation.

LISTS
  [rule, rule, ...]
    Each element is evaluated; the result is a list.

    Example:
      Rule:   [1, \x7b\"var\": \"x\"\x7d, 3]
      Data:   \x7b\"x\": 2\x7d
      Output: [1, 2, 3]

LAZY OPERATORS
  if, ?:, and, or evaluate only the arguments they need.
  map, filter, reduce, all, none, some evaluate their second argument once
  per element, with the element as data.

UNKNOWN OPERATORS
  An operator with no registered implementation is an error:
    Unrecognized operation fubar
    Unrecognized operation fubar.rabuf (failed at fubar)
"

/-- Reading the data context. -/
def dataText : String :=
"DATA - Reading the Data Context

VAR
  \x7b\"var\": \"path\"\x7d
  \x7b\"var\": [\"path\", default]\x7d
    Walk a dot-separated path through objects (by key) and lists (by index).
    Returns the default (or null) when the path does not resolve. A value
    that does resolve is returned even when it is 0, \"\" or false.

    Examples:
      \x7b\"var\": \"a.b\"\x7d            \x7b\"a\": \x7b\"b\": \"c\"\x7d\x7d     => \"c\"
      \x7b\"var\": 1\x7d                [\"apple\", \"banana\"]   => \"banana\"
      \x7b\"var\": [\"x\", \"none\"]\x7d    \x7b\x7d                    => \"none\"
      \x7b\"var\": \"\"\x7d               42                    => 42

MISSING
  \x7b\"missing\": [\"a\", \"b\"]\x7d
    Keys whose value is null, absent or \"\". A single list argument works
    too, so the keys can be computed:

      \x7b\"missing\": \x7b\"merge\": [\"vin\", \x7b\"if\": [\x7b\"var\": \"financing\"\x7d, [\"apr\"], []]\x7d]\x7d\x7d

MISSING_SOME
  \x7b\"missing_some\": [need, [\"a\", \"b\", \"c\"]]\x7d
    [] when at least `need` keys are present, otherwise the missing keys.

    Example:
      \x7b\"missing_some\": [2, [\"a\", \"b\", \"c\"]]\x7d   \x7b\"a\": 1\x7d   => [\"b\", \"c\"]
"

/-- Truth and control flow. -/
def logicText : String :=
"LOGIC - Truthiness and Control Flow

TRUTHINESS
  Falsy:   false, 0, \"\", null, [] (the empty list)
  Truthy:  everything else, including \"0\", [0] and \x7b\x7d

IF
  \x7b\"if\": [cond, then]\x7d
  \x7b\"if\": [cond, then, else]\x7d
  \x7b\"if\": [c1, t1, c2, t2, ..., else]\x7d
    The first truthy condition selects its branch; later conditions are not
    evaluated. With no match and no else, the result is null.
    \"?:\" is an alias.

AND / OR
  \x7b\"and\": [a, b, ...]\x7d    First falsy value, or the last value
  \x7b\"or\":  [a, b, ...]\x7d    First truthy value, or the last value
    Both stop evaluating as soon as the result is known.

NOT
  \x7b\"!\": value\x7d     Negated truthiness
  \x7b\"!!\": value\x7d    Truthiness as a boolean
"

/-- Equality and order. -/
def comparisonText : String :=
"COMPARISON - Equality and Ordering

EQUALITY
  \x7b\"==\": [a, b]\x7d     Loose: 1 == \"1\", 0 == false, null == null
  \x7b\"!=\": [a, b]\x7d
  \x7b\"===\": [a, b]\x7d    Strict: no conversion between types
  \x7b\"!==\": [a, b]\x7d

ORDERING
  \x7b\"<\": [a, b]\x7d   \x7b\"<=\": [a, b]\x7d   \x7b\">\": [a, b]\x7d   \x7b\">=\": [a, b]\x7d
    Two strings compare alphabetically; anything else compares as numbers.
    \"2\" > 1 is true.

RANGES
  \x7b\"<\": [a, b, c]\x7d     a < b and b < c
  \x7b\"<=\": [a, b, c]\x7d    a <= b and b <= c

    Example:
      \x7b\"<=\": [0, \x7b\"var\": \"temp\"\x7d, 100]\x7d
"

/-- Numbers. -/
def arithmeticText : String :=
"ARITHMETIC - Numbers

OPERATORS
  \x7b\"+\": [a, b, ...]\x7d    Sum (no arguments: 0)
  \x7b\"*\": [a, b, ...]\x7d    Product (no arguments: 1)
  \x7b\"-\": [a, b]\x7d         Difference
  \x7b\"-\": [a]\x7d            Negation
  \x7b\"/\": [a, b]\x7d         Quotient
  \x7b\"%\": [a, b]\x7d         Remainder
  \x7b\"min\": [...]\x7d        Smallest
  \x7b\"max\": [...]\x7d        Largest

CONVERSION
  Strings are read up to the first non-numeric character (\"12px\" is 12,
  \"abc\" is NaN); true is 1, false and null are 0.

    \x7b\"+\": [\"1\", 1]\x7d    => 2
    \x7b\"+\": \"3.5\"\x7d       => 3.5  (unary + converts a string)

PRECISION
  +, - and * on short decimals are exact: \x7b\"+\": [0.1, 0.2]\x7d is 0.3.
  / and % use double precision. Whole results are integers.
"

/-- Operations on lists. -/
def arraysText : String :=
"ARRAYS - List Operations

Inside map, filter, all, none and some, \x7b\"var\": \"\"\x7d is the current element
and \x7b\"var\": \"field\"\x7d reads a field of it.

MAP / FILTER
  \x7b\"map\": [list, rule]\x7d       Rule result per element
  \x7b\"filter\": [list, rule]\x7d    Elements whose rule result is truthy
    A non-list source gives [].

REDUCE
  \x7b\"reduce\": [list, rule, initial]\x7d
    The rule sees \x7b\"current\": element, \"accumulator\": running value\x7d.

    Example:
      \x7b\"reduce\": [\x7b\"var\": \"n\"\x7d, \x7b\"+\": [\x7b\"var\": \"current\"\x7d, \x7b\"var\": \"accumulator\"\x7d]\x7d, 0]\x7d

ALL / NONE / SOME
  \x7b\"all\": [list, rule]\x7d     false for an empty list
  \x7b\"none\": [list, rule]\x7d    true for an empty list
  \x7b\"some\": [list, rule]\x7d    false for an empty list

MERGE
  \x7b\"merge\": [a, b, ...]\x7d
    Flattens one level; non-list arguments become single elements.

IN
  \x7b\"in\": [x, list]\x7d    Whether the list contains x
"

/-- Operations on texts. -/
def stringsText : String :=
"STRINGS - Text Operations

CAT
  \x7b\"cat\": [a, b, ...]\x7d
    Concatenates arguments, converting them to strings. null becomes \"\".

SUBSTR
  \x7b\"substr\": [text, start]\x7d
  \x7b\"substr\": [text, start, length]\x7d
    A negative start counts from the end; a negative length drops that many
    characters from the end.

    Examples:
      \x7b\"substr\": [\"jsonlogic\", 4]\x7d        => \"logic\"
      \x7b\"substr\": [\"jsonlogic\", -5, -2]\x7d   => \"log\"

IN
  \x7b\"in\": [\"Spring\", \"Springfield\"]\x7d    Substring test
"

/-- Inspecting rules. -/
def patternsText : String :=
"PATTERNS - Inspecting Rules

RULE-LIKE
  jsonlogic rule-like '<rule>' '<pattern>'
    Whether a rule has a given shape. In patterns:
      \"@\"          matches anything
      \"number\"     matches a number
      \"string\"     matches a string
      \"array\"      matches a list
      \x7b\"@\": ...\x7d   matches any operator
    Lists match position by position.

    Example:
      rule:    \x7b\"*\": [0.01, \x7b\"var\": \"goods\"\x7d]\x7d
      pattern: \x7b\"*\": [\"number\", \"@\"]\x7d
      => true

USES-DATA
  jsonlogic uses-data '<rule>'
    The var paths a rule reads, without evaluating it.

    Example:
      \x7b\"and\": [\x7b\"var\": \"a\"\x7d, \x7b\"<\": [\x7b\"var\": \"b.c\"\x7d, 3]\x7d]\x7d   => [\"a\", \"b.c\"]
"

namespace Topic

/-- The text of a topic. -/
def text : Topic → String
  | .rules => rulesText
  | .data => dataText
  | .logic => logicText
  | .comparison => comparisonText
  | .arithmetic => arithmeticText
  | .arrays => arraysText
  | .strings => stringsText
  | .patterns => patternsText

/-- The names of the topics, in lower case. -/
def table : List (String × Topic) :=
  [("rules", .rules), ("rule", .rules), ("syntax", .rules),
   ("data", .data), ("var", .data), ("missing", .data),
   ("logic", .logic), ("if", .logic), ("truthy", .logic),
   ("comparison", .comparison), ("compare", .comparison), ("equality", .comparison),
   ("arithmetic", .arithmetic), ("math", .arithmetic), ("numbers", .arithmetic),
   ("arrays", .arrays), ("array", .arrays), ("lists", .arrays),
   ("strings", .strings), ("string", .strings),
   ("patterns", .patterns), ("rule_like", .patterns), ("uses_data", .patterns)]

/-- A character of a name as it is compared: in lower case, and `_` for `-`.
Outside ASCII only the Kelvin sign has a lower case within it, and the names are
ASCII, so no other character needs its lower case. -/
def fold (c : Char) : Char :=
  if c = '-' then '_' else if c = '\u212A' then 'k' else c.toLower

/-- The topic with a name. -/
def ofName? (name : String) : Option Topic := table.lookup (String.ofList (name.toList.map fold))

end Topic

end DataRules.Guide
