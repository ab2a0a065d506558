import DataRules.Command.Run

set_option autoImplicit false

/-!
# The program

The program hands its arguments, and standard input where they ask for it, to
`Command.run` and prints the report.
-/

open DataRules

/-- Runs the command line and ends with its status. -/
def main (arguments : List String) : IO UInt32 := do
  let input ←
    if Command.readsInput arguments then (← IO.getStdin).readBinToEnd else pure ByteArray.empty
  let report := Command.run arguments input
  for line in report.diagnostics do
    IO.eprintln line
  if report.exit = 2 then
    IO.eprint Command.usage
  IO.print report.output
  return UInt32.ofNat report.exit
