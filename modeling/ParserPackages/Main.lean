import ParserPackages.Command

/-! # The program

Reads the files that a command names, runs it and prints what comes of it. -/

open ParserPackages

def readContents (path : String) : IO (Option ByteArray) := do
  try
    return some (← IO.FS.readBinFile path)
  catch _ =>
    return none

/-- Colour is shown where the terminal has it and nothing asks for none. -/
def wantsColour : IO Bool := do
  let terminal ← IO.getEnv "TERM"
  let refused ← IO.getEnv "NO_COLOR"
  return terminal.any (· != "dumb") && refused.isNone

def main (arguments : List String) : IO UInt32 := do
  let paths := ((Command.ofArguments? arguments).map Command.files).getD []
  let mut contents : List (String × Option ByteArray) := []
  for path in paths do
    contents := (path, ← readContents path) :: contents
  let outcome := Command.run arguments (fun path => (contents.lookup path).join) (← wantsColour)
  IO.print outcome.output
  match outcome.fault? with
  | some fault =>
    IO.eprintln (fault.code ++ "\n\n  " ++ fault.message)
    if let some advice := fault.help? then IO.eprintln ("  help: " ++ advice)
  | none => pure ()
  return outcome.exitCode.toUInt32
