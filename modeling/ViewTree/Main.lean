import ViewTree.Command.Line
/-!
# The program

Reads files, runs the commands on them, and prints or writes what they give.
-/

namespace ViewTree.Command

/-- The text of a file, if it can be read. -/
def readFile? (file : String) : IO (Option String) := do
  try
    pure (some (← IO.FS.readFile file))
  catch _ => pure none

/-- Prints a failure; the program ends with it. -/
def fail (message : String) : IO UInt32 := do
  IO.eprintln ("Error: " ++ message)
  pure 1

/-- Prints the output, or writes it to the directory that is asked for. -/
def deliver (r : Request) (file output : String) : IO Unit := do
  match r.outDir with
  | some directory =>
    let path := outputPath file directory r.mode
    IO.FS.createDirAll directory
    IO.FS.writeFile path output
    IO.println ("Generated: " ++ path)
  | none => IO.print output

/-- Compiles a file. -/
def runCompile (r : Request) (file : String) : IO UInt32 := do
  match compileFile file (← readFile? file) r.mode r.args with
  | .error f => fail f.message
  | .ok report =>
    for e in report.errors do IO.eprintln ("error: " ++ e)
    for t in report.tips do IO.eprintln ("tip: " ++ t)
    deliver r file report.output
    if r.strict && !report.errors.isEmpty then
      fail s!"{report.errors.length} compile error(s)"
    else pure 0

/-- Lists the events of a file. -/
def runParse (r : Request) (file : String) : IO UInt32 := do
  match parseFile file (← readFile? file) r.args with
  | .error f => fail f.message
  | .ok events =>
    IO.println (Markup.Event.describeList false events).indented
    pure 0

/-- Runs what a command line asks for. -/
def run (words : List String) : IO UInt32 := do
  match Invocation.read words with
  | .error message =>
    IO.eprintln ("error: " ++ message)
    pure 2
  | .ok (.compile r) => runCompile r (r.input.getD "")
  | .ok (.parse r) => runParse r (r.input.getD "")

end ViewTree.Command

/-- The program. -/
def main (words : List String) : IO UInt32 :=
  ViewTree.Command.run words
