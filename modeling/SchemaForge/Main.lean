import SchemaForge.Command

/-!
# The program

Reads the files below the working directory, runs the command that the arguments ask for, and writes
what it made. Remote addresses have no answer.
-/

namespace SchemaForge.Program

/-- The texts of the files among the entries of a directory and below them, with their places. A
file that is no text is left out. -/
partial def readEntries (place : Files.Place) (entries : Array IO.FS.DirEntry) :
    IO (List (Files.Place × String)) := do
  let mut found := []
  for entry in entries do
    let name := place ++ [entry.fileName]
    if ← entry.path.isDir then
      found := found ++ (← readEntries name (← entry.path.readDir))
    else
      try found := found ++ [(name, ← IO.FS.readFile entry.path)]
      catch _ => pure ()
  return found

/-- The files below the working directory. -/
def readTree : IO Files.Tree := do
  return { files := ← readEntries [] (← (← IO.currentDir).readDir) }

/-- Writes a file and makes the directories above it. -/
def writeFile (path : Files.Path) (text : String) : IO Unit := do
  IO.FS.createDirAll path.parent.text
  IO.FS.writeFile path.text text

/-- Runs a command and returns the exit code of the program. -/
def runCommand (command : Command) : IO UInt32 := do
  let report := command.run (← readTree) []
  for (path, text) in report.written do
    writeFile path text
  for line in report.lines do
    match line with
    | .out text => IO.println text
    | .err text => IO.eprintln text
  return if report.succeeded then 0 else 1

end SchemaForge.Program

open SchemaForge in
/-- Runs the command that the arguments ask for. -/
def main (arguments : List String) : IO UInt32 := do
  match Command.ofArguments arguments with
  | some command => Program.runCommand command
  | none =>
    IO.eprintln "Usage: tangen validators | generate [-c CONFIG] [-v]"
    return 2
