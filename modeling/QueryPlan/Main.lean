import QueryPlan.Command.Run

/-!
# The command line

Takes a snapshot of the files that the command needs, runs it, and puts its result into effect.
-/

namespace QueryPlan.Command

/-- The name of the program. -/
def programName : String := "queryplan"

/-- A snapshot with the file at a path, if there is one. -/
def fetch (files : Files) (path : String) : IO Files := do
  try
    return files.put path (← IO.FS.readBinFile path)
  catch
    | .noFileOrDirectory .. => return files.openPath path
    | _ => return files.openPath (path ++ "/")

/-- A snapshot of the files that options ask for. -/
def snapshot (o : Options) : IO Files := do
  let here := Files.partsOf (toString (← IO.currentDir))
  let start : Files := { start := Files.topName :: here.filter (· ≠ "") }
  let mut files ← fetch (start.addDirectory start.start) o.input
  match Script.ofFile files o.input o.separated with
  | .error _ => pure ()
  | .ok statements =>
    for path in catalogPaths o statements do
      files ← fetch files path
  return files.openPath o.output

/-- The result of a run whose report cannot be written. -/
def undelivered (r : Result) (reason : String) : Result :=
  { exit := 1, err := "ERROR: Failed to write output file: " ++ reason ++ "\n", files := r.files }

/-- Writes the report of a run. -/
def deliver (o : Options) (r : Result) : IO Result := do
  match r.files.read o.output with
  | .error _ => return r
  | .ok bytes =>
    try
      IO.FS.writeBinFile o.output bytes
      return r
    catch e => return undelivered r (toString e)

/-- Runs the command on arguments and puts its result into effect. -/
def perform (arguments : List String) : IO UInt32 := do
  let unseeded := Draws.ofSeed (← IO.rand 0 (twoPow 31 - 1))
  let request := Options.parse arguments
  let files ← match request with
    | .ok (.run o) => snapshot o
    | _ => pure {}
  match run programName arguments unseeded files with
  | .error f =>
    IO.eprintln (programName ++ ": " ++ f.message)
    return 1
  | .ok r =>
    let r ← match request with
      | .ok (.run o) => deliver o r
      | _ => pure r
    IO.print r.out
    IO.eprint r.err
    return r.exit.toUInt32

end QueryPlan.Command

/-- The command line. -/
def main (arguments : List String) : IO UInt32 := QueryPlan.Command.perform arguments
