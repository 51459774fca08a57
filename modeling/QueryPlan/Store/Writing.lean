import QueryPlan.Failure
import QueryPlan.Program

/-!
# Programs that write files

What is written before a program fails stays there, so the store of files is the state of such a
program.

## Main definitions

* `FilesM.makeDirectory` : makes a directory and all directories around it, where they are missing.
* `FilesM.writeText` : writes a text to a path.
-/

namespace QueryPlan

/-- A program over a store of files. -/
abbrev FilesM := Program Files Failure

namespace FilesM

open Program (fail)

/-- Fails at the path with the given parts. -/
def failAt (parts : List String) (reason : FileReason) : FilesM Unit :=
  fail (.file ⟨String.intercalate "/" parts, reason⟩)

/-- Goes along the parts of a path and makes the directories that are missing on the way. The parts
passed before name the path that a failure is about. -/
def makeDirectories (here passed : List String) : List String → FilesM Unit
  | [] => return
  | part :: parts => do
    let passed := passed ++ [part]
    let files ← get
    if part = "" || part = "." then makeDirectories here passed parts
    else if part.toList.contains '\x00' then fail .nulInPath
    else if part = ".." then
      match Files.above here with
      | none => failAt passed .missing
      | some around => makeDirectories around passed parts
    else if Files.maxNameSize < part.utf8ByteSize then failAt passed .nameTooLong
    else if files.directories.contains (here ++ [part]) then
      makeDirectories (here ++ [part]) passed parts
    else if files.contents.contains (here ++ [part]) then
      match parts.dropWhile (· = "") with
      | [] => failAt passed .alreadyThere
      | next :: _ => failAt (passed ++ parts.takeWhile (· = "") ++ [next]) .notDirectory
    else do
      modify fun files => files.addDirectory (here ++ [part])
      makeDirectories (here ++ [part]) passed parts

/-- Makes the directory at a path and all directories around it, where they are missing. -/
def makeDirectory (path : String) : FilesM Unit := do
  if path = "" then fail (.file ⟨path, .missing⟩)
  else makeDirectories ((← get).origin path) [] (Files.partsOf path)

/-- Writes a text to a path. -/
def writeText (path text : String) : FilesM Unit := do
  if path.toList.contains '\x00' then fail .nulInPath
  else
    match (← get).write path text.toUTF8 with
    | .error f => fail (.file f)
    | .ok files => set files

end FilesM

end QueryPlan
