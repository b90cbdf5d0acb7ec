import FragmentParser.Command.Run

/-!
# The command

The outer layer: it reads the files that a run may need, lets the run decide, and prints what the
run ends with.
-/

open FragmentParser FragmentParser.Command

/-- Why the file system did not give a file. -/
def readErrorOf : IO.Error → ReadError
  | .noFileOrDirectory .. => .notFound
  | .inappropriateType _ code _ => if code = 21 then .isDirectory else .notDirectory
  | _ => .notFound

/-- Read the files under the given paths. -/
def readFiles (paths : List String) : IO (List (String × Except ReadError ByteArray)) :=
  paths.mapM fun (path : String) ↦ do
    try
      let bytes ← IO.FS.readBinFile path
      pure (path, .ok bytes)
    catch e => pure (path, .error (readErrorOf e))

/-- Run the command on its arguments. -/
def main (args : List String) : IO UInt32 := do
  let files ← readFiles (sources args)
  let outcome := run (fun path ↦ (files.lookup path).getD (.error .notFound)) args
  IO.eprint outcome.stderr
  IO.print outcome.stdout
  return outcome.code.toUInt32
