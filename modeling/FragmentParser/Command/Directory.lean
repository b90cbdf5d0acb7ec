import FragmentParser.Document

/-!
# Directories

A directory as a program that runs in it sees it: files under relative paths, with their bytes. What
is found under a path depends on its parts between slashes: an empty part and a single period lead
nowhere else, and two periods lead to the directory above. Above the directory itself nothing is
known but more directories.
-/

namespace FragmentParser

/-- The files in a directory and below, each under its relative path. -/
structure Directory where
  /-- The paths with the bytes of their files. -/
  files : List (String × ByteArray)

namespace Directory

/-- What is found on the way along a path. -/
inductive Place where
  /-- A file. -/
  | file (bytes : ByteArray)
  /-- The directory below that the parts of a path lead to. -/
  | below (parts : List String)
  /-- A directory above. -/
  | above

/-- The parts of a path. -/
def parts (path : String) : List String :=
  (path.toList.splitOn '/').map String.ofList

/-- How long a name may be, in bytes. -/
def maxNameSize : Nat := 255

/-- How long a path may be, in bytes. -/
def maxPathSize : Nat := 4095

/-- One step along a path. -/
def step (d : Directory) (p : Place) (part : String) : Except ReadError Place :=
  match p with
  | .file _ => .error .notDirectory
  | .above =>
    if part = "" ∨ part = "." ∨ part = ".." then .ok .above
    else if maxNameSize < part.utf8ByteSize then .error .nameTooLong
    else .error .notFound
  | .below here =>
    if part = "" ∨ part = "." then .ok p
    else if part = ".." then .ok (if here.isEmpty then .above else .below here.dropLast)
    else if maxNameSize < part.utf8ByteSize then .error .nameTooLong
    else
      let target := here ++ [part]
      match d.files.find? fun f ↦ parts f.1 = target with
      | some f => .ok (.file f.2)
      | none =>
        if d.files.any fun f ↦ target.isPrefixOf (parts f.1) then .ok (.below target)
        else .error .notFound

/-- The bytes of the file under a path. -/
def read (d : Directory) (path : String) : Except ReadError ByteArray :=
  if path = "" then .error .notFound
  else if maxPathSize < path.utf8ByteSize then .error .nameTooLong
  else do
    let start : Place := if path.toList.head? = some '/' then .above else .below []
    match ← (parts path).foldlM d.step start with
    | .file bytes => .ok bytes
    | _ => .error .isDirectory

end Directory

end FragmentParser
