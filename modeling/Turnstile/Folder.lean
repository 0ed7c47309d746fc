/-!
The files of one folder, and where a path leads that starts there. A path is walked part by part:
nothing stands below a file, and outside the folder nothing is known but that folders enclose it.
-/

namespace Turnstile

/-- Why a path gives no bytes. -/
inductive FileError where
  | notFound
  | denied
  | notDirectory
  | isDirectory
  | nameTooLong
  | other (message : String)
  deriving DecidableEq, Repr

def FileError.message : FileError → String
  | .notFound => "No such file or directory (os error 2)"
  | .denied => "Permission denied (os error 13)"
  | .notDirectory => "Not a directory (os error 20)"
  | .isDirectory => "Is a directory (os error 21)"
  | .nameTooLong => "File name too long (os error 36)"
  | .other message => message

/-- The content of each file, by its name. -/
structure Folder where
  files : List (String × List UInt8)
  deriving DecidableEq, Repr

namespace Folder

/-- Where the parts of a path have led. -/
inductive Place where
  | inside
  | outside
  | file (content : List UInt8)
  deriving DecidableEq, Repr

/-- A name has at most this many bytes. -/
def maxName : Nat := 255

/-- A path has at most this many bytes. -/
def maxPath : Nat := 4095

/-- The place a name stands for. -/
def lookup (d : Folder) (place : Place) (name : String) : Except FileError Place :=
  if maxName < name.utf8ByteSize then .error .nameTooLong
  else match place, d.files.lookup name with
    | .inside, some content => .ok (.file content)
    | _, _ => .error .notFound

/-- Goes on by one part of a path. An empty part, as between two slashes or after the last, and a
dot stay where they are, but only a folder lets them. -/
def step (d : Folder) (place : Place) (part : String) : Except FileError Place :=
  match place with
  | .file _ => .error .notDirectory
  | _ =>
    if part == "" || part == "." then .ok place
    else if part == ".." then .ok .outside
    else d.lookup place part

/-- The parts of a path between its slashes. -/
def parts (path : String) : List String :=
  let (part, rest) := path.toList.foldr (fun c (part, rest) =>
    if c == '/' then ([], String.ofList part :: rest) else (c :: part, rest)) ([], [])
  String.ofList part :: rest

/-- A path that starts with a slash starts outside. -/
def start (path : String) : Place :=
  if path.toList.head? == some '/' then .outside else .inside

/-- The content of the file that a path leads to. -/
def read (d : Folder) (path : String) : Except FileError (List UInt8) :=
  if path.isEmpty then .error .notFound
  else if maxPath < path.utf8ByteSize then .error .nameTooLong
  else do
    match ← (parts path).foldlM d.step (start path) with
    | .file content => return content
    | _ => .error .isDirectory

end Folder

end Turnstile
