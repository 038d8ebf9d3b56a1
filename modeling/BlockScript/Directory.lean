/-!
# Directories

What reading a path gives in a working directory that holds some files and nothing else. A path is
followed name by name, and the first name that cannot be passed decides why it cannot be read. Of
what lies outside the working directory only the way up is known.
-/

namespace BlockScript

inductive FileContent where
  | text (content : String)
  | missing (reason : String)
  /-- There is something that cannot be read as text. -/
  | unreadable (reason : String)
deriving DecidableEq, Repr, Inhabited

inductive PathError where
  | absent
  /-- The path goes on after the name of a file. -/
  | notDirectory
  | nameTooLong
deriving DecidableEq, Repr, Inhabited

def PathError.reason : PathError → String
  | absent => "No such file or directory (os error 2)"
  | notDirectory => "Not a directory (os error 20)"
  | nameTooLong => "File name too long (os error 36)"

inductive Place where
  | file (content : String)
  /-- A directory below the working directory, by the names that lead to it. -/
  | inside (names : List String)
  /-- A directory that is not below the working directory. -/
  | outside
deriving DecidableEq, Repr, Inhabited

def Place.content : Place → FileContent
  | file content => .text content
  | inside _ => .unreadable "Is a directory (os error 21)"
  | outside => .unreadable "Is a directory (os error 21)"

structure Directory where
  /-- The files, each by the names that lead to it. Of two at one place the first counts. -/
  files : List (List String × String)
deriving DecidableEq, Repr, Inhabited

namespace Directory

def maxNameBytes : Nat := 255

def maxPathBytes : Nat := 4095

/-- Whether a part of a path names the directory it stands in; the parts around doubled slashes and
after one at the end do. -/
def isHere (name : String) : Bool := name == "" || name == "."

/-- The directory that holds files at some paths, later ones replacing earlier ones. -/
def ofFiles (files : List (String × String)) : Directory where
  files := files.reverse.map fun (path, content) =>
    ((path.splitOn "/").filter (!isHere ·), content)

def find (d : Directory) (names : List String) : Except PathError Place :=
  match d.files.lookup names with
  | some content => .ok (.file content)
  | none => if d.files.any fun (own, _) => names.isPrefixOf own then .ok (.inside names)
    else .error .absent

/-- The directory above. The one above the working directory lies outside, and so does all that is
above it. -/
def up : List String → Place
  | [] => .outside
  | names => .inside names.dropLast

/-- Follows one name. Only a directory can be passed, even where the name stays in it. -/
def step (d : Directory) (place : Place) (name : String) : Except PathError Place :=
  match place with
  | .file _ => .error .notDirectory
  | .inside names =>
    if isHere name then .ok (.inside names)
    else if name = ".." then .ok (up names)
    else if maxNameBytes < name.utf8ByteSize then .error .nameTooLong
    else d.find (names ++ [name])
  | .outside =>
    if isHere name || name = ".." then .ok .outside
    else if maxNameBytes < name.utf8ByteSize then .error .nameTooLong
    else .error .absent

/-- Follows a path, from the working directory unless it starts with a slash. -/
def follow (d : Directory) (path : String) : Except PathError Place :=
  if path = "" then .error .absent
  else if maxPathBytes < path.utf8ByteSize then .error .nameTooLong
  else (path.splitOn "/").foldlM d.step (if path.startsWith "/" then .outside else .inside [])

def read (d : Directory) (path : String) : FileContent :=
  match d.follow path with
  | .ok place => place.content
  | .error e => .missing e.reason

end Directory

end BlockScript
