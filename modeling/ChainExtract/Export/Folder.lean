import ChainExtract.Error
import ChainExtract.Keyed

/-!
# The output folder

The folder that receives artifacts and the error log. Names with slashes
lead into sub-directories, which are never created on the way.
-/

namespace ChainExtract

/-- Why a file cannot be written. -/
inductive WriteFailure where
  | missing
  | notDirectory
  | isDirectory
  | nameTooLong
  | nulInName
deriving DecidableEq, Repr

/-- The words of the operating system for a refused write. -/
def WriteFailure.message : WriteFailure → String
  | missing => "No such file or directory (os error 2)"
  | notDirectory => "Not a directory (os error 20)"
  | isDirectory => "Is a directory (os error 21)"
  | nameTooLong => "File name too long (os error 36)"
  | nulInName => "file name contained an unexpected NUL byte"

/-- A folder: how its path is told, its sub-directories and its files. Paths
inside it are lists of names. -/
structure Folder where
  path : String
  directories : List (List String) := []
  files : Keyed (List String) String := []
deriving DecidableEq, Repr

namespace Folder

/-- Where a path leads: to a place in the folder, or out of it. What lies
outside is not looked at. -/
inductive Place where
  | inside (names : List String)
  | outside
deriving DecidableEq, Repr

/-- Follows the names of a path from a directory of the folder. All but the
last must be directories. -/
def follow (folder : Folder) (here : List String) : List String → Except WriteFailure Place
  | [] => .ok (.inside here)
  | name :: rest =>
    if name = ".." then
      if here = [] then .ok .outside else folder.follow here.dropLast rest
    else if 255 < name.utf8ByteSize then .error .nameTooLong
    else
      let there := here ++ [name]
      if rest = [] then .ok (.inside there)
      else if there ∈ folder.directories then folder.follow there rest
      else if (folder.files.get? there).isSome then .error .notDirectory
      else .error .missing

/-- The parts of a path between its slashes. -/
def parts : List Char → List (List Char)
  | [] => [[]]
  | c :: path =>
    if c = '/' then [] :: parts path
    else
      match parts path with
      | [] => [[c]]
      | part :: rest => (c :: part) :: rest

/-- The place that a file name leads to. -/
def locate (folder : Folder) (name : String) : Except WriteFailure Place :=
  if Char.ofNat 0 ∈ name.toList then .error .nulInName
  else
    let names := ((parts name.toList).map String.ofList).filter fun part => part != "" && part != "."
    if name.toList.head? = some '/' then
      if names.length ≤ 1 then .ok .outside else .error .missing
    else folder.follow [] names

/-- Writes a file whose new contents follow from the old. -/
def modify (folder : Folder) (name : String) (contents : Option String → String) :
    Except WriteFailure Folder := do
  match ← folder.locate name with
  | .outside => return folder
  | .inside place =>
    if place = [] ∨ place ∈ folder.directories then .error .isDirectory
    else return { folder with files := folder.files.update place contents }

/-- Writes a file, replacing what it held. -/
def write (folder : Folder) (name contents : String) : Except WriteFailure Folder :=
  folder.modify name fun _ => contents

/-- Writes a text behind what a file holds; a file that cannot be written is
left as it is. -/
def append (folder : Folder) (name text : String) : Folder :=
  match folder.modify name fun contents => contents.getD "" ++ text with
  | .ok folder => folder
  | .error _ => folder

/-- The contents of a file that lies directly in the folder. -/
def read? (folder : Folder) (name : String) : Option String := folder.files.get? [name]

/-- The path under which a file of the folder is told. -/
def pathOf (folder : Folder) (name : String) : String :=
  if name.startsWith "/" then name else folder.path ++ "/" ++ name

/-- Writes files one after the other, whatever happens to those before, and
returns the first failure. -/
def writeAll (folder : Folder) : List (String × String) → Folder × Option Error
  | [] => (folder, none)
  | (name, contents) :: rest =>
    match folder.write name contents with
    | .ok folder => folder.writeAll rest
    | .error failure =>
      let (after, _) := folder.writeAll rest
      (after, some (.unwritten (folder.pathOf name) failure.message))

end Folder

end ChainExtract
