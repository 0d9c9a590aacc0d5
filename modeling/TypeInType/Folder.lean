import TypeInType.Text.Input

/-!
# Folders

The files below a directory, and what a path leads to when it is followed from there. Of the
directories above it is known only that they are directories.
-/

namespace TypeInType

/-- Why a source could not be loaded. -/
inductive LoadError where
  | notFound
  | denied
  | notDirectory
  | isDirectory
  | nameTooLong
  | nulInName
  | notText
  deriving DecidableEq, Repr

/-- What a message says of the error. -/
def LoadError.message : LoadError → String
  | notFound => "No such file or directory (os error 2)"
  | denied => "Permission denied (os error 13)"
  | notDirectory => "Not a directory (os error 20)"
  | isDirectory => "Is a directory (os error 21)"
  | nameTooLong => "File name too long (os error 36)"
  | nulInName => "file name contained an unexpected NUL byte"
  | notText => "stream did not contain valid UTF-8"

/-- The content of a file, if it could be read. -/
abbrev Content := Except LoadError (List UInt8)

/-- The text of a file. -/
def Content.text : Content → Except LoadError String
  | .error e => .error e
  | .ok bytes =>
    match decodeText bytes with
    | some text => .ok text
    | none => .error .notText

/-- The names of a path, which slashes divide. -/
def pathNames : List Char → List String
  | [] => [""]
  | c :: cs =>
    if c = '/' then "" :: pathNames cs
    else match pathNames cs with
      | [] => [c.toString]
      | name :: names => (c.toString ++ name) :: names

/-- A name that stays where it is. -/
def isHere (name : String) : Bool :=
  name = "" || name = "."

/-- A name that goes one directory up. -/
def isUp (name : String) : Bool :=
  name = ".."

/-- The files below a directory, each by the names on the way to it. -/
structure Folder where
  files : List (List String × List UInt8)

/-- A place that a path leads to. -/
inductive Place where
  | above
  | below (names : List String)
  deriving DecidableEq, Repr

namespace Folder

/-- A folder without files. -/
def empty : Folder := ⟨[]⟩

/-- The most bytes of a name. -/
def maxName : Nat := 255

/-- The most bytes of a path. -/
def maxPath : Nat := 4095

/-- The content of the file at a place. -/
def file? (folder : Folder) : Place → Option (List UInt8)
  | .above => none
  | .below names => folder.files.lookup names

/-- The place is a directory. -/
def isDirectory (folder : Folder) : Place → Bool
  | .above => true
  | .below names =>
    names.isEmpty ||
      folder.files.any fun file => names.length < file.1.length && names.isPrefixOf file.1

/-- The place to which one more name leads. -/
def enter (folder : Folder) (place : Place) (name : String) : Except LoadError Place :=
  if !folder.isDirectory place then .error .notDirectory
  else if isHere name then .ok place
  else match place with
    | .above =>
      if isUp name then .ok .above
      else if maxName < name.utf8ByteSize then .error .nameTooLong
      else .error .notFound
    | .below names =>
      let there := Place.below (names ++ [name])
      if isUp name then .ok (if names.isEmpty then .above else .below names.dropLast)
      else if maxName < name.utf8ByteSize then .error .nameTooLong
      else if (folder.file? there).isSome || folder.isDirectory there then .ok there
      else .error .notFound

/-- The place to which a path leads. -/
def find (folder : Folder) (path : String) : Except LoadError Place :=
  let start : Place := if path.toList.head? = some '/' then .above else .below []
  if path.toList.contains '\x00' then .error .nulInName
  else if path = "" then .error .notFound
  else if maxPath < path.utf8ByteSize then .error .nameTooLong
  else (pathNames path.toList).foldlM folder.enter start

/-- The content of the file to which a path leads. -/
def read (folder : Folder) (path : String) : Content := do
  let place ← folder.find path
  match folder.file? place with
  | some bytes => return bytes
  | none => throw .isDirectory

end Folder

end TypeInType
