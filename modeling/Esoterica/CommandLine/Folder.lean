import Esoterica.CommandLine.Arguments

/-!
# Folders

The files that a command can name, by paths that start in one folder. Folders below it exist as far
as files lie in them. Of what lies above it nothing is known but that the folders on the way to the
root are there. A path is followed name by name, and the first name that leads nowhere decides the
fault; only a path that is too long as a whole is refused before.
-/

namespace Esoterica

/-- Why a file could not be read. -/
inductive FileFault where
  | missing
  /-- A file stands where the path needs a folder. -/
  | notFolder
  | isFolder
  /-- A name on the way or the path itself is too long. -/
  | nameTooLong
  | invalidText
  /-- Another reason, in its own words. -/
  | other (reason : String)
deriving DecidableEq

namespace FileFault

def message : FileFault → String
  | missing => "No such file or directory (os error 2)"
  | notFolder => "Not a directory (os error 20)"
  | isFolder => "Is a directory (os error 21)"
  | nameTooLong => "File name too long (os error 36)"
  | invalidText => "stream did not contain valid UTF-8"
  | other reason => reason

end FileFault

structure Folder where
  files : List (String × ByteArray)

namespace Folder

/-- Where a path has led to. -/
inductive Place where
  /-- A folder, by the names on the way to it. -/
  | folder (names : List (List Char))
  | file (content : ByteArray)
  /-- Above the starting folder, where nothing is known. -/
  | outside

/-- The names on the way to each file, and its content. -/
def entries (folder : Folder) : List (List (List Char) × ByteArray) :=
  folder.files.map fun (name, content) => (pathParts name, content)

/-- What a name leads to from a folder. -/
def enter (folder : Folder) (names : List (List Char)) (name : List Char) :
    Except FileFault Place :=
  let path := names ++ [name]
  match folder.entries.lookup path with
  | some content => .ok (.file content)
  | none =>
    if folder.entries.any fun (way, _) => path.isPrefixOf way then .ok (.folder path)
    else .error .missing

/-- The greatest number of bytes of a name. -/
def maxNameLength : Nat :=
  255

/-- The greatest number of bytes of a path. -/
def maxPathLength : Nat :=
  4095

/-- The number of bytes of a text. -/
def byteLength (text : List Char) : Nat :=
  (String.ofList text).utf8ByteSize

/-- Goes on from a place by one name of a path. -/
def walk (folder : Folder) (place : Place) (name : List Char) : Except FileFault Place :=
  match place with
  | .file _ => .error .notFolder
  | .outside =>
    if name = ['.', '.'] then .ok .outside
    else if maxNameLength < byteLength name then .error .nameTooLong
    else .error .missing
  | .folder names =>
    if name = ['.', '.'] then
      if names.isEmpty then .ok .outside else .ok (.folder names.dropLast)
    else if maxNameLength < byteLength name then .error .nameTooLong
    else folder.enter names name

/-- Whether the last part of a path says that it is a folder's. -/
def namesFolder (path : List Char) : Bool :=
  path.getLast? == some '/' || ['/', '.'].isSuffixOf path

/-- The bytes of the file at a path. -/
def readBytes (folder : Folder) (path : String) : Except FileFault ByteArray := do
  if maxPathLength < byteLength path.toList then throw .nameTooLong
  let start : Place := if path.toList.head? = some '/' then .outside else .folder []
  match ← (pathParts path).foldlM folder.walk start with
  | .file content => if namesFolder path.toList then throw .notFolder else return content
  | .folder _ | .outside => throw .isFolder

/-- The text of the file at a path. -/
def readText (folder : Folder) (path : String) : Except FileFault String := do
  match String.fromUTF8? (← folder.readBytes path) with
  | some text => return text
  | none => throw .invalidText

end Folder

end Esoterica
