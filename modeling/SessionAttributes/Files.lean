import SessionAttributes.Bytes

namespace SessionAttributes

inductive FileEntry where
  | file (contents : Bytes)
  | directory

inductive FileFault where
  | missing
  | notDirectory
  | isDirectory
  | denied
  | nameTooLong
  | nulInName
  | notText
deriving DecidableEq, Repr

def FileFault.message : FileFault → String
  | .missing => "No such file or directory (os error 2)"
  | .notDirectory => "Not a directory (os error 20)"
  | .isDirectory => "Is a directory (os error 21)"
  | .denied => "Permission denied (os error 13)"
  | .nameTooLong => "File name too long (os error 36)"
  | .nulInName => "file name contained an unexpected NUL byte"
  | .notText => "stream did not contain valid UTF-8"

/-- The parts of a path to each entry from the root. Directories on the way need no entry. -/
abbrev FileTree := List (List String × FileEntry)

namespace FileTree

def nameLimit : Nat := 255

def pathLimit : Nat := 4095

def parts (path : String) : List String := path.splitOn "/"

def entry? (t : FileTree) (place : List String) : Option FileEntry :=
  match t.lookup place with
  | some e => some e
  | none => if place.isEmpty ∨ t.any fun e => place.isPrefixOf e.1 then some .directory else none

/-- Walks from a place along the parts of a path. All but the last place must be directories. -/
def walk (t : FileTree) : List String → List String → Except FileFault (List String)
  | place, [] => .ok place
  | place, part :: rest =>
    match t.entry? place with
    | none => .error .missing
    | some (.file _) => .error .notDirectory
    | some .directory =>
      if part = "" ∨ part = "." then walk t place rest
      else if part = ".." then walk t place.dropLast rest
      else if nameLimit < part.utf8ByteSize then .error .nameTooLong
      else walk t (place ++ [part]) rest

/-- The entry that a path leads to. A path that does not start with a slash starts in `here`. -/
def find (t : FileTree) (here : List String) (path : String) : Except FileFault FileEntry :=
  if path.isEmpty then .error .missing
  else if path.contains '\x00' then .error .nulInName
  else if pathLimit < path.utf8ByteSize then .error .nameTooLong
  else do
    let place ← walk t (if path.startsWith "/" then [] else here) (parts path)
    match t.entry? place with
    | some e => return e
    | none => .error .missing

def read (t : FileTree) (here : List String) (path : String) : Except FileFault Bytes := do
  match ← t.find here path with
  | .file contents => return contents
  | .directory => .error .isDirectory

def readText (t : FileTree) (here : List String) (path : String) : Except FileFault String := do
  match (← t.read here path).toText? with
  | some text => return text
  | none => .error .notText

end FileTree
end SessionAttributes
