import SessionAttributes.Toml.Number
import SessionAttributes.Toml.Quoted

namespace SessionAttributes.Toml

structure Key where
  path : List String
  name : String
deriving DecidableEq, Repr

inductive Line where
  | header (key : Key)
  /-- A header in double brackets. -/
  | grow (key : Key)
  | assign (key : Key) (value : Toml)
deriving Repr

def isBare (c : Char) : Bool := c.isAlphanum || c == '-' || c == '_'

def keyPart : Reader String
  | '"' :: rest => (readBasic rest).map fun (s, rest) => (String.ofList s, rest)
  | '\'' :: rest => (readLiteral rest).map fun (s, rest) => (String.ofList s, rest)
  | cs =>
    let s := cs.takeWhile isBare
    if s.isEmpty then none else some (String.ofList s, cs.dropWhile isBare)

/-- The parts of a key, with blanks around each, at most `most`. -/
def keyParts : Nat → Reader (List String)
  | 0, _ => none
  | most + 1, cs => do
    let (part, rest) ← keyPart (skipBlanks cs)
    match skipBlanks rest with
    | '.' :: rest =>
      let (parts, rest) ← keyParts most rest
      return (part :: parts, rest)
    | rest => return ([part], rest)

def readKey : Reader Key := fun cs => do
  let (parts, rest) ← keyParts nestingLimit cs
  return (⟨parts.dropLast, parts.getLast?.getD ""⟩, rest)

def skipComment : List Char → List Char
  | '#' :: rest => rest.dropWhile isPlain
  | cs => cs

/-- Drops blanks, comments and line breaks. A comment ends in a line break. -/
def skipGaps : Nat → List Char → Option (List Char)
  | 0, _ => none
  | most + 1, cs =>
    let cs := skipBlanks cs
    match newline (skipComment cs) with
    | some rest => skipGaps most rest
    | none => if cs.head? = some '#' then none else some cs

def skipAllGaps (cs : List Char) : Option (List Char) := skipGaps (cs.length + 1) cs

/-- The items of an array up to its closing bracket, at most `most`. A comma may follow the last
one. -/
def readItems (item : Reader Toml) : Nat → List Char → Option (List Toml × List Char)
  | 0, _ => none
  | most + 1, cs => do
    match ← skipAllGaps cs with
    | ']' :: rest => return ([], rest)
    | cs =>
      let (v, rest) ← item cs
      match ← skipAllGaps rest with
      | ']' :: rest => return ([v], rest)
      | ',' :: rest =>
        let (vs, rest) ← readItems item most rest
        return (v :: vs, rest)
      | _ => none

/-- A key, its equals sign and its value, with blanks around. -/
def readAssignment (value : Reader Toml) : Reader (Key × Toml) := fun cs => do
  let (key, rest) ← readKey cs
  let (v, rest) ← value (skipBlanks (← mark '=' rest))
  return ((key, v), skipBlanks rest)

/-- The assignments between braces after the first, at most `most`. -/
def readMorePairs (value : Reader Toml) : Nat → List Char → Option (List (Key × Toml) × List Char)
  | 0, _ => none
  | most + 1, cs =>
    match cs with
    | '}' :: rest => some ([], rest)
    | ',' :: rest => do
      let (pair, rest) ← readAssignment value rest
      let (pairs, rest) ← readMorePairs value most rest
      return (pair :: pairs, rest)
    | _ => none

def readPairs (value : Reader Toml) (cs : List Char) : Option (List (Key × Toml) × List Char) :=
  match skipBlanks cs with
  | '}' :: rest => some ([], rest)
  | cs => do
    let (pair, rest) ← readAssignment value cs
    let (pairs, rest) ← readMorePairs value (rest.length + 1) rest
    return (pair :: pairs, rest)

end SessionAttributes.Toml
