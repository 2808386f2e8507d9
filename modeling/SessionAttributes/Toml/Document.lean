import SessionAttributes.Toml.Line

namespace SessionAttributes.Toml

namespace Entries

def replace (name : String) (value : Toml) (entries : Entries) : Entries :=
  entries.map fun e => if e.1 = name then (name, value) else e

def without (name : String) (entries : Entries) : Entries := entries.filter fun e => e.1 != name

/-- Changes the table at the end of a path. Tables on the way that are missing are made; of an array
of tables the last one counts. A dotted key passes no single table that was defined. -/
def alterAt (dotted : Bool) (change : Origin → Entries → Option Entries) :
    List String → Origin → Entries → Option Entries
  | [], origin, entries => change origin entries
  | name :: path, _, entries =>
    match entries.lookup name with
    | none => do
      let made : Origin := if dotted then .dotted else .passed
      let inner ← alterAt dotted change path made []
      return entries ++ [(name, .table made inner)]
    | some (.table origin inner) =>
      if dotted ∧ origin = .defined then none
      else do
        let inner ← alterAt dotted change path origin inner
        return replace name (.table origin inner) entries
    | some (.tables items) =>
      match items.getLast? with
      | some (.table origin inner) => do
        let inner ← alterAt dotted change path origin inner
        return replace name (.tables (items.dropLast ++ [.table origin inner])) entries
      | _ => none
    | some _ => none

/-- Adds a value under a key that is new. Under a dotted key it goes into a table made by dotted
keys. -/
def assign (key : Key) (value : Toml) (entries : Entries) : Option Entries :=
  alterAt true (fun origin found =>
    if (key.path ≠ [] ∧ origin ≠ .dotted) ∨ (found.lookup key.name).isSome then none
    else some (found ++ [(key.name, value)])) key.path .defined entries

/-- Makes the table of a header. One that was only passed moves to the end. -/
def openTable (key : Key) (entries : Entries) : Option Entries :=
  alterAt false (fun _ found =>
    match found.lookup key.name with
    | none => some (found ++ [(key.name, .table .defined [])])
    | some (.table .passed inner) =>
      some (without key.name found ++ [(key.name, .table .defined inner)])
    | some _ => none) key.path .defined entries

def growTables (key : Key) (entries : Entries) : Option Entries :=
  alterAt false (fun _ found =>
    match found.lookup key.name with
    | none => some (found ++ [(key.name, .tables [.table .defined []])])
    | some (.tables items) =>
      some (replace key.name (.tables (items ++ [.table .defined []])) found)
    | some _ => none) key.path .defined entries

end Entries

def ofPairs (pairs : List (Key × Toml)) : Option Toml :=
  (pairs.foldlM (fun entries (key, v) => Entries.assign key v entries) []).map .braces

def readBoolean : Reader Bool
  | 't' :: 'r' :: 'u' :: 'e' :: rest => some (true, rest)
  | 'f' :: 'a' :: 'l' :: 's' :: 'e' :: rest => some (false, rest)
  | _ => none

def readScalar : Reader Toml := fun cs =>
  ((readString cs).map fun (s, rest) => (.string s, rest)).or <|
  ((readBoolean cs).map fun (b, rest) => (.boolean b, rest)).or <|
  ((readMoment cs).map fun (s, rest) => (.moment s, rest)).or <|
  ((readReal cs).map fun (x, rest) => (.real x, rest)).or <|
  (readInteger cs).map fun (n, rest) => (.integer n, rest)

/-- A value within which containers may stand `depth` deep. -/
def readValue : Nat → Reader Toml
  | 0, cs => readScalar cs
  | depth + 1, cs =>
    match cs with
    | '[' :: rest => do
      let (items, rest) ← readItems (readValue depth) (rest.length + 1) rest
      return (.array items, rest)
    | '\x7b' :: rest => do
      let (pairs, rest) ← readPairs (readValue depth) rest
      return (← ofPairs pairs, rest)
    | cs => readScalar cs

def lineEnd (cs : List Char) : Option (List Char) :=
  match skipComment (skipBlanks cs) with
  | [] => some []
  | rest => newline rest

def readLine (cs : List Char) : Option (Option Line × List Char) :=
  match cs with
  | '[' :: '[' :: rest => do
    let (key, rest) ← readKey rest
    let rest ← lineEnd (← mark ']' (← mark ']' rest))
    return (some (.grow key), rest)
  | '[' :: rest => do
    let (key, rest) ← readKey rest
    let rest ← lineEnd (← mark ']' rest)
    return (some (.header key), rest)
  | cs =>
    match lineEnd cs with
    | some rest => some (none, rest)
    | none => do
      let ((key, value), rest) ← readAssignment (readValue nestingLimit) cs
      return (some (.assign key value), ← lineEnd rest)

/-- All lines, at most `most`. -/
def readLines : Nat → List Char → Option (List Line)
  | 0, _ => none
  | most + 1, cs =>
    match skipBlanks cs with
    | [] => some []
    | cs => do
      let (line, rest) ← readLine cs
      return line.toList ++ (← readLines most rest)

structure Draft where
  here : List String
  entries : Entries

namespace Draft

def take (d : Draft) : Line → Option Draft
  | .header key => do return ⟨key.path ++ [key.name], ← Entries.openTable key d.entries⟩
  | .grow key => do return ⟨key.path ++ [key.name], ← Entries.growTables key d.entries⟩
  | .assign key value => do
    let assign (_ : Origin) (found : Entries) := Entries.assign key value found
    return ⟨d.here, ← Entries.alterAt false assign d.here .defined d.entries⟩

end Draft

def dropMark : List Char → List Char
  | '\uFEFF' :: rest => rest
  | cs => cs

def read (text : String) : Option Entries := do
  let cs := dropMark text.toList
  let lines ← readLines (cs.length + 1) cs
  let d ← lines.foldlM Draft.take ⟨[], []⟩
  return d.entries

end SessionAttributes.Toml
