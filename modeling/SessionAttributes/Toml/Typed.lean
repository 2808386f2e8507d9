import SessionAttributes.Json.Fault
import SessionAttributes.Toml.Document

namespace SessionAttributes.Toml

abbrev Typed (α : Type) := Toml → Except Mismatch α

/-- The entry that a moment shows where a table is expected. -/
def momentEntry : String := "$__toml_private_datetime"

def found : Toml → Found
  | .integer n => .integer n
  | .real x => .real x
  | .boolean b => .boolean b
  | .string s => .string s
  | .moment _ | .braces _ | .table _ _ => .map
  | .array _ | .tables _ => .sequence

def readNatural (name : String) : Typed Nat
  | .integer n => if 0 ≤ n then .ok n.toNat else .error (.value (.integer n) name)
  | v => .error (.kind v.found name)

def readBool : Typed Bool
  | .boolean b => .ok b
  | v => .error (.kind v.found "a boolean")

def readText : Typed String
  | .string s => .ok s
  | v => .error (.kind v.found "a string")

/-- One field of a record: its name and how to read it into the record. -/
structure Field (σ : Type) where
  name : String
  read : σ → Typed σ

variable {σ : Type}

def readEntries (fields : List (Field σ)) : Entries → σ → Except Mismatch σ
  | [], record => .ok record
  | (key, v) :: entries, record =>
    match fields.find? fun f => f.name == key with
    | none => .error (.unknownField key (fields.map Field.name))
    | some field => do readEntries fields entries (← field.read record v)

/-- Reads a record from items in the order of its fields. Items past the last field do not count. -/
def readInOrder : List (Field σ) → List Toml → σ → Except Mismatch σ
  | field :: fields, v :: items, record => do readInOrder fields items (← field.read record v)
  | _, _, record => .ok record

/-- Reads a record from a table or an array. Fields left out keep what `initial` has. -/
def readRecord (name : String) (fields : List (Field σ)) (initial : σ) : Typed σ
  | .table _ entries | .braces entries => readEntries fields entries initial
  | .moment text => readEntries fields [(momentEntry, .string text)] initial
  | .array items | .tables items => readInOrder fields items initial
  | v => .error (.kind v.found ("struct " ++ name))

inductive Fault where
  | syntactic
  | mismatch (m : Mismatch)

def numberStyle : Decimal.Style := ⟨-400, 400, "NaN", "inf"⟩

def Fault.message : Fault → String
  | .syntactic => "toml: syntax"
  | .mismatch m => "toml: " ++ m.message numberStyle

def readAs {α : Type} (typed : Typed α) (text : String) : Except Fault α :=
  match read text with
  | none => .error .syntactic
  | some entries => (typed (.table .defined entries)).mapError .mismatch

end SessionAttributes.Toml
