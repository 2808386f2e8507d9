import SessionAttributes.Json.Token

namespace SessionAttributes.Json

structure Halt where
  fault : Fault
  rest : List Token

abbrev Typed (α : Type) := List Token → Except Halt (α × List Token)

def halt {α : Type} (fault : Fault) (rest : List Token) : Except Halt α := .error ⟨fault, rest⟩

def mismatch {α : Type} (m : Mismatch) (rest : List Token) : Except Halt α :=
  halt (.mismatch m) rest

def Number.found : Number → Found
  | .natural n => .integer n.val
  | .negative n => .integer (-(n.val + 1 : Int))
  | .real x => .real x

def unexpected {α : Type} (expected : String) (tokens : List Token) : Except Halt α :=
  let fault : Fault := match tokens with
    | [] => .eofInValue
    | .null :: _ => .mismatch (.kind .null expected)
    | .bool b :: _ => .mismatch (.kind (.boolean b) expected)
    | .number n :: _ => .mismatch (.kind n.found expected)
    | .text s :: _ => .mismatch (.kind (.string s) expected)
    | .openArray :: _ => .mismatch (.kind .sequence expected)
    | .openObject :: _ => .mismatch (.kind .map expected)
    | .broken _ fault :: _ => fault
    | _ => .expectedValue
  halt fault tokens

/-- A natural number up to `most`, of the type called `name`. -/
def readNatural (name : String) (most : Nat) : Typed Nat
  | .number (.natural n) :: rest =>
    if n.val ≤ most then .ok (n.val, rest)
    else mismatch (.value (.integer n.val) name) (.number (.natural n) :: rest)
  | .number (.negative n) :: rest =>
    mismatch (.value (Number.negative n).found name) (.number (.negative n) :: rest)
  | tokens => unexpected name tokens

def readInt64 : Typed Int
  | .number (.natural n) :: rest =>
    if n.val < 0x8000000000000000 then .ok (n.val, rest)
    else mismatch (.value (.integer n.val) "i64") (.number (.natural n) :: rest)
  | .number (.negative n) :: rest => .ok (-(n.val + 1 : Int), rest)
  | tokens => unexpected "i64" tokens

def readBool : Typed Bool
  | .bool b :: rest => .ok (b, rest)
  | tokens => unexpected "a boolean" tokens

def readText : Typed String
  | .text s :: rest => .ok (s, rest)
  | tokens => unexpected "a string" tokens

def readOptional {α : Type} (inner : Typed α) : Typed (Option α)
  | .null :: rest => .ok (none, rest)
  | tokens => do
    let (v, rest) ← inner tokens
    return (some v, rest)

/-- The next item of an array: its tokens, or nothing at the closing bracket, which stays. -/
def nextItem (first : Bool) : List Token → Except Halt (Option (List Token))
  | [] => halt .eofInList []
  | .closeArray :: _ => .ok none
  | .comma :: rest =>
    if first then .ok (some (.comma :: rest))
    else match rest with
      | [] => halt .eofInValue []
      | .closeArray :: rest => halt .trailingComma (.closeArray :: rest)
      | _ => .ok (some rest)
  | tokens => if first then .ok (some tokens) else halt .expectedListEnd tokens

def takeKey : List Token → Except Halt (Option (String × List Token))
  | .text key :: rest => .ok (some (key, rest))
  | .broken true fault :: rest => halt fault (.broken true fault :: rest)
  | tokens => halt .keyNotString tokens

/-- The next key of an object and the tokens after it, or nothing at the closing brace. -/
def nextKey (first : Bool) : List Token → Except Halt (Option (String × List Token))
  | [] => halt .eofInObject []
  | .closeObject :: _ => .ok none
  | .comma :: rest =>
    if first then halt .keyNotString (.comma :: rest)
    else match rest with
      | [] => halt .eofInValue []
      | .closeObject :: rest => halt .trailingComma (.closeObject :: rest)
      | rest => takeKey rest
  | tokens => if first then takeKey tokens else halt .expectedObjectEnd tokens

def afterColon : List Token → Except Halt (List Token)
  | [] => halt .eofInObject []
  | .colon :: rest => .ok rest
  | tokens => halt .expectedColon tokens

def closeArray : List Token → Except Halt (List Token)
  | [] => halt .eofInList []
  | .closeArray :: rest => .ok rest
  | .comma :: .closeArray :: rest => halt .trailingComma (.closeArray :: rest)
  | .comma :: rest => halt .trailingCharacters rest
  | tokens => halt .trailingCharacters tokens

/-- Reads items into `state` up to the closing bracket, at most one a token. -/
def readItems {σ : Type} (item : σ → Typed σ) : Nat → Bool → σ → Typed σ
  | 0, _, _, _ => halt .eofInList []
  | most + 1, first, state, tokens => do
    match ← nextItem first tokens with
    | none => return (state, ← closeArray tokens)
    | some rest =>
      let (state, rest) ← item state rest
      readItems item most false state rest

/-- Reads members into `state` up to the closing brace, at most one a token. `member` sees the key
before the colon and answers with the reader of the value. -/
def readMembers {σ : Type} (member : String → σ → Except Fault (Typed σ)) :
    Nat → Bool → σ → Typed σ
  | 0, _, _, _ => halt .eofInObject []
  | most + 1, first, state, tokens => do
    match ← nextKey first tokens with
    | none => return (state, tokens.drop 1)
    | some (key, rest) =>
      let value ← (member key state).mapError (⟨·, rest⟩)
      let (state, rest) ← value (← afterColon rest)
      readMembers member most false state rest

def readList {α : Type} (item : Typed α) : Typed (List α)
  | .openArray :: rest => do
    let add : List α → Typed (List α) := fun items tokens => do
      let (v, rest) ← item tokens
      return (v :: items, rest)
    let (items, rest) ← readItems add (rest.length + 1) true [] rest
    return (items.reverse, rest)
  | tokens => unexpected "a sequence" tokens

/-- One field of a record: its name and how to read it into the record. -/
structure Field (σ : Type) where
  name : String
  read : σ → Typed σ

/-- Reads the field called `key` of those not read yet. -/
def readField {σ : Type} (fields : List (Field σ)) (key : String) (state : σ × List String) :
    Except Fault (Typed (σ × List String)) :=
  match fields.find? (fun f => f.name == key) with
  | none => .error (.mismatch (.unknownField key (fields.map Field.name)))
  | some field =>
    if state.2.contains key then .error (.mismatch (.duplicateField key))
    else .ok fun tokens => do
      let (record, rest) ← field.read state.1 tokens
      return ((record, key :: state.2), rest)

/-- Reads a record from the items of an array, in the order of its fields. -/
def readInOrder {σ : Type} (first : Bool) : List (Field σ) → σ → Typed σ
  | [], record, tokens => .ok (record, tokens)
  | field :: fields, record, tokens => do
    match ← nextItem first tokens with
    | none => return (record, tokens)
    | some rest =>
      let (record, rest) ← field.read record rest
      readInOrder false fields record rest

/-- Reads a record from an object or an array. Fields left out keep what `initial` has. -/
def readRecord {σ : Type} (name : String) (fields : List (Field σ)) (initial : σ) : Typed σ
  | .openObject :: rest => do
    let (state, rest) ←
      readMembers (readField fields) (rest.length + 1) true (initial, []) rest
    return (state.1, rest)
  | .openArray :: rest => do
    let (record, rest) ← readInOrder true fields initial rest
    return (record, ← closeArray rest)
  | tokens => unexpected ("struct " ++ name) tokens

def readAs {α : Type} (typed : Typed α) (bytes : Bytes) : Except Refusal α :=
  let tokens := tokens bytes
  let refused (h : Halt) : Refusal := refuse bytes (tokens.length - h.rest.length) h.fault
  match typed tokens with
  | .error h => .error (refused h)
  | .ok (v, []) => .ok v
  | .ok (_, rest) => .error (refused ⟨.trailingCharacters, rest⟩)

end SessionAttributes.Json
