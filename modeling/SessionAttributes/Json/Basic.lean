import SessionAttributes.Decimal.Binary64

namespace SessionAttributes

/-- Whole numbers that fit 64 bits are kept apart from all others, which are double precision
numbers. -/
inductive Json.Number where
  /-- A whole number from zero on. -/
  | natural (n : Fin 0x10000000000000000)
  /-- The number `-(n + 1)`. -/
  | negative (n : Fin 0x8000000000000000)
  | real (x : Binary64)
deriving DecidableEq, Repr

inductive Json where
  | null
  | bool (b : Bool)
  | number (n : Json.Number)
  | string (s : String)
  | array (items : List Json)
  | object (members : List (String × Json))
deriving Repr

namespace Json

instance : Inhabited Json := ⟨.null⟩

def Number.equal : Number → Number → Bool
  | .natural m, .natural n => m == n
  | .negative m, .negative n => m == n
  | .real x, .real y => x.equal y
  | _, _ => false

mutual

def equal : Json → Json → Bool
  | .null, .null => true
  | .bool a, .bool b => a == b
  | .number m, .number n => m.equal n
  | .string s, .string t => s == t
  | .array xs, .array ys => equalItems xs ys
  | .object ms, .object ns => equalMembers ms ns
  | _, _ => false

def equalItems : List Json → List Json → Bool
  | [], [] => true
  | x :: xs, y :: ys => equal x y && equalItems xs ys
  | _, _ => false

def equalMembers : List (String × Json) → List (String × Json) → Bool
  | [], [] => true
  | (k, x) :: ms, (l, y) :: ns => k == l && equal x y && equalMembers ms ns
  | _, _ => false

end

instance : BEq Json := ⟨equal⟩

mutual

def depth : Json → Nat
  | .array xs => depthItems xs + 1
  | .object ms => depthMembers ms + 1
  | _ => 0

def depthItems : List Json → Nat
  | [] => 0
  | x :: xs => max (depth x) (depthItems xs)

def depthMembers : List (String × Json) → Nat
  | [] => 0
  | (_, x) :: ms => max (depth x) (depthMembers ms)

end

/-- The most containers a reader opens inside one another. -/
def depthLimit : Nat := 127

/-- Puts a member at its place in key order, over an earlier one of the same key. -/
def insertMember (key : String) (value : Json) : List (String × Json) → List (String × Json)
  | [] => [(key, value)]
  | (k, v) :: rest =>
    if key < k then (key, value) :: (k, v) :: rest
    else if key = k then (key, value) :: rest
    else (k, v) :: insertMember key value rest

/-- The object of the given members in key order. Of equal keys the last one counts. -/
def ofMembers (members : List (String × Json)) : Json :=
  .object (members.foldl (fun ms m => insertMember m.1 m.2 ms) [])

def find? (key : String) : Json → Option Json
  | .object members => members.lookup key
  | _ => none

def nest (value : Json) (levels : Nat) : Json := Nat.repeat (fun v => .array [v]) levels value

def Number.ofNat (n : Nat) : Number := .natural (Fin.ofNat 0x10000000000000000 n)

def Number.negSucc (n : Nat) : Number := .negative (Fin.ofNat 0x8000000000000000 n)

def ofNat (n : Nat) : Json := .number (.ofNat n)

def ofInt : Int → Json
  | .ofNat n => ofNat n
  | .negSucc n => .number (.negSucc n)

def ofOption : Option Json → Json
  | none => .null
  | some v => v

end Json
end SessionAttributes
