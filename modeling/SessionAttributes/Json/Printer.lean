import SessionAttributes.Bytes
import SessionAttributes.Decimal.Shortest
import SessionAttributes.Json.Basic

namespace SessionAttributes.Json

/-- Numbers from `1e-5` to below `1e16` are written in full. -/
def numberStyle : Decimal.Style := ⟨-5, 15, "null", "null"⟩

def Number.text : Number → String
  | .natural n => toString n.val
  | .negative n => "-" ++ toString (n.val + 1)
  | .real x => Decimal.write numberStyle x

/-- The mark after the backslash that stands for a byte, for bytes that have one of their own. -/
def shortEscape (b : UInt8) : Option UInt8 :=
  if b = 0x22 then some 0x22
  else if b = 0x5C then some 0x5C
  else if b = 0x08 then some 0x62
  else if b = 0x0C then some 0x66
  else if b = 0x0A then some 0x6E
  else if b = 0x0D then some 0x72
  else if b = 0x09 then some 0x74
  else none

def hexDigit (n : Nat) : UInt8 := UInt8.ofNat (if n < 10 then 0x30 + n else 0x57 + n)

/-- A byte inside a string. Control bytes without a mark of their own are written by number, and
bytes from `0x20` on stand for themselves. -/
def escapeByte (b : UInt8) : Bytes :=
  match shortEscape b with
  | some mark => [0x5C, mark]
  | none =>
    if b < 0x20 then [0x5C, 0x75, 0x30, 0x30, hexDigit (b.toNat / 16), hexDigit (b.toNat % 16)]
    else [b]

def writeString (s : String) : Bytes :=
  0x22 :: (Bytes.ofString s).flatMap escapeByte ++ [0x22]

mutual

def write : Json → Bytes
  | .null => [0x6E, 0x75, 0x6C, 0x6C]
  | .bool true => [0x74, 0x72, 0x75, 0x65]
  | .bool false => [0x66, 0x61, 0x6C, 0x73, 0x65]
  | .number n => Bytes.ofString n.text
  | .string s => writeString s
  | .array xs => 0x5B :: writeItems xs
  | .object ms => 0x7B :: writeMembers ms

def writeItems : List Json → Bytes
  | [] => [0x5D]
  | x :: xs => write x ++ writeMoreItems xs

def writeMoreItems : List Json → Bytes
  | [] => [0x5D]
  | x :: xs => 0x2C :: write x ++ writeMoreItems xs

def writeMembers : List (String × Json) → Bytes
  | [] => [0x7D]
  | (k, x) :: ms => writeString k ++ 0x3A :: write x ++ writeMoreMembers ms

def writeMoreMembers : List (String × Json) → Bytes
  | [] => [0x7D]
  | (k, x) :: ms => 0x2C :: writeString k ++ 0x3A :: write x ++ writeMoreMembers ms

end

def text (v : Json) : String := Bytes.toText v.write

def indentation (level : Nat) : String := "\n" ++ String.ofList (List.replicate (2 * level) ' ')

mutual

def prettyAt (level : Nat) : Json → String
  | .array xs =>
    if xs.isEmpty then "[]"
    else "[" ++ ",".intercalate (prettyItems (level + 1) xs) ++ indentation level ++ "]"
  | .object ms =>
    if ms.isEmpty then "\x7b\x7d"
    else "\x7b" ++ ",".intercalate (prettyMembers (level + 1) ms) ++ indentation level ++ "\x7d"
  | v => v.text

def prettyItems (level : Nat) : List Json → List String
  | [] => []
  | x :: xs => (indentation level ++ prettyAt level x) :: prettyItems level xs

def prettyMembers (level : Nat) : List (String × Json) → List String
  | [] => []
  | (k, x) :: ms =>
    (indentation level ++ (Json.string k).text ++ ": " ++ prettyAt level x) ::
      prettyMembers level ms

end

def pretty (v : Json) : String := prettyAt 0 v

end SessionAttributes.Json
