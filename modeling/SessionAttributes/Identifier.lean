import SessionAttributes.Dict
import SessionAttributes.WordHash
import SessionAttributes.Json.Typed

namespace SessionAttributes

abbrev SessionId := String

/-- A 128-bit identifier. Its text groups the digits by hyphens. -/
structure AttributeId where
  bits : BitVec 128
deriving DecidableEq, Repr

namespace AttributeId

instance : Inhabited AttributeId := ⟨⟨0⟩⟩

def bytes (id : AttributeId) : Bytes := (Bytes.ofLittleEndian 16 id.bits.toNat).reverse

def ofNat (n : Nat) : AttributeId := ⟨BitVec.ofNat 128 n⟩

def groups : List Nat → List Char → List String
  | [], _ => []
  | n :: lengths, cs => String.ofList (cs.take n) :: groups lengths (cs.drop n)

def groupLengths : List Nat := [8, 4, 4, 4, 12]

def text (id : AttributeId) : String :=
  "-".intercalate (groups groupLengths id.bytes.hex.toList)

def ofDigits? (digits : List Char) : Option AttributeId := do
  let bytes ← Bytes.ofHexDigits digits
  return ofNat (Bytes.littleEndian bytes.reverse)

/-- Whether the hyphens, and only they, stand between the groups. -/
def isGrouped (cs : List Char) : Bool :=
  let ends := [8, 13, 18, 23]
  cs.length = 36 && ends.all fun i => cs[i]? = some '-'

/-- Thirty-two digits, or thirty-six characters grouped by hyphens. -/
def ofPlain? (cs : List Char) : Option AttributeId :=
  if cs.length = 32 then ofDigits? cs
  else if isGrouped cs then
    let digits := cs.filter (· != '-')
    if digits.length = 32 then ofDigits? digits else none
  else none

/-- Also accepts grouped digits in braces or after `urn:uuid:`. Letters may be of either case. -/
def ofText? (s : String) : Option AttributeId :=
  let cs := s.toList
  let urn := "urn:uuid:".toList
  if cs.length = 38 ∧ cs.head? = some '\x7b' ∧ cs.getLast? = some '\x7d' then
    ofPlain? (cs.drop 1).dropLast
  else if cs.length = 45 ∧ (cs.take 9).map Char.toLower = urn then ofPlain? (cs.drop 9)
  else ofPlain? cs

end AttributeId

abbrev Names := Dict AttributeId

structure AttributeKey where
  session : SessionId
  id : AttributeId
deriving DecidableEq, Repr

namespace AttributeKey

def text (key : AttributeKey) : String := key.session ++ "/" ++ key.id.text

def before (a b : AttributeKey) : Bool :=
  a.session < b.session ||
    (a.session == b.session && a.id.bits.toNat ≤ b.id.bits.toNat)

def sorted (keys : List AttributeKey) : List AttributeKey := keys.eraseDups.mergeSort before

end AttributeKey

class ShardKey (K : Type) where
  digest : K → UInt64

instance : ShardKey SessionId where
  digest s := WordHash.addText 0 s

instance : ShardKey UInt64 where
  digest n := WordHash.add 0 n

instance : ShardKey AttributeKey where
  digest key := WordHash.addBytes (WordHash.addText 0 key.session) key.id.bytes

namespace Json

def readAttributeId : Typed AttributeId := fun tokens => do
  let (s, rest) ← readText tokens
  match AttributeId.ofText? s with
  | some id => return (id, rest)
  | none => mismatch (.value (.string s) "a hyphenated identifier") tokens

def readBinding (name : String) (names : Names) : Typed Names := fun tokens => do
  let (id, rest) ← readAttributeId tokens
  return (names.insert name id, rest)

def readNames : Typed Names
  | .openObject :: rest =>
    readMembers (fun name names => .ok (readBinding name names)) (rest.length + 1) true
      Dict.empty rest
  | tokens => unexpected "a map" tokens

def ofAttributeId (id : AttributeId) : Json := .string id.text

def ofNames (names : Names) : Json :=
  .object (names.entries.map fun e => (e.1, ofAttributeId e.2))

end Json
end SessionAttributes
