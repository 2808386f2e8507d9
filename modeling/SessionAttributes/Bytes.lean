namespace SessionAttributes

abbrev Bytes := List UInt8

namespace Bytes

def ofString (s : String) : Bytes := s.toByteArray.data.toList

def toText? (bytes : Bytes) : Option String := String.fromUTF8? ⟨bytes.toArray⟩

theorem toText?_ofString (s : String) : toText? (ofString s) = some s := by
  have h : (⟨(ofString s).toArray⟩ : ByteArray) = s.toByteArray := by
    simp [ofString]
  rw [toText?, h, String.fromUTF8?, dif_pos s.isValidUTF8]
  rfl

/-- The text of bytes that are known to be UTF-8, and the empty text for any other. -/
def toText (bytes : Bytes) : String := bytes.toText?.getD ""

theorem toText_ofString (s : String) : toText (ofString s) = s := by
  simp [toText, toText?_ofString]

def hex (bytes : Bytes) : String :=
  String.ofList (bytes.flatMap fun b =>
    [Nat.digitChar (b.toNat / 16), Nat.digitChar (b.toNat % 16)])

def hexValue (c : Char) : Option Nat :=
  if '0' ≤ c ∧ c ≤ '9' then some (c.toNat - '0'.toNat)
  else if 'a' ≤ c ∧ c ≤ 'f' then some (c.toNat - 'a'.toNat + 10)
  else if 'A' ≤ c ∧ c ≤ 'F' then some (c.toNat - 'A'.toNat + 10)
  else none

def ofHexDigits : List Char → Option Bytes
  | [] => some []
  | [_] => none
  | high :: low :: rest => do
    let h ← hexValue high
    let l ← hexValue low
    let bytes ← ofHexDigits rest
    return UInt8.ofNat (16 * h + l) :: bytes

def ofHex? (text : String) : Option Bytes := ofHexDigits text.toList

/-- The number that bytes spell with the least significant byte first. -/
def littleEndian : Bytes → Nat
  | [] => 0
  | b :: rest => b.toNat + 256 * littleEndian rest

/-- The last `count` bytes of a number, least significant first. -/
def ofLittleEndian (count : Nat) (n : Nat) : Bytes :=
  match count with
  | 0 => []
  | count + 1 => UInt8.ofNat n :: ofLittleEndian count (n / 256)

theorem length_ofLittleEndian (count n : Nat) : (ofLittleEndian count n).length = count := by
  induction count generalizing n with
  | zero => rfl
  | succ count ih => simp [ofLittleEndian, ih]

end Bytes
end SessionAttributes
