import SessionAttributes.Json.Printer
import SessionAttributes.Text.Quoted

namespace SessionAttributes

inductive Found where
  | integer (n : Int)
  | real (x : Binary64)
  | boolean (b : Bool)
  | string (s : String)
  | null
  | sequence
  | map

def Found.text (style : Decimal.Style) : Found → String
  | .integer n => "integer " ++ Text.ticked (toString n)
  | .real x => "floating point " ++ Text.ticked (Decimal.write style x)
  | .boolean b => "boolean " ++ Text.ticked (toString b)
  | .string s => "string " ++ Text.quoted s
  | .null => "null"
  | .sequence => "sequence"
  | .map => "map"

inductive Mismatch where
  | kind (found : Found) (expected : String)
  | value (found : Found) (expected : String)
  | unknownField (name : String) (known : List String)
  | duplicateField (name : String)

def alternatives : List String → String
  | [a, b] => Text.ticked a ++ " or " ++ Text.ticked b
  | names => "one of " ++ ", ".intercalate (names.map Text.ticked)

def Mismatch.message (style : Decimal.Style) : Mismatch → String
  | .kind found expected => "invalid type: " ++ found.text style ++ ", expected " ++ expected
  | .value found expected => "invalid value: " ++ found.text style ++ ", expected " ++ expected
  | .unknownField name known =>
    "unknown field " ++ Text.ticked name ++ ", expected " ++ alternatives known
  | .duplicateField name => "duplicate field " ++ Text.ticked name

inductive Json.Fault where
  | eofInList
  | eofInObject
  | eofInString
  | eofInValue
  | expectedColon
  | expectedListEnd
  | expectedObjectEnd
  | expectedIdent
  | expectedValue
  | invalidEscape
  | invalidNumber
  | numberOutOfRange
  | invalidCodePoint
  | controlCharacter
  | keyNotString
  | loneSurrogate
  | trailingComma
  | trailingCharacters
  | hexEscapeEnd
  | tooDeep
  | mismatch (m : Mismatch)

def Json.Fault.message : Json.Fault → String
  | .eofInList => "EOF while parsing a list"
  | .eofInObject => "EOF while parsing an object"
  | .eofInString => "EOF while parsing a string"
  | .eofInValue => "EOF while parsing a value"
  | .expectedColon => "expected `:`"
  | .expectedListEnd => "expected `,` or `]`"
  | .expectedObjectEnd => "expected `,` or `\x7d`"
  | .expectedIdent => "expected ident"
  | .expectedValue => "expected value"
  | .invalidEscape => "invalid escape"
  | .invalidNumber => "invalid number"
  | .numberOutOfRange => "number out of range"
  | .invalidCodePoint => "invalid unicode code point"
  | .controlCharacter => "control character (\\u0000-\\u001F) found while parsing a string"
  | .keyNotString => "key must be a string"
  | .loneSurrogate => "lone leading surrogate in hex escape"
  | .trailingComma => "trailing comma"
  | .trailingCharacters => "trailing characters"
  | .hexEscapeEnd => "unexpected end of hex escape"
  | .tooDeep => "recursion limit exceeded"
  | .mismatch m => m.message numberStyle

/-- A position in a text: the line, and how many bytes of it were read. -/
structure Json.Place where
  line : Nat
  column : Nat

def Json.Place.after (bytes : Bytes) : Json.Place :=
  ⟨bytes.count 0x0A + 1, (bytes.reverse.takeWhile (· ≠ 0x0A)).length⟩

structure Json.Refusal where
  fault : Json.Fault
  place : Json.Place

namespace Json.Refusal

def message (r : Json.Refusal) : String := r.fault.message

def text (r : Json.Refusal) : String :=
  r.message ++ " at line " ++ toString r.place.line ++ " column " ++ toString r.place.column

end Json.Refusal

end SessionAttributes
