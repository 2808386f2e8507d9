import SessionAttributes.Crc32
import SessionAttributes.Error
import SessionAttributes.Json.Reader

namespace SessionAttributes

structure Marshaller (V : Type) where
  write : V → Except SessionError Bytes
  read : Bytes → Except SessionError V

namespace Frame

def checksumLength : Nat := 4

def header (payload : Bytes) : Bytes :=
  Bytes.ofLittleEndian checksumLength (Crc32.checksum payload).toNat

/-- A payload behind a checksum of four bytes, least significant first. -/
def wrap (payload : Bytes) : Bytes := header payload ++ payload

inductive Fault where
  | short (length : Nat)
  | checksum (stored computed : UInt32)
  | payload (refusal : Json.Refusal)

def hex32 (n : UInt32) : String :=
  "0x" ++ Bytes.hex (Bytes.ofLittleEndian 4 n.toNat).reverse

def Fault.message : Fault → String
  | .short length => "payload of " ++ toString length ++ " bytes is shorter than its checksum"
  | .checksum stored computed =>
    "checksum mismatch: stored " ++ hex32 stored ++ ", computed " ++ hex32 computed
  | .payload refusal => refusal.text

def unwrap (frame : Bytes) : Except Fault Bytes :=
  if frame.length < checksumLength then .error (.short frame.length)
  else
    let stored := UInt32.ofNat (Bytes.littleEndian (frame.take checksumLength))
    let payload := frame.drop checksumLength
    let computed := Crc32.checksum payload
    if stored = computed then .ok payload else .error (.checksum stored computed)

def readWith {α : Type} (read : Bytes → Except Json.Refusal α) (frame : Bytes) :
    Except SessionError α :=
  match unwrap frame with
  | .error fault => .error (.decode fault.message)
  | .ok payload =>
    match read payload with
    | .error refusal => .error (.decode (Fault.payload refusal).message)
    | .ok v => .ok v

def write (v : Json) : Bytes := wrap v.write

def read (frame : Bytes) : Except SessionError Json := readWith Json.read frame

def marshaller : Marshaller Json := ⟨fun v => .ok (write v), read⟩

end Frame
end SessionAttributes
