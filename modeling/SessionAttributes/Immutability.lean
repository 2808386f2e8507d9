import SessionAttributes.Json.Basic

namespace SessionAttributes

abbrev Immutability (V : Type) := V → Bool

namespace Immutability

def never {V : Type} : Immutability V := fun _ => false

def always {V : Type} : Immutability V := fun _ => true

def scalars : Immutability Json
  | .array _ | .object _ => false
  | _ => true

def strings : Immutability Json
  | .string _ => true
  | _ => false

end Immutability
end SessionAttributes
