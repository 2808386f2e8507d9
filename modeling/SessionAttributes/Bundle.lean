import SessionAttributes.Identifier

namespace SessionAttributes

/-- The decoded attributes of one session. -/
structure Bundle (V : Type) where
  names : Names
  values : List (AttributeId × V)

namespace Bundle

variable {V : Type}

def empty : Bundle V := ⟨Dict.empty, []⟩

instance : Inhabited (Bundle V) := ⟨empty⟩

def value? (b : Bundle V) (id : AttributeId) : Option V := b.values.lookup id

def attributeId? (b : Bundle V) (name : String) : Option AttributeId := b.names.get? name

def get? (b : Bundle V) (name : String) : Option V := do
  let id ← b.attributeId? name
  b.value? id

def size (b : Bundle V) : Nat := b.names.size

def isEmpty (b : Bundle V) : Bool := b.names.isEmpty

def valueCount (b : Bundle V) : Nat := b.values.length

def setValue (b : Bundle V) (id : AttributeId) (value : V) : Bundle V :=
  { b with values := (id, value) :: b.values.filter fun e => e.1 != id }

def dropValue (b : Bundle V) (id : AttributeId) : Bundle V :=
  { b with values := b.values.filter fun e => e.1 != id }

def bindName (b : Bundle V) (name : String) (id : AttributeId) : Bundle V :=
  { b with names := b.names.insert name id }

def dropName (b : Bundle V) (name : String) : Bundle V :=
  { b with names := b.names.erase name }

def equal [BEq V] (a b : Bundle V) : Bool :=
  a.names == b.names && a.values.length == b.values.length &&
    a.values.all fun e => b.value? e.1 == some e.2

def listing (b : Bundle V) : List (String × AttributeId × Option V) :=
  b.names.entries.map fun e => (e.1, e.2, b.value? e.2)

end Bundle
end SessionAttributes
