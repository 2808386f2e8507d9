import SessionAttributes.Identifier

namespace SessionAttributes.Script

/-- A block of identifiers: all that start with the same 88 bits. -/
structure IdBlock where
  lead : Nat
deriving DecidableEq, Repr

namespace IdBlock

def size : Nat := 0x10000000000

def contains (b : IdBlock) (id : AttributeId) : Bool := id.bits.toNat / size == b.lead

def first : IdBlock := ⟨0x5EED10C5AB1E4D0C8A1100⟩

def candidates (count : Nat) : List IdBlock :=
  (List.range count).map fun n => ⟨first.lead + n⟩

/-- A block without any of the given identifiers. Each of them lies in one block only. -/
def avoiding (ids : List AttributeId) : IdBlock :=
  ((candidates (ids.length + 1)).find? fun b => !ids.any b.contains).getD first

def draw (b : IdBlock) (n : Nat) : AttributeId := .ofNat (b.lead * size + n)

/-- Drawn identifiers are shown by number, in the order in which they are drawn. -/
def label (b : IdBlock) (id : AttributeId) : String :=
  if b.contains id then "#" ++ toString (id.bits.toNat % size + 1) else id.text

def ofLabel? (b : IdBlock) (s : String) : Option AttributeId :=
  match s.toList with
  | '#' :: digits => (String.ofList digits).toNat?.map fun n => b.draw (n - 1)
  | _ => AttributeId.ofText? s

end IdBlock
end SessionAttributes.Script
