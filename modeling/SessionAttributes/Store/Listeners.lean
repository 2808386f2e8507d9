namespace SessionAttributes

structure Registration where
  id : Nat
  isClosed : Bool
deriving DecidableEq, Repr

structure Listeners (L : Type) where
  nextId : Nat
  entries : List (Nat × L)

namespace Listeners

variable {L : Type}

def empty : Listeners L := ⟨1, []⟩

instance : Inhabited (Listeners L) := ⟨empty⟩

def register (s : Listeners L) (listener : L) : Registration × Listeners L :=
  (⟨s.nextId, false⟩, ⟨s.nextId + 1, s.entries ++ [(s.nextId, listener)]⟩)

def unlink (s : Listeners L) (id : Nat) : Listeners L :=
  { s with entries := s.entries.filter fun e => e.1 != id }

def count (s : Listeners L) : Nat := s.entries.length

/-- The listeners that an announcement made now reaches, whatever is closed meanwhile. -/
def snapshot (s : Listeners L) : List L := s.entries.map Prod.snd

end Listeners

/-- Closes a handle. A handle that is closed, or whose set is gone, changes no set. -/
def Registration.close {L : Type} (r : Registration) (set : Option (Listeners L)) :
    Registration × Option (Listeners L) :=
  if r.isClosed then (r, set) else ({ r with isClosed := true }, set.map (·.unlink r.id))

end SessionAttributes
