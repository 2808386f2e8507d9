namespace SessionAttributes

/-- The active entries, most recently used first, and the passivated ones. -/
structure Shard (K V : Type) where
  active : List (K × V)
  passivated : List (K × V)

namespace Shard

variable {K V : Type} [DecidableEq K]

def empty : Shard K V := ⟨[], []⟩

instance : Inhabited (Shard K V) := ⟨empty⟩

def without (key : K) (entries : List (K × V)) : List (K × V) :=
  entries.filter fun e => e.1 != key

def isActive (s : Shard K V) (key : K) : Bool := s.active.any fun e => e.1 == key

def isPassivated (s : Shard K V) (key : K) : Bool := s.passivated.any fun e => e.1 == key

def find? (s : Shard K V) (key : K) : Option V :=
  (s.active.lookup key).or (s.passivated.lookup key)

def size (s : Shard K V) : Nat := s.active.length + s.passivated.length

def erase (s : Shard K V) (key : K) : Shard K V :=
  ⟨without key s.active, without key s.passivated⟩

/-- The entry that has to make room for a key: the least recently used one of a full shard. -/
def displaced (limit : Option Nat) (s : Shard K V) (key : K) : Option (K × V) :=
  match limit with
  | none => none
  | some most => if most ≤ s.active.length ∧ !s.isActive key then s.active.getLast? else none

/-- Makes an entry the most recently used one. The entry that made room is passivated. -/
def accept (limit : Option Nat) (s : Shard K V) (key : K) (value : V) :
    Shard K V × Option (K × V) :=
  match s.displaced limit key with
  | none => (⟨(key, value) :: without key s.active, s.passivated⟩, none)
  | some old =>
    (⟨(key, value) :: without key s.active.dropLast, old :: without old.1 s.passivated⟩, some old)

def passivate (s : Shard K V) (key : K) (value : V) : Shard K V :=
  ⟨without key s.active, (key, value) :: without key s.passivated⟩

end Shard
end SessionAttributes
