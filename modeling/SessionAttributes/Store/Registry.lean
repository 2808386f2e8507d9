import SessionAttributes.Store.Listeners

namespace SessionAttributes

/-- The handle of a registration. Its action, until it is taken, holds the listener and the id of
the entry to take out. -/
structure Registry.Handle (L : Type) where
  action : Option (Nat × L)

/-- A set of listeners, and all who hold a listener. The set refers to its listeners weakly, and a
weak reference alone keeps nobody alive. -/
structure Registry (L : Type) where
  /-- The set, unless it was dropped. The listeners in its entries are weak references. -/
  set : Option (Listeners L)
  /-- The handles in the order of their registrations. One that was dropped is absent. -/
  handles : List (Option (Registry.Handle L))
  /-- References of others, who have nothing to do with the set. -/
  held : List L

namespace Registry

variable {L : Type}

def empty : Registry L := ⟨some Listeners.empty, [], []⟩

instance : Inhabited (Registry L) := ⟨empty⟩

def Handle.isClosed (h : Handle L) : Bool := h.action.isNone

def handle? (r : Registry L) (number : Nat) : Option (Handle L) := r.handles[number]?.join

def actions (r : Registry L) : List (Nat × L) := r.handles.filterMap fun h => h.bind Handle.action

/-- Adds a listener to the set. The handle holds it from now on. -/
def register (r : Registry L) (listener : L) : Registry L :=
  match r.set with
  | none => r
  | some set =>
    let (registration, set) := set.register listener
    { r with set := some set, handles := r.handles ++ [some ⟨some (registration.id, listener)⟩] }

/-- Takes the action of a handle and carries it out: the entry leaves the set, if that is still
there, and the listener is let go. -/
def close (r : Registry L) (number : Nat) : Registry L :=
  match (r.handle? number).bind Handle.action with
  | none => r
  | some (id, _) =>
    { r with set := r.set.map (·.unlink id), handles := r.handles.set number (some ⟨none⟩) }

def drop (r : Registry L) (number : Nat) : Registry L :=
  let r := r.close number
  { r with handles := r.handles.set number none }

/-- Drops the set itself. Handles stay. -/
def dropSet (r : Registry L) : Registry L := { r with set := none }

section Alive
variable [DecidableEq L]

/-- How many strong references there are to a listener. -/
def strongCount (r : Registry L) (listener : L) : Nat :=
  (r.actions.map Prod.snd).count listener + r.held.count listener

def isAlive (r : Registry L) (listener : L) : Bool := r.strongCount listener != 0

/-- How many entries refer to a listener that is alive. -/
def count (r : Registry L) : Option Nat :=
  r.set.map fun set => set.entries.countP fun e => r.isAlive e.2

/-- The listeners that an announcement reaches: all that are alive. The other entries are taken
out. -/
def announce (r : Registry L) : List L × Registry L :=
  match r.set with
  | none => ([], r)
  | some set =>
    let live : Listeners L := { set with entries := set.entries.filter fun e => r.isAlive e.2 }
    (live.snapshot, { r with set := some live })

end Alive
end Registry
end SessionAttributes
