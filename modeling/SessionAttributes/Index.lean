import SessionAttributes.Procedure

namespace SessionAttributes

inductive Deletion where
  /-- Listeners hear of each entry. -/
  | remove
  /-- Listeners hear of the names only. -/
  | purge
deriving DecidableEq, Repr

def Deletion.mode : Deletion → AccessMode
  | .remove => .writeOnly
  | .purge => .silent

def Deletion.isSilent : Deletion → Bool
  | .remove => false
  | .purge => true

namespace Index

variable {V : Type}

def load (session : SessionId) : Attempt V (Option Names) := Attempt.names (.get session)

def save (session : SessionId) (names : Names) : Attempt V Unit := do
  let _ ← Attempt.names (.put session names .writeOnly)

def take (session : SessionId) : Attempt V (Option Names) := Attempt.names (.remove session .normal)

/-- Adds a name to the stored names, or to `known` if none are stored. Answers with the other
attribute that the name was bound to. -/
def bind (session : SessionId) (known : Names) (name : String) (id : AttributeId) :
    Attempt V (Option AttributeId) := do
  let names := (← load session).getD known
  save session (names.insert name id)
  return (names.get? name).filter (· != id)

/-- Drops a name from the stored names, or from `known` if none are stored. -/
def unbind (session : SessionId) (known : Names) (name : String) : Attempt V Unit := do
  let names := (← load session).getD known
  save session (names.erase name)

def saveEntry (session : SessionId) (id : AttributeId) (bytes : Bytes) : Attempt V Unit := do
  let _ ← Attempt.attributes (.put ⟨session, id⟩ bytes .writeOnly)

def removeEntry (session : SessionId) (id : AttributeId) : Attempt V Unit := do
  let _ ← Attempt.attributes (.remove ⟨session, id⟩ .writeOnly)

/-- Deletes an entry that no name refers to any more. A failure leaves the entry behind. -/
def discardEntry (session : SessionId) (id : AttributeId) : Attempt V Unit := do
  try removeEntry session id catch _ => return ()

def loadEntries (session : SessionId) (names : Names) : Attempt V (List (AttributeKey × Bytes)) :=
  Attempt.attributes (.getAll (names.values.map fun id => ⟨session, id⟩))

/-- Deletes entries one after the other, up to the first failure. -/
def removeEntries (session : SessionId) (mode : AccessMode) : List AttributeId → Attempt V Unit
  | [] => return ()
  | id :: rest => do
    let _ ← Attempt.attributes (.remove ⟨session, id⟩ mode)
    removeEntries session mode rest

end Index
end SessionAttributes
