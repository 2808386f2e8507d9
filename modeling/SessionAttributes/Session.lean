import SessionAttributes.Index

namespace SessionAttributes.Session

variable {V : Type}

/-- Decodes the entry of each identifier. Nothing if one is missing or does not decode. An entry is
used up by the first name that refers to it. -/
def decodeEntries (session : SessionId) :
    List AttributeId → List (AttributeKey × Bytes) → List (AttributeId × V) →
      Attempt V (Option (List (AttributeId × V)))
  | [], _, values => return some values
  | id :: rest, entries, values =>
    let key : AttributeKey := ⟨session, id⟩
    match entries.lookup key with
    | none => return none
    | some bytes => do
      match ← Attempt.ask (.decode bytes) with
      | .error _ => return none
      | .ok value => decodeEntries session rest (Shard.without key entries) ((id, value) :: values)

/-- Deletes the names of a session and then every entry they referred to. -/
def delete (session : SessionId) (deletion : Deletion) : Attempt V Bool := do
  Attempt.ensureOpen
  match ← Index.take session with
  | none => pure ()
  | some names => Index.removeEntries session deletion.mode names.values
  Attempt.record (.sessionDeleted deletion.isSilent)
  return true

/-- Deletes a session. Listeners hear of each entry. -/
def remove (session : SessionId) : Attempt V Bool := delete session .remove

/-- Deletes a session without telling the listeners of its attribute entries. -/
def purge (session : SessionId) : Attempt V Bool := delete session .purge

/-- Loads the attributes of a session. A session with an attribute that is missing or does not
decode is absent as a whole, and what is left of it is purged if `repair` says so. -/
def load (session : SessionId) (repair : Bool) : Attempt V (Option (Bundle V)) := do
  Attempt.ensureOpen
  match ← Index.load session with
  | none =>
    Attempt.record (.sessionLoaded 0)
    return some Bundle.empty
  | some names =>
    let entries ← Index.loadEntries session names
    match ← decodeEntries session names.values entries [] with
    | some values =>
      Attempt.record (.sessionLoaded names.size)
      return some ⟨names, values⟩
    | none =>
      Attempt.record .sessionCorrupt
      if repair then
        let _ ← purge session
      return none

def find (session : SessionId) : Attempt V (Option (Bundle V)) := load session true

def peek (session : SessionId) : Attempt V (Option (Bundle V)) := load session false

end SessionAttributes.Session
