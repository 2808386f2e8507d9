import SessionAttributes.Immutability
import SessionAttributes.Index

namespace SessionAttributes

structure View (V : Type) where
  session : SessionId
  /-- Whether the view raises the callbacks itself, because its attribute store raises no events. -/
  notifies : Bool
  immutability : Immutability V

namespace View

variable {V : Type}

def inspect : Procedure V (ViewState V) := do
  let state ← Procedure.ask .lock
  Procedure.ask (.unlock state)
  return state

def names : Procedure V (List String) := do
  return (← inspect).bundle.names.keys

def snapshot : Procedure V (Bundle V) := do
  return (← inspect).bundle

/-- The value bound to a name. The first read of an attribute raises its activation. -/
def get (w : View V) (name : String) : Procedure V (Option V) := do
  let state ← Procedure.ask .lock
  match state.bundle.attributeId? name, state.bundle.get? name with
  | some id, some value =>
    if w.notifies && !state.activated.contains id then
      Procedure.ask (.unlock { state with activated := id :: state.activated })
      Procedure.ask (.notify .activate value)
      return some value
    else
      Procedure.ask (.unlock state)
      return some value
  | _, _ =>
    Procedure.ask (.unlock state)
    return none

inductive Standing where
  /-- The name is bound to the attribute that was written. -/
  | current
  /-- The name was free and still is. -/
  | free
  /-- The name was removed or bound anew meanwhile. -/
  | superseded
deriving DecidableEq

def standing (before now : Option AttributeId) (id : AttributeId) : Standing :=
  if now = some id then .current
  else if before = none ∧ now = none then .free
  else .superseded

/-- Stores an attribute under a name and answers with the earlier value. Under the lock the name
reaches the stored names only after its entry is stored; a write that was superseded takes its
entry back. -/
def commit [BEq V] (w : View V) (name : String) (value : V) (before : Option AttributeId)
    (previous : Option V) (id : AttributeId) : Attempt V (Option V) := do
  let state ← Attempt.ask .lock
  let finish (bundle : Bundle V) : Attempt V (Option V) := do
    let activated := if w.notifies then id :: state.activated.filter (· != id) else state.activated
    Attempt.ask (.unlock { bundle := bundle.setValue id value, activated })
    return bundle.value? id
  match standing before (state.bundle.attributeId? name) id with
  | .current => finish state.bundle
  | .superseded =>
    Index.discardEntry w.session id
    Attempt.ask (.unlock state)
    return previous
  | .free =>
    try
      match ← Index.bind w.session state.bundle.names name id with
      | some replaced => Index.discardEntry w.session replaced
      | none => pure ()
    catch fault =>
      Index.discardEntry w.session id
      Attempt.ask (.unlock state)
      throw fault
    finish (state.bundle.bindName name id)

/-- Binds a value to a name and writes it back. Answers with the earlier value. Binding an equal
value again is skipped if the policy takes it for immutable. -/
def set [BEq V] (w : View V) (name : String) (value : V) : Attempt V (Option V) := do
  let bytes ← Attempt.encode value
  let state ← ExceptT.lift inspect
  let previous := state.bundle.get? name
  if previous == some value && w.immutability value then
    Attempt.record .attributeWriteSkipped
    return previous
  let before := state.bundle.attributeId? name
  let id ← match before with
    | some id => pure id
    | none => Attempt.ask .draw
  if w.notifies then
    Attempt.ask (.notify .passivate value)
  Index.saveEntry w.session id bytes
  Attempt.record .attributeWritten
  w.commit name value before previous id

/-- Changes the value bound to a name and writes it back. Answers whether the name was bound. -/
def update [BEq V] (w : View V) (name : String) (change : V → V) : Attempt V Bool := do
  match (← ExceptT.lift inspect).bundle.get? name with
  | none => return false
  | some value =>
    let _ ← w.set name (change value)
    return true

/-- Unbinds a name and deletes its entry. Answers with the earlier value. -/
def remove (w : View V) (name : String) : Attempt V (Option V) := do
  let state ← Attempt.ask .lock
  match state.bundle.attributeId? name with
  | none =>
    Attempt.ask (.unlock state)
    return none
  | some id =>
    try
      Index.unbind w.session state.bundle.names name
    catch fault =>
      Attempt.ask (.unlock state)
      throw fault
    Attempt.ask (.unlock {
      bundle := (state.bundle.dropName name).dropValue id
      activated := state.activated.filter (· != id) })
    Index.removeEntry w.session id
    return state.bundle.value? id

end View
end SessionAttributes
