import SessionAttributes.Bundle
import SessionAttributes.Metrics
import SessionAttributes.Store.Basic

namespace SessionAttributes

structure ViewState (V : Type) where
  bundle : Bundle V
  /-- Attributes whose activation this view has announced. -/
  activated : List AttributeId

inductive Action (V : Type) where
  /-- Whether the factory is open. -/
  | isOpen
  | encode (value : V)
  | decode (bytes : Bytes)
  | names (call : StoreCall SessionId Names)
  | attributes (call : StoreCall AttributeKey Bytes)
  /-- A fresh identifier. -/
  | draw
  /-- Takes the lock of the view and reads what it guards. -/
  | lock
  /-- Writes what the lock guards and gives it back. -/
  | unlock (state : ViewState V)
  | record (measure : Measure)
  /-- Raises a callback of the view, unless the view was closed. -/
  | notify (direction : Direction) (value : V)

def Action.Answer {V : Type} : Action V → Type
  | .isOpen => Bool
  | .encode _ => Except SessionError Bytes
  | .decode _ => Except SessionError V
  | .names call => Except SessionError call.Answer
  | .attributes call => Except SessionError call.Answer
  | .draw => AttributeId
  | .lock => ViewState V
  | .unlock _ | .record _ | .notify _ _ => Unit

/-- A tree of the actions that an operation asks of its surroundings, one after the other. Between
two actions anything else may happen. -/
inductive Procedure (V : Type) (α : Type) where
  | done (result : α)
  | act (action : Action V) (next : action.Answer → Procedure V α)

namespace Procedure

variable {V α β : Type}

def bind : Procedure V α → (α → Procedure V β) → Procedure V β
  | .done a, f => f a
  | .act action next, f => .act action fun answer => (next answer).bind f

instance : Monad (Procedure V) where
  pure := .done
  bind := bind

def ask (action : Action V) : Procedure V action.Answer := .act action .done

def runWith {σ : Type} (handle : (action : Action V) → σ → action.Answer × σ) :
    Procedure V α → σ → α × σ
  | .done a, s => (a, s)
  | .act action next, s =>
    let (answer, s) := handle action s
    (next answer).runWith handle s

end Procedure

abbrev Attempt (V α : Type) := ExceptT SessionError (Procedure V) α

namespace Attempt

variable {V : Type}

def encode (value : V) : Attempt V Bytes := ExceptT.mk (Procedure.ask (.encode value))

def names (call : StoreCall SessionId Names) : Attempt V call.Answer :=
  ExceptT.mk (Procedure.ask (.names call))

def attributes (call : StoreCall AttributeKey Bytes) : Attempt V call.Answer :=
  ExceptT.mk (Procedure.ask (.attributes call))

def ask (action : Action V) : Attempt V action.Answer := ExceptT.lift (Procedure.ask action)

def record (measure : Measure) : Attempt V Unit := ask (.record measure)

def ensureOpen : Attempt V Unit := do
  let isOpen : Bool ← ask .isOpen
  if isOpen then return () else throw .factoryClosed

end Attempt
end SessionAttributes
