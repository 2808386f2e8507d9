import SessionAttributes.Executor
import SessionAttributes.FactoryOptions
import SessionAttributes.Frame
import SessionAttributes.Store.Listeners
import SessionAttributes.Metadata
import SessionAttributes.View

namespace SessionAttributes

/-- Who listens to a store: a factory, by its number, or somebody outside. -/
inductive Subscriber where
  | factory (number : Nat)
  | observer (number : Nat)
deriving DecidableEq, Repr

structure Site (K T : Type) where
  store : Store K T
  listeners : Listeners Subscriber

/-- A session as its callbacks describe it. Store events know the identifier only. -/
structure Described (V : Type) where
  session : SessionId
  metadata : Option Metadata
  attributes : Option (Bundle V)

structure Callback (V : Type) where
  factory : Nat
  direction : Direction
  session : Described V
  context : String
  value : V

/-- The registrations of an open factory. It listens to the attribute store only if that store
raises passivation events. -/
structure Subscriptions where
  metadata : Registration
  names : Registration
  attributes : Option Registration

structure Factory (V : Type) where
  isOpen : Bool
  immutability : Immutability V
  context : String
  /-- Absent if nothing is counted. -/
  metrics : Option Metrics
  /-- Evictions that a passivation of names has scheduled. -/
  executor : Executor AttributeKey
  subscriptions : Subscriptions

structure Notifier (V : Type) where
  session : Described V
  context : String
  isClosed : Bool

structure LiveView (V : Type) where
  view : View V
  factory : Nat
  state : ViewState V
  locked : Bool
  notifier : Option (Notifier V)

/-- Everything an operation can reach, and what the surroundings keep for themselves. -/
structure World (V σ : Type) where
  metadata : Site SessionId Metadata
  names : Site SessionId Names
  attributes : Site AttributeKey Bytes
  factories : List (Factory V)
  views : List (LiveView V)
  /-- How many identifiers were drawn. -/
  drawn : Nat
  scene : σ

inductive Request where
  | metadata (call : StoreCall SessionId Metadata)
  | names (call : StoreCall SessionId Names)
  | attributes (call : StoreCall AttributeKey Bytes)

inductive Heard where
  | metadata (event : Event SessionId Metadata)
  | names (event : Event SessionId Names)
  | attributes (event : Event AttributeKey Bytes)

/-- All that a world does not decide itself: calls may fail before they reach their store, values
are turned into bytes and back, identifiers are drawn, and observers and providers are told. -/
structure Surroundings (V σ : Type) where
  before : Request → World V σ → Option SessionError × World V σ
  after : Request → World V σ → World V σ
  encode : V → World V σ → Except SessionError Bytes × World V σ
  decode : Bytes → World V σ → Except SessionError V × World V σ
  draw : Nat → AttributeId
  hear : Nat → Heard → World V σ → World V σ
  callback : Callback V → World V σ → World V σ

namespace Surroundings

def quiet {V σ : Type} (marshaller : Marshaller V) (draw : Nat → AttributeId) :
    Surroundings V σ where
  before _ w := (none, w)
  after _ w := w
  encode v w := (marshaller.write v, w)
  decode bytes w := (marshaller.read bytes, w)
  draw := draw
  hear _ _ w := w
  callback _ w := w

end Surroundings

namespace World

variable {V σ : Type}

def openWith (metadata names attributes : StoreOptions) (scene : σ) :
    Except SessionError (World V σ) := do
  return {
    metadata := ⟨← Store.openWith metadata, Listeners.empty⟩
    names := ⟨← Store.openWith names, Listeners.empty⟩
    attributes := ⟨← Store.openWith attributes, Listeners.empty⟩
    factories := [], views := [], drawn := 0, scene }

def openIn (allowance : Allowance) (metadata names attributes : StoreOptions) (scene : σ) :
    Except Halt (World V σ) := do
  return {
    metadata := ⟨← Store.openIn allowance metadata, Listeners.empty⟩
    names := ⟨← Store.openIn allowance names, Listeners.empty⟩
    attributes := ⟨← Store.openIn allowance attributes, Listeners.empty⟩
    factories := [], views := [], drawn := 0, scene }

def factory? (w : World V σ) (number : Nat) : Option (Factory V) := w.factories[number]?

def view? (w : World V σ) (number : Nat) : Option (LiveView V) := w.views[number]?

def changeFactory (w : World V σ) (number : Nat) (change : Factory V → Factory V) : World V σ :=
  { w with factories := w.factories.modify number change }

def changeView (w : World V σ) (number : Nat) (change : LiveView V → LiveView V) : World V σ :=
  { w with views := w.views.modify number change }

def record (w : World V σ) (number : Nat) (measure : Measure) : World V σ :=
  w.changeFactory number fun f => { f with metrics := f.metrics.map (·.record measure) }

end World
end SessionAttributes
