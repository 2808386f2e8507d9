import SessionAttributes.Session
import SessionAttributes.World.Call

namespace SessionAttributes.World

variable {V σ : Type}

/-- Starts a factory: it listens to the stores from now on. Answers with its number. -/
def openFactory (w : World V σ) (options : FactoryOptions) (immutability : Immutability V)
    (context : String) (counts : Bool) : Except SessionError (Nat × World V σ) := do
  options.validate
  let executor ← Executor.spawn options.workers
  let number := w.factories.length
  let (metadata, metadataListeners) := w.metadata.listeners.register (.factory number)
  let (names, namesListeners) := w.names.listeners.register (.factory number)
  let (attributes, attributesListeners) :=
    if w.attributes.store.persistent then (none, w.attributes.listeners)
    else
      let (registration, listeners) := w.attributes.listeners.register (.factory number)
      (some registration, listeners)
  let factory : Factory V := {
    isOpen := true, immutability, context, executor
    metrics := if counts then some {} else none
    subscriptions := ⟨metadata, names, attributes⟩ }
  return (number, { w with
    metadata := { w.metadata with listeners := metadataListeners }
    names := { w.names with listeners := namesListeners }
    attributes := { w.attributes with listeners := attributesListeners }
    factories := w.factories ++ [factory] })

/-- Takes the listeners of a factory out of the stores. -/
def unsubscribe (w : World V σ) (s : Subscriptions) : World V σ :=
  { w with
    metadata := { w.metadata with listeners := w.metadata.listeners.unlink s.metadata.id }
    names := { w.names with listeners := w.names.listeners.unlink s.names.id }
    attributes := match s.attributes with
      | none => w.attributes
      | some r => { w.attributes with listeners := w.attributes.listeners.unlink r.id } }

/-- Ends a factory: it stops listening, and its workers leave when what they accepted is done. -/
def closeFactory (worker : Surroundings V σ) (w : World V σ) (number : Nat) : World V σ :=
  match w.factory? number with
  | none => w
  | some f =>
    if !f.isOpen then w
    else
      let w := (w.unsubscribe f.subscriptions).changeFactory number fun f =>
        { f with isOpen := false, executor := f.executor.stopAccepting }
      (w.runTasks worker number).changeFactory number fun f =>
        { f with executor := f.executor.join }

/-- Hands out a view over a bundle. It raises callbacks itself if the attribute store is
persistent. -/
def openView (w : World V σ) (number : Nat) (session : SessionId) (bundle : Bundle V)
    (metadata : Metadata) (context : String) : Except SessionError (Nat × World V σ) :=
  match w.factory? number with
  | none => .error .factoryClosed
  | some f =>
    if !f.isOpen then .error .factoryClosed
    else
      let notifies := w.attributes.store.persistent
      let notifier : Notifier V := ⟨⟨session, some metadata, some bundle⟩, context, false⟩
      let live : LiveView V := {
        view := ⟨session, notifies, f.immutability⟩
        factory := number
        state := ⟨bundle, []⟩
        locked := false
        notifier := if notifies then some notifier else none }
      .ok (w.views.length, { w with views := w.views ++ [live] })

def closeView (w : World V σ) (number : Nat) : World V σ :=
  w.changeView number fun v =>
    { v with notifier := v.notifier.map fun n => { n with isClosed := true } }

/-- Who carries out a procedure: a factory, on behalf of one of its views or not. -/
structure Actor where
  factory : Nat
  view : Option Nat

def notifyView (env : Surroundings V σ) (w : World V σ) (number : Nat) (direction : Direction)
    (value : V) : World V σ :=
  match w.view? number with
  | none => w
  | some live =>
    match live.notifier with
    | none => w
    | some n =>
      if n.isClosed then w
      else w.raise env ⟨live.factory, direction, n.session, n.context, value⟩

def perform (env : Surroundings V σ) (actor : Actor) (action : Action V) (w : World V σ) :
    action.Answer × World V σ :=
  match action with
  | .isOpen => (((w.factory? actor.factory).map Factory.isOpen).getD false, w)
  | .encode value => env.encode value w
  | .decode bytes => env.decode bytes w
  | .names call => w.callNames env call
  | .attributes call => w.callAttributes env call
  | .draw => (env.draw w.drawn, { w with drawn := w.drawn + 1 })
  | .lock =>
    let state := (actor.view.bind w.view?).map LiveView.state
    (state.getD ⟨Bundle.empty, []⟩,
      match actor.view with
      | none => w
      | some number => w.changeView number fun v => { v with locked := true })
  | .unlock state =>
    ((), match actor.view with
      | none => w
      | some number => w.changeView number fun v => { v with state, locked := false })
  | .record measure => ((), w.record actor.factory measure)
  | .notify direction value =>
    ((), match actor.view with
      | none => w
      | some number => w.notifyView env number direction value)

def carryOut {α : Type} (env : Surroundings V σ) (actor : Actor) (p : Procedure V α)
    (w : World V σ) : α × World V σ :=
  p.runWith (perform env actor) w

end SessionAttributes.World
