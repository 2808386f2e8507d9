import SessionAttributes.Config
import SessionAttributes.World.Operate

namespace SessionAttributes

structure Workload where
  sessions : Nat := 100
  /-- How many attributes each session gets. -/
  attributes : Nat := 4
  /-- The metadata of every session at a multiple of this position is evicted; none if it is
  zero. -/
  evictEvery : Nat := 2
  /-- How many sessions are corrupted, from the first one on. -/
  corrupt : Nat := 1
  /-- How many milliseconds to wait for scheduled evictions. -/
  drainTimeout : Nat := 5000
deriving DecidableEq, Repr

/-- The steps of the workers at each moment, given what waits for them. A moment comes before and
after each call of a store. -/
abbrev Schedule := Nat → Executor AttributeKey → List WorkerStep

namespace Schedule

def eager : Schedule := fun _ executor => executor.remainingSteps

end Schedule

structure Report where
  sessions : Nat
  attributesPerSession : Nat
  evicted : Nat
  /-- Whether no scheduled eviction was left when the wait for them ended. -/
  drained : Bool
  reloaded : Nat
  corrupted : Nat
  removed : Nat
  metrics : Metrics
  metadataStore : StoreStats
  namesStore : StoreStats
  attributeStore : StoreStats
deriving DecidableEq, Repr

namespace Simulation

abbrev SimulatedWorld := World Json Nat

/-- The number of the only factory. -/
def factory : Nat := 0

def pass (schedule : Schedule) (draw : Nat → AttributeId) (w : SimulatedWorld) : SimulatedWorld :=
  let steps := ((w.factory? factory).map fun f => schedule w.scene f.executor).getD []
  let w := w.workerSteps (Surroundings.quiet Frame.marshaller draw) factory steps
  { w with scene := w.scene + 1 }

def surroundings (schedule : Schedule) (draw : Nat → AttributeId) : Surroundings Json Nat :=
  { Surroundings.quiet Frame.marshaller draw with
    before := fun _ w => (none, pass schedule draw w)
    after := fun _ w => pass schedule draw w }

/-- A number with zeros before it, at least five digits wide. -/
def padded (n : Nat) : String :=
  let digits := toString n
  String.ofList (List.replicate (5 - digits.length) '0') ++ digits

def sessionName (n : Nat) : SessionId := "session-" ++ padded n

def attributeName (n : Nat) : String := "attr-" ++ toString n

def attributeValue (n : Nat) : Json :=
  if n % 2 = 0 then .string ("value-" ++ toString n)
  else .object [("items", .array [Json.ofNat n, Json.ofNat (n + 1)])]

def garbage : Bytes := [0, 0, 0, 0] ++ Bytes.ofString "corrupt"

def metadata : Metadata := Metadata.ofSeconds 0 0 1800

section Phases

variable (env : Surroundings Json Nat)

def writeAttribute (view : Nat) (w : SimulatedWorld) (n : Nat) :
    Except SessionError SimulatedWorld := do
  match w.view? view with
  | none => return w
  | some live =>
    let (answer, w) := w.carryOut env ⟨factory, some view⟩
      (live.view.set (attributeName n) (attributeValue n)).run
    let _ ← answer
    return w

def writeSession (attributes : Nat) (w : SimulatedWorld) (session : SessionId) :
    Except SessionError SimulatedWorld := do
  let (answer, w) := w.callMetadata env (.put session metadata .writeOnly)
  let _ ← answer
  let (view, w) ← w.openView factory session Bundle.empty metadata ""
  let w ← (List.range attributes).foldlM (writeAttribute env view) w
  return w.closeView view

def evictSession (w : SimulatedWorld) (session : SessionId) :
    Except SessionError SimulatedWorld := do
  let (answer, w) := w.callMetadata env (.evict session)
  answer
  return w

/-- Overwrites the entry of a session's first attribute, if it has one. -/
def corruptSession (state : Nat × SimulatedWorld) (session : SessionId) :
    Except SessionError (Nat × SimulatedWorld) := do
  let (answer, w) := state.2.callNames env (.get session)
  match (← answer).bind fun names => names.values.head? with
  | none => return (state.1, w)
  | some id =>
    let (answer, w) := w.callAttributes env (.put ⟨session, id⟩ garbage .silent)
    let _ ← answer
    return (state.1 + 1, w)

/-- Loads a session and counts it if it has attributes. -/
def reloadSession (state : Nat × SimulatedWorld) (session : SessionId) :
    Except SessionError (Nat × SimulatedWorld) := do
  let (answer, w) := state.2.carryOut env ⟨factory, none⟩ (Session.find session).run
  let found ← answer
  return (if found.any fun b => !b.isEmpty then state.1 + 1 else state.1, w)

def removeSession (state : Nat × SimulatedWorld) (session : SessionId) :
    Except SessionError (Nat × SimulatedWorld) := do
  let (answer, w) := state.2.carryOut env ⟨factory, none⟩ (Session.remove session).run
  return (if ← answer then state.1 + 1 else state.1, w)

end Phases

def sessionNames (count : Nat) : List SessionId := (List.range count).map sessionName

/-- The names of the sessions whose metadata is evicted. -/
def evictedNames (count every : Nat) : List SessionId :=
  if every = 0 then []
  else ((List.range count).filter fun n => n % every == 0).map sessionName

def runOn (workload : Workload) (schedule : Schedule) (draw : Nat → AttributeId)
    (w : SimulatedWorld) : Except SessionError Report := do
  let env := surroundings schedule draw
  let names := sessionNames workload.sessions
  let evicted := evictedNames workload.sessions workload.evictEvery
  let w ← names.foldlM (writeSession env workload.attributes) w
  let w ← evicted.foldlM (evictSession env) w
  let w := pass schedule draw w
  let drained := ((w.factory? factory).map fun f => f.executor.isIdle).getD true
  let (corrupted, w) ← (names.take workload.corrupt).foldlM (corruptSession env) (0, w)
  let (reloaded, w) ← names.foldlM (reloadSession env) (0, w)
  let (removed, w) ← names.foldlM (removeSession env) (0, w)
  let w := w.closeFactory (Surroundings.quiet Frame.marshaller draw) factory
  return {
    sessions := workload.sessions
    attributesPerSession := workload.attributes
    evicted := evicted.length
    drained, reloaded, corrupted, removed
    metrics := ((w.factory? factory).bind Factory.metrics).getD {}
    metadataStore := w.metadata.store.stats
    namesStore := w.names.store.stats
    attributeStore := w.attributes.store.stats }

/-- Runs a workload from beginning to end. Its sessions are listed before the first one is
written. -/
def run (allowance : Allowance) (config : Config) (workload : Workload) (schedule : Schedule)
    (draw : Nat → AttributeId) : Except Halt Report := do
  let stores := config.stores
  let w ← World.openIn allowance stores.metadata stores.names stores.attributes 0
  allowance.ask (.workers config.factory.workers)
  let (_, w) ← (w.openFactory config.factory Immutability.scalars "" true).mapError .failed
  allowance.ask (.sessions workload.sessions)
  (runOn workload schedule draw w).mapError .failed

end Simulation
end SessionAttributes
