import SessionAttributes.Script.Scene

namespace SessionAttributes.Script

abbrev ScriptSurroundings := Surroundings Json Scene

def changeScene (w : ScriptWorld) (change : Scene → Scene) : ScriptWorld :=
  { w with scene := change w.scene }

def storeName : Request → StoreName
  | .metadata _ => .metadata
  | .names _ => .names
  | .attributes _ => .attributes

def requestMethod : Request → String
  | .metadata call => methodName call
  | .names call => methodName call
  | .attributes call => methodName call

def target (w : ScriptWorld) (name : StoreName) (method : String) : Target :=
  ⟨w.scene.storeText name, method⟩

def strike (w : ScriptWorld) (target : Target) (error : SessionError) :
    Option SessionError × ScriptWorld :=
  let (failed, scene) := w.scene.fails target
  (if failed then some error else none, { w with scene })

def encode (v : Json) (w : ScriptWorld) : Except SessionError Bytes × ScriptWorld :=
  match strike w ⟨"marshaller", "write"⟩ (.encode "injected") with
  | (some e, w) => (.error e, w)
  | (none, w) => (Frame.marshaller.write v, w)

def decode (bytes : Bytes) (w : ScriptWorld) : Except SessionError Json × ScriptWorld :=
  match strike w ⟨"marshaller", "read"⟩ (.decode "injected") with
  | (some e, w) => (.error e, w)
  | (none, w) => (Frame.marshaller.read bytes, w)

def shownHeard (b : IdBlock) : Heard → String × List Json
  | .metadata event => shownEvent b event
  | .names event => shownEvent b event
  | .attributes event => shownEvent b event

def logHeard (onWorker : Bool) (number : Nat) (shown : String × List Json) (w : ScriptWorld) :
    ScriptWorld :=
  match w.scene.observers[number]? with
  | none => w
  | some o =>
    changeScene w (·.write onWorker (.array (.string o.id :: .string shown.1 :: shown.2)))

def logCallback (onWorker : Bool) (c : Callback Json) (w : ScriptWorld) : ScriptWorld :=
  match w.scene.providers[c.factory]? with
  | some p => if p.provides then changeScene w (·.write onWorker (shownCallback p.factory c)) else w
  | none => w

/-- What workers meet: prepared failures, but neither hooks nor the actions of listeners. -/
def onWorkers (block : IdBlock) : ScriptSurroundings where
  before request w :=
    let target := target w (storeName request) (requestMethod request)
    strike (changeScene w (·.countCall target)) target (.store "injected")
  after _ w := w
  encode := encode
  decode := decode
  draw := block.draw
  hear number heard w := logHeard true number (shownHeard block heard) w
  callback := logCallback true

/-- Waits until the workers of all factories are idle, and logs what they did. -/
def drain (w : ScriptWorld) : ScriptWorld :=
  let workers := onWorkers w.scene.block
  changeScene ((List.range w.factories.length).foldl (fun w n => w.runTasks workers n) w)
    Scene.flush

def closeFactory (w : ScriptWorld) (number : Nat) : ScriptWorld :=
  w.closeFactory (onWorkers w.scene.block) number

/-- Gives up a factory. It is closed at once, or when the last step that works with it ends. -/
def dropFactory (w : ScriptWorld) (number : Nat) : ScriptWorld :=
  if w.scene.inUse.contains number then
    changeScene w fun s => { s with dropped := number :: s.dropped }
  else closeFactory w number

def release (w : ScriptWorld) (number : Nat) : ScriptWorld :=
  let w := changeScene w fun s => { s with inUse := s.inUse.erase number }
  if w.scene.dropped.contains number && !w.scene.inUse.contains number then closeFactory w number
  else w

section Steps

variable (env : ScriptSurroundings)

def numbersPlace : Place ScriptWorld UInt64 String :=
  ⟨fun w => w.scene.numbers, fun w site => { w with scene := { w.scene with numbers := site } }⟩

def sitePlace {K T : Type} (place : Place ScriptWorld K T) (w : ScriptWorld)
    (change : Listeners Subscriber → Listeners Subscriber) : ScriptWorld :=
  let site := place.get w
  place.set w { site with listeners := change site.listeners }

def changeListeners (w : ScriptWorld) (store : StoreName)
    (change : Listeners Subscriber → Listeners Subscriber) : ScriptWorld :=
  match store with
  | .metadata => sitePlace World.metadataPlace w change
  | .names => sitePlace World.namesPlace w change
  | .attributes => sitePlace World.attributesPlace w change
  | .numbers => sitePlace numbersPlace w change

def listenersOf (w : ScriptWorld) : StoreName → Listeners Subscriber
  | .metadata => w.metadata.listeners
  | .names => w.names.listeners
  | .attributes => w.attributes.listeners
  | .numbers => w.scene.numbers.listeners

def closeHandle (w : ScriptWorld) (h : Handle) : Handle × ScriptWorld :=
  let (registration, set) := h.registration.close (some (listenersOf w h.store))
  ({ h with registration },
    match set with
    | none => w
    | some listeners => changeListeners w h.store fun _ => listeners)

def whereIs {K T : Type} [DecidableEq K] [ShardKey K] (s : Store K T) (key : K) : Json :=
  .array [.bool (s.isActive key), .bool (s.isPassivated key), .bool (s.contains key)]

def siteStats {K T : Type} (site : Site K T) : Json :=
  .object [
    ("stats", Shown.stats site.store.stats),
    ("len", Json.ofNat site.store.size),
    ("empty", .bool (site.store.size == 0)),
    ("listeners", Json.ofNat site.listeners.count),
    ("persistent", .bool site.store.persistent)]

def runStoreStep {K T : Type} [DecidableEq K] [ShardKey K] [ShownKey K] [ShownValue T]
    (place : Place ScriptWorld K T)
    (perform : ScriptWorld → (call : StoreCall K T) → Except SessionError call.Answer × ScriptWorld)
    (step : StoreStep K T) (w : ScriptWorld) : Json × ScriptWorld :=
  match step with
  | .call call =>
    let (answer, w) := perform w call
    (Shown.result (shownAnswer w.scene.block call) answer, w)
  | .whereIs key => (whereIs (place.get w).store key, w)
  | .stats => (siteStats (place.get w), w)

/-- Runs steps inside something else and logs their answers under `tag`. -/
def runNested (runStep : Step → ScriptWorld → Json × ScriptWorld) (tag : String)
    (steps : List Step) (w : ScriptWorld) : ScriptWorld :=
  steps.foldl (fun w step =>
    let (r, w) := runStep step (drain w)
    changeScene (drain w) (·.write false (.array [.string tag, r]))) w

def dumpShard {K T : Type} [ShownKey K] (b : IdBlock) (shard : Shard K T) : List Json :=
  shard.active.map (fun e => .array [ShownKey.key b e.1, .string "active"]) ++
    shard.passivated.map fun e => .array [ShownKey.key b e.1, .string "passivated"]

def dumpStore {K T : Type} [ShownKey K] (b : IdBlock) (s : Store K T) : Json :=
  .array ((s.shards.flatMap (dumpShard b)).mergeSort fun x y => x.text ≤ y.text)

def shownStores (w : ScriptWorld) : List StoreName :=
  match w.scene.only with
  | some name => [name]
  | none => [.metadata, .names, .attributes]

def dumpOf (w : ScriptWorld) : StoreName → Json
  | .metadata => dumpStore w.scene.block w.metadata.store
  | .names => dumpStore w.scene.block w.names.store
  | .attributes => dumpStore w.scene.block w.attributes.store
  | .numbers => dumpStore w.scene.block w.scene.numbers.store

def statsOf (w : ScriptWorld) : StoreName → StoreStats
  | .metadata => w.metadata.store.stats
  | .names => w.names.store.stats
  | .attributes => w.attributes.store.stats
  | .numbers => w.scene.numbers.store.stats

def dump (w : ScriptWorld) : Json :=
  .object ((shownStores w).map fun name => (w.scene.storeText name, dumpOf w name))

def takeCalls (w : ScriptWorld) : Json × ScriptWorld :=
  (Json.ofMembers (w.scene.calls.map fun (t, n) => (t.store ++ "." ++ t.method, Json.ofNat n)),
    changeScene w fun s => { s with calls := [] })

/-- Works with a factory. If it is dropped meanwhile, it is closed afterwards. -/
def withFactory (w : ScriptWorld) (name : String)
    (use : Nat → ScriptWorld → Json × ScriptWorld) : Json × ScriptWorld :=
  match w.scene.factories.lookup name with
  | none => (Shown.unusable "factory" name, w)
  | some number =>
    let (r, w) := use number (changeScene w fun s => { s with inUse := number :: s.inUse })
    (r, release w number)

def withView (w : ScriptWorld) (name : String) (use : Nat → LiveView Json → Json × ScriptWorld) :
    Json × ScriptWorld :=
  match w.scene.views.lookup name with
  | none => (Shown.unusable "view" name, w)
  | some number =>
    match w.view? number with
    | none => (Shown.unusable "view" name, w)
    | some live => use number live

def openFactory (w : ScriptWorld) (name : String) (setup : FactorySetup) :
    Except SessionError ScriptWorld := do
  let (number, w) ← w.openFactory setup.options setup.immutability setup.context setup.counts
  let old := w.scene.factories.lookup name
  let w := changeScene w fun s => { s with
    workers := s.workers + setup.options.workers
    providers := s.providers ++ [⟨name, setup.provides⟩]
    factories := bindName name number s.factories
    gauges := bindName name number s.gauges }
  match old with
  | none => return w
  | some number => return dropFactory w number

def metricsOf (w : ScriptWorld) (number : Nat) : Metrics :=
  ((w.factory? number).bind Factory.metrics).getD {}

def carryOut {α : Type} (w : ScriptWorld) (factory : Nat) (p : Attempt Json α) :
    Except SessionError α × ScriptWorld :=
  w.carryOut env ⟨factory, none⟩ p.run

def carryOutView {α : Type} (w : ScriptWorld) (number : Nat) (live : LiveView Json)
    (p : Procedure Json α) : α × ScriptWorld :=
  w.carryOut env ⟨live.factory, some number⟩ p

def slot (w : ScriptWorld) (name : String) : Option (Bundle Json) :=
  (w.scene.bundles.lookup name).getD none

/-- Keeps a bundle that was loaded or none; an error keeps what was there. -/
def keepLoaded (name : String) (r : Except SessionError (Option (Bundle Json)) × ScriptWorld) :
    Json × ScriptWorld :=
  match r with
  | (.error e, w) => (Shown.error e, w)
  | (.ok b, w) =>
    (Shown.optional (Shown.bundle w.scene.block) b,
      changeScene w fun s => { s with bundles := bindName name b s.bundles })

def openView (w : ScriptWorld) (factory : Nat) (session : SessionId) (bundle : Bundle Json)
    (view : String) (metadata : Metadata) (context : String) : Json × ScriptWorld :=
  match w.openView factory session bundle metadata context with
  | .error e => (Shown.error e, w)
  | .ok (number, w) =>
    let w := changeScene w fun s => { s with views := bindName view number s.views }
    let notifies := ((w.view? number).map fun live => live.view.notifies).getD false
    (.object [
      ("id", .string session),
      ("names", .array (bundle.names.keys.map .string)),
      ("notifier", .bool notifies)], w)

def shownBool : Bool → Json := .bool

def runStep (step : Step) (w : ScriptWorld) : Json × ScriptWorld :=
  match step with
  | .metadata step => runStoreStep World.metadataPlace (World.callMetadata env) step w
  | .names step => runStoreStep World.namesPlace (World.callNames env) step w
  | .attributes step => runStoreStep World.attributesPlace (World.callAttributes env) step w
  | .numbers _ => (.null, w)
  | .listen store id actions =>
    let number := w.scene.observers.length
    let (registration, listeners) := (listenersOf w store).register (.observer number)
    let w := changeListeners w store fun _ => listeners
    let old := w.scene.handles.lookup id
    let w := changeScene w fun s => { s with
      observers := s.observers ++ [⟨id, actions⟩]
      handles := bindName id ⟨store, registration⟩ s.handles }
    (.bool old.isSome, match old with
      | none => w
      | some h => (closeHandle w h).2)
  | .unlisten id =>
    match w.scene.handles.lookup id with
    | none => (.null, w)
    | some h =>
      let (closed, w) := closeHandle w h
      (.array [.bool h.registration.isClosed, .bool closed.registration.isClosed],
        changeScene w fun s => { s with handles := bindName id closed s.handles })
  | .dropListener id =>
    match w.scene.handles.lookup id with
    | none => (.bool false, w)
    | some h =>
      (.bool true, changeScene (closeHandle w h).2 fun s =>
        { s with handles := dropName id s.handles })
  | .fault target skip count =>
    (.null, changeScene w fun s => { s with faults := s.faults ++ [⟨target, skip, count⟩] })
  | .hook target moment skip steps =>
    (.null, changeScene w fun s => { s with hooks := s.hooks ++ [⟨target, moment, skip, steps⟩] })
  | .dump => (dump w, w)
  | .calls => takeCalls w
  | .openFactory factory setup =>
    match openFactory w factory setup with
    | .error e => (Shown.error e, w)
    | .ok w => (.bool true, w)
  | .closeFactory factory =>
    withFactory w factory fun number w => (.null, closeFactory w number)
  | .isClosed factory =>
    withFactory w factory fun number w =>
      (.bool (((w.factory? number).map fun f => !f.isOpen).getD true), w)
  | .dropFactory factory =>
    match w.scene.factories.lookup factory with
    | none => (.bool false, w)
    | some number =>
      let w := changeScene w fun s => { s with factories := dropName factory s.factories }
      (.bool true, dropFactory w number)
  | .awaitCascade factory => withFactory w factory fun _ w => (.bool true, drain w)
  | .create factory _ bundle =>
    withFactory w factory fun _ w => keepLoaded bundle (.ok (some Bundle.empty), w)
  | .find factory session bundle =>
    withFactory w factory fun number w =>
      keepLoaded bundle (carryOut env w number (Session.find session))
  | .peek factory session bundle =>
    withFactory w factory fun number w =>
      keepLoaded bundle (carryOut env w number (Session.peek session))
  | .removeSession factory session =>
    withFactory w factory fun number w =>
      let (r, w) := carryOut env w number (Session.remove session)
      (Shown.result shownBool r, w)
  | .purgeSession factory session =>
    withFactory w factory fun number w =>
      let (r, w) := carryOut env w number (Session.purge session)
      (Shown.result shownBool r, w)
  | .metrics factory =>
    (Shown.optional (fun number => (metricsOf w number).toJson) (w.scene.gauges.lookup factory), w)
  | .metricsSink factory =>
    withFactory w factory fun number w =>
      let w := w.record number .sessionCorrupt
      (Json.ofNat (metricsOf w number).sessionsCorrupt, w)
  | .bundle bundle => (Shown.optional (Shown.bundle w.scene.block) (slot w bundle), w)
  | .bundleGet bundle name =>
    let b := (slot w bundle).getD Bundle.empty
    (.array [
      Shown.optional (Shown.id w.scene.block) (b.attributeId? name),
      Shown.optional Shown.value (b.get? name)], w)
  | .bundleEqual bundle other =>
    let a := (slot w bundle).getD Bundle.empty
    let b := (slot w other).getD Bundle.empty
    (.bool (a.equal b), w)
  | .freeze factory bundle frozen =>
    withFactory w factory fun _ w =>
      let b := (slot w bundle).getD Bundle.empty
      (.null, changeScene w fun s => { s with frozen := bindName frozen b s.frozen })
  | .frozen frozen => (Shown.optional Shown.frozen (w.scene.frozen.lookup frozen), w)
  | .openView factory session bundle view metadata context =>
    withFactory w factory fun number w =>
      openView w number session ((slot w bundle).getD Bundle.empty) view metadata context
  | .loadView factory session view metadata context =>
    withFactory w factory fun number w =>
      match carryOut env w number (Session.find session) with
      | (.error e, w) => (Shown.error e, w)
      | (.ok b, w) => openView w number session (b.getD Bundle.empty) view metadata context
  | .viewNames view =>
    withView w view fun number live =>
      let (names, w) := carryOutView env w number live View.names
      (.array (names.map .string), w)
  | .get view name =>
    withView w view fun number live =>
      let (v, w) := carryOutView env w number live (live.view.get name)
      (Shown.optional Shown.value v, w)
  | .set view name value =>
    withView w view fun number live =>
      let (r, w) := carryOutView env w number live (live.view.set name value).run
      (Shown.result (Shown.optional Shown.value) r, w)
  | .remove view name =>
    withView w view fun number live =>
      let (r, w) := carryOutView env w number live (live.view.remove name).run
      (Shown.result (Shown.optional Shown.value) r, w)
  | .update view name change =>
    withView w view fun number live =>
      let (r, w) := carryOutView env w number live (live.view.update name change.apply).run
      (Shown.result shownBool r, w)
  | .snapshot view bundle =>
    withView w view fun number live =>
      let (b, w) := carryOutView env w number live View.snapshot
      keepLoaded bundle (.ok (some b), w)
  | .closeView view => withView w view fun number _ => (.null, w.closeView number)
  | .dropView view =>
    match w.scene.views.lookup view with
    | none => (.bool false, w)
    | some number =>
      (.bool true, changeScene (w.closeView number) fun s =>
        { s with views := dropName view s.views })

end Steps

/-- Counts a call, runs the hook before it and lets a failure strike. -/
def beforeCall (runStep : Step → ScriptWorld → Json × ScriptWorld) (target : Target)
    (w : ScriptWorld) : Option SessionError × ScriptWorld :=
  let (steps, scene) := (w.scene.countCall target).takeHook target .before
  strike (runNested runStep "hook" steps { w with scene }) target (.store "injected")

def afterCall (runStep : Step → ScriptWorld → Json × ScriptWorld) (target : Target)
    (w : ScriptWorld) : ScriptWorld :=
  let (steps, scene) := w.scene.takeHook target .after
  runNested runStep "hook" steps { w with scene }

def hear (runStep : Step → ScriptWorld → Json × ScriptWorld) (number : Nat)
    (shown : String × List Json) (w : ScriptWorld) : ScriptWorld :=
  let w := logHeard false number shown w
  let (steps, scene) := w.scene.takeAction number shown.1
  runNested runStep "on" steps { w with scene }

/-- Calls the store of numbers, which nobody but observers listens to. -/
def callNumbers (runStep : Step → ScriptWorld → Json × ScriptWorld) (w : ScriptWorld)
    (call : StoreCall UInt64 String) : Except SessionError call.Answer × ScriptWorld :=
  let target := target w .numbers (methodName call)
  match beforeCall runStep target w with
  | (some e, w) => (.error e, w)
  | (none, w) =>
    let tell : Place.Tell ScriptWorld UInt64 String
      | .observer number, event, w => hear runStep number (shownEvent w.scene.block event) w
      | .factory _, _, w => w
    let (answer, w) := numbersPlace.serve tell w call
    (.ok answer, afterCall runStep target w)

/-- What steps meet, given how nested steps run. Workers are idle when a call of the names store
returns. -/
def surroundings (block : IdBlock) (runStep : Step → ScriptWorld → Json × ScriptWorld) :
    ScriptSurroundings where
  before request w := beforeCall runStep (target w (storeName request) (requestMethod request)) w
  after request w :=
    let name := storeName request
    afterCall runStep (target w name (requestMethod request)) (if name = .names then drain w else w)
  encode := encode
  decode := decode
  draw := block.draw
  hear number heard w := hear runStep number (shownHeard block heard) w
  callback := logCallback false

/-- Runs a step within which nested lists may stand `depth` deep. -/
def runDeep : Nat → Step → ScriptWorld → Json × ScriptWorld
  | 0, step, w => runStep (onWorkers w.scene.block) step w
  | depth + 1, step, w =>
    match step with
    | .numbers step => runStoreStep numbersPlace (callNumbers (runDeep depth)) step w
    | step => runStep (surroundings w.scene.block (runDeep depth)) step w

/-- The answer to a step: its result, the events it caused and the state of the stores after it. -/
def answer (r : Json) (w : ScriptWorld) : Json :=
  let events := w.scene.log.reverse
  let shown := if events.isEmpty then [] else [("ev", Json.array events)]
  .object ([("r", r)] ++ shown ++
    [("st", .array ((shownStores w).map fun name => Shown.briefStats (statsOf w name)))])

def runAll (depth : Nat) : List Step → ScriptWorld → List Json
  | [], _ => []
  | step :: steps, w =>
    let (r, w) := runDeep depth step w
    let w := drain w
    answer r w :: runAll depth steps (changeScene w fun s => { s with log := [] })

/-- Each nested list runs at most once, so their number bounds how deep they can stand inside one
another. -/
def run (steps : List Step) (w : ScriptWorld) : Json :=
  .array (runAll (nestedIn steps + 1) steps w)

def runOnStore (block : IdBlock) (only : StoreName) (options : StoreOptions) (steps : List Step) :
    Json :=
  let opened : Except Halt ScriptWorld := do
    let numbers ← Store.openIn .addressable options
    World.openIn .addressable options options options (Scene.init (some only) numbers block)
  match opened with
  | .error halt => Shown.halt halt
  | .ok w => run steps w

/-- Runs a script on three stores, with a factory unless there is no setup for one. -/
def runOnSessions (block : IdBlock) (metadata names attributes : StoreOptions)
    (factory : Option FactorySetup) (steps : List Step) : Json :=
  let opened : Except Halt ScriptWorld := do
    let numbers ← Store.openIn .addressable {}
    let w ← World.openIn .addressable metadata names attributes (Scene.init none numbers block)
    match factory with
    | none => return w
    | some setup => (openFactory w "f" setup).mapError .failed
  match opened with
  | .error halt => Shown.halt halt
  | .ok w => run steps w

end SessionAttributes.Script
