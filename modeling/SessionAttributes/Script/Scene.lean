import SessionAttributes.Script.IdBlock
import SessionAttributes.Script.Step

namespace SessionAttributes.Script

structure Fault where
  target : Target
  skip : Nat
  count : Nat

structure Hook where
  target : Target
  moment : Moment
  skip : Nat
  steps : List Step

/-- A listener that logs what it hears. The steps for a callback are run inside the first one. -/
structure Observer where
  id : String
  actions : List (String × List Step)

structure Handle where
  store : StoreName
  registration : Registration

structure Provider where
  factory : String
  provides : Bool

structure Scene where
  /-- Events since the last step, newest first. -/
  log : List Json
  /-- Events from workers that are not logged yet, newest first. -/
  workerLog : List Json
  /-- The workers of all factories opened so far. -/
  workers : Nat
  faults : List Fault
  hooks : List Hook
  calls : List (Target × Nat)
  observers : List Observer
  handles : List (String × Handle)
  factories : List (String × Nat)
  /-- The factories that running steps work with, each as often as it is in use. -/
  inUse : List Nat
  /-- Factories that were dropped while in use. -/
  dropped : List Nat
  /-- The last factory opened under each name. -/
  gauges : List (String × Nat)
  providers : List Provider
  views : List (String × Nat)
  bundles : List (String × Option (Bundle Json))
  frozen : List (String × Bundle Json)
  numbers : Site UInt64 String
  /-- Where identifiers are drawn from. -/
  block : IdBlock
  /-- The only store, if the script is about a single one. It goes by the name `store`. -/
  only : Option StoreName

abbrev ScriptWorld := World Json Scene

def bindName {α : Type} (name : String) (value : α) (bindings : List (String × α)) :
    List (String × α) :=
  (name, value) :: bindings.filter (·.1 != name)

def dropName {α : Type} (name : String) (bindings : List (String × α)) : List (String × α) :=
  bindings.filter (·.1 != name)

namespace Shown

def text (s : String) : Json := .string s

def optional {α : Type} (f : α → Json) : Option α → Json
  | none => .null
  | some a => f a

def value (v : Json) : Json := .string v.text

def id (b : IdBlock) (id : AttributeId) : Json := .string (b.label id)

def names (b : IdBlock) (names : Names) : Json :=
  .object (names.entries.map fun e => (e.1, id b e.2))

def seconds (nanos : Int) : Json := Json.ofInt (nanos / Metadata.nanosPerSecond)

def metadata (m : Metadata) : Json :=
  .array [seconds m.created, seconds m.lastAccessed, seconds m.maxInactive]

def isCount (s : String) : Bool := !s.isEmpty && s.all Char.isDigit

/-- A message without the place in a text that it may end in. -/
def withoutPlace (message : String) : String :=
  match (message.splitOn " at line ").reverse with
  | place :: c :: cause =>
    match place.splitOn " column " with
    | [line, column] =>
      if isCount line && isCount column then " at line ".intercalate (c :: cause).reverse
      else message
    | _ => message
  | _ => message

def error (e : SessionError) : Json :=
  .object [("error", .string e.kind), ("message", .string (withoutPlace e.message))]

def halt : Halt → Json
  | .failed e => error e
  | .starved => .object [("error", .string "panic")]

/-- The answer to a step that names something the script does not have. -/
def unusable (what name : String) : Json :=
  .object [("error", .string "Input"), ("message", .string (what ++ " " ++ name))]

def result {α : Type} (f : α → Json) : Except SessionError α → Json
  | .error e => error e
  | .ok a => f a

def bundle (b : IdBlock) (found : Bundle Json) : Json :=
  .object [
    ("attrs", .array (found.listing.map fun (name, i, v) =>
      .array [.string name, id b i, optional value v])),
    ("len", Json.ofNat found.size),
    ("values", Json.ofNat found.valueCount),
    ("empty", .bool found.isEmpty)]

def frozen (b : Bundle Json) : Json :=
  .object [
    ("attrs", .array (b.listing.map fun (name, _, v) => .array [.string name, optional value v])),
    ("len", Json.ofNat b.size),
    ("empty", .bool b.isEmpty),
    ("absent", .null)]

def stats (s : StoreStats) : Json :=
  .object [
    ("active", Json.ofNat s.active),
    ("passivated", Json.ofNat s.passivated),
    ("passivations", Json.ofNat s.passivations),
    ("activations", Json.ofNat s.activations)]

def briefStats (s : StoreStats) : Json :=
  .array [Json.ofNat s.active, Json.ofNat s.passivated, Json.ofNat s.passivations,
    Json.ofNat s.activations]

end Shown

/-- How the keys of a store are shown, given where identifiers are drawn from, and ordered. -/
class ShownKey (K : Type) where
  key : IdBlock → K → Json
  before : K → K → Bool

class ShownValue (T : Type) where
  shown : IdBlock → T → Json

instance : ShownKey SessionId := ⟨fun _ s => .string s, fun a b => a ≤ b⟩

instance : ShownKey UInt64 := ⟨fun _ n => .string (toString n), fun a b => a ≤ b⟩

instance : ShownKey AttributeKey :=
  ⟨fun b k => .array [.string k.session, Shown.id b k.id], AttributeKey.before⟩

instance : ShownValue Metadata := ⟨fun _ m => Shown.metadata m⟩

instance : ShownValue Names := ⟨Shown.names⟩

instance : ShownValue Bytes := ⟨fun _ bytes => .string bytes.hex⟩

instance : ShownValue String := ⟨fun _ s => .string s⟩

def shownEvent {K T : Type} [ShownKey K] [ShownValue T] (b : IdBlock) :
    Event K T → String × List Json
  | .prePassivate k v => ("pre_passivate", [ShownKey.key b k, ShownValue.shown b v])
  | .postPassivate k => ("post_passivate", [ShownKey.key b k])
  | .postActivate k v => ("post_activate", [ShownKey.key b k, ShownValue.shown b v])
  | .modified k v => ("modified", [ShownKey.key b k, ShownValue.shown b v])
  | .removed k => ("removed", [ShownKey.key b k])

def shownAnswer {K T : Type} [ShownKey K] [ShownValue T] (b : IdBlock) :
    (call : StoreCall K T) → call.Answer → Json
  | .get _, v | .put _ _ _, v | .remove _ _, v => Shown.optional (ShownValue.shown b) v
  | .getAll _, found =>
    .array ((found.mergeSort fun x y => ShownKey.before x.1 y.1).map fun e =>
      .array [ShownKey.key b e.1, ShownValue.shown b e.2])
  | .evict _, _ => .null

def directionName : Direction → String
  | .passivate => "will_passivate"
  | .activate => "did_activate"

def shownAttributes (b : Bundle Json) : Json :=
  .object (b.listing.map fun (name, _, v) => (name, Shown.optional Shown.value v))

def shownCallback (factory : String) (c : Callback Json) : Json :=
  .array [.string factory, .string (directionName c.direction), .string c.session.session,
    .string c.context, Shown.value c.value, Shown.optional Shown.metadata c.session.metadata,
    Shown.optional shownAttributes c.session.attributes]

def methodName {K T : Type} : StoreCall K T → String
  | .get _ => "get"
  | .getAll _ => "get_all"
  | .put _ _ _ => "put"
  | .remove _ _ => "remove"
  | .evict _ => "evict"

namespace Scene

def init (only : Option StoreName) (numbers : Store UInt64 String) (block : IdBlock) : Scene :=
  { log := [], workerLog := [], workers := 0, faults := [], hooks := [], calls := []
    observers := [], handles := [], factories := [], inUse := [], dropped := [], gauges := []
    providers := [], views := [], bundles := [], frozen := []
    numbers := ⟨numbers, Listeners.empty⟩, block, only }

def storeText (s : Scene) (name : StoreName) : String :=
  match s.only with
  | some _ => "store"
  | none => name.text

def write (s : Scene) (onWorker : Bool) (event : Json) : Scene :=
  if onWorker then { s with workerLog := event :: s.workerLog }
  else { s with log := event :: s.log }

/-- Moves the events from workers to the log: in order if there is one worker, otherwise sorted by
their text. -/
def flush (s : Scene) : Scene :=
  let events := s.workerLog.reverse
  let sorted := if s.workers ≤ 1 then events else events.mergeSort fun a b => a.text ≤ b.text
  { s with log := sorted.reverse ++ s.log, workerLog := [] }

def countCall (s : Scene) (target : Target) : Scene :=
  { s with calls := (target, ((s.calls.lookup target).getD 0) + 1) ::
      s.calls.filter (·.1 != target) }

/-- Looks for a failure of a call. Failures that are passed over come closer. -/
def meetFault (target : Target) : List Fault → Bool × List Fault
  | [] => (false, [])
  | f :: rest =>
    if f.target = target then
      if f.skip ≠ 0 then
        let (failed, rest) := meetFault target rest
        (failed, { f with skip := f.skip - 1 } :: rest)
      else if f.count ≠ 0 then (true, { f with count := f.count - 1 } :: rest)
      else
        let (failed, rest) := meetFault target rest
        (failed, f :: rest)
    else
      let (failed, rest) := meetFault target rest
      (failed, f :: rest)

def fails (s : Scene) (target : Target) : Bool × Scene :=
  let (failed, faults) := meetFault target s.faults
  (failed, { s with faults })

/-- Takes the steps of the first hook for a call, unless it still waits. -/
def meetHook (target : Target) (moment : Moment) : List Hook → List Step × List Hook
  | [] => ([], [])
  | h :: rest =>
    if h.target = target ∧ h.moment = moment then
      if h.skip ≠ 0 then ([], { h with skip := h.skip - 1 } :: rest) else (h.steps, rest)
    else
      let (steps, rest) := meetHook target moment rest
      (steps, h :: rest)

def takeHook (s : Scene) (target : Target) (moment : Moment) : List Step × Scene :=
  let (steps, hooks) := meetHook target moment s.hooks
  (steps, { s with hooks })

/-- Takes the steps that an observer has prepared for a callback. -/
def takeAction (s : Scene) (number : Nat) (callback : String) : List Step × Scene :=
  match s.observers[number]? with
  | none => ([], s)
  | some o =>
    (((o.actions.lookup callback).getD []),
      { s with observers :=
          s.observers.set number ⟨o.id, dropName callback o.actions⟩ })

end Scene
end SessionAttributes.Script
