import SessionAttributes.World.Operate

namespace SessionAttributes.Script

/-- The stores that a script may use; `numbers` is a store of its own that sessions do not touch. -/
inductive StoreName where
  | metadata
  | names
  | attributes
  | numbers
deriving DecidableEq, Repr

def StoreName.text : StoreName → String
  | .metadata => "metadata"
  | .names => "names"
  | .attributes => "attributes"
  | .numbers => "numbers"

inductive StoreStep (K T : Type) where
  | call (call : StoreCall K T)
  | whereIs (key : K)
  | stats

inductive Moment where
  | before
  | after
deriving DecidableEq, Repr

/-- What a failure or a hook waits for: a method of a store, by their names. -/
structure Target where
  store : String
  method : String
deriving DecidableEq, Repr

inductive Change where
  | replace (value : Json)
  | push (value : Json)
  | insert (key : String) (value : Json)
  | keep

/-- Changes a value; a change that does not fit its kind keeps it. -/
def Change.apply : Change → Json → Json
  | .replace value, _ => value
  | .push value, .array items => .array (items ++ [value])
  | .insert key value, .object members => .object (Json.insertMember key value members)
  | _, old => old

structure FactorySetup where
  options : FactoryOptions
  counts : Bool
  immutability : Immutability Json
  provides : Bool
  context : String

inductive Step where
  | metadata (step : StoreStep SessionId Metadata)
  | names (step : StoreStep SessionId Names)
  | attributes (step : StoreStep AttributeKey Bytes)
  | numbers (step : StoreStep UInt64 String)
  | listen (store : StoreName) (id : String) (actions : List (String × List Step))
  | unlisten (id : String)
  | dropListener (id : String)
  | fault (target : Target) (skip count : Nat)
  | hook (target : Target) (moment : Moment) (skip : Nat) (steps : List Step)
  | dump
  | calls
  | openFactory (factory : String) (setup : FactorySetup)
  | closeFactory (factory : String)
  | isClosed (factory : String)
  | dropFactory (factory : String)
  | awaitCascade (factory : String)
  | create (factory session bundle : String)
  | find (factory session bundle : String)
  | peek (factory session bundle : String)
  | removeSession (factory session : String)
  | purgeSession (factory session : String)
  | metrics (factory : String)
  | metricsSink (factory : String)
  | bundle (bundle : String)
  | bundleGet (bundle name : String)
  | bundleEqual (bundle other : String)
  | freeze (factory bundle frozen : String)
  | frozen (frozen : String)
  | openView (factory session bundle view : String) (metadata : Metadata) (context : String)
  | loadView (factory session view : String) (metadata : Metadata) (context : String)
  | viewNames (view : String)
  | get (view name : String)
  | set (view name : String) (value : Json)
  | remove (view name : String)
  | update (view name : String) (change : Change)
  | snapshot (view bundle : String)
  | closeView (view : String)
  | dropView (view : String)

mutual

/-- How many lists of steps are nested in a step. Each is run at most once. -/
def Step.nested : Step → Nat
  | .listen _ _ actions => nestedInActions actions
  | .hook _ _ _ steps => nestedIn steps + 1
  | _ => 0

def nestedIn : List Step → Nat
  | [] => 0
  | step :: steps => step.nested + nestedIn steps

def nestedInActions : List (String × List Step) → Nat
  | [] => 0
  | (_, steps) :: actions => nestedIn steps + 1 + nestedInActions actions

end

end SessionAttributes.Script
