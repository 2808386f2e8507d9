import SessionAttributes.Store.Access
import SessionAttributes.Store.Options
import SessionAttributes.Store.Shard

namespace SessionAttributes

inductive Event (K V : Type) where
  | prePassivate (key : K) (value : V)
  | postPassivate (key : K)
  | postActivate (key : K) (value : V)
  | modified (key : K) (value : V)
  | removed (key : K)
deriving DecidableEq, Repr

inductive Notice (K V : Type) where
  | passivated (key : K) (value : V)
  | activated (key : K) (value : V)
  | modified (key : K) (value : V)
  | removed (key : K)
deriving DecidableEq, Repr

/-- The rounds of an announcement. Every listener hears a round before the next one starts. -/
def Notice.rounds {K V : Type} : Notice K V → List (Event K V)
  | .passivated key value => [.prePassivate key value, .postPassivate key]
  | .activated key value => [.postActivate key value]
  | .modified key value => [.modified key value]
  | .removed key => [.removed key]

structure Store (K V : Type) where
  shards : List (Shard K V)
  limit : Option Nat
  persistent : Bool
  passivations : Nat
  activations : Nat

structure StoreStats where
  active : Nat
  passivated : Nat
  passivations : Nat
  activations : Nat
deriving DecidableEq, Repr

/-- The result of a step: the answer, the store after it and what is to be announced. -/
structure Outcome (K V A : Type) where
  answer : A
  store : Store K V
  notices : List (Notice K V)

namespace Store

variable {K V : Type}

def openWith (options : StoreOptions) : Except SessionError (Store K V) := do
  options.validate
  return ⟨List.replicate options.shards ⟨[], []⟩, options.shardLimit, options.persistent, 0, 0⟩

/-- Opens a store. The options are checked before anything is asked for. -/
def openIn (allowance : Allowance) (options : StoreOptions) : Except Halt (Store K V) := do
  options.validate.mapError .failed
  options.demands.forM allowance.ask
  (openWith options).mapError .failed

def total (s : Store K V) (count : Shard K V → Nat) : Nat :=
  s.shards.foldl (fun sum shard => sum + count shard) 0

def size (s : Store K V) : Nat := s.total Shard.size

def stats (s : Store K V) : StoreStats :=
  ⟨s.total fun shard => shard.active.length, s.total fun shard => shard.passivated.length,
    s.passivations, s.activations⟩

def count (s : Store K V) : Notice K V → Store K V
  | .passivated _ _ => { s with passivations := s.passivations + 1 }
  | .activated _ _ => { s with activations := s.activations + 1 }
  | _ => s

def announces (s : Store K V) : Notice K V → Bool
  | .passivated _ _ | .activated _ _ => !s.persistent
  | _ => true

variable [DecidableEq K] [ShardKey K]

def index (s : Store K V) (key : K) : Nat := (ShardKey.digest key).toNat % s.shards.length

def shard (s : Store K V) (key : K) : Shard K V := s.shards[s.index key]?.getD Shard.empty

def setShard (s : Store K V) (key : K) (shard : Shard K V) : Store K V :=
  { s with shards := s.shards.set (s.index key) shard }

def isActive (s : Store K V) (key : K) : Bool := (s.shard key).isActive key

def isPassivated (s : Store K V) (key : K) : Bool := (s.shard key).isPassivated key

def contains (s : Store K V) (key : K) : Bool := s.isActive key || s.isPassivated key

def find? (s : Store K V) (key : K) : Option V := (s.shard key).find? key

def displacedNotice : Option (K × V) → List (Notice K V)
  | none => []
  | some old => [.passivated old.1 old.2]

/-- Reads a key. A passivated entry comes back to primary memory. -/
def get (s : Store K V) (key : K) : Outcome K V (Option V) :=
  let shard := s.shard key
  match shard.active.lookup key with
  | some value =>
    let active := (key, value) :: Shard.without key shard.active
    ⟨some value, s.setShard key { shard with active }, []⟩
  | none =>
    match shard.passivated.lookup key with
    | none => ⟨none, s, []⟩
    | some value =>
      let (shard, old) := (shard.erase key).accept s.limit key value
      ⟨some value, s.setShard key shard, .activated key value :: displacedNotice old⟩

def put (s : Store K V) (key : K) (value : V) (mode : AccessMode) : Outcome K V (Option V) :=
  let shard := s.shard key
  let (after, old) := (shard.erase key).accept s.limit key value
  ⟨mode.reveal (shard.find? key), s.setShard key after,
    (if mode.notifies then [.modified key value] else []) ++ displacedNotice old⟩

def remove (s : Store K V) (key : K) (mode : AccessMode) : Outcome K V (Option V) :=
  let shard := s.shard key
  match shard.find? key with
  | none => ⟨none, s, []⟩
  | some value =>
    ⟨mode.reveal (some value), s.setShard key (shard.erase key),
      if mode.notifies then [.removed key] else []⟩

def evict (s : Store K V) (key : K) : Outcome K V Unit :=
  let shard := s.shard key
  match shard.active.lookup key with
  | none => ⟨(), s, []⟩
  | some value => ⟨(), s.setShard key (shard.passivate key value), [.passivated key value]⟩

end Store

/-- Adds a binding to a list of bindings, in the place of an earlier one of the same key. -/
def addFound {K V : Type} [DecidableEq K] (key : K) (value : V) : List (K × V) → List (K × V)
  | [] => [(key, value)]
  | (k, v) :: rest => if k = key then (key, value) :: rest else (k, v) :: addFound key value rest

inductive StoreCall (K V : Type) where
  | get (key : K)
  | getAll (keys : List K)
  | put (key : K) (value : V) (mode : AccessMode)
  | remove (key : K) (mode : AccessMode)
  | evict (key : K)

/-- The type of a call's answer. Bindings found by a bulk read stand in the order of their keys. -/
def StoreCall.Answer {K V : Type} : StoreCall K V → Type
  | .get _ | .put _ _ _ | .remove _ _ => Option V
  | .getAll _ => List (K × V)
  | .evict _ => Unit

end SessionAttributes
