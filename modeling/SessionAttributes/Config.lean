import SessionAttributes.FactoryOptions
import SessionAttributes.Files
import SessionAttributes.Json.Typed
import SessionAttributes.Store.Options
import SessionAttributes.Toml.Printer
import SessionAttributes.Toml.Typed

namespace SessionAttributes

structure StoreSections where
  metadata : StoreOptions := {}
  names : StoreOptions := {}
  attributes : StoreOptions := {}
deriving DecidableEq, Repr

structure Config where
  factory : FactoryOptions := {}
  stores : StoreSections := {}
deriving DecidableEq, Repr

instance : Inhabited Config := ⟨{}⟩

namespace Config

/-- The first section in order that is not valid decides. -/
def validate (c : Config) : Except SessionError Unit := do
  c.factory.validate
  c.stores.metadata.validate
  c.stores.names.validate
  c.stores.attributes.validate

def countType : String := "usize"

def mostCount : Nat := 0xFFFFFFFFFFFFFFFF

section Reading

def readCount : Json.Typed Nat := Json.readNatural countType mostCount

/-- Reads the field called `name` with `read` and puts it into a record with `put`. -/
def jsonField {σ α : Type} (name : String) (read : Json.Typed α) (put : σ → α → σ) :
    Json.Field σ :=
  ⟨name, fun record tokens => do
    let (v, rest) ← read tokens
    return (put record v, rest)⟩

def readJsonFactory : Json.Typed FactoryOptions :=
  Json.readRecord "FactorySection" [
    jsonField "cascade_workers" readCount fun o n => { o with workers := n },
    jsonField "cascade_thread_name" Json.readText fun o s => { o with threadName := s }] {}

def readJsonStore : Json.Typed StoreOptions :=
  Json.readRecord "MemStoreOptions" [
    jsonField "shards" readCount fun o n => { o with shards := n },
    jsonField "capacity" (Json.readOptional readCount) fun o n => { o with capacity := n },
    jsonField "persistent" Json.readBool fun o b => { o with persistent := b }] {}

def readJsonStores : Json.Typed StoreSections :=
  Json.readRecord "StoreSections" [
    jsonField "metadata" readJsonStore fun s o => { s with metadata := o },
    jsonField "names" readJsonStore fun s o => { s with names := o },
    jsonField "attributes" readJsonStore fun s o => { s with attributes := o }] {}

def readJson : Json.Typed Config :=
  Json.readRecord "Config" [
    jsonField "factory" readJsonFactory fun c o => { c with factory := o },
    jsonField "stores" readJsonStores fun c s => { c with stores := s }] {}

def tomlField {σ α : Type} (name : String) (read : Toml.Typed α) (put : σ → α → σ) :
    Toml.Field σ :=
  ⟨name, fun record v => do return put record (← read v)⟩

def readTomlFactory : Toml.Typed FactoryOptions :=
  Toml.readRecord "FactorySection" [
    tomlField "cascade_workers" (Toml.readNatural countType) fun o n => { o with workers := n },
    tomlField "cascade_thread_name" Toml.readText fun o s => { o with threadName := s }] {}

def readTomlStore : Toml.Typed StoreOptions :=
  Toml.readRecord "MemStoreOptions" [
    tomlField "shards" (Toml.readNatural countType) fun o n => { o with shards := n },
    tomlField "capacity" (Toml.readNatural countType) fun o n => { o with capacity := some n },
    tomlField "persistent" Toml.readBool fun o b => { o with persistent := b }] {}

def readTomlStores : Toml.Typed StoreSections :=
  Toml.readRecord "StoreSections" [
    tomlField "metadata" readTomlStore fun s o => { s with metadata := o },
    tomlField "names" readTomlStore fun s o => { s with names := o },
    tomlField "attributes" readTomlStore fun s o => { s with attributes := o }] {}

def readToml : Toml.Typed Config :=
  Toml.readRecord "Config" [
    tomlField "factory" readTomlFactory fun c o => { c with factory := o },
    tomlField "stores" readTomlStores fun c s => { c with stores := s }] {}

end Reading

/-- The valid configuration that a TOML text describes. -/
def ofToml (text : String) : Except SessionError Config :=
  match Toml.readAs readToml text with
  | .error fault => .error (.config fault.message)
  | .ok c => do
    c.validate
    return c

def ofFile (contents : Except FileFault String) : Except SessionError Config :=
  match contents with
  | .error fault => .error (.file fault.message)
  | .ok text => ofToml text

/-- A count, unless it is too large for a TOML integer. -/
def writeCount (n : Nat) : Except SessionError String :=
  if (n : Int) ≤ Toml.greatest then .ok (toString n)
  else .error (.config "out-of-range value for u64 type")

def writeFactory (options : FactoryOptions) : Except SessionError String := do
  return Toml.writeTable ["factory"] [
    ("cascade_workers", ← writeCount options.workers),
    ("cascade_thread_name", Toml.writeString options.threadName)]

def writeStore (name : String) (options : StoreOptions) : Except SessionError String := do
  let shards ← writeCount options.shards
  let capacity ← match options.capacity with
    | none => pure []
    | some n => do pure [("capacity", ← writeCount n)]
  return Toml.writeTable ["stores", name]
    ([("shards", shards)] ++ capacity ++ [("persistent", toString options.persistent)])

def toToml (c : Config) : Except SessionError String := do
  return Toml.writeTables [
    ← writeFactory c.factory,
    ← writeStore "metadata" c.stores.metadata,
    ← writeStore "names" c.stores.names,
    ← writeStore "attributes" c.stores.attributes]

def storeJson (options : StoreOptions) : Json :=
  .object [
    ("shards", Json.ofNat options.shards),
    ("capacity", Json.ofOption (options.capacity.map Json.ofNat)),
    ("persistent", .bool options.persistent)]

def toJson (c : Config) : Json :=
  .object [
    ("factory", .object [
      ("cascade_workers", Json.ofNat c.factory.workers),
      ("cascade_thread_name", .string c.factory.threadName)]),
    ("stores", .object [
      ("metadata", storeJson c.stores.metadata),
      ("names", storeJson c.stores.names),
      ("attributes", storeJson c.stores.attributes)])]

end Config
end SessionAttributes
