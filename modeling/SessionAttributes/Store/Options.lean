import SessionAttributes.Resources

namespace SessionAttributes

structure StoreOptions where
  shards : Nat := 8
  /-- The most entries in primary memory; without it a store never spills. -/
  capacity : Option Nat := none
  /-- A persistent store is durable and raises no passivation or activation event. -/
  persistent : Bool := false
deriving DecidableEq, Repr

namespace StoreOptions

instance : Inhabited StoreOptions := ⟨{}⟩

def validate (options : StoreOptions) : Except SessionError Unit :=
  if options.shards = 0 then .error (.config "store shards must be at least 1")
  else if options.capacity = some 0 then .error (.config "store capacity must be at least 1")
  else .ok ()

/-- The bound of each shard: an equal part of the capacity, and at least one. -/
def shardLimit (options : StoreOptions) : Option Nat :=
  options.capacity.map fun capacity => max (capacity / options.shards) 1

/-- What a store of these options asks for when it is opened. -/
def demands (options : StoreOptions) : List Demand :=
  .shards options.shards :: (options.shardLimit.map Demand.entries).toList

end StoreOptions
end SessionAttributes
