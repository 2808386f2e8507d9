import SessionAttributes.Error

namespace SessionAttributes

/-- What a process asks for at once. It gets all of it or none. -/
inductive Demand where
  /-- The shards of a store. -/
  | shards (count : Nat)
  /-- Primary memory for as many entries as a shard may hold there. -/
  | entries (limit : Nat)
  | workers (count : Nat)
  | sessions (count : Nat)
deriving DecidableEq, Repr

abbrev Allowance := Demand → Bool

inductive Halt where
  | failed (error : SessionError)
  /-- A demand was not granted. -/
  | starved

namespace Demand

/-- How many buckets a hash table has for its entries: a power of two, of which an eighth stays
empty. -/
def buckets (limit : Nat) : Nat := 1 <<< (limit * 8 / 7 - 1).log2.succ

/-- The bytes that are asked for, where an address has 64 bits. -/
def bytes : Demand → Nat
  | .shards count => 104 * count
  | .entries limit => 17 * buckets limit + 16
  | .workers count => 24 * count
  | .sessions count => 24 * count

end Demand

namespace Allowance

/-- Grants whatever can be addressed by a signed offset. -/
def addressable : Allowance := fun demand => demand.bytes < 0x8000000000000000

def ask (allowance : Allowance) (demand : Demand) : Except Halt Unit :=
  if allowance demand then .ok () else .error .starved

end Allowance
end SessionAttributes
