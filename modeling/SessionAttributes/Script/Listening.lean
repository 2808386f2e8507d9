import SessionAttributes.Script.Scene
import SessionAttributes.Store.Registry

namespace SessionAttributes.Script

inductive ListeningStep where
  | register (id : String)
  | close (id : String)
  /-- Drops the handle of a listener, which closes it. -/
  | drop (id : String)
  /-- Drops the set itself. Handles stay. -/
  | dropSet
  /-- Announces something about a key. -/
  | announce (key : String)

structure Listening where
  registry : Registry String
  numbers : List (String × Nat)

namespace Listening

def initial : Listening := ⟨Registry.empty, []⟩

def isClosed (r : Registry String) (number : Nat) : Json :=
  Shown.optional (fun h => .bool h.isClosed) (r.handle? number)

def step (l : Listening) : ListeningStep → Json × Listening
  | .register id =>
    match l.registry.set with
    | none => (.null, l)
    | some _ =>
      let old := l.numbers.lookup id
      let registry := l.registry.register id
      (.bool old.isSome, {
        registry := match old with
          | none => registry
          | some number => registry.drop number
        numbers := bindName id l.registry.handles.length l.numbers })
  | .close id =>
    match l.numbers.lookup id with
    | none => (.null, l)
    | some number =>
      let closed := l.registry.close number
      (.array [isClosed l.registry number, isClosed closed number], { l with registry := closed })
  | .drop id =>
    match l.numbers.lookup id with
    | none => (.bool false, l)
    | some number =>
      (.bool true, {
        registry := l.registry.drop number
        numbers := dropName id l.numbers })
  | .dropSet => (.bool l.registry.set.isSome, { l with registry := l.registry.dropSet })
  | .announce key =>
    let (reached, registry) := l.registry.announce
    (.array (reached.map fun id => .string (id ++ ":" ++ key ++ "=7")), { l with registry })

/-- The answer to a step: its result and the size of the set after it. -/
def answer (r : Json) (l : Listening) : Json :=
  .object [
    ("r", r),
    ("len", Shown.optional Json.ofNat l.registry.count),
    ("empty", Shown.optional (fun count => .bool (count == 0)) l.registry.count)]

def run : List ListeningStep → Listening → List Json
  | [], _ => []
  | step :: steps, l =>
    let (r, l) := l.step step
    answer r l :: run steps l

end Listening

def runOnListeners (steps : List ListeningStep) : Json := .array (Listening.initial.run steps)

end SessionAttributes.Script
