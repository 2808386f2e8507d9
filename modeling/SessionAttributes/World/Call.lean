import SessionAttributes.World.Basic

namespace SessionAttributes

structure Place (W K T : Type) where
  get : W → Site K T
  set : W → Site K T → W

namespace Place

variable {W K T A : Type}

abbrev Tell (W K T : Type) := Subscriber → Event K T → W → W

def tellAll (tell : Tell W K T) (hearers : List Subscriber) (w : W) (event : Event K T) : W :=
  hearers.foldl (fun w hearer => tell hearer event w) w

/-- Counts a notice and announces it, unless the store keeps it to itself. -/
def announce (place : Place W K T) (tell : Tell W K T) (w : W) (notice : Notice K T) : W :=
  let site := place.get w
  let w := place.set w { site with store := site.store.count notice }
  if site.store.announces notice then
    notice.rounds.foldl (tellAll tell site.listeners.snapshot) w
  else w

/-- Puts the store after a step in place and announces what the step left. -/
def settle (place : Place W K T) (tell : Tell W K T) (w : W) (step : Store K T → Outcome K T A) :
    A × W :=
  let site := place.get w
  let outcome := step site.store
  (outcome.answer,
    outcome.notices.foldl (place.announce tell) (place.set w { site with store := outcome.store }))

variable [DecidableEq K] [ShardKey K]

/-- Reads keys one after the other; each read is settled before the next one. -/
def readAll (place : Place W K T) (tell : Tell W K T) : List K → List (K × T) → W → List (K × T) × W
  | [], found, w => (found, w)
  | key :: keys, found, w =>
    match place.settle tell w (·.get key) with
    | (some value, w) => readAll place tell keys (addFound key value found) w
    | (none, w) => readAll place tell keys found w

/-- Whatever is found, each key is read. -/
theorem readAll_world (place : Place W K T) (tell : Tell W K T) (keys : List K)
    (found : List (K × T)) (w : W) :
    (place.readAll tell keys found w).2 =
      keys.foldl (fun w key => (place.settle tell w (·.get key)).2) w := by
  induction keys generalizing found w with
  | nil => rfl
  | cons key keys ih =>
    rw [readAll, List.foldl_cons]
    generalize place.settle tell w (·.get key) = r
    obtain ⟨answer, w'⟩ := r
    cases answer with
    | none => exact ih found w'
    | some value => exact ih (addFound key value found) w'

def serve (place : Place W K T) (tell : Tell W K T) (w : W) :
    (call : StoreCall K T) → call.Answer × W
  | .get key => place.settle tell w (·.get key)
  | .getAll keys => place.readAll tell keys [] w
  | .put key value mode => place.settle tell w (·.put key value mode)
  | .remove key mode => place.settle tell w (·.remove key mode)
  | .evict key => place.settle tell w (·.evict key)

end Place

namespace World

variable {V σ : Type}

def metadataPlace : Place (World V σ) SessionId Metadata :=
  ⟨World.metadata, fun w site => { w with metadata := site }⟩

def namesPlace : Place (World V σ) SessionId Names :=
  ⟨World.names, fun w site => { w with names := site }⟩

def attributesPlace : Place (World V σ) AttributeKey Bytes :=
  ⟨World.attributes, fun w site => { w with attributes := site }⟩

/-- Lets the surroundings answer first, and tells them when the store has answered. -/
def guarded {A : Type} (env : Surroundings V σ) (request : Request) (w : World V σ)
    (serve : World V σ → A × World V σ) : Except SessionError A × World V σ :=
  match env.before request w with
  | (some fault, w) => (.error fault, w)
  | (none, w) =>
    let (answer, w) := serve w
    (.ok answer, env.after request w)

def raise (env : Surroundings V σ) (w : World V σ) (callback : Callback V) : World V σ :=
  (env.callback callback w).record callback.factory (.activationNotified callback.direction)

/-- Passes the passivation or activation of an attribute entry on, if its bytes decode. -/
def relay (env : Surroundings V σ) (number : Nat) (direction : Direction) (key : AttributeKey)
    (bytes : Bytes) (w : World V σ) : World V σ :=
  match env.decode bytes w with
  | (.error _, w) => w
  | (.ok value, w) =>
    let context := ((w.factory? number).map Factory.context).getD ""
    w.raise env ⟨number, direction, ⟨key.session, none, none⟩, context, value⟩

def tellAttributes (env : Surroundings V σ) : Place.Tell (World V σ) AttributeKey Bytes
  | .observer number, event, w => env.hear number (.attributes event) w
  | .factory number, .prePassivate key bytes, w => w.relay env number .passivate key bytes
  | .factory number, .postActivate key bytes, w => w.relay env number .activate key bytes
  | .factory _, _, w => w

def callAttributes (env : Surroundings V σ) (w : World V σ)
    (call : StoreCall AttributeKey Bytes) : Except SessionError call.Answer × World V σ :=
  w.guarded env (.attributes call) fun w => attributesPlace.serve (tellAttributes env) w call

/-- Schedules the eviction of one attribute entry and counts it. -/
def schedule (number : Nat) (session : SessionId) (w : World V σ) (id : AttributeId) : World V σ :=
  (w.changeFactory number fun f => { f with executor := f.executor.execute ⟨session, id⟩ }).record
    number .cascadeEviction

def tellNames (env : Surroundings V σ) : Place.Tell (World V σ) SessionId Names
  | .observer number, event, w => env.hear number (.names event) w
  | .factory number, .prePassivate session names, w =>
    names.values.foldl (schedule number session) w
  | .factory _, _, w => w

def callNames (env : Surroundings V σ) (w : World V σ) (call : StoreCall SessionId Names) :
    Except SessionError call.Answer × World V σ :=
  w.guarded env (.names call) fun w => namesPlace.serve (tellNames env) w call

def tellMetadata (env : Surroundings V σ) : Place.Tell (World V σ) SessionId Metadata
  | .observer number, event, w => env.hear number (.metadata event) w
  | .factory _, .postPassivate session, w => (w.callNames env (.evict session)).2
  | .factory _, _, w => w

def callMetadata (env : Surroundings V σ) (w : World V σ) (call : StoreCall SessionId Metadata) :
    Except SessionError call.Answer × World V σ :=
  w.guarded env (.metadata call) fun w => metadataPlace.serve (tellMetadata env) w call

/-- A worker of a factory makes a step. A task evicts its attribute entry, and a failure is not
reported. -/
def workerStep (env : Surroundings V σ) (number : Nat) (w : World V σ) : WorkerStep → World V σ
  | .receive =>
    match (w.factory? number).bind fun f => f.executor.receive with
    | none => w
    | some (_, executor) => w.changeFactory number fun f => { f with executor }
  | .finish position =>
    match (w.factory? number).bind fun f => f.executor.running[position]? with
    | none => w
    | some key =>
      (w.callAttributes env (.evict key)).2.changeFactory number fun f =>
        { f with executor := f.executor.finish position }

def workerSteps (env : Surroundings V σ) (number : Nat) (w : World V σ) (steps : List WorkerStep) :
    World V σ :=
  steps.foldl (workerStep env number) w

/-- Carries out every eviction that a factory has scheduled so far. -/
def runTasks (env : Surroundings V σ) (number : Nat) (w : World V σ) : World V σ :=
  w.workerSteps env number (((w.factory? number).map fun f => f.executor.remainingSteps).getD [])

end World
end SessionAttributes
