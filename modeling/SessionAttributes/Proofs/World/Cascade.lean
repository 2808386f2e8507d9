import SessionAttributes.Proofs.World.Tasks

namespace SessionAttributes

variable {V σ : Type}

def Subscriber.isFactory : Subscriber → Bool
  | .factory _ => true
  | .observer _ => false

def Request.isSingle : Request → Bool
  | .metadata call => call.isSingle
  | .names call => call.isSingle
  | .attributes call => call.isSingle

structure Factory.Queues (f f' : Factory V) (keys : List AttributeKey) : Prop where
  executor : f'.executor = { f.executor with
    queued := f.executor.queued ++ keys, pending := f.executor.pending + keys.length }
  counted : f'.metrics.map Metrics.cascadeEvictions =
    f.metrics.map fun m => m.cascadeEvictions + keys.length

namespace World

variable {env : Surroundings V σ} {w w' : World V σ}

def request (env : Surroundings V σ) (w : World V σ) : Request → World V σ
  | .metadata call => (w.callMetadata env call).2
  | .names call => (w.callNames env call).2
  | .attributes call => (w.callAttributes env call).2

/-- The calls of the names store that a request comes down to. -/
def namesCalls (w : World V σ) : Request → List (StoreCall SessionId Names)
  | .metadata call => (w.metadata.store.heard call.parts).map fun e => .evict e.1
  | .names call => call.parts
  | .attributes _ => []

section Listening

theorem forFactory_flatMap {α : Type} (number : Nat) (as : List α)
    (f : α → List (Nat × AttributeKey)) :
    forFactory number (as.flatMap f) = as.flatMap fun a => forFactory number (f a) :=
  List.filterMap_flatMap

/-- A factory is handed each eviction as often as it listens. -/
theorem forFactory_orders (w : World V σ) (number : Nat) (calls : List (StoreCall SessionId Names)) :
    forFactory number (w.orders calls) = (w.names.store.heard calls).flatMap fun e =>
      (w.names.listeners.entriesOf (.factory number)).flatMap fun _ => evictionsOf e := by
  have hhears : ∀ hearer session names, forFactory number
      (namesEcho hearer (.prePassivate session names)) =
        if hearer = .factory number then evictionsOf (session, names) else [] := by
    intro hearer session names
    cases hearer with
    | observer k => rfl
    | factory k =>
      by_cases hk : k = number
      · simp [hk, namesEcho, forFactory]
      · simp [hk, namesEcho, forFactory]
  have hsilent : ∀ hearer session, namesEcho hearer (.postPassivate session) = [] := by
    intro hearer session
    cases hearer <;> rfl
  unfold orders
  rw [forFactory_flatMap]
  congr 1
  funext e
  unfold Place.replies
  simp only [hsilent, List.flatMap_eq_nil_iff.mpr fun _ _ => rfl, List.append_nil]
  rw [forFactory_flatMap]
  simp only [hhears]
  exact Listeners.snapshot_flatMap _ _ _

/-- A factory that listens once is handed each eviction once. -/
theorem orders_forFactory {ids : Nat → Option Nat} {away : Nat → Prop}
    (h : w.names.listeners.Lists ids away) {number id : Nat} (hi : ids number = some id)
    (calls : List (StoreCall SessionId Names)) :
    forFactory number (w.orders calls) = (w.names.store.heard calls).flatMap evictionsOf := by
  rw [forFactory_orders, h.listed hi]
  simp

/-- Each factory that listens evicts the names, the first one with effect. -/
theorem evictions_eq {ids : Nat → Option Nat} {away : Nat → Prop}
    (h : w.metadata.listeners.Lists ids away) {number id : Nat} (hi : ids number = some id)
    (calls : List (StoreCall SessionId Metadata)) :
    ∃ n, w.evictions calls = ((w.metadata.store.heard calls).map Prod.fst).flatMap fun session =>
      List.replicate (n + 1) (.evict session) := by
  have hquiet : ∀ hearer session metadata,
      metadataEcho hearer (.prePassivate session metadata) = [] := by
    intro hearer session metadata
    cases hearer <;> rfl
  have heach : ∀ (hearers : List Subscriber) (session : SessionId),
      (hearers.flatMap fun hearer => metadataEcho hearer (.postPassivate session)) =
        List.replicate (hearers.countP Subscriber.isFactory) (.evict session) := by
    intro hearers session
    induction hearers with
    | nil => rfl
    | cons hearer hearers ih =>
      rw [List.flatMap_cons, ih]
      cases hearer with
      | observer k =>
        rw [List.countP_cons_of_neg Bool.false_ne_true]
        rfl
      | factory k =>
        rw [List.countP_cons_of_pos rfl]
        rfl
  have hpos : 0 < w.metadata.listeners.snapshot.countP Subscriber.isFactory :=
    List.countP_pos_iff.mpr ⟨.factory number, List.mem_map.mpr ⟨_, h.mem hi, rfl⟩, rfl⟩
  obtain ⟨n, hn⟩ := Nat.exists_eq_add_one_of_ne_zero (Nat.ne_of_gt hpos)
  refine ⟨n, ?_⟩
  unfold evictions Place.replies
  simp only [hquiet, List.flatMap_eq_nil_iff.mpr fun _ _ => rfl, List.nil_append, heach, hn,
    List.flatMap_map]

end Listening

section Requests
variable {request : Request}

theorem namesCalls_single (w : World V σ) (request : Request) :
    ∀ call ∈ w.namesCalls request, call.isSingle = true := by
  intro call hm
  cases request with
  | metadata call' =>
    obtain ⟨e, -, rfl⟩ := List.mem_map.mp hm
    rfl
  | names call' => exact call'.parts_single call hm
  | attributes call' => cases hm

theorem namesCalls_length (hw : w.Wired) (hr : request.isSingle = true) :
    (w.namesCalls request).length ≤ 1 := by
  cases request with
  | metadata call =>
    obtain ⟨options, hkept⟩ := hw.metadata
    rw [namesCalls, List.length_map, StoreCall.parts_of_single hr, Store.heard]
    split
    · exact Nat.zero_le 1
    · exact (hkept.departures_single hr).1
  | names call => exact Nat.le_of_eq (congrArg List.length (StoreCall.parts_of_single hr))
  | attributes call => exact Nat.zero_le 1

theorem namesCalls_reads (hr : request.isSingle = false) :
    ∀ call ∈ w.namesCalls request, ∀ session, ¬ call.Writes session := by
  intro call hm
  cases request with
  | metadata call' =>
    obtain ⟨e, -, rfl⟩ := List.mem_map.mp hm
    exact fun _ => id
  | names call' =>
    cases call' with
    | getAll sessions =>
      obtain ⟨session, -, rfl⟩ := List.mem_map.mp hm
      exact fun _ => id
    | _ => cases hr
  | attributes call' => cases hm

/-- The names that leave primary memory while a request is served, one after the other. -/
structure Passes (env : Surroundings V σ) (w : World V σ) (request : Request)
    (passed : List (SessionId × Names)) : Prop where
  /-- The names store gives notice of them. -/
  told : ∃ calls, env.Admits (w.namesCalls request) calls ∧
    (w.request env request).names.store = w.names.store.after calls ∧
    passed = w.names.store.departures calls
  held : ∀ e ∈ passed, w.names.store.find? e.1 = some e.2
  all : ∀ session, w.names.store.isPassivated session = false →
    (w.request env request).names.store.isPassivated session = true → session ∈ keysOf passed
  single : request.isSingle = true → passed.length ≤ 1 ∧ ∀ e ∈ passed,
    w.names.store.isActive e.1 = true ∧
      (w.request env request).names.store.isPassivated e.1 = true

theorem Wired.passes (hw : w.Wired) {calls : List (StoreCall SessionId Names)}
    (hcalls : env.Admits (w.namesCalls request) calls)
    (hstore : (w.request env request).names.store = w.names.store.after calls) :
    w.Passes env request (w.names.store.departures calls) := by
  obtain ⟨options, hkept⟩ := hw.names
  have hsingle : ∀ call ∈ calls, call.isSingle = true := fun call hm =>
    w.namesCalls_single request call (hcalls.sublist.subset hm)
  have hone : request.isSingle = true → calls = [] ∨ ∃ call, calls = [call] := by
    intro h
    have hlength := hcalls.sublist.length_le.trans (namesCalls_length hw h)
    match calls, hlength with
    | [], _ => exact .inl rfl
    | [call], _ => exact .inr ⟨call, rfl⟩
  refine ⟨⟨calls, hcalls, hstore, rfl⟩, fun e he => ?_, fun session hp hp' => ?_, fun h => ?_⟩
  · cases h : request.isSingle with
    | false =>
      exact hkept.departures_find
        (fun call hm => ⟨hsingle call hm, namesCalls_reads h call (hcalls.sublist.subset hm)⟩) e he
    | true =>
      rcases hone h with rfl | ⟨call, rfl⟩
      · cases he
      · exact ((hkept.departures_single (hsingle call List.mem_cons_self)).2 e he).2.1
  · exact hkept.mem_departures hsingle hp (hstore ▸ hp')
  · rcases hone h with rfl | ⟨call, rfl⟩
    · exact ⟨Nat.zero_le 1, List.forall_mem_nil _⟩
    · obtain ⟨hlength, hall⟩ := hkept.departures_single (hsingle call List.mem_cons_self)
      refine ⟨hlength, fun e he => ?_⟩
      obtain ⟨ha, -, hp⟩ := hall e he
      rw [hstore]
      exact ⟨ha, hp⟩

/-- The names store cannot tell calls apart that leave the same store and the same departures. -/
theorem Cascades.congr {calls calls' : List (StoreCall SessionId Names)} (h : w.Cascades w' calls)
    (ha : w.names.store.after calls = w.names.store.after calls')
    (hd : w.names.store.departures calls = w.names.store.departures calls') :
    w.Cascades w' calls' := by
  unfold Cascades orders Store.heard at h ⊢
  rw [← ha, ← hd]
  exact h

/-- A request comes down to calls of the names store, some of which may not reach it. -/
theorem Wired.request_cascades (hw : w.Wired) (he : env.Aloof) {number : Nat}
    {subscriptions : Subscriptions} (hs : w.subscriptions? number = some subscriptions)
    (request : Request) :
    ∃ (w₁ : World V σ) (calls : List (StoreCall SessionId Names)),
      w₁.Cascades (w.request env request) calls ∧ w₁.names = w.names ∧
        w₁.factories = w.factories ∧ env.Admits (w.namesCalls request) calls := by
  cases request with
  | metadata call =>
    obtain ⟨options, hkept⟩ := hw.names
    obtain ⟨calls, names, -, hnames, h⟩ := callMetadata_cascades he w call
    obtain ⟨n, hn⟩ := evictions_eq hw.metadataListeners (by rw [hs]; rfl) call.parts
    by_cases hr : env.Reliable
    · obtain rfl := hnames.all hr
      obtain ⟨heach, hleft⟩ :=
        hkept.evict_each ((w.metadata.store.heard call.parts).map Prod.fst) n
      rw [List.map_map, ← hn] at heach hleft
      exact ⟨_, w.namesCalls (.metadata call), h.congr heach hleft, rfl, rfl, .refl env _⟩
    · obtain ⟨sessions, hsome, ha, hd⟩ := hkept.evict_some _ _ (hn ▸ hnames.sublist)
      refine ⟨_, sessions.map .evict, h.congr ha hd, rfl, rfl, ?_, fun hyes => absurd hyes hr⟩
      have hmap := hsome.map (StoreCall.evict (V := Names))
      rw [List.map_map] at hmap
      exact hmap
  | names call =>
    obtain ⟨calls, hcalls, h⟩ := callNames_cascades he w call
    exact ⟨w, calls, h, rfl, rfl, hcalls⟩
  | attributes call =>
    obtain ⟨calls, -, h⟩ := callAttributes_handed he w call
    exact ⟨_, [], h.cascades, rfl, rfl, .refl env _⟩

end Requests

theorem Handed.queues {w₁ : World V σ} {orders : List (Nat × AttributeKey)}
    (h : w₁.Handed w' orders) {number : Nat} {f : Factory V} (hf : w₁.factory? number = some f)
    (ha : f.executor.accepting = true) :
    ∃ f', w'.factory? number = some f' ∧ f.Queues f' (forFactory number orders) := by
  have hfactory := h.factory number
  rw [hf] at hfactory
  obtain ⟨f', hf', heq⟩ := Option.map_eq_some_iff.mp hfactory
  refine ⟨f', hf', ?_, ?_⟩
  · exact (congrArg Factory.executor heq).trans (Executor.execute_queued _ ha _)
  · have hmetrics := congrArg (fun f => f.metrics.map Metrics.cascadeEvictions) heq
    simpa [Factory.duty, Factory.order, Option.map_map, Function.comp_def] using hmetrics

/-- Whoever makes names leave primary memory, an open factory queues one eviction for each of
them. -/
theorem Wired.request_queues (hw : w.Wired) (hp : w.names.store.persistent = false) {number : Nat}
    {f : Factory V} (hf : w.factory? number = some f) (ho : f.isOpen = true) (he : env.Aloof)
    (request : Request) :
    ∃ passed f', w.Passes env request passed ∧
      (w.request env request).factory? number = some f' ∧
      f.Queues f' (passed.flatMap evictionsOf) := by
  have hs := subscriptions?_of_open hf ho
  obtain ⟨w₁, calls, h, hnames, hfactories, hcalls⟩ := hw.request_cascades he hs request
  have hstore : (w.request env request).names.store = w.names.store.after calls := by
    refine (congrArg Site.store (Handed.names h)).trans ?_
    rw [hnames]
    rfl
  have hf₁ : (namesPlace.withStore w₁ (w₁.names.store.after calls)).factory? number = some f :=
    (congrArg (·[number]?) hfactories).trans hf
  obtain ⟨f', hf', hqueues⟩ := Handed.queues h hf₁ (hw.accepting hf ho)
  refine ⟨_, f', hw.passes hcalls hstore, hf', ?_⟩
  have hlisted : (w.subscriptions? number).map (·.names.id) = some f.subscriptions.names.id := by
    rw [hs]
    rfl
  have horders := orders_forFactory (w := w₁) (hnames ▸ hw.namesListeners) hlisted calls
  rw [hnames, Store.heard, if_neg (hp ▸ Bool.false_ne_true)] at horders
  rw [← horders]
  exact hqueues

theorem Reached.request (h : w.Reached) (he : env.Aloof) (request : Request) :
    (w.request env request).Reached := by
  cases request with
  | metadata call => exact h.step he (.metadata call)
  | names call => exact h.step he (.act ⟨0, none⟩ (.names call))
  | attributes call => exact h.step he (.act ⟨0, none⟩ (.attributes call))

/-- Whatever happens next, as long as nobody uses an entry: it keeps its value, and when its eviction
has been carried out it is passivated. -/
def Retires (w : World V σ) (number : Nat) (key : AttributeKey) : Prop :=
  ∀ {finished : List AttributeKey} {w' : World V σ},
    Meanwhile number (fun happening => ¬ happening.UsesEntry key) w finished w' →
    w'.attributes.store.find? key = w.attributes.store.find? key ∧
      (key ∈ finished ∨ (∀ f', w'.factory? number = some f' → ¬ f'.executor.Holds key) →
        (w.attributes.store.find? key).isSome → w'.attributes.store.isPassivated key = true)

theorem Wired.retires (hw : w.Wired) {number : Nat} {f : Factory V}
    (hf : w.factory? number = some f) {key : AttributeKey} (hh : f.executor.Holds key) :
    w.Retires number key := by
  intro finished w' h
  have hfind := (h.entry hw fun _ => id).1
  refine ⟨hfind, fun hdone hsome => ?_⟩
  exact Store.isPassivated_of_find (hfind ▸ hsome)
    (h.drained hw hf (fun _ => id) (.inl hh) hdone)

/-- Of all that the stores hold only some attribute entries may have moved between the tiers. -/
structure MovesOnly (w w' : World V σ) (keys : List AttributeKey) : Prop where
  metadata : w'.metadata = w.metadata
  names : w'.names = w.names
  values : w'.attributes.store.find? = w.attributes.store.find?
  others : ∀ key, key ∉ keys →
    w'.attributes.store.isActive key = w.attributes.store.isActive key ∧
      w'.attributes.store.isPassivated key = w.attributes.store.isPassivated key

theorem MovesOnly.of_sites (hm : w'.metadata = w.metadata) (hn : w'.names = w.names)
    (ha : w'.attributes = w.attributes) (keys : List AttributeKey) : w.MovesOnly w' keys :=
  ⟨hm, hn, by rw [ha], fun _ _ => by rw [ha]; exact ⟨rfl, rfl⟩⟩

/-- A worker that finishes a task moves the entry of that task, and a worker that receives one moves
nothing. -/
theorem Wired.work_movesOnly (hw : w.Wired) (he : env.Aloof) (number : Nat) (step : WorkerStep) :
    w.MovesOnly (w.workerStep env number step) (w.finishes number (.work number step)) := by
  cases step with
  | receive =>
    rw [receive_eq]
    refine .of_sites ?_ ?_ ?_ _ <;> rfl
  | finish position =>
    cases hf : (w.factory? number).bind fun f => f.executor.running[position]? with
    | none =>
      rw [finish_nothing hf]
      exact .of_sites rfl rfl rfl _
    | some key =>
      obtain ⟨options, hkept⟩ := hw.attributes
      obtain ⟨calls, hcalls, h⟩ := callAttributes_handed he w (.evict key)
      have hstore : (w.callAttributes env (.evict key)).2.attributes.store =
          w.attributes.store.after calls := congrArg Site.store h.attributes
      rw [finish_task hf, finishes_task hf, if_pos rfl]
      refine ⟨h.metadata, h.names, ?_, fun k hk => ?_⟩
      · change (w.callAttributes env (.evict key)).2.attributes.store.find? = _
        rw [hstore]
        funext k
        exact hkept.after_find fun call hm => List.mem_singleton.mp (hcalls.sublist.subset hm) ▸ id
      · change (w.callAttributes env (.evict key)).2.attributes.store.isActive k = _ ∧
          (w.callAttributes env (.evict key)).2.attributes.store.isPassivated k = _
        rw [hstore]
        rcases List.sublist_singleton.mp hcalls.sublist with rfl | rfl
        · exact ⟨rfl, rfl⟩
        · exact hkept.evict_others fun he => hk (he ▸ List.mem_singleton.mpr rfl)

def hushed : Surroundings Unit Unit :=
  .quiet ⟨fun _ => .ok [], fun _ => .ok ()⟩ AttributeId.ofNat

theorem hushed_aloof : hushed.Aloof := Surroundings.quiet_aloof _ _

theorem hushed_reliable : hushed.Reliable := Surroundings.quiet_reliable _ _

def bare (V : Type) : World V Unit :=
  ⟨⟨⟨[⟨[], []⟩], none, false, 0, 0⟩, .empty⟩, ⟨⟨[⟨[], []⟩], none, false, 0, 0⟩, .empty⟩,
    ⟨⟨[⟨[], []⟩], none, false, 0, 0⟩, .empty⟩, [], [], 0, ()⟩

theorem bare_reached (V : Type) : (bare V).Reached :=
  .opened (rfl : World.openWith { shards := 1 } { shards := 1 } { shards := 1 } () = .ok (bare V))

/-- A session with one attribute, all of it in primary memory, beside an open factory. -/
def boarded : World Unit Unit :=
  let happenings : List (Happening Unit) := [
    .openFactory { workers := 1 } Immutability.never "" true,
    .openView 0 "s" Bundle.empty ⟨0, 0, 0⟩ "",
    .metadata (.put "s" ⟨0, 0, 0⟩ .silent)]
  ((happenings.foldl (happen hushed) (bare Unit)).carryOut hushed ⟨0, some 0⟩
    (View.set ⟨"s", false, Immutability.never⟩ "a" ()).run).2

theorem boarded_reached : boarded.Reached :=
  ((bare_reached Unit).all hushed_aloof _).carryOut hushed_aloof ⟨0, some 0⟩ _

/-- Each time names leave primary memory, whatever the cause, an open factory is handed one eviction
for each of them. When these have been carried out, all entries that the names refer to are
passivated, and nothing else has moved or changed. -/
theorem names_cascade (h : w.Reached) (hp : w.names.store.persistent = false) {number : Nat}
    {f : Factory V} (hf : w.factory? number = some f) (ho : f.isOpen = true) (he : env.Aloof)
    (request : Request) :
    ∃ passed f', w.Passes env request passed ∧
      (w.request env request).factory? number = some f' ∧
      f.Queues f' (passed.flatMap evictionsOf) ∧
      (∀ e ∈ passed, ∀ key ∈ evictionsOf e, (w.request env request).Retires number key) ∧
      ∀ {env' : Surroundings V σ} {w' : World V σ}, env'.Aloof → w'.Reached →
        ∀ step, w'.MovesOnly (w'.workerStep env' number step)
          (w'.finishes number (.work number step)) := by
  obtain ⟨passed, f', hpasses, hf', hqueues⟩ := h.wired.request_queues hp hf ho he request
  refine ⟨passed, f', hpasses, hf', hqueues, fun e hm key hk => ?_, fun he' h' step =>
    h'.wired.work_movesOnly he' number step⟩
  refine (h.request he request).wired.retires hf' (.inl ?_)
  rw [hqueues.executor]
  exact List.mem_append_right _ (List.mem_flatMap.mpr ⟨e, hm, hk⟩)

/-- An idle pool holds no task. -/
theorem unheld_of_idle {number : Nat} (hidle : (w.factory? number).map (fun f =>
    f.executor.queued ++ f.executor.running) = some []) {f : Factory V}
    (hf : w.factory? number = some f) (key : AttributeKey) : ¬ f.executor.Holds key := by
  rw [hf] at hidle
  obtain ⟨hqueued, hrunning⟩ := List.append_eq_nil_iff.mp (Option.some.inj hidle)
  rintro (hh | hh)
  · exact List.not_mem_nil (hqueued ▸ hh)
  · exact List.not_mem_nil (hrunning ▸ hh)

/-- The names of a session are evicted while the entry that they refer to is in primary memory, and
a worker carries out the eviction that follows. -/
theorem names_cascade_evicted :
    ∃ (w w' : World Unit Unit) (f f' : Factory Unit) (passed : List (SessionId × Names)),
      w.Reached ∧ w.attributes.store.isActive ⟨"s", .ofNat 0⟩ = true ∧
      w.names.store.persistent = false ∧ w.factory? 0 = some f ∧ f.isOpen = true ∧
      w.Passes hushed (.names (.evict "s")) passed ∧ "s" ∈ keysOf passed ∧
      f.Queues f' (passed.flatMap evictionsOf) ∧
      passed.flatMap evictionsOf = [⟨"s", .ofNat 0⟩] ∧
      w' = (w.request hushed (.names (.evict "s"))).workerSteps hushed 0 [.receive, .finish 0] ∧
      ∀ key ∈ passed.flatMap evictionsOf,
        w'.attributes.store.find? key = w.attributes.store.find? key ∧
          w'.attributes.store.isPassivated key = true := by
  obtain ⟨w, hw⟩ : ∃ w, w = boarded := ⟨_, rfl⟩
  obtain ⟨w', hw'⟩ : ∃ w', w' = (w.request hushed (.names (.evict "s"))).workerSteps hushed 0
    [.receive, .finish 0] := ⟨_, rfl⟩
  have h : w.Reached := hw ▸ boarded_reached
  have hp : w.names.store.persistent = false := by rw [hw]; decide +kernel
  have hactive : w.attributes.store.isActive ⟨"s", .ofNat 0⟩ = true := by rw [hw]; decide +kernel
  have hfactory : (w.factory? 0).map (fun f => (f.isOpen, f.executor.queued)) =
      some (true, []) := by
    rw [hw]
    decide +kernel
  have hqueued : ((w.request hushed (.names (.evict "s"))).factory? 0).map
      (fun f => f.executor.queued) = some [⟨"s", .ofNat 0⟩] := by
    rw [hw]
    decide +kernel
  have hbefore : w.names.store.isPassivated "s" = false := by rw [hw]; decide +kernel
  have hafter : (w.request hushed (.names (.evict "s"))).names.store.isPassivated "s" = true := by
    rw [hw]
    decide +kernel
  have hfind : (w.request hushed (.names (.evict "s"))).attributes.store.find? ⟨"s", .ofNat 0⟩ =
      w.attributes.store.find? ⟨"s", .ofNat 0⟩ ∧
      (w.attributes.store.find? ⟨"s", .ofNat 0⟩).isSome = true := by
    rw [hw]
    decide +kernel
  have hidle : (w'.factory? 0).map (fun f => f.executor.queued ++ f.executor.running) =
      some [] := by
    rw [hw', hw]
    decide +kernel
  obtain ⟨f, hf, hopen⟩ := Option.map_eq_some_iff.mp hfactory
  obtain ⟨ho, hempty⟩ := Prod.mk.inj hopen
  obtain ⟨passed, f', hpasses, hf', hqueues, hretires, -⟩ :=
    names_cascade h hp hf ho hushed_aloof (.names (.evict "s"))
  have hkeys : passed.flatMap evictionsOf = [⟨"s", .ofNat 0⟩] := by
    rw [hf', Option.map_some, hqueues.executor] at hqueued
    simpa [hempty] using hqueued
  obtain ⟨e, he, hkey⟩ := List.mem_flatMap.mp (hkeys ▸ List.mem_singleton_self _ :
    (⟨"s", .ofNat 0⟩ : AttributeKey) ∈ passed.flatMap evictionsOf)
  have hstart : Meanwhile 0 (fun happening => ¬ happening.UsesEntry ⟨"s", .ofNat 0⟩)
      (w.request hushed (.names (.evict "s"))) [] _ := .start
  obtain ⟨finished, hrun⟩ := hstart.workerSteps hushed_aloof hushed_reliable (fun _ => id)
    [.receive, .finish 0]
  rw [← hw'] at hrun
  obtain ⟨hsame, hgone⟩ := hretires e he _ hkey hrun
  refine ⟨w, w', f, f', passed, h, hactive, hp, hf, ho, hpasses, hpasses.all "s" hbefore hafter,
    hqueues, hkeys, hw', fun key hm => ?_⟩
  rw [hkeys, List.mem_singleton] at hm
  subst hm
  exact ⟨hsame.trans hfind.1, hgone (.inr fun f'' hf'' => unheld_of_idle hidle hf'' _)
    (hfind.1 ▸ hfind.2)⟩

end World
end SessionAttributes
