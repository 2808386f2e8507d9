import SessionAttributes.Proofs.Store.Refinement
import SessionAttributes.Proofs.Store.Replay
import SessionAttributes.Proofs.World.Echo

namespace SessionAttributes

variable {W K V : Type}

/-- A world beside what one of the listeners heard, each event with the store at that moment. -/
structure Overheard (W K V : Type) where
  world : W
  heard : List (Event K V × Store K V)

def Overheard.events (o : Overheard W K V) : List (Event K V) := o.heard.map Prod.fst

namespace Place

/-- The same place, where what is heard is written down. -/
def overheard (place : Place W K V) : Place (Overheard W K V) K V :=
  ⟨fun o => place.get o.world, fun o site => { o with world := place.set o.world site }⟩

/-- Everyone is told as before, and what one listener is told is written down. -/
def overhear (place : Place W K V) (listener : Subscriber) (tell : Tell W K V) :
    Tell (Overheard W K V) K V := fun hearer event o =>
  { world := tell hearer event o.world
    heard :=
      if hearer = listener then o.heard ++ [(event, (place.get o.world).store)] else o.heard }

def Listens (place : Place W K V) (listener : Subscriber) (w : W) : Prop :=
  (place.get w).listeners.snapshot.count listener = 1

/-- Whoever is told closes no registration of a listener. -/
def Leaves (place : Place W K V) (listener : Subscriber) (tell : Tell W K V) : Prop :=
  ∀ hearer event w, place.Listens listener w → place.Listens listener (tell hearer event w)

structure Told [ShardKey K] (place : Place W K V) (listener : Subscriber)
    (events : List (Event K V)) (o o' : Overheard W K V) : Prop where
  shards : (place.get o'.world).store.shards = (place.get o.world).store.shards
  kept : ∀ options, (place.get o.world).store.Kept options →
    (place.get o'.world).store.Kept options
  persistent : (place.get o'.world).store.persistent = (place.get o.world).store.persistent
  listens : place.Listens listener o.world → place.Listens listener o'.world
  heard : ∃ news, o'.heard = o.heard ++ news ∧ news.map Prod.fst = events ∧
    ∀ x ∈ news, x.2.shards = (place.get o.world).store.shards

section Told
variable [ShardKey K] {place : Place W K V} {listener : Subscriber} {tell : Tell W K V}
  {o o' o'' : Overheard W K V} {events events' : List (Event K V)}

theorem Told.refl (o : Overheard W K V) : place.Told listener [] o o :=
  ⟨rfl, fun _ h => h, rfl, id, [], (List.append_nil _).symm, rfl, List.forall_mem_nil _⟩

theorem Told.trans (h : place.Told listener events o o')
    (h' : place.Told listener events' o' o'') :
    place.Told listener (events ++ events') o o'' := by
  obtain ⟨news, hheard, hevents, hnews⟩ := h.heard
  obtain ⟨news', hheard', hevents', hnews'⟩ := h'.heard
  refine ⟨h'.shards.trans h.shards, fun options hk => h'.kept options (h.kept options hk),
    h'.persistent.trans h.persistent, fun hl => h'.listens (h.listens hl), news ++ news', ?_, ?_, ?_⟩
  · rw [hheard', hheard, List.append_assoc]
  · rw [List.map_append, hevents, hevents']
  · intro x hx
    rcases List.mem_append.mp hx with hx | hx
    · exact hnews x hx
    · exact (hnews' x hx).trans h.shards

theorem told_one (hq : place.Quiet tell) (hs : place.Leaves listener tell) (hearer : Subscriber)
    (event : Event K V) (o : Overheard W K V) :
    place.Told listener (if hearer = listener then [event] else []) o
      (place.overhear listener tell hearer event o) := by
  have hstore := hq hearer event o.world
  refine ⟨congrArg Store.shards hstore, ?_, congrArg Store.persistent hstore,
    hs hearer event o.world, ?_⟩
  · intro options hkept
    rw [overhear, hstore]
    exact hkept
  · by_cases hl : hearer = listener
    · refine ⟨[(event, (place.get o.world).store)], ?_, ?_, ?_⟩
      · simp only [overhear, if_pos hl]
      · simp only [if_pos hl, List.map_cons, List.map_nil]
      · intro x hx
        rw [List.mem_singleton.mp hx]
    · refine ⟨[], ?_, ?_, List.forall_mem_nil _⟩
      · simp only [overhear, if_neg hl, List.append_nil]
      · simp only [if_neg hl, List.map_nil]

/-- In a round a listener is told once for each of its registrations. -/
theorem told_round (hq : place.Quiet tell) (hs : place.Leaves listener tell)
    (hearers : List Subscriber) (event : Event K V) (o : Overheard W K V) :
    place.Told listener (List.replicate (hearers.count listener) event) o
      (tellAll (place.overhear listener tell) hearers o event) := by
  induction hearers generalizing o with
  | nil => exact .refl o
  | cons hearer hearers ih =>
    have hfirst := told_one hq hs hearer event o
    have hboth := hfirst.trans (ih (place.overhear listener tell hearer event o))
    by_cases hl : hearer = listener
    · rw [if_pos hl] at hboth
      rw [hl, List.count_cons_self, List.replicate_succ]
      rw [hl] at hboth
      exact hboth
    · rw [if_neg hl] at hboth
      rw [List.count_cons_of_ne hl]
      exact hboth

theorem told_rounds (hq : place.Quiet tell) (hs : place.Leaves listener tell)
    {hearers : List Subscriber} (hone : hearers.count listener = 1) (events : List (Event K V))
    (o : Overheard W K V) :
    place.Told listener events o
      (events.foldl (tellAll (place.overhear listener tell) hearers) o) := by
  induction events generalizing o with
  | nil => exact .refl o
  | cons event events ih =>
    have hround := told_round hq hs hearers event o
    rw [hone] at hround
    exact hround.trans (ih _)

theorem told_count (hl : place.Lawful) (o : Overheard W K V) (notice : Notice K V) :
    place.Told listener [] o (place.overheard.set o
      { place.get o.world with store := (place.get o.world).store.count notice }) := by
  have hget : place.get (place.set o.world
      { place.get o.world with store := (place.get o.world).store.count notice }) =
        { place.get o.world with store := (place.get o.world).store.count notice } := hl _ _
  refine ⟨?_, ?_, ?_, ?_, [], (List.append_nil _).symm, rfl, List.forall_mem_nil _⟩
  · simp only [overheard, hget]
    exact Store.foldl_count_shards [notice] _
  · intro options hkept
    simp only [overheard, hget]
    exact hkept.count notice
  · simp only [overheard, hget]
    cases notice <;> rfl
  · intro hlistens
    simp only [Listens, overheard, hget]
    exact hlistens

/-- A store tells its listeners of a notice, unless it keeps it to itself. -/
theorem told_announce (hl : place.Lawful) (hq : place.Quiet tell)
    (hs : place.Leaves listener tell) {o : Overheard W K V}
    (hlistens : place.Listens listener o.world) (notice : Notice K V) :
    place.Told listener ((place.get o.world).store.announced [notice]) o
      (place.overheard.announce (place.overhear listener tell) o notice) := by
  have hcounted : place.Told listener [] o _ := told_count hl o notice
  rw [Store.announced_single]
  unfold announce
  dsimp only
  change place.Told listener
    (if (place.overheard.get o).store.announces notice = true then notice.rounds else []) o _
  split
  · exact hcounted.trans (told_rounds hq hs hlistens notice.rounds _)
  · exact hcounted

theorem told_announceAll (hl : place.Lawful) (hq : place.Quiet tell)
    (hs : place.Leaves listener tell) (notices : List (Notice K V)) {o : Overheard W K V}
    (hlistens : place.Listens listener o.world) :
    place.Told listener ((place.get o.world).store.announced notices) o
      (notices.foldl (place.overheard.announce (place.overhear listener tell)) o) := by
  induction notices generalizing o with
  | nil => exact .refl o
  | cons notice notices ih =>
    have hfirst := told_announce hl hq hs hlistens notice
    have hrest := ih (hfirst.listens hlistens)
    rw [Store.announced_congr hfirst.persistent] at hrest
    rw [← List.singleton_append, Store.announced_append]
    exact hfirst.trans hrest

/-- After the step of a call its notices are told. -/
theorem told_settle {A : Type} (hl : place.Lawful) (hq : place.Quiet tell)
    (hs : place.Leaves listener tell) {o : Overheard W K V}
    (hlistens : place.Listens listener o.world) (step : Store K V → Outcome K V A) :
    place.Told listener
      ((step (place.get o.world).store).store.announced (step (place.get o.world).store).notices)
      (place.overheard.set o
        { place.get o.world with store := (step (place.get o.world).store).store })
      (place.overheard.settle (place.overhear listener tell) o step).2 := by
  have hget : place.get (place.set o.world
      { place.get o.world with store := (step (place.get o.world).store).store }) =
        { place.get o.world with store := (step (place.get o.world).store).store } := hl _ _
  have hall := told_announceAll (o := place.overheard.set o
    { place.get o.world with store := (step (place.get o.world).store).store }) hl hq hs
    (step (place.get o.world).store).notices (by
      simp only [Listens, overheard, hget]
      exact hlistens)
  have hstore : (place.get (place.overheard.set o
      { place.get o.world with store := (step (place.get o.world).store).store }).world).store =
        (step (place.get o.world).store).store := congrArg Site.store hget
  rw [hstore] at hall
  exact hall

end Told

/-- What a listener knows of a store: the tiers follow from the events, no event showed a value that
was not there, and passivations came in pairs. -/
structure Known [DecidableEq K] [ShardKey K] (place : Place W K V) (options : StoreOptions)
    (listener : Subscriber) (o : Overheard W K V) : Prop where
  kept : (place.get o.world).store.Kept options
  reports : (place.get o.world).store.persistent = false
  listens : place.Listens listener o.world
  slot : (place.get o.world).store.slot = Event.replay o.events
  shown : ∀ x ∈ o.heard, x.2.Shows x.1
  paired : Paired o.events

section Known
variable [DecidableEq K] [ShardKey K] {place : Place W K V} {options : StoreOptions}
  {listener : Subscriber} {tell : Tell W K V} {o : Overheard W K V}

/-- A step on one key, and all that it leaves to be announced. -/
theorem Known.settle {A : Type} (h : place.Known options listener o) (hl : place.Lawful)
    (hq : place.Quiet tell) (hs : place.Leaves listener tell) {call : StoreCall K V}
    (hloud : call.Loud) {step : Store K V → Outcome K V A}
    (hstep : ∀ s, call.step s = ((step s).store, (step s).notices)) :
    place.Known options listener
      (place.overheard.settle (place.overhear listener tell) o step).2 := by
  let s := (place.get o.world).store
  let moved : Overheard W K V :=
    place.overheard.set o { place.get o.world with store := (step s).store }
  have hget : place.get moved.world = { place.get o.world with store := (step s).store } := hl _ _
  have hmoved : (place.get moved.world).store = (call.step s).1 := by
    rw [hget, hstep]
  have hreports : (step s).store.persistent = false := by
    have hpersistent := (s.settled_persistent call).1
    rw [hstep] at hpersistent
    exact hpersistent.trans h.reports
  have htold : place.Told listener ((call.step s).2.flatMap Notice.rounds) moved
      (place.overheard.settle (place.overhear listener tell) o step).2 := by
    rw [hstep, ← Store.announced_all hreports]
    exact told_settle hl hq hs h.listens step
  obtain ⟨news, hheard, hevents, hnews⟩ := htold.heard
  have hall : (place.overheard.settle (place.overhear listener tell) o step).2.events =
      o.events ++ (call.step s).2.flatMap Notice.rounds := by
    rw [Overheard.events, hheard, List.map_append, hevents]
    rfl
  have hlistens : place.Listens listener moved.world := by
    simp only [Listens, hget]
    exact h.listens
  refine ⟨?_, ?_, htold.listens hlistens, ?_, ?_, ?_⟩
  · apply htold.kept
    rw [hmoved]
    exact (call.step_steps h.kept).kept
  · rw [htold.persistent, hget]
    exact hreports
  · rw [Store.slot_congr htold.shards, hmoved, h.kept.step_slot hloud, hall, Event.replay_append,
      ← h.slot]
  · intro x hx
    rw [hheard] at hx
    rcases List.mem_append.mp hx with hold | hnew
    · exact h.shown x hold
    · have hmem : x.1 ∈ (call.step s).2.flatMap Notice.rounds := by
        rw [← hevents]
        exact List.mem_map_of_mem hnew
      obtain ⟨notice, hnotice, hevent⟩ := List.mem_flatMap.mp hmem
      have hthen := hnews x hnew
      rw [hmoved] at hthen
      exact (h.kept.step_shows hnotice hevent).congr hthen
  · rw [hall]
    exact h.paired.append (paired_announced _)

theorem Known.readAll (h : place.Known options listener o) (hl : place.Lawful)
    (hq : place.Quiet tell) (hs : place.Leaves listener tell) (keys : List K)
    (found : List (K × V)) :
    place.Known options listener
      (place.overheard.readAll (place.overhear listener tell) keys found o).2 := by
  rw [Place.readAll_world]
  induction keys generalizing o with
  | nil => exact h
  | cons key keys ih =>
    have hloud : (StoreCall.get key : StoreCall K V).Loud := trivial
    exact ih (h.settle hl hq hs hloud fun _ => rfl)

theorem Known.serve (h : place.Known options listener o) (hl : place.Lawful)
    (hq : place.Quiet tell) (hs : place.Leaves listener tell) {call : StoreCall K V}
    (hloud : call.Loud) :
    place.Known options listener
      (place.overheard.serve (place.overhear listener tell) o call).2 := by
  cases call with
  | get key => exact h.settle hl hq hs hloud fun _ => rfl
  | getAll keys => exact h.readAll hl hq hs keys []
  | put key value mode => exact h.settle hl hq hs hloud fun _ => rfl
  | remove key mode => exact h.settle hl hq hs hloud fun _ => rfl
  | evict key => exact h.settle hl hq hs hloud fun _ => rfl

/-- What a listener has heard since some moment. Every call tells of its change, and in between
anything may happen that leaves the store and the listener's registration alone. -/
inductive Hears (place : Place W K V) (tell : Tell W K V) (listener : Subscriber) (w₁ : W) :
    Overheard W K V → Prop
  | start : Hears place tell listener w₁ ⟨w₁, []⟩
  | aside {o : Overheard W K V} (h : Hears place tell listener w₁ o) {w : W}
      (hs : (place.get w).store = (place.get o.world).store) (hl : place.Listens listener w) :
      Hears place tell listener w₁ { o with world := w }
  | call {o : Overheard W K V} (h : Hears place tell listener w₁ o) {call : StoreCall K V}
      (hloud : call.Loud) :
      Hears place tell listener w₁
        (place.overheard.serve (place.overhear listener tell) o call).2

theorem Hears.known (hl : place.Lawful) (hq : place.Quiet tell)
    (hs : place.Leaves listener tell) {w₁ : W} (hstart : place.Known options listener ⟨w₁, []⟩)
    (h : Hears place tell listener w₁ o) : place.Known options listener o := by
  induction h with
  | start => exact hstart
  | aside _ hstore hlistens ih =>
    refine ⟨?_, ?_, hlistens, ?_, ih.shown, ih.paired⟩
    · rw [hstore]
      exact ih.kept
    · rw [hstore]
      exact ih.reports
    · rw [hstore]
      exact ih.slot
  | call _ hloud ih => exact ih.serve hl hq hs hloud

end Known

end Place

namespace Store
variable [DecidableEq K] [ShardKey K] {options : StoreOptions} {s : Store K V}

/-- A store without entries has two empty tiers. -/
theorem Kept.slot_of_empty (h : s.Kept options) (hsize : s.size = 0) :
    s.slot = Event.replay [] := by
  have hkeys : s.keys = [] := List.eq_nil_of_length_eq_zero (s.size_eq_keys.symm.trans hsize)
  funext key
  apply Shard.slot_of_find_none
  have hnone := h.mem_keys key
  rw [hkeys] at hnone
  cases hfind : s.find? key with
  | none => exact hfind
  | some value => exact absurd (hnone.mpr (by simp [hfind])) List.not_mem_nil

omit [DecidableEq K] in
theorem Kept.shard_of_mem (h : s.Kept options) {shard : Shard K V} (hshard : shard ∈ s.shards)
    {key : K} (hkey : key ∈ shard.keys) : s.shard key = shard := by
  obtain ⟨i, hi⟩ := List.getElem?_of_mem hshard
  rw [Store.shard, h.home i shard hi key hkey, hi]
  rfl

/-- What the shards hold in one of their tiers, each key is looked up in its own. -/
theorem Kept.mem_tier (h : s.Kept options) {tier : Shard K V → List (K × V)}
    (hkeys : ∀ shard, ∀ key ∈ keysOf (tier shard), key ∈ shard.keys)
    (hunique : ∀ shard ∈ s.shards, (keysOf (tier shard)).Nodup) (key : K) (value : V) :
    (key, value) ∈ s.shards.flatMap tier ↔ (tier (s.shard key)).lookup key = some value := by
  constructor
  · intro hm
    obtain ⟨shard, hshard, hentry⟩ := List.mem_flatMap.mp hm
    rw [h.shard_of_mem hshard (hkeys shard key (List.mem_map_of_mem hentry))]
    exact lookup_of_mem (hunique shard hshard) hentry
  · intro hlookup
    exact List.mem_flatMap.mpr ⟨s.shard key, h.sound.shard_mem key, mem_of_lookup hlookup⟩

theorem Kept.mem_active (h : s.Kept options) (key : K) (value : V) :
    (key, value) ∈ s.shards.flatMap Shard.active ↔ (s.slot key).active = some value :=
  h.mem_tier (fun _ _ => List.mem_append_left _) (fun shard hm => (h.sound.shard shard hm).active)
    key value

theorem Kept.mem_passivated (h : s.Kept options) (key : K) (value : V) :
    (key, value) ∈ s.shards.flatMap Shard.passivated ↔ (s.slot key).passivated = some value :=
  h.mem_tier (fun _ _ => List.mem_append_right _)
    (fun shard hm => (h.sound.shard shard hm).passivated) key value

end Store

namespace Place

/-- The events that a listener has heard since the store held nothing tell what it holds: played in
their order on two empty tiers they give the entries of both. No event showed a value that the store
did not hold at that moment, and the rounds of a passivation came one right after the other. -/
theorem Hears.replays [DecidableEq K] [ShardKey K] {place : Place W K V} {tell : Tell W K V}
    {options : StoreOptions} {listener : Subscriber} (hl : place.Lawful) (hq : place.Quiet tell)
    (hs : place.Leaves listener tell) {w₀ w₁ : W}
    (ho : Store.openWith options = .ok (place.get w₀).store) {calls : List (StoreCall K V)}
    (hbefore : place.Serves tell w₀ calls w₁) (hempty : (place.get w₁).store.size = 0)
    (hreports : (place.get w₁).store.persistent = false) (hlistens : place.Listens listener w₁)
    {o : Overheard W K V} (h : place.Hears tell listener w₁ o) :
    (∀ key value, (key, value) ∈ (place.get o.world).store.shards.flatMap Shard.active ↔
      (Event.replay o.events key).active = some value) ∧
    (∀ key value, (key, value) ∈ (place.get o.world).store.shards.flatMap Shard.passivated ↔
      (Event.replay o.events key).passivated = some value) ∧
    (∀ x ∈ o.heard, x.2.Shows x.1) ∧ Paired o.events := by
  have hkept := (hbefore.represents hl hq ho).kept
  have hstart : place.Known options listener ⟨w₁, []⟩ :=
    ⟨hkept, hreports, hlistens, hkept.slot_of_empty hempty, List.forall_mem_nil _, paired_nil⟩
  have hknown := h.known hl hq hs hstart
  refine ⟨?_, ?_, hknown.shown, hknown.paired⟩
  · intro key value
    rw [hknown.kept.mem_active, hknown.slot]
  · intro key value
    rw [hknown.kept.mem_passivated, hknown.slot]

/-- A store that has room for one active entry. Someone listens from the beginning and hears how the
key 2 makes room, comes back and makes the key 4 leave. -/
theorem Hears.replays_spilled :
    ∃ (place : Place (Site UInt64 Bool) UInt64 Bool) (w₀ w₁ : Site UInt64 Bool)
      (o : Overheard (Site UInt64 Bool) UInt64 Bool),
      (place.Lawful ∧ place.Quiet (fun _ _ w => w) ∧
        place.Leaves (.observer 0) (fun _ _ w => w)) ∧
      Store.openWith { shards := 1, capacity := some 1 } = .ok (place.get w₀).store ∧
      place.Serves (fun _ _ w => w) w₀ [] w₁ ∧
      (place.get w₁).store.size = 0 ∧ (place.get w₁).store.persistent = false ∧
      place.Listens (.observer 0) w₁ ∧
      place.Hears (fun _ _ w => w) (.observer 0) w₁ o ∧
      o.events = [.modified 2 true, .modified 4 false, .prePassivate 2 true, .postPassivate 2,
        .postActivate 2 true, .prePassivate 4 false, .postPassivate 4] ∧
      (4, false) ∈ (place.get o.world).store.shards.flatMap Shard.passivated ∧
      Paired o.events := by
  let place : Place (Site UInt64 Bool) UInt64 Bool := ⟨id, fun _ site => site⟩
  let w₀ : Site UInt64 Bool := ⟨⟨[⟨[], []⟩], some 1, false, 0, 0⟩, Listeners.empty⟩
  let w₁ : Site UInt64 Bool :=
    ⟨⟨[⟨[], []⟩], some 1, false, 0, 0⟩, (Listeners.empty.register (.observer 0)).2⟩
  have hl : place.Lawful := fun _ _ => rfl
  have hq : place.Quiet fun _ _ w => w := fun _ _ _ => rfl
  have hs : place.Leaves (.observer 0) fun _ _ w => w := fun _ _ _ h => h
  have ho : Store.openWith { shards := 1, capacity := some 1 } = .ok (place.get w₀).store := rfl
  have hbefore : place.Serves (fun _ _ w => w) w₀ [] w₁ := .aside .start rfl
  have hempty : (place.get w₁).store.size = 0 := rfl
  have hreports : (place.get w₁).store.persistent = false := rfl
  have hlistens : place.Listens (.observer 0) w₁ := rfl
  have hput : (StoreCall.put 2 true .normal : StoreCall UInt64 Bool).Loud := by nofun
  have hspill : (StoreCall.put 4 false .writeOnly : StoreCall UInt64 Bool).Loud := by nofun
  have hread : (StoreCall.get 2 : StoreCall UInt64 Bool).Loud := trivial
  have hhears := (Hears.start : place.Hears (fun _ _ w => w) (.observer 0) w₁ ⟨w₁, []⟩)
    |>.call hput |>.call hspill |>.call hread
  obtain ⟨-, hpassivated, -, hpaired⟩ :=
    Hears.replays hl hq hs ho hbefore hempty hreports hlistens hhears
  refine ⟨place, w₀, w₁, _, ⟨hl, hq, hs⟩, ho, hbefore, hempty, hreports, hlistens, hhears, ?_,
    (hpassivated 4 false).mpr ?_, hpaired⟩
  · decide +kernel
  · decide +kernel

end Place
end SessionAttributes
