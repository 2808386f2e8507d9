import SessionAttributes.Proofs.World.Aloof

namespace SessionAttributes

variable {V σ : Type}

inductive Shelf where
  | metadata
  | names
  | attributes

/-- One of the things that happen in a world. A whole operation, the closing of a factory and the
work of its pool are made of these. -/
inductive Happening (V : Type) where
  | metadata (call : StoreCall SessionId Metadata)
  | act (actor : World.Actor) (action : Action V)
  | work (number : Nat) (step : WorkerStep)
  | openFactory (options : FactoryOptions) (immutability : Immutability V) (context : String)
      (counts : Bool)
  /-- A factory stops listening and accepting. -/
  | stop (number : Nat)
  /-- The workers of a factory leave, if they have nothing left to do. -/
  | join (number : Nat)
  | openView (number : Nat) (session : SessionId) (bundle : Bundle V) (metadata : Metadata)
      (context : String)
  | closeView (number : Nat)
  | observe (shelf : Shelf) (number : Nat)
  /-- An observer stops listening. -/
  | unobserve (shelf : Shelf) (id : Nat)

namespace Happening

/-- Whether the names of a session are read, written or removed. -/
def UsesNames : Happening V → SessionId → Prop
  | .act _ (.names call), session => call.Uses session
  | _, _ => False

/-- Whether an attribute entry is read, written or removed. -/
def UsesEntry : Happening V → AttributeKey → Prop
  | .act _ (.attributes call), key => call.Uses key
  | _, _ => False

def isWork : Happening V → Bool
  | .work _ _ => true
  | _ => false

end Happening

def Executor.Holds {T : Type} (e : Executor T) (task : T) : Prop :=
  task ∈ e.queued ∨ task ∈ e.running

def Listeners.entriesOf (l : Listeners Subscriber) (subscriber : Subscriber) :
    List (Nat × Subscriber) := l.entries.filter fun e => e.2 = subscriber

/-- Takes a listener out, unless it is a factory. -/
def Listeners.unobserve (l : Listeners Subscriber) (id : Nat) : Listeners Subscriber :=
  if l.entries.any (fun e => e.1 == id && e.2 matches .observer _) then l.unlink id else l

namespace World

def changeListeners (w : World V σ) (change : Listeners Subscriber → Listeners Subscriber) :
    Shelf → World V σ
  | .metadata => { w with metadata := { w.metadata with listeners := change w.metadata.listeners } }
  | .names => { w with names := { w.names with listeners := change w.names.listeners } }
  | .attributes =>
    { w with attributes := { w.attributes with listeners := change w.attributes.listeners } }

def stop (w : World V σ) (number : Nat) : World V σ :=
  match w.factory? number with
  | none => w
  | some f =>
    if f.isOpen then
      (w.unsubscribe f.subscriptions).changeFactory number fun f =>
        { f with isOpen := false, executor := f.executor.stopAccepting }
    else w

def join (w : World V σ) (number : Nat) : World V σ :=
  w.changeFactory number fun f => { f with executor := f.executor.join }

def opened (w : World V σ) : Except SessionError (Nat × World V σ) → World V σ
  | .ok (_, w') => w'
  | .error _ => w

def happen (env : Surroundings V σ) (w : World V σ) : Happening V → World V σ
  | .metadata call => (w.callMetadata env call).2
  | .act actor action => (w.perform env actor action).2
  | .work number step => w.workerStep env number step
  | .openFactory options immutability context counts =>
    w.opened (w.openFactory options immutability context counts)
  | .stop number => w.stop number
  | .join number => w.join number
  | .openView number session bundle metadata context =>
    w.opened (w.openView number session bundle metadata context)
  | .closeView number => w.closeView number
  | .observe shelf number => w.changeListeners (fun l => (l.register (.observer number)).2) shelf
  | .unobserve shelf id => w.changeListeners (·.unobserve id) shelf

/-- The eviction that a factory has carried out when something has happened. -/
def finishes (w : World V σ) (number : Nat) : Happening V → List AttributeKey
  | .work k (.finish position) =>
    if k = number then ((w.factory? k).bind fun f => f.executor.running[position]?).toList else []
  | _ => []

/-- Closing a factory is to stop it, to carry out what it has accepted, and to let its workers
leave. -/
theorem closeFactory_eq (env : Surroundings V σ) (w : World V σ) {number : Nat} {f : Factory V}
    (hf : w.factory? number = some f) (ho : f.isOpen = true) :
    w.closeFactory env number = ((w.stop number).runTasks env number).join number := by
  simp only [closeFactory, stop, join, hf, ho, Bool.not_true, Bool.false_eq_true, if_false, if_true]

/-- The worlds that come about when nobody calls back. Calls may fail in them. -/
inductive Reached : World V σ → Prop
  | opened {metadata names attributes : StoreOptions} {scene : σ} {w : World V σ}
      (h : World.openWith metadata names attributes scene = .ok w) : Reached w
  | step {w : World V σ} (h : Reached w) {env : Surroundings V σ} (he : env.Aloof)
      (happening : Happening V) : Reached (w.happen env happening)

section Reached
variable {env : Surroundings V σ} {w : World V σ}

theorem Reached.all (h : w.Reached) (he : env.Aloof) (happenings : List (Happening V)) :
    (happenings.foldl (happen env) w).Reached := by
  induction happenings generalizing w with
  | nil => exact h
  | cons happening happenings ih => exact ih (h.step he happening)

/-- A procedure is carried out action by action. -/
theorem Reached.carryOut (h : w.Reached) (he : env.Aloof) (actor : Actor) {α : Type}
    (p : Procedure V α) : (w.carryOut env actor p).2.Reached := by
  induction p generalizing w with
  | done a => exact h
  | act action next ih => exact ih _ (h.step he (.act actor action))

theorem Reached.workerSteps (h : w.Reached) (he : env.Aloof) (number : Nat)
    (steps : List WorkerStep) : (w.workerSteps env number steps).Reached := by
  induction steps generalizing w with
  | nil => exact h
  | cons step steps ih => exact ih (h.step he (.work number step))

theorem Reached.closeFactory (h : w.Reached) (he : env.Aloof) (number : Nat) :
    (w.closeFactory env number).Reached := by
  cases hf : w.factory? number with
  | none =>
    unfold World.closeFactory
    simp only [hf]
    exact h
  | some f =>
    cases ho : f.isOpen with
    | false =>
      unfold World.closeFactory
      simp only [hf, ho, Bool.not_false, if_true]
      exact h
    | true =>
      rw [closeFactory_eq env w hf ho]
      exact ((h.step he (.stop number)).workerSteps he number _).step he (.join number)

end Reached

end World

namespace Listeners

/-- A list of listeners. `ids` tells the registrations of the factories that are in it, and whoever
is `away` is not in it. -/
structure Lists (l : Listeners Subscriber) (ids : Nat → Option Nat) (away : Nat → Prop) : Prop where
  nodup : (l.entries.map Prod.fst).Nodup
  fresh : ∀ e ∈ l.entries, e.1 < l.nextId
  listed : ∀ {number id}, ids number = some id →
    l.entriesOf (.factory number) = [(id, .factory number)]
  absent : ∀ {number}, away number → l.entriesOf (.factory number) = []

variable {l : Listeners Subscriber} {ids ids' : Nat → Option Nat} {away away' : Nat → Prop}

theorem Lists.register (h : l.Lists ids away) {subscriber : Subscriber}
    (hl : ∀ {number id}, ids' number = some id →
      (l.register subscriber).2.entriesOf (.factory number) = [(id, .factory number)])
    (ha : ∀ {number}, away' number →
      (l.register subscriber).2.entriesOf (.factory number) = []) :
    (l.register subscriber).2.Lists ids' away' := by
  refine ⟨?_, fun e he => ?_, hl, ha⟩
  · refine List.map_append ▸ List.nodup_append.mpr ⟨h.nodup, List.nodup_singleton _, ?_⟩
    intro id hid id' hid' heq
    obtain ⟨e, he, rfl⟩ := List.mem_map.mp hid
    obtain rfl := List.mem_singleton.mp hid'
    exact absurd (h.fresh e he) (heq ▸ Nat.lt_irrefl _)
  · rcases List.mem_append.mp he with he | he
    · exact Nat.lt_succ_of_lt (h.fresh e he)
    · obtain rfl := List.mem_singleton.mp he
      exact Nat.lt_succ_self _

theorem entriesOf_register (l : Listeners Subscriber) (subscriber other : Subscriber) :
    (l.register subscriber).2.entriesOf other =
      l.entriesOf other ++ if subscriber = other then [(l.nextId, subscriber)] else [] := by
  unfold Listeners.register entriesOf
  rw [List.filter_append]
  by_cases h : subscriber = other <;> simp [h]

theorem Lists.observe (h : l.Lists ids away) (number : Nat) :
    (l.register (.observer number)).2.Lists ids away := by
  refine h.register (fun hi => ?_) fun ha => ?_
  · rw [entriesOf_register, h.listed hi, if_neg nofun, List.append_nil]
  · rw [entriesOf_register, h.absent ha, if_neg nofun, List.append_nil]

/-- A factory that was not there before. -/
theorem Lists.enter (h : l.Lists ids away) {number : Nat} (hn : away number) :
    (l.register (.factory number)).2.Lists
      (fun k => if k = number then some l.nextId else ids k) (fun k => away k ∧ k ≠ number) := by
  refine h.register (fun {k id} hi => ?_) fun {k} ⟨ha, hne⟩ => ?_
  · rw [entriesOf_register]
    by_cases hk : k = number
    · subst hk
      obtain rfl := Option.some.inj ((if_pos rfl).symm.trans hi)
      rw [h.absent hn, if_pos rfl, List.nil_append]
    · rw [if_neg hk] at hi
      rw [h.listed hi, if_neg fun he => hk (Subscriber.factory.inj he).symm, List.append_nil]
  · rw [entriesOf_register, h.absent ha, if_neg fun he => hne (Subscriber.factory.inj he).symm,
      List.append_nil]

/-- A registration is taken out that belongs to none of those who stay. -/
theorem Lists.unlink (h : l.Lists ids away) {id : Nat}
    (hs : ∀ {number i}, ids' number = some i → ids number = some i ∧ i ≠ id)
    (ha : ∀ {number}, away' number → away number) : (l.unlink id).Lists ids' away' := by
  have hof : ∀ subscriber, (l.unlink id).entriesOf subscriber =
      (l.entriesOf subscriber).filter fun e => e.1 != id := by
    intro subscriber
    unfold Listeners.unlink entriesOf
    rw [List.filter_filter, List.filter_filter]
    simp only [Bool.and_comm]
  refine ⟨h.nodup.sublist (List.filter_sublist.map Prod.fst),
    fun e he => h.fresh e (List.mem_filter.mp he).1, fun hi => ?_, fun hn => ?_⟩
  · obtain ⟨hi, hne⟩ := hs hi
    rw [hof, h.listed hi]
    simp [hne]
  · rw [hof, h.absent (ha hn), List.filter_nil]

theorem Lists.mem (h : l.Lists ids away) {number id : Nat} (hi : ids number = some id) :
    (id, Subscriber.factory number) ∈ l.entries := by
  have hm : (id, Subscriber.factory number) ∈ l.entriesOf (.factory number) := by
    rw [h.listed hi]
    exact List.mem_singleton.mpr rfl
  exact (List.mem_filter.mp hm).1

/-- Of what is made of all listeners a factory has its share as often as it listens. -/
theorem snapshot_flatMap (l : Listeners Subscriber) (number : Nat) {E : Type} (made : List E) :
    (l.snapshot.flatMap fun hearer => if hearer = .factory number then made else []) =
      (l.entriesOf (.factory number)).flatMap fun _ => made := by
  suffices hall : ∀ entries : List (Nat × Subscriber),
      ((entries.map Prod.snd).flatMap fun hearer =>
        if hearer = .factory number then made else []) =
      (entries.filter fun e => e.2 = .factory number).flatMap fun _ => made from hall l.entries
  intro entries
  induction entries with
  | nil => rfl
  | cons e entries ih =>
    by_cases he : e.2 = .factory number <;> simp [he, ih]

/-- A factory that listens is met once. -/
theorem Lists.once (h : l.Lists ids away) {number id : Nat} (hi : ids number = some id) {E : Type}
    (made : List E) :
    (l.snapshot.flatMap fun hearer => if hearer = .factory number then made else []) = made := by
  rw [snapshot_flatMap, h.listed hi]
  exact List.append_nil _

/-- Two registrations with one number are one. -/
theorem Lists.unique (h : l.Lists ids away) {id : Nat} {s s' : Subscriber}
    (hs : (id, s) ∈ l.entries) (hs' : (id, s') ∈ l.entries) : s = s' :=
  congrArg Prod.snd (List.inj_on_of_nodup_map h.nodup hs hs' rfl)

theorem Lists.unobserve (h : l.Lists ids away) (id : Nat) : (l.unobserve id).Lists ids away := by
  unfold Listeners.unobserve
  split
  · rename_i ho
    obtain ⟨⟨i, subscriber⟩, hm, hi⟩ := List.any_eq_true.mp ho
    obtain ⟨hid, hobserver⟩ := Bool.and_eq_true_iff.mp hi
    obtain rfl : i = id := by simpa using hid
    refine h.unlink (fun {number j} hj => ⟨hj, ?_⟩) fun ha => ha
    rintro rfl
    obtain rfl := h.unique hm (h.mem hj)
    cases hobserver
  · exact h

end Listeners

/-- What a factory is to the stores and to its workers. -/
def Factory.post (f : Factory V) : Bool × Subscriptions × Executor AttributeKey :=
  (f.isOpen, f.subscriptions, f.executor)

namespace World

variable {env : Surroundings V σ} {w w' : World V σ}

def subscriptions? (w : World V σ) (number : Nat) : Option Subscriptions :=
  (w.factory? number).bind fun f => if f.isOpen then some f.subscriptions else none

theorem subscriptions?_of_open {number : Nat} {f : Factory V} (hf : w.factory? number = some f)
    (ho : f.isOpen = true) : w.subscriptions? number = some f.subscriptions := by
  rw [subscriptions?, hf, Option.bind_some, if_pos ho]

/-- Each store is as it was opened but for what was called, and each open factory is connected. -/
structure Wired (w : World V σ) : Prop where
  metadata : ∃ options, w.metadata.store.Kept options
  names : ∃ options, w.names.store.Kept options
  attributes : ∃ options, w.attributes.store.Kept options
  metadataListeners : w.metadata.listeners.Lists
    (fun number => (w.subscriptions? number).map (·.metadata.id)) (w.factory? · = none)
  namesListeners : w.names.listeners.Lists
    (fun number => (w.subscriptions? number).map (·.names.id)) (w.factory? · = none)
  accepting : ∀ {number f}, w.factory? number = some f → f.isOpen = true →
    f.executor.accepting = true

theorem Wired.sound (h : w.Wired) : w.Sound := by
  obtain ⟨⟨om, hm⟩, ⟨on, hn⟩, ⟨oa, ha⟩, -, -, -⟩ := h
  exact ⟨hm.sound, hn.sound, ha.sound⟩

/-- The stores settle some calls, and listeners, factories and workers stay as they are, but for
what the workers have to do. -/
structure Settles (w w' : World V σ) (metadata : List (StoreCall SessionId Metadata))
    (names : List (StoreCall SessionId Names)) (attributes : List (StoreCall AttributeKey Bytes))
    (work : Nat → Executor AttributeKey → Executor AttributeKey) : Prop where
  metadata : w'.metadata = { w.metadata with store := w.metadata.store.after metadata }
  names : w'.names = { w.names with store := w.names.store.after names }
  attributes : w'.attributes = { w.attributes with store := w.attributes.store.after attributes }
  post : ∀ number, (w'.factory? number).map Factory.post =
    (w.factory? number).map fun f => (f.isOpen, f.subscriptions, work number f.executor)

section Settling
variable {metadata : List (StoreCall SessionId Metadata)} {names : List (StoreCall SessionId Names)}
  {attributes : List (StoreCall AttributeKey Bytes)}
  {work : Nat → Executor AttributeKey → Executor AttributeKey}

theorem Settles.factory (h : w.Settles w' metadata names attributes work) {number : Nat}
    {f' : Factory V} (hf : w'.factory? number = some f') :
    ∃ f, w.factory? number = some f ∧ f'.isOpen = f.isOpen ∧
      f'.subscriptions = f.subscriptions ∧ f'.executor = work number f.executor := by
  have hpost := h.post number
  rw [hf] at hpost
  obtain ⟨f, hf, he⟩ := Option.map_eq_some_iff.mp hpost.symm
  obtain ⟨ho, hs⟩ := Prod.mk.inj he
  obtain ⟨hs, hx⟩ := Prod.mk.inj hs
  exact ⟨f, hf, ho.symm, hs.symm, hx.symm⟩

theorem Settles.factory' (h : w.Settles w' metadata names attributes work) {number : Nat}
    {f : Factory V} (hf : w.factory? number = some f) :
    ∃ f', w'.factory? number = some f' ∧ f'.isOpen = f.isOpen ∧
      f'.subscriptions = f.subscriptions ∧ f'.executor = work number f.executor := by
  have hpost := h.post number
  rw [hf] at hpost
  obtain ⟨f', hf', he⟩ := Option.map_eq_some_iff.mp hpost
  obtain ⟨ho, hs⟩ := Prod.mk.inj he
  obtain ⟨hs, hx⟩ := Prod.mk.inj hs
  exact ⟨f', hf', ho, hs, hx⟩

theorem Settles.none_iff (h : w.Settles w' metadata names attributes work) (number : Nat) :
    w'.factory? number = none ↔ w.factory? number = none := by
  rw [← Option.map_eq_none_iff (f := Factory.post), h.post, Option.map_eq_none_iff]

theorem Settles.subscriptions (h : w.Settles w' metadata names attributes work) :
    w'.subscriptions? = w.subscriptions? := by
  funext number
  have hread : ∀ w : World V σ, w.subscriptions? number =
      ((w.factory? number).map Factory.post).bind fun p => if p.1 then some p.2.1 else none := by
    intro w
    unfold subscriptions?
    cases w.factory? number <;> rfl
  rw [hread, hread, h.post]
  cases w.factory? number <;> rfl

/-- Whatever settles calls and lets the workers accept keeps a world wired. -/
theorem Wired.settling (hw : w.Wired) (h : w.Settles w' metadata names attributes work)
    (ha : ∀ number e, (work number e).accepting = e.accepting) : w'.Wired := by
  obtain ⟨⟨om, hm⟩, ⟨on, hn⟩, ⟨oa, hx⟩, hml, hnl, hacc⟩ := hw
  have hnone : (w'.factory? · = none) = (w.factory? · = none) :=
    funext fun number => propext (h.none_iff number)
  refine ⟨⟨om, ?_⟩, ⟨on, ?_⟩, ⟨oa, ?_⟩, ?_, ?_, fun {number f'} hf' ho' => ?_⟩
  · rw [h.metadata]
    exact hm.after metadata
  · rw [h.names]
    exact hn.after names
  · rw [h.attributes]
    exact hx.after attributes
  · rw [h.subscriptions, hnone, h.metadata]
    exact hml
  · rw [h.subscriptions, hnone, h.names]
    exact hnl
  · obtain ⟨f, hf, ho, -, hexecutor⟩ := h.factory hf'
    rw [hexecutor, ha]
    exact hacc hf (ho ▸ ho')

theorem Settles.refl (w : World V σ) : w.Settles w [] [] [] fun _ e => e :=
  ⟨rfl, rfl, rfl, fun _ => rfl⟩

/-- Evictions are handed out after the stores have settled some calls. -/
theorem Handed.settling {w₁ : World V σ} {orders : List (Nat × AttributeKey)}
    (h : w₁.Handed w' orders)
    (hm : w₁.metadata = { w.metadata with store := w.metadata.store.after metadata })
    (hn : w₁.names = { w.names with store := w.names.store.after names })
    (ha : w₁.attributes = { w.attributes with store := w.attributes.store.after attributes })
    (hf : w₁.factories = w.factories) :
    w.Settles w' metadata names attributes fun number e =>
      (forFactory number orders).foldl Executor.execute e := by
  refine ⟨h.metadata.trans hm, h.names.trans hn, h.attributes.trans ha, fun number => ?_⟩
  have hpost : ∀ o : Option (Factory V),
      o.map Factory.post = (o.map Factory.duty).map Factory.post := by
    intro o
    cases o <;> rfl
  have hfactory : w₁.factory? number = w.factory? number := congrArg (·[number]?) hf
  rw [hpost, h.factory, hfactory, Option.map_map]
  rfl

/-- The workers of a factory change what they have to do. -/
theorem Settles.change (h : w.Settles w' metadata names attributes work) (number : Nat)
    (change : Factory V → Factory V)
    (work' : Nat → Executor AttributeKey → Executor AttributeKey)
    (hc : ∀ f, (change f).isOpen = f.isOpen ∧ (change f).subscriptions = f.subscriptions)
    (hx : ∀ {k f}, w'.factory? k = some f → k = number → (change f).executor = work' k f.executor)
    (hsame : ∀ {k}, k ≠ number → ∀ e, work' k e = e) :
    w.Settles (w'.changeFactory number change) metadata names attributes
      fun k e => work' k (work k e) := by
  refine ⟨h.metadata, h.names, h.attributes, fun k => ?_⟩
  rw [factory?_changeFactory]
  split
  · rename_i hk
    cases hf : w.factory? k with
    | none => simp [(h.none_iff k).mpr hf]
    | some f =>
      obtain ⟨f', hf', ho, hs, hexecutor⟩ := h.factory' hf
      obtain ⟨hco, hcs⟩ := hc f'
      simp [hf', Factory.post, hco, hcs, hx hf' hk.symm, ho, hs, hexecutor]
  · rename_i hk
    rw [h.post]
    simp only [hsame (Ne.symm hk)]

end Settling

/-- A factory that is not open is not stopped again. -/
theorem stop_still (w : World V σ) (number : Nat) :
    w.stop number = w ∨ ∃ f, w.factory? number = some f ∧ f.isOpen = true := by
  cases hf : w.factory? number with
  | none => exact .inl (by simp only [stop, hf])
  | some f =>
    cases ho : f.isOpen with
    | false => exact .inl (by simp only [stop, hf, ho, Bool.false_eq_true, if_false])
    | true => exact .inr ⟨f, rfl, ho⟩

section Stopping
variable {number : Nat} {f : Factory V} (hf : w.factory? number = some f) (ho : f.isOpen = true)
include hf ho

theorem stop_eq : w.stop number = (w.unsubscribe f.subscriptions).changeFactory number fun f =>
    { f with isOpen := false, executor := f.executor.stopAccepting } := by
  simp only [stop, hf, ho, if_true]

theorem stop_factory? (k : Nat) : (w.stop number).factory? k =
    if number = k then (w.factory? k).map fun f =>
      { f with isOpen := false, executor := f.executor.stopAccepting } else w.factory? k := by
  rw [stop_eq hf ho, factory?_changeFactory]
  rfl

theorem stop_subscriptions? (k : Nat) :
    (w.stop number).subscriptions? k = if k = number then none else w.subscriptions? k := by
  unfold subscriptions?
  rw [stop_factory? hf ho]
  by_cases hk : number = k
  · subst hk
    simp [hf]
  · simp [hk, Ne.symm hk]

/-- One registration of the factory is taken out of a list of listeners, which is another one than
those of the factories that stay open. -/
theorem stop_lists {l : Listeners Subscriber} (id : Subscriptions → Nat)
    (hl : l.Lists (fun k => (w.subscriptions? k).map id) (w.factory? · = none)) :
    (l.unlink (id f.subscriptions)).Lists (fun k => ((w.stop number).subscriptions? k).map id)
      ((w.stop number).factory? · = none) := by
  refine hl.unlink (fun {k i} hi => ?_) fun {k} hk => ?_
  · rw [stop_subscriptions? hf ho] at hi
    by_cases hk : k = number
    · rw [if_pos hk] at hi
      cases hi
    · rw [if_neg hk] at hi
      refine ⟨hi, ?_⟩
      rintro rfl
      have hone : (id f.subscriptions, Subscriber.factory number) ∈ l.entries :=
        hl.mem (by rw [subscriptions?_of_open hf ho]; rfl)
      exact hk (Subscriber.factory.inj (hl.unique (hl.mem hi) hone))
  · rw [stop_factory? hf ho] at hk
    split at hk
    · exact Option.map_eq_none_iff.mp hk
    · exact hk

theorem stop_stores : (w.stop number).metadata.store = w.metadata.store ∧
    (w.stop number).names.store = w.names.store ∧
      (w.stop number).attributes.store = w.attributes.store := by
  rw [stop_eq hf ho]
  refine ⟨rfl, rfl, ?_⟩
  unfold unsubscribe changeFactory
  dsimp only
  split <;> rfl

theorem stop_wired (hw : w.Wired) : (w.stop number).Wired := by
  obtain ⟨hm, hn, ha, hml, hnl, hacc⟩ := hw
  obtain ⟨hms, hns, has⟩ := stop_stores hf ho
  have hlisteners :
      (w.stop number).metadata.listeners = w.metadata.listeners.unlink f.subscriptions.metadata.id ∧
        (w.stop number).names.listeners = w.names.listeners.unlink f.subscriptions.names.id := by
    rw [stop_eq hf ho]
    exact ⟨rfl, rfl⟩
  refine ⟨hms ▸ hm, hns ▸ hn, has ▸ ha,
    hlisteners.1 ▸ stop_lists hf ho (fun s => s.metadata.id) hml,
    hlisteners.2 ▸ stop_lists hf ho (fun s => s.names.id) hnl, fun {k f'} hf' ho' => ?_⟩
  rw [stop_factory? hf ho] at hf'
  split at hf'
  · obtain ⟨f'', -, rfl⟩ := Option.map_eq_some_iff.mp hf'
    cases ho'
  · exact hacc hf' ho'

end Stopping

/-- The world with one more factory that is open, accepts evictions and is connected to the
stores. -/
structure Entered (w w' : World V σ) (factory : Factory V) : Prop where
  isOpen : factory.isOpen = true
  accepting : factory.executor.accepting = true
  metadata : w'.metadata = { w.metadata with
    listeners := (w.metadata.listeners.register (.factory w.factories.length)).2 }
  names : w'.names = { w.names with
    listeners := (w.names.listeners.register (.factory w.factories.length)).2 }
  attributes : w'.attributes.store = w.attributes.store
  registered : factory.subscriptions.metadata.id = w.metadata.listeners.nextId ∧
    factory.subscriptions.names.id = w.names.listeners.nextId
  factories : w'.factories = w.factories ++ [factory]

/-- What it takes to open a factory. It listens to the attribute store if that reports what it
passivates. -/
theorem openFactory_shape {options : FactoryOptions} {immutability : Immutability V}
    {context : String} {counts : Bool} {number : Nat}
    (h : w.openFactory options immutability context counts = .ok (number, w')) :
    number = w.factories.length ∧ w'.views = w.views ∧ w'.scene = w.scene ∧
      ∃ f : Factory V, w.Entered w' f ∧ f.context = context ∧
        f.metrics = (if counts then some {} else none) ∧
        (w.attributes.store.persistent = false →
          w'.attributes = { w.attributes with
            listeners := (w.attributes.listeners.register (.factory number)).2 } ∧
          f.subscriptions.attributes =
            some (w.attributes.listeners.register (.factory number)).1) := by
  unfold openFactory at h
  cases hv : options.validate with
  | error fault =>
    rw [hv] at h
    cases h
  | ok _ =>
    cases hx : Executor.spawn (T := AttributeKey) options.workers with
    | error fault =>
      rw [hv, hx] at h
      cases h
    | ok executor =>
      have haccepting : executor.accepting = true := by
        unfold Executor.spawn at hx
        split at hx
        · cases hx
        · rw [← Except.ok.inj hx]
      cases hp : w.attributes.store.persistent with
      | false =>
        simp only [hv, hx, hp, bind, Except.bind, pure, Except.pure, Bool.false_eq_true, if_false,
          Except.ok.injEq, Prod.mk.injEq] at h
        obtain ⟨rfl, rfl⟩ := h
        exact ⟨rfl, rfl, rfl, _, ⟨rfl, haccepting, rfl, rfl, rfl, ⟨rfl, rfl⟩, rfl⟩, rfl, rfl,
          fun _ => ⟨rfl, rfl⟩⟩
      | true =>
        simp only [hv, hx, hp, bind, Except.bind, pure, Except.pure, if_true, Except.ok.injEq,
          Prod.mk.injEq] at h
        obtain ⟨rfl, rfl⟩ := h
        exact ⟨rfl, rfl, rfl, _, ⟨rfl, haccepting, rfl, rfl, rfl, ⟨rfl, rfl⟩, rfl⟩, rfl, rfl,
          nofun⟩

theorem openFactory_enters (w : World V σ) (options : FactoryOptions) (immutability : Immutability V)
    (context : String) (counts : Bool) :
    w.opened (w.openFactory options immutability context counts) = w ∨
      ∃ factory, w.Entered (w.opened (w.openFactory options immutability context counts))
        factory := by
  cases ho : w.openFactory options immutability context counts with
  | error fault => exact .inl rfl
  | ok r =>
    obtain ⟨-, -, -, factory, hentered, -⟩ := openFactory_shape ho
    exact .inr ⟨factory, hentered⟩

section Entering
variable {factory : Factory V} (h : w.Entered w' factory)
include h

theorem Entered.factory? (k : Nat) :
    w'.factory? k = if k = w.factories.length then some factory else w.factory? k := by
  unfold World.factory?
  rw [h.factories]
  split
  · rename_i hk
    rw [hk, List.getElem?_concat_length]
  · rename_i hk
    rcases Nat.lt_or_gt_of_ne hk with hlt | hgt
    · exact List.getElem?_append_left hlt
    · rw [List.getElem?_eq_none (Nat.le_of_lt hgt), List.getElem?_eq_none]
      rw [List.length_append, List.length_singleton]
      exact hgt

theorem Entered.lists {l : Listeners Subscriber} (id : Subscriptions → Nat)
    (hid : id factory.subscriptions = l.nextId)
    (hl : l.Lists (fun k => (w.subscriptions? k).map id) (w.factory? · = none)) :
    (l.register (.factory w.factories.length)).2.Lists
      (fun k => (w'.subscriptions? k).map id) (w'.factory? · = none) := by
  have hids : (fun k => (w'.subscriptions? k).map id) = fun k =>
      if k = w.factories.length then some l.nextId else (w.subscriptions? k).map id := by
    funext k
    unfold subscriptions?
    rw [h.factory?]
    split
    · rw [Option.bind_some, if_pos h.isOpen, Option.map_some, hid]
    · rfl
  have haway : (w'.factory? · = none) = fun k =>
      w.factory? k = none ∧ k ≠ w.factories.length := by
    funext k
    rw [h.factory?]
    split <;> simp [*]
  rw [hids, haway]
  exact hl.enter (List.getElem?_eq_none (Nat.le_refl _))

theorem Entered.wired (hw : w.Wired) : w'.Wired := by
  obtain ⟨hm, hn, ha, hml, hnl, hacc⟩ := hw
  refine ⟨?_, ?_, h.attributes ▸ ha, ?_, ?_, fun {k f} hf ho => ?_⟩
  · rw [h.metadata]
    exact hm
  · rw [h.names]
    exact hn
  · rw [h.metadata]
    exact h.lists (fun s => s.metadata.id) h.registered.1 hml
  · rw [h.names]
    exact h.lists (fun s => s.names.id) h.registered.2 hnl
  · rw [h.factory?] at hf
    split at hf
    · obtain rfl := Option.some.inj hf
      exact h.accepting
    · exact hacc hf ho

end Entering

end World
end SessionAttributes
