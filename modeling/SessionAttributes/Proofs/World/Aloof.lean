import SessionAttributes.Proofs.World.Echo
import SessionAttributes.Proofs.World.Plain

namespace SessionAttributes

variable {V σ : Type}

/-- Surroundings that change nothing but what they keep for themselves. Calls may fail in them. -/
abbrev Surroundings.Aloof (env : Surroundings V σ) : Prop :=
  env.Leaves fun w w' => ∃ scene, w' = { w with scene }

/-- The calls that come `through` among those that are made: some of them, and all if none can
fail. -/
structure Surroundings.Admits (env : Surroundings V σ) {C : Type} (made through : List C) :
    Prop where
  sublist : through.Sublist made
  all : env.Reliable → through = made

namespace Surroundings.Admits
variable {env : Surroundings V σ} {C : Type} {made made' through through' : List C}

theorem refl (env : Surroundings V σ) (made : List C) : env.Admits made made :=
  ⟨.refl _, fun _ => rfl⟩

theorem none (hr : ¬ env.Reliable) (made : List C) : env.Admits made [] :=
  ⟨List.nil_sublist _, fun hyes => absurd hyes hr⟩

theorem append (h : env.Admits made through) (h' : env.Admits made' through') :
    env.Admits (made ++ made') (through ++ through') :=
  ⟨h.sublist.append h'.sublist, fun hr => by rw [h.all hr, h'.all hr]⟩

end Surroundings.Admits

theorem Surroundings.quiet_aloof (m : Marshaller V) (draw : Nat → AttributeId) :
    (Surroundings.quiet (σ := σ) m draw).Aloof :=
  Surroundings.quiet_leaves m draw fun w => ⟨w.scene, rfl⟩

namespace Factory

/-- A factory whose workers were handed some evictions. -/
def order (f : Factory V) (keys : List AttributeKey) : Factory V :=
  { f with
    executor := keys.foldl Executor.execute f.executor
    metrics := f.metrics.map fun m =>
      { m with cascadeEvictions := m.cascadeEvictions + keys.length } }

/-- A factory without the counters that have nothing to do with its cascade. -/
def duty (f : Factory V) : Factory V :=
  { f with metrics := f.metrics.map fun m => { cascadeEvictions := m.cascadeEvictions } }

theorem order_nil (f : Factory V) : f.order [] = f := by
  unfold order
  cases h : f.metrics <;> simp [← h]

theorem order_order (f : Factory V) (keys keys' : List AttributeKey) :
    (f.order keys).order keys' = f.order (keys ++ keys') := by
  simp [order, List.foldl_append, Option.map_map, Function.comp_def, Nat.add_assoc]

end Factory

/-- The evictions that an entry of names stands for, one for each name. -/
def evictionsOf (e : SessionId × Names) : List AttributeKey :=
  e.2.values.map fun id => ⟨e.1, id⟩

namespace World

variable {env : Surroundings V σ} {w w' w'' : World V σ}

/-- The evictions for one factory among those for all of them. -/
def forFactory (number : Nat) (orders : List (Nat × AttributeKey)) : List AttributeKey :=
  orders.filterMap fun o => if o.1 = number then some o.2 else none

structure Handed (w w' : World V σ) (orders : List (Nat × AttributeKey)) : Prop where
  metadata : w'.metadata = w.metadata
  names : w'.names = w.names
  attributes : w'.attributes = w.attributes
  views : w'.views = w.views
  drawn : w'.drawn = w.drawn
  factory : ∀ number, (w'.factory? number).map Factory.duty =
    (w.factory? number).map fun f => f.duty.order (forFactory number orders)

theorem Handed.refl (w : World V σ) : w.Handed w [] :=
  ⟨rfl, rfl, rfl, rfl, rfl, fun number => by simp [forFactory, Factory.order_nil]⟩

theorem Handed.trans {orders orders' : List (Nat × AttributeKey)} (h : w.Handed w' orders)
    (h' : w'.Handed w'' orders') : w.Handed w'' (orders ++ orders') := by
  refine ⟨h'.metadata.trans h.metadata, h'.names.trans h.names, h'.attributes.trans h.attributes,
    h'.views.trans h.views, h'.drawn.trans h.drawn, fun number => ?_⟩
  have hlast : (w''.factory? number).map Factory.duty =
      ((w'.factory? number).map Factory.duty).map (·.order (forFactory number orders')) := by
    rw [h'.factory number, Option.map_map]
    rfl
  rw [hlast, h.factory number, Option.map_map]
  simp only [Function.comp_def, Factory.order_order, forFactory, List.filterMap_append]

theorem Handed.scene {scene : σ} (h : w' = { w with scene }) : w.Handed w' [] := by
  subst h
  exact ⟨rfl, rfl, rfl, rfl, rfl, fun number => by simp [forFactory, Factory.order_nil, factory?]⟩

/-- A counter that has nothing to do with the cascade. -/
theorem Handed.record (w : World V σ) (number : Nat) {measure : Measure}
    (hm : measure ≠ .cascadeEviction) : w.Handed (w.record number measure) [] := by
  refine ⟨rfl, rfl, rfl, rfl, rfl, fun k => ?_⟩
  have hcount : ∀ m : Metrics, (m.record measure).cascadeEvictions = m.cascadeEvictions := by
    intro m
    cases measure with
    | sessionDeleted silent => cases silent <;> rfl
    | activationNotified direction => cases direction <;> rfl
    | cascadeEviction => exact absurd rfl hm
    | _ => rfl
  rw [World.record, factory?_changeFactory]
  split
  · simp [Factory.duty, forFactory, Factory.order_nil, hcount, Function.comp_def, Option.map_map]
  · simp [forFactory, Factory.order_nil]

/-- One more eviction for a factory. -/
theorem Handed.schedule (w : World V σ) (number : Nat) (session : SessionId) (id : AttributeId) :
    w.Handed (schedule number session w id) [(number, ⟨session, id⟩)] := by
  refine ⟨rfl, rfl, rfl, rfl, rfl, fun k => ?_⟩
  rw [World.schedule, World.record, factory?_changeFactory, factory?_changeFactory]
  by_cases hk : number = k
  · simp [hk, Factory.duty, forFactory, Factory.order, Function.comp_def, Option.map_map,
      Metrics.record]
  · simp [hk, forFactory, Factory.order_nil]

/-- A call fails, or it is served between two moments in which the surroundings keep to
themselves. -/
theorem guarded_either {A : Type} (he : env.Aloof) (w : World V σ) (request : Request)
    (serve : World V σ → A × World V σ) :
    ((env.before request w).1 ≠ none ∧ w.Handed (w.guarded env request serve).2 []) ∨
      (env.before request w).1 = none ∧
        ∃ w₁, w.Handed w₁ [] ∧ (serve w₁).2.Handed (w.guarded env request serve).2 [] := by
  obtain ⟨scene, hw₁⟩ := he.before request w
  unfold guarded
  generalize env.before request w = r at hw₁
  obtain ⟨fault, w₁⟩ := r
  cases fault with
  | some fault => exact .inl ⟨nofun, .scene hw₁⟩
  | none =>
    obtain ⟨scene', hw₂⟩ := he.after request (serve w₁).2
    exact .inr ⟨rfl, w₁, .scene hw₁, .scene hw₂⟩

theorem guarded_aloof {A : Type} (he : env.Aloof) (w : World V σ) (request : Request)
    (serve : World V σ → A × World V σ) :
    (¬ env.Reliable ∧ w.Handed (w.guarded env request serve).2 []) ∨
      ∃ w₁, w.Handed w₁ [] ∧ (serve w₁).2.Handed (w.guarded env request serve).2 [] := by
  rcases guarded_either he w request serve with ⟨hno, hw⟩ | ⟨-, h⟩
  · exact .inl ⟨fun hr => hno (hr request w), hw⟩
  · exact .inr h

section Attributes

theorem relay_handed (he : env.Aloof) (number : Nat) (direction : Direction) (key : AttributeKey)
    (bytes : Bytes) (w : World V σ) : w.Handed (w.relay env number direction key bytes) [] := by
  obtain ⟨scene, hw₁⟩ := he.decode bytes w
  unfold relay
  generalize env.decode bytes w = r at hw₁
  obtain ⟨answer, w₁⟩ := r
  cases answer with
  | error fault => exact .scene hw₁
  | ok value =>
    obtain ⟨scene', hw₂⟩ := he.callback ⟨number, direction, ⟨key.session, none, none⟩,
      ((w₁.factory? number).map Factory.context).getD "", value⟩ w₁
    exact (Handed.scene hw₁).trans ((Handed.scene hw₂).trans (.record _ number nofun))

theorem attributesPlace_echoes (he : env.Aloof) :
    (attributesPlace : Place (World V σ) AttributeKey Bytes).Echoes (tellAttributes env)
      (fun w w' (_ : List Unit) => w.Handed w' []) fun _ _ => [] := by
  refine ⟨.refl, .trans, Handed.attributes, fun store h => ?_, fun _ _ => rfl, fun _ _ _ => rfl,
    fun _ => rfl, fun hearer event w => ?_, fun _ _ _ _ => rfl⟩
  · exact ⟨h.metadata, h.names, congrArg (fun site => { site with store }) h.attributes, h.views,
      h.drawn, h.factory⟩
  · cases hearer with
    | observer number =>
      obtain ⟨scene, hw⟩ := he.hear number (.attributes event) w
      exact .scene hw
    | factory number =>
      cases event with
      | prePassivate key bytes => exact relay_handed he number .passivate key bytes w
      | postActivate key bytes => exact relay_handed he number .activate key bytes w
      | _ => exact .refl w

/-- A call of the attribute store reaches nothing but that store. -/
theorem callAttributes_handed (he : env.Aloof) (w : World V σ)
    (call : StoreCall AttributeKey Bytes) :
    ∃ calls, env.Admits call.parts calls ∧
      (attributesPlace.withStore w (w.attributes.store.after calls)).Handed
        (w.callAttributes env call).2 [] := by
  have hecho := attributesPlace_echoes (V := V) he
  rcases guarded_aloof he w (.attributes call) fun w =>
    attributesPlace.serve (tellAttributes env) w call with ⟨hr, hw⟩ | ⟨w₁, hw₁, hw₂⟩
  · exact ⟨[], .none hr _, hw⟩
  · have hserve := hecho.serve w₁ call
    have hsite : attributesPlace.get w₁ = w.attributes := hw₁.attributes
    have hput := hecho.withStore (l := []) (w.attributes.store.after call.parts) hw₁
    rw [hsite] at hserve
    exact ⟨_, .refl env _, (hput.trans hserve).trans hw₂⟩

end Attributes

section Names

/-- A factory that listens hands the evictions of names to its workers. -/
def namesEcho : Subscriber → Event SessionId Names → List (Nat × AttributeKey)
  | .factory number, .prePassivate session names =>
    (evictionsOf (session, names)).map (number, ·)
  | _, _ => []

theorem namesPlace_echoes (he : env.Aloof) :
    (namesPlace : Place (World V σ) SessionId Names).Echoes (tellNames env) Handed namesEcho := by
  refine ⟨.refl, .trans, Handed.names, fun store h => ?_, fun _ _ => rfl, fun _ _ _ => rfl,
    fun _ => rfl, fun hearer event w => ?_, fun {notice} hn event hm hearer => ?_⟩
  · exact ⟨h.metadata, congrArg (fun site => { site with store }) h.names, h.attributes, h.views,
      h.drawn, h.factory⟩
  · cases hearer with
    | observer number =>
      obtain ⟨scene, hw⟩ := he.hear number (.names event) w
      exact .scene hw
    | factory number =>
      cases event with
      | prePassivate session names =>
        have hall : ∀ (ids : List AttributeId) (w : World V σ),
            w.Handed (ids.foldl (schedule number session) w)
              ((ids.map fun id => ⟨session, id⟩).map (number, ·)) := by
          intro ids
          induction ids with
          | nil => exact .refl
          | cons id ids ih => exact fun w => (Handed.schedule w number session id).trans (ih _)
        exact hall names.values w
      | _ => exact .refl w
  · cases notice with
    | passivated key value => cases hn
    | _ =>
      obtain rfl := List.mem_singleton.mp hm
      cases hearer <;> rfl

/-- The evictions that departures of names stand for, as the factories hear of them. -/
def orders (w : World V σ) (calls : List (StoreCall SessionId Names)) :
    List (Nat × AttributeKey) :=
  (w.names.store.heard calls).flatMap (Place.replies w.names.listeners.snapshot namesEcho)

/-- Nothing has happened but that the names store settled some calls, and the factories that listen
to it handed on its departures. -/
def Cascades (w w' : World V σ) (calls : List (StoreCall SessionId Names)) : Prop :=
  (namesPlace.withStore w (w.names.store.after calls)).Handed w' (w.orders calls)

variable {calls calls' : List (StoreCall SessionId Names)}

theorem Handed.cascades (h : w.Handed w' []) : w.Cascades w' [] := by
  unfold Cascades orders
  rw [Store.heard_nil]
  exact h

theorem Cascades.trans (he : env.Aloof) (h : w.Cascades w' calls) (h' : w'.Cascades w'' calls') :
    w.Cascades w'' (calls ++ calls') := (namesPlace_echoes he).next h h'

/-- A call of the names store that does not fail is settled by it. -/
theorem callNames_cascades (he : env.Aloof) (w : World V σ) (call : StoreCall SessionId Names) :
    ∃ calls, env.Admits call.parts calls ∧ w.Cascades (w.callNames env call).2 calls := by
  rcases guarded_aloof he w (.names call) fun w => namesPlace.serve (tellNames env) w call with
    ⟨hr, hw⟩ | ⟨w₁, hw₁, hw₂⟩
  · exact ⟨[], .none hr _, hw.cascades⟩
  · have hserve : w₁.Cascades _ call.parts := (namesPlace_echoes he).serve w₁ call
    have hall := hw₁.cascades.trans he (hserve.trans he hw₂.cascades)
    rw [List.append_nil] at hall
    exact ⟨_, .refl env _, hall⟩

end Names

section Metadata

/-- A factory that listens evicts the names of a session whose metadata left primary memory. -/
def metadataEcho : Subscriber → Event SessionId Metadata → List (StoreCall SessionId Names)
  | .factory _, .postPassivate session => [.evict session]
  | _, _ => []

theorem metadataPlace_echoes (he : env.Aloof) :
    (metadataPlace : Place (World V σ) SessionId Metadata).Echoes (tellMetadata env)
      (fun w w' made => ∃ calls, env.Admits made calls ∧ w.Cascades w' calls) metadataEcho := by
  refine ⟨fun w => ⟨[], .refl env _, (Handed.refl w).cascades⟩, ?_, ?_, ?_, fun _ _ => rfl,
    fun _ _ _ => rfl, fun _ => rfl, fun hearer event w => ?_, fun {notice} hn event hm hearer => ?_⟩
  · rintro w w' w'' made made' ⟨calls, hmade, h⟩ ⟨calls', hmade', h'⟩
    exact ⟨calls ++ calls', hmade.append hmade', h.trans he h'⟩
  · rintro w w' made ⟨calls, -, h⟩
    exact h.metadata
  · rintro w w' made store ⟨calls, hmade, h⟩
    exact ⟨calls, hmade, congrArg (fun site => { site with store }) h.metadata, h.names,
      h.attributes, h.views, h.drawn, h.factory⟩
  · cases hearer with
    | observer number =>
      obtain ⟨scene, hw⟩ := he.hear number (.metadata event) w
      exact ⟨[], .refl env _, (Handed.scene hw).cascades⟩
    | factory number =>
      cases event with
      | postPassivate session => exact callNames_cascades he w (.evict session)
      | _ => exact ⟨[], .refl env _, (Handed.refl w).cascades⟩
  · cases notice with
    | passivated key value => cases hn
    | _ =>
      obtain rfl := List.mem_singleton.mp hm
      cases hearer <;> rfl

/-- The evictions of names that departures of metadata bring about. -/
def evictions (w : World V σ) (calls : List (StoreCall SessionId Metadata)) :
    List (StoreCall SessionId Names) :=
  (w.metadata.store.heard calls).flatMap
    (Place.replies w.metadata.listeners.snapshot metadataEcho)

theorem mem_evictions {calls : List (StoreCall SessionId Metadata)} {c : StoreCall SessionId Names}
    (hc : c ∈ w.evictions calls) : ∃ session, c = .evict session := by
  obtain ⟨e, -, hc⟩ := List.mem_flatMap.mp hc
  rcases List.mem_append.mp hc with hc | hc <;> obtain ⟨hearer, -, hc⟩ := List.mem_flatMap.mp hc
  · cases hearer <;> cases hc
  · cases hearer with
    | observer number => cases hc
    | factory number => exact ⟨_, List.mem_singleton.mp hc⟩

/-- A call of the metadata store that does not fail is settled by it, and whoever leaves primary
memory takes the names along. -/
theorem callMetadata_cascades (he : env.Aloof) (w : World V σ)
    (call : StoreCall SessionId Metadata) :
    ∃ calls names, env.Admits call.parts calls ∧ env.Admits (w.evictions call.parts) names ∧
      (metadataPlace.withStore w (w.metadata.store.after calls)).Cascades
        (w.callMetadata env call).2 names := by
  have hecho := metadataPlace_echoes (V := V) he
  rcases guarded_aloof he w (.metadata call) fun w =>
    metadataPlace.serve (tellMetadata env) w call with ⟨hr, hw⟩ | ⟨w₁, hw₁, hw₂⟩
  · exact ⟨[], [], .none hr _, .none hr _, hw.cascades⟩
  · have hserve := hecho.serve w₁ call
    have hsite : metadataPlace.get w₁ = w.metadata := hw₁.metadata
    have hput := hecho.withStore (w.metadata.store.after call.parts)
      ⟨[], .refl env [], hw₁.cascades⟩
    rw [hsite] at hserve
    obtain ⟨names, hnames, h⟩ := hecho.trans (hecho.trans hput hserve)
      ⟨[], .refl env [], hw₂.cascades⟩
    rw [List.nil_append, List.append_nil] at hnames
    exact ⟨_, names, .refl env _, hnames, h⟩

end Metadata
end World
end SessionAttributes
