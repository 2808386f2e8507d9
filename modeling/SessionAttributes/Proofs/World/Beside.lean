import SessionAttributes.Proofs.World.Cascade
import SessionAttributes.Proofs.World.Impartial
import SessionAttributes.Proofs.World.Retirement

namespace SessionAttributes

variable {V σ : Type}

/-- What a factory was opened with, and whether it still is open. -/
def Factory.standing (f : Factory V) : Bool × Immutability V × String × Subscriptions :=
  (f.isOpen, f.immutability, f.context, f.subscriptions)

namespace World

variable {env : Surroundings V σ} {w w' A A' B B' C : World V σ} {k n j : Nat}

/-- Two worlds that are the same to everybody but one factory. Of the names it is the tiers that may
differ, and they do not as long as another one of the first `n` factories is open. -/
structure Beside (k n : Nat) (A B : World V σ) : Prop where
  metadata : A.metadata.store = B.metadata.store
  names : A.names.store.find? = B.names.store.find?
  attributes : A.attributes.store.find? = B.attributes.store.find?
  persistent : A.attributes.store.persistent = B.attributes.store.persistent
  listeners : ∀ shelf, (A.listenersOf shelf).without k = (B.listenersOf shelf).without k
  views : A.views = B.views
  drawn : A.drawn = B.drawn
  count : A.factories.length = B.factories.length
  standing : ∀ {j}, j ≠ k →
    (A.factory? j).map Factory.standing = (B.factory? j).map Factory.standing
  deeds : ∀ {j}, j ≠ k → A.deeds j = B.deeds j
  duty : ∀ {j}, j ≠ k → j < n →
    (A.factory? j).map Factory.duty = (B.factory? j).map Factory.duty
  abreast : ∀ {j}, j ≠ k → j < n → (A.subscriptions? j).isSome → A.names.store = B.names.store

theorem Beside.refl (k n : Nat) (w : World V σ) : Beside k n w w :=
  ⟨rfl, rfl, rfl, rfl, fun _ => rfl, rfl, rfl, rfl, fun _ => rfl, fun _ => rfl, fun _ _ => rfl,
    fun _ _ _ => rfl⟩

theorem subscriptions?_standing
    (h : (A.factory? j).map Factory.standing = (B.factory? j).map Factory.standing) :
    A.subscriptions? j = B.subscriptions? j := by
  have hread : ∀ w : World V σ, w.subscriptions? j =
      ((w.factory? j).map Factory.standing).bind fun s => if s.1 then some s.2.2.2 else none := by
    intro w
    unfold subscriptions?
    cases w.factory? j <;> rfl
  rw [hread, hread, h]

theorem Beside.subscriptions (h : Beside k n A B) (hj : j ≠ k) :
    A.subscriptions? j = B.subscriptions? j := subscriptions?_standing (h.standing hj)

theorem Beside.symm (h : Beside k n A B) : Beside k n B A :=
  ⟨h.metadata.symm, h.names.symm, h.attributes.symm, h.persistent.symm,
    fun shelf => (h.listeners shelf).symm, h.views.symm, h.drawn.symm, h.count.symm,
    fun hj => (h.standing hj).symm, fun hj => (h.deeds hj).symm, fun hj hn => (h.duty hj hn).symm,
    fun hj hn ho => (h.abreast hj hn (h.subscriptions hj ▸ ho)).symm⟩

theorem Beside.trans (h : Beside k n A B) (h' : Beside k n B C) : Beside k n A C :=
  ⟨h.metadata.trans h'.metadata, h.names.trans h'.names, h.attributes.trans h'.attributes,
    h.persistent.trans h'.persistent, fun shelf => (h.listeners shelf).trans (h'.listeners shelf),
    h.views.trans h'.views, h.drawn.trans h'.drawn, h.count.trans h'.count,
    fun hj => (h.standing hj).trans (h'.standing hj), fun hj => (h.deeds hj).trans (h'.deeds hj),
    fun hj hn => (h.duty hj hn).trans (h'.duty hj hn),
    fun hj hn ho => (h.abreast hj hn ho).trans (h'.abreast hj hn (h.subscriptions hj ▸ ho))⟩

/-- Who listens but the factory is the same, one by one. -/
theorem Beside.entriesOf (h : Beside k n A B) (shelf : Shelf) {subscriber : Subscriber}
    (hs : subscriber ≠ .factory k) :
    (A.listenersOf shelf).entriesOf subscriber = (B.listenersOf shelf).entriesOf subscriber := by
  have hwithout := congrArg (·.entriesOf subscriber) (h.listeners shelf)
  simp only [Listeners.entriesOf_without, if_neg hs] at hwithout
  exact hwithout

/-- The stores have made some steps, and the factories were handed some evictions. -/
structure Turns (w w' : World V σ) (metadata : Store SessionId Metadata)
    (names : Store SessionId Names) (attributes : Store AttributeKey Bytes)
    (orders : List (Nat × AttributeKey)) : Prop where
  metadata : w'.metadata = { w.metadata with store := metadata }
  names : w'.names = { w.names with store := names }
  attributes : w'.attributes = { w.attributes with store := attributes }
  views : w'.views = w.views
  drawn : w'.drawn = w.drawn
  factory : ∀ number, (w'.factory? number).map Factory.duty =
    (w.factory? number).map fun f => f.duty.order (forFactory number orders)
  uncounted : w.Uncounted w'

theorem Handed.turns {w₁ : World V σ} {orders : List (Nat × AttributeKey)} (h : w₁.Handed w' orders)
    (hm : w₁.metadata = { w.metadata with store := w₁.metadata.store })
    (hn : w₁.names = { w.names with store := w₁.names.store })
    (ha : w₁.attributes = { w.attributes with store := w₁.attributes.store })
    (hf : w₁.factories = w.factories) (hv : w₁.views = w.views) (hd : w₁.drawn = w.drawn)
    (hu : w.Uncounted w') :
    w.Turns w' w₁.metadata.store w₁.names.store w₁.attributes.store orders := by
  refine ⟨h.metadata.trans hm, h.names.trans hn, h.attributes.trans ha, h.views.trans hv,
    h.drawn.trans hd, fun number => ?_, hu⟩
  rw [h.factory]
  exact congrArg (Option.map _) (congrArg (·[number]?) hf)

theorem Turns.refl (w : World V σ) :
    w.Turns w w.metadata.store w.names.store w.attributes.store [] :=
  (Handed.refl w).turns rfl rfl rfl rfl rfl rfl rfl

section Turning
variable {metadata metadata' : Store SessionId Metadata} {names names' : Store SessionId Names}
  {attributes attributes' : Store AttributeKey Bytes} {orders orders' : List (Nat × AttributeKey)}

theorem Turns.standing (h : w.Turns w' metadata names attributes orders) (number : Nat) :
    (w'.factory? number).map Factory.standing = (w.factory? number).map Factory.standing := by
  have hduty : ∀ o : Option (Factory V),
      o.map Factory.standing = (o.map Factory.duty).map Factory.standing := by
    intro o
    cases o <;> rfl
  rw [hduty, h.factory, Option.map_map]
  rfl

theorem Turns.count (h : w.Turns w' metadata names attributes orders) :
    w'.factories.length = w.factories.length := by
  have hnone : ∀ number, w'.factory? number = none ↔ w.factory? number = none := by
    intro number
    rw [← Option.map_eq_none_iff (f := Factory.duty), h.factory, Option.map_eq_none_iff]
  have hle : ∀ m, w'.factories.length ≤ m ↔ w.factories.length ≤ m := by
    intro m
    have hm := hnone m
    unfold factory? at hm
    rwa [List.getElem?_eq_none_iff, List.getElem?_eq_none_iff] at hm
  exact Nat.le_antisymm ((hle _).mpr (Nat.le_refl _)) ((hle _).mp (Nat.le_refl _))

theorem Turns.listeners (h : w.Turns w' metadata names attributes orders) :
    w'.listenersOf = w.listenersOf := by
  funext shelf
  cases shelf with
  | metadata => rw [listenersOf, h.metadata]; rfl
  | names => rw [listenersOf, h.names]; rfl
  | attributes => rw [listenersOf, h.attributes]; rfl

/-- Both worlds turn alike. -/
theorem Beside.turns (h : Beside k n A B) (hA : A.Turns A' metadata names attributes orders)
    (hB : B.Turns B' metadata' names' attributes' orders') (hm : metadata = metadata')
    (hn : names.find? = names'.find?) (ha : attributes.find? = attributes'.find?)
    (hp : attributes.persistent = attributes'.persistent)
    (hduty : ∀ j, j ≠ k → j < n → forFactory j orders = forFactory j orders')
    (habreast : ∀ j, j ≠ k → j < n → (A.subscriptions? j).isSome → names = names') :
    Beside k n A' B' := by
  constructor
  · rw [hA.metadata, hB.metadata, hm]
  · rw [hA.names, hB.names, hn]
  · rw [hA.attributes, hB.attributes, ha]
  · rw [hA.attributes, hB.attributes, hp]
  · intro shelf
    rw [hA.listeners, hB.listeners]
    exact h.listeners shelf
  · rw [hA.views, hB.views, h.views]
  · rw [hA.drawn, hB.drawn, h.drawn]
  · rw [hA.count, hB.count, h.count]
  · intro j hj
    rw [hA.standing, hB.standing, h.standing hj]
  · intro j hj
    rw [hA.uncounted, hB.uncounted, h.deeds hj]
  · intro j hj hlt
    have hboth := congrArg (Option.map (·.order (forFactory j orders))) (h.duty hj hlt)
    rw [Option.map_map, Option.map_map] at hboth
    rw [hA.factory, hB.factory, ← hduty j hj hlt]
    exact hboth
  · intro j hj hlt ho
    rw [subscriptions?_standing (hA.standing j)] at ho
    rw [hA.names, hB.names, habreast j hj hlt ho]

end Turning

section Calling
variable (he : env.Aloof) (hi : env.Impartial)
include he hi

theorem callAttributes_turns (w₀ w : World V σ) (call : StoreCall AttributeKey Bytes) :
    w.Turns (w.callAttributes env call).2 w.metadata.store w.names.store
      (w.attributes.store.after (if env.permits w₀ (.attributes call) then call.parts else []))
      [] :=
  (callAttributes_permits he hi w₀ w call).turns rfl rfl rfl rfl rfl rfl
    ((deeds_lasting w.deeds).callAttributes (he.discreet.observes _) call rfl)

theorem callNames_turns (w₀ w : World V σ) (call : StoreCall SessionId Names) :
    let calls := if env.permits w₀ (.names call) then call.parts else []
    w.Turns (w.callNames env call).2 w.metadata.store (w.names.store.after calls)
      w.attributes.store (w.orders calls) :=
  Handed.turns (callNames_permits he hi w₀ w call) rfl rfl rfl rfl rfl rfl
    ((deeds_lasting w.deeds).callNames (he.discreet.observes _) call rfl)

theorem callMetadata_turns (w₀ w : World V σ) (call : StoreCall SessionId Metadata) :
    let calls := if env.permits w₀ (.metadata call) then call.parts else []
    let evicted := (w.evictions calls).filter fun c => env.permits w₀ (.names c)
    w.Turns (w.callMetadata env call).2 (w.metadata.store.after calls)
      (w.names.store.after evicted) w.attributes.store (w.orders evicted) :=
  Handed.turns (callMetadata_permits he hi w₀ w call) rfl rfl rfl rfl rfl rfl
    ((deeds_lasting w.deeds).callMetadata (he.discreet.observes _) call rfl)

end Calling

/-- Of the evictions that departures of metadata bring about the first one of each session has an
effect, if anybody listens. -/
theorem evictions_once {options : StoreOptions} (hk : w.names.store.Kept options)
    {ids : Nat → Option Nat} {away : Nat → Prop} (h : w.metadata.listeners.Lists ids away)
    {id : Nat} (hi : ids j = some id) (calls : List (StoreCall SessionId Metadata))
    (p : StoreCall SessionId Names → Bool) :
    let once := (((w.metadata.store.heard calls).map Prod.fst).filter fun s => p (.evict s)).map
      StoreCall.evict
    w.names.store.after ((w.evictions calls).filter p) = w.names.store.after once ∧
      w.names.store.departures ((w.evictions calls).filter p) =
        w.names.store.departures once := by
  obtain ⟨m, hm⟩ := evictions_eq h hi calls
  have hfilter : (w.evictions calls).filter p =
      (((w.metadata.store.heard calls).map Prod.fst).filter fun s => p (.evict s)).flatMap
        fun s => List.replicate (m + 1) (.evict s) := by
    rw [hm]
    generalize (w.metadata.store.heard calls).map Prod.fst = sessions
    induction sessions with
    | nil => rfl
    | cons session sessions ih =>
      rw [List.flatMap_cons, List.filter_append, ih, List.filter_cons]
      cases hp : p (.evict session) <;> simp [hp]
  rw [hfilter]
  exact hk.evict_each _ m

/-- The same departures are the same orders to everybody but the factory. -/
theorem Beside.orders (h : Beside k n A B) (hA : A.Regular) (hj : j ≠ k)
    {calls calls' : List (StoreCall SessionId Names)}
    (hheard : (A.subscriptions? j).isSome →
      A.names.store.heard calls = B.names.store.heard calls') :
    forFactory j (A.orders calls) = forFactory j (B.orders calls') := by
  have hentries : A.names.listeners.entriesOf (.factory j) =
      B.names.listeners.entriesOf (.factory j) :=
    h.entriesOf .names fun heq => hj (Subscriber.factory.inj heq)
  rw [forFactory_orders, forFactory_orders]
  cases hs : A.subscriptions? j with
  | some s => rw [hheard (by rw [hs]; rfl), hentries]
  | none =>
    have hnone : A.names.listeners.entriesOf (.factory j) = [] :=
      (hA.listed .names).absent (by simp [enrolled, hs])
    rw [← hentries, hnone]
    exact (List.flatMap_eq_nil_iff.mpr fun _ _ => rfl).trans
      (List.flatMap_eq_nil_iff.mpr fun _ _ => rfl).symm

section Calls
variable (h : Beside k n A B) (hA : A.Regular) (hB : B.Regular)
  {metadata names attributes metadata' names' attributes' : StoreOptions}
  (hkA : A.Placed metadata names attributes) (hkB : B.Placed metadata' names' attributes')
  (he : env.Aloof) (hi : env.Impartial)
include h hA hB hkA hkB he hi

omit hA hB in
theorem Beside.callAttributes (call : StoreCall AttributeKey Bytes) :
    Beside k n (A.callAttributes env call).2 (B.callAttributes env call).2 := by
  refine h.turns (callAttributes_turns he hi A A call) (callAttributes_turns he hi A B call)
    h.metadata h.names ?_ ?_ (fun _ _ _ => rfl) fun j => h.abreast
  · split
    · rw [hkA.attributes.parts_find, hkB.attributes.parts_find, h.attributes]
    · exact h.attributes
  · rw [Store.after_persistent, Store.after_persistent]
    exact h.persistent

omit hB in
theorem Beside.callNames (call : StoreCall SessionId Names) :
    Beside k n (A.callNames env call).2 (B.callNames env call).2 := by
  refine h.turns (callNames_turns he hi A A call) (callNames_turns he hi A B call)
    h.metadata ?_ h.attributes h.persistent (fun j hj hlt => ?_) fun j hj hlt ho => ?_
  · split
    · rw [hkA.names.parts_find, hkB.names.parts_find, h.names]
    · exact h.names
  · exact h.orders hA hj fun ho => by rw [h.abreast hj hlt ho]
  · rw [h.abreast hj hlt ho]

omit he hi in
/-- As long as another factory is open it evicts the names that the factory would evict. -/
theorem Beside.evictions (hj : j ≠ k) (hlt : j < n) (ho : (A.subscriptions? j).isSome)
    (calls : List (StoreCall SessionId Metadata)) (p : StoreCall SessionId Names → Bool) :
    A.names.store.after ((A.evictions calls).filter p) =
        B.names.store.after ((B.evictions calls).filter p) ∧
      A.names.store.heard ((A.evictions calls).filter p) =
        B.names.store.heard ((B.evictions calls).filter p) := by
  obtain ⟨s, hs⟩ := Option.isSome_iff_exists.mp ho
  have hs' : B.subscriptions? j = some s := (h.subscriptions hj).symm.trans hs
  obtain ⟨hafter, hleft⟩ := evictions_once hkA.names (hA.listed .metadata)
    (show A.enrolled .metadata j = some s.metadata.id by rw [enrolled, hs]; rfl) calls p
  obtain ⟨hafter', hleft'⟩ := evictions_once hkB.names (hB.listed .metadata)
    (show B.enrolled .metadata j = some s.metadata.id by rw [enrolled, hs']; rfl) calls p
  unfold Store.heard
  rw [hafter, hafter', hleft, hleft', h.metadata, h.abreast hj hlt ho]
  exact ⟨rfl, rfl⟩

theorem Beside.callMetadata (call : StoreCall SessionId Metadata) :
    Beside k n (A.callMetadata env call).2 (B.callMetadata env call).2 := by
  have hfind : ∀ {w : World V σ} {options : StoreOptions}, w.names.store.Kept options →
      ∀ (calls : List (StoreCall SessionId Metadata)) (p : StoreCall SessionId Names → Bool),
      (w.names.store.after ((w.evictions calls).filter p)).find? = w.names.store.find? :=
    fun hk calls p => hk.evicted_find fun c hc => mem_evictions (List.mem_filter.mp hc).1
  refine h.turns (callMetadata_turns he hi A A call) (callMetadata_turns he hi A B call)
    ?_ ?_ h.attributes h.persistent (fun j hj hlt => ?_) fun j hj hlt ho => ?_
  · rw [h.metadata]
  · rw [hfind hkA.names, hfind hkB.names, h.names]
  · exact h.orders hA hj fun ho => (h.evictions hA hB hkA hkB hj hlt ho _ _).2
  · exact (h.evictions hA hB hkA hkB hj hlt ho _ _).1

end Calls

section Changing

theorem factory_duty (number : Nat) (change : Factory V → Factory V)
    (hd : ∀ f, (change f).duty = (change f.duty).duty) (w : World V σ) (i : Nat) :
    ((w.changeFactory number change).factory? i).map Factory.duty =
      ((w.factory? i).map Factory.duty).map fun f => if number = i then (change f).duty else f := by
  rw [factory?_changeFactory]
  split
  · rw [Option.map_map, Option.map_map]
    exact congrArg (Option.map · _) (funext hd)
  · exact Option.map_id'.symm

/-- A factory changes alike in both worlds. -/
theorem Beside.change (h : Beside k n A B) (number : Nat) {change : Factory V → Factory V}
    (hd : ∀ f, (change f).duty = (change f.duty).duty)
    (hs : ∀ f f', f.standing = f'.standing → (change f).standing = (change f').standing)
    (ho : ∀ f, (change f).isOpen = true → f.isOpen = true)
    (hm : ∀ {j}, j ≠ k →
      (A.changeFactory number change).deeds j = (B.changeFactory number change).deeds j) :
    Beside k n (A.changeFactory number change) (B.changeFactory number change) := by
  refine ⟨h.metadata, h.names, h.attributes, h.persistent, fun shelf => ?_, h.views, h.drawn, ?_,
    fun {j} hj => ?_, hm, fun {j} hj hlt => ?_, fun {j} hj hlt hopen => h.abreast hj hlt ?_⟩
  · have hl := h.listeners shelf
    cases shelf <;> exact hl
  · simpa [changeFactory] using h.count
  · have hboth := h.standing hj
    rw [factory?_changeFactory, factory?_changeFactory]
    split
    · rw [Option.map_map, Option.map_map]
      cases hfA : A.factory? j with
      | none =>
        rw [hfA, Option.map_none, eq_comm, Option.map_eq_none_iff] at hboth
        rw [hboth]
      | some f =>
        rw [hfA, Option.map_some] at hboth
        obtain ⟨f', hfB, heq⟩ := Option.map_eq_some_iff.mp hboth.symm
        rw [hfB]
        exact congrArg some (hs f f' heq.symm)
    · exact hboth
  · rw [factory_duty number change hd, factory_duty number change hd, h.duty hj hlt]
  · unfold subscriptions? at hopen ⊢
    rw [factory?_changeFactory] at hopen
    split at hopen
    · cases hf : A.factory? j with
      | none => simp [hf] at hopen
      | some f =>
        have hstill : f.isOpen = true := ho f (by simpa [hf] using hopen)
        simp [hstill]
    · exact hopen

/-- The pool of a factory changes alike in both worlds. -/
theorem Beside.changePool (h : Beside k n A B) (number : Nat)
    (work : Executor AttributeKey → Executor AttributeKey) :
    Beside k n (A.changeFactory number fun f => { f with executor := work f.executor })
      (B.changeFactory number fun f => { f with executor := work f.executor }) := by
  refine h.change number (fun f => ?_) (fun f f' heq => heq) (fun _ => id) fun hj => ?_
  · simp [Factory.duty, Option.map_map, Function.comp_def]
  · have hdeeds : ∀ w : World V σ,
        (w.changeFactory number fun f => { f with executor := work f.executor }).deeds = w.deeds :=
      fun w => deeds_change w number fun _ => rfl
    rw [hdeeds, hdeeds, h.deeds hj]

theorem Beside.record (h : Beside k n A B) (number : Nat) (measure : Measure) :
    Beside k n (A.record number measure) (B.record number measure) := by
  refine h.change number (fun f => ?_) (fun f f' heq => heq) (fun _ => id) fun {j} hj => ?_
  · have hcascade : ∀ m : Metrics, (m.record measure).cascadeEvictions =
        (({ cascadeEvictions := m.cascadeEvictions } : Metrics).record
          measure).cascadeEvictions := by
      intro m
      cases measure with
      | sessionDeleted silent => cases silent <;> rfl
      | activationNotified direction => cases direction <;> rfl
      | _ => rfl
    simp [Factory.duty, Option.map_map, Function.comp_def, ← hcascade]
  · have hA := record_counts A number measure j
    have hB := record_counts B number measure j
    exact hA.trans (by rw [h.deeds hj]; exact hB.symm)

/-- The factory itself may change in whatever way. -/
theorem change_beside (k n : Nat) (w : World V σ) (change : Factory V → Factory V) :
    Beside k n (w.changeFactory k change) w := by
  have hsame : ∀ {j}, j ≠ k → (w.changeFactory k change).factory? j = w.factory? j := by
    intro j hj
    rw [factory?_changeFactory, if_neg (Ne.symm hj)]
  refine ⟨rfl, rfl, rfl, rfl, fun shelf => ?_, rfl, rfl, ?_, fun hj => by rw [hsame hj],
    fun hj => ?_, fun hj _ => by rw [hsame hj], fun _ _ _ => rfl⟩
  · cases shelf <;> rfl
  · simp [changeFactory]
  · unfold World.deeds
    rw [hsame hj]

structure Relisted (w w' : World V σ) : Prop where
  stores : w'.metadata.store = w.metadata.store ∧ w'.names.store = w.names.store ∧
    w'.attributes.store = w.attributes.store
  factories : w'.factories = w.factories
  views : w'.views = w.views
  drawn : w'.drawn = w.drawn

theorem Beside.relist (h : Beside k n A B) (hA : A.Relisted A') (hB : B.Relisted B')
    (hl : ∀ shelf, (A'.listenersOf shelf).without k = (B'.listenersOf shelf).without k) :
    Beside k n A' B' := by
  obtain ⟨⟨hmA, hnA, haA⟩, hfA, hvA, hdA⟩ := hA
  obtain ⟨⟨hmB, hnB, haB⟩, hfB, hvB, hdB⟩ := hB
  have hfactoryA : A'.factory? = A.factory? := funext fun j => congrArg (·[j]?) hfA
  have hfactoryB : B'.factory? = B.factory? := funext fun j => congrArg (·[j]?) hfB
  refine ⟨by rw [hmA, hmB, h.metadata], by rw [hnA, hnB, h.names],
    by rw [haA, haB, h.attributes], by rw [haA, haB, h.persistent], hl,
    by rw [hvA, hvB, h.views], by rw [hdA, hdB, h.drawn], by rw [hfA, hfB, h.count],
    fun hj => ?_, fun hj => ?_, fun hj hlt => ?_, fun hj hlt ho => ?_⟩
  · rw [hfactoryA, hfactoryB, h.standing hj]
  · have hdeeds := h.deeds hj
    unfold World.deeds at hdeeds ⊢
    rw [hfactoryA, hfactoryB, hdeeds]
  · rw [hfactoryA, hfactoryB, h.duty hj hlt]
  · rw [hnA, hnB]
    refine h.abreast hj hlt ?_
    unfold subscriptions? at ho ⊢
    rwa [hfactoryA] at ho

theorem Beside.rest (h : Beside k n A B) {views views' : List (LiveView V)} {drawn drawn' : Nat}
    (hv : views = views') (hd : drawn = drawn') (scene scene' : σ) :
    Beside k n { A with views, drawn, scene }
      { B with views := views', drawn := drawn', scene := scene' } :=
  ⟨h.metadata, h.names, h.attributes, h.persistent,
    fun shelf => by have hl := h.listeners shelf; cases shelf <;> exact hl, hv, hd, h.count,
    h.standing, h.deeds, h.duty, h.abreast⟩

end Changing

end World
end SessionAttributes
