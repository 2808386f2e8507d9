import SessionAttributes.Proofs.Store.Contents
import SessionAttributes.World.Operate

namespace SessionAttributes

variable {V σ K T A : Type}

/-- A list changed at one place shows a change at that place. -/
theorem map_modify {α β : Type} {f : α → β} {change : α → α} (change' : β → β)
    (h : ∀ a, f (change a) = change' (f a)) (l : List α) (n : Nat) :
    (l.modify n change).map f = (l.map f).modify n change' := by
  apply List.ext_getElem?
  intro i
  simp only [List.getElem?_map, List.getElem?_modify]
  by_cases hi : n = i
  · cases l[i]? <;> simp [hi, h]
  · simp [hi]

structure PlainFactory (V : Type) where
  isOpen : Bool
  immutability : Immutability V

structure PlainView (V : Type) where
  view : View V
  factory : Nat
  state : ViewState V

structure PlainWorld (V : Type) where
  metadata : SessionId → Option Metadata
  names : SessionId → Option Names
  attributes : AttributeKey → Option Bytes
  factories : List (PlainFactory V)
  views : List (PlainView V)
  drawn : Nat

def Factory.plain (f : Factory V) : PlainFactory V := ⟨f.isOpen, f.immutability⟩

def LiveView.plain (v : LiveView V) : PlainView V := ⟨v.view, v.factory, v.state⟩

namespace World

def plain (w : World V σ) : PlainWorld V where
  metadata := w.metadata.store.find?
  names := w.names.store.find?
  attributes := w.attributes.store.find?
  factories := w.factories.map Factory.plain
  views := w.views.map LiveView.plain
  drawn := w.drawn

/-- A world opens with its three stores and nothing else. -/
theorem openWith_shape {metadata names attributes : StoreOptions} {scene : σ} {w : World V σ}
    (h : World.openWith metadata names attributes scene = .ok w) : ∃ sm sn sa,
      Store.openWith metadata = .ok sm ∧ Store.openWith names = .ok sn ∧
      Store.openWith attributes = .ok sa ∧
      w = ⟨⟨sm, Listeners.empty⟩, ⟨sn, Listeners.empty⟩, ⟨sa, Listeners.empty⟩, [], [], 0, scene⟩ := by
  unfold World.openWith at h
  cases hm : Store.openWith (K := SessionId) (V := Metadata) metadata with
  | error fault => simp [hm, bind, Except.bind] at h
  | ok sm =>
    cases hn : Store.openWith (K := SessionId) (V := Names) names with
    | error fault => simp [hm, hn, bind, Except.bind] at h
    | ok sn =>
      cases ha : Store.openWith (K := AttributeKey) (V := Bytes) attributes with
      | error fault => simp [hm, hn, ha, bind, Except.bind] at h
      | ok sa =>
        simp only [hm, hn, ha, bind, Except.bind, pure, Except.pure, Except.ok.injEq] at h
        exact ⟨sm, sn, sa, rfl, rfl, rfl, h.symm⟩

theorem plain_view (w : World V σ) (number : Nat) :
    w.plain.views[number]? = (w.view? number).map LiveView.plain := List.getElem?_map ..

theorem plain_live {w : World V σ} {number : Nat} {live : LiveView V}
    (h : w.view? number = some live) : w.plain.views[number]? = some live.plain := by
  rw [plain_view, h]
  rfl

structure Sound (w : World V σ) : Prop where
  metadata : w.metadata.store.Sound
  names : w.names.store.Sound
  attributes : w.attributes.store.Sound

def Keeps (w w' : World V σ) : Prop := w.Sound → w'.Sound ∧ w'.plain = w.plain

theorem Keeps.refl (w : World V σ) : w.Keeps w := fun h => ⟨h, rfl⟩

theorem Keeps.trans {w w' w'' : World V σ} (h : w.Keeps w') (h' : w'.Keeps w'') : w.Keeps w'' := by
  intro hs
  obtain ⟨hs', hp⟩ := h hs
  obtain ⟨hs'', hp'⟩ := h' hs'
  exact ⟨hs'', hp'.trans hp⟩

theorem Keeps.foldl {α : Type} {f : World V σ → α → World V σ}
    (hf : ∀ (w : World V σ) a, w.Keeps (f w a))
    (items : List α) (w : World V σ) : w.Keeps (items.foldl f w) := by
  induction items generalizing w with
  | nil => exact Keeps.refl w
  | cons a items ih => exact (hf w a).trans (ih _)

theorem factory?_changeFactory (w : World V σ) (number k : Nat) (change : Factory V → Factory V) :
    (w.changeFactory number change).factory? k =
      if number = k then (w.factory? k).map change else w.factory? k := by
  unfold factory? changeFactory
  rw [List.getElem?_modify]
  split <;> cases w.factories[k]? <;> simp_all

theorem view?_changeView (w : World V σ) (number k : Nat) (change : LiveView V → LiveView V) :
    (w.changeView number change).view? k =
      if number = k then (w.view? k).map change else w.view? k := by
  unfold view? changeView
  rw [List.getElem?_modify]
  split <;> cases w.views[k]? <;> simp_all

theorem changeFactory_plain (w : World V σ) (number : Nat) {change : Factory V → Factory V}
    {change' : PlainFactory V → PlainFactory V} (hc : ∀ f, (change f).plain = change' f.plain) :
    (w.changeFactory number change).plain =
      { w.plain with factories := w.plain.factories.modify number change' } := by
  simp only [plain, changeFactory, map_modify change' hc]

theorem changeView_plain (w : World V σ) (number : Nat) (change : LiveView V → LiveView V)
    (change' : PlainView V → PlainView V) (hc : ∀ v, (change v).plain = change' v.plain) :
    (w.changeView number change).plain =
      { w.plain with views := w.plain.views.modify number change' } := by
  simp only [plain, changeView, map_modify change' hc]

/-- A factory may change in whatever does not show. -/
theorem changeFactory_keeps (w : World V σ) (number : Nat) {change : Factory V → Factory V}
    (hc : ∀ f, (change f).plain = f.plain) : w.Keeps (w.changeFactory number change) := by
  intro hs
  refine ⟨⟨hs.metadata, hs.names, hs.attributes⟩, ?_⟩
  have hplain : (w.changeFactory number change).plain =
      { w.plain with factories := w.plain.factories.modify number id } :=
    changeFactory_plain w number hc
  rw [hplain, List.modify_id]

theorem record_keeps (w : World V σ) (number : Nat) (measure : Measure) :
    w.Keeps (w.record number measure) :=
  changeFactory_keeps w number fun _ => rfl

end World

/-- Surroundings that turn a world only into worlds that it is related to, whoever they tell. -/
structure Surroundings.Leaves (env : Surroundings V σ) (R : World V σ → World V σ → Prop) :
    Prop where
  before : ∀ request w, R w (env.before request w).2
  after : ∀ request w, R w (env.after request w)
  encode : ∀ value w, R w (env.encode value w).2
  decode : ∀ bytes w, R w (env.decode bytes w).2
  hear : ∀ number heard w, R w (env.hear number heard w)
  callback : ∀ callback w, R w (env.callback callback w)

theorem Surroundings.Leaves.mono {env : Surroundings V σ} {R R' : World V σ → World V σ → Prop}
    (h : env.Leaves R) (hr : ∀ {w w'}, R w w' → R' w w') : env.Leaves R' :=
  ⟨fun _ w => hr (h.before _ w), fun _ w => hr (h.after _ w), fun _ w => hr (h.encode _ w),
    fun _ w => hr (h.decode _ w), fun _ _ w => hr (h.hear _ _ w), fun _ w => hr (h.callback _ w)⟩

theorem Surroundings.quiet_leaves (m : Marshaller V) (draw : Nat → AttributeId)
    {R : World V σ → World V σ → Prop} (hr : ∀ w, R w w) : (Surroundings.quiet m draw).Leaves R :=
  ⟨fun _ => hr, fun _ => hr, fun _ => hr, fun _ => hr, fun _ _ => hr, fun _ => hr⟩

/-- Surroundings that change nothing that shows, whoever they tell, and that turn values into bytes
and back as a marshaller does. Calls may fail in them. -/
structure Surroundings.Calm (env : Surroundings V σ) (m : Marshaller V) : Prop where
  before : ∀ request (w : World V σ), w.Keeps (env.before request w).2
  after : ∀ request (w : World V σ), w.Keeps (env.after request w)
  encode : ∀ value (w : World V σ),
    (env.encode value w).1 = m.write value ∧ w.Keeps (env.encode value w).2
  decode : ∀ bytes (w : World V σ),
    (env.decode bytes w).1 = m.read bytes ∧ w.Keeps (env.decode bytes w).2
  hear : ∀ number heard (w : World V σ), w.Keeps (env.hear number heard w)
  callback : ∀ callback (w : World V σ), w.Keeps (env.callback callback w)

def Surroundings.Reliable (env : Surroundings V σ) : Prop :=
  ∀ request w, (env.before request w).1 = none

theorem Surroundings.quiet_calm (m : Marshaller V) (draw : Nat → AttributeId) :
    (Surroundings.quiet (σ := σ) m draw).Calm m :=
  ⟨fun _ w => .refl w, fun _ w => .refl w, fun _ w => ⟨rfl, .refl w⟩, fun _ w => ⟨rfl, .refl w⟩,
    fun _ _ w => .refl w, fun _ w => .refl w⟩

theorem Surroundings.quiet_reliable (m : Marshaller V) (draw : Nat → AttributeId) :
    (Surroundings.quiet (σ := σ) m draw).Reliable := fun _ _ => rfl

namespace Place

structure Shows (place : Place (World V σ) K T) [DecidableEq K] [ShardKey K]
    (see : PlainWorld V → K → Option T) (write : PlainWorld V → (K → Option T) → PlainWorld V) :
    Prop where
  sound : ∀ {w : World V σ}, w.Sound → (place.get w).store.Sound
  seen : ∀ w : World V σ, see w.plain = (place.get w).store.find?
  written : ∀ (w : World V σ) site, (place.set w site).plain = write w.plain site.store.find?
  rewritten : ∀ p, write p (see p) = p
  kept : ∀ {w : World V σ} site, w.Sound → site.store.Sound → (place.set w site).Sound

section
variable [DecidableEq K] [ShardKey K] {place : Place (World V σ) K T}
  {tell : Tell (World V σ) K T} {see : PlainWorld V → K → Option T}
  {write : PlainWorld V → (K → Option T) → PlainWorld V}

/-- Counting a notice and telling everyone keeps what shows, if telling one of them does. -/
theorem announce_keeps (hp : place.Shows see write)
    (ht : ∀ hearer event (w : World V σ), w.Keeps (tell hearer event w))
    (w : World V σ) (notice : Notice K T) :
    w.Keeps (place.announce tell w notice) := by
  have hcount : w.Keeps (place.set w
      { place.get w with store := (place.get w).store.count notice }) := by
    intro hs
    refine ⟨hp.kept _ hs ((hp.sound hs).count notice), ?_⟩
    rw [hp.written, Store.find_count, ← hp.seen, hp.rewritten]
  unfold announce
  dsimp only
  split
  · exact hcount.trans (World.Keeps.foldl
      (fun w event => World.Keeps.foldl (fun w hearer => ht hearer event w) _ w) _ _)
  · exact hcount

/-- A step answers from the store and leaves its map, whatever its notices set off. -/
theorem settle_plain (hp : place.Shows see write)
    (ht : ∀ hearer event (w : World V σ), w.Keeps (tell hearer event w)) {w : World V σ}
    (hs : w.Sound)
    (step : Store K T → Outcome K T A) {answer : A} {m : K → Option T}
    (ha : (step (place.get w).store).answer = answer)
    (hm : (step (place.get w).store).store.find? = m)
    (hk : (step (place.get w).store).store.Sound) :
    (place.settle tell w step).1 = answer ∧ (place.settle tell w step).2.Sound ∧
      (place.settle tell w step).2.plain = write w.plain m := by
  have hset := hp.kept { place.get w with store := (step (place.get w).store).store } hs hk
  obtain ⟨hs', hp'⟩ := World.Keeps.foldl (announce_keeps hp ht)
    (step (place.get w).store).notices _ hset
  refine ⟨ha, hs', ?_⟩
  rw [hp.written, hm] at hp'
  exact hp'

theorem readAll_plain (hp : place.Shows see write)
    (ht : ∀ hearer event (w : World V σ), w.Keeps (tell hearer event w)) (keys : List K)
    (found : List (K × T))
    {w : World V σ} (hs : w.Sound) :
    (place.readAll tell keys found w).1 = collect (see w.plain) keys found ∧
      (place.readAll tell keys found w).2.Sound ∧
      (place.readAll tell keys found w).2.plain = w.plain := by
  induction keys generalizing found w with
  | nil => exact ⟨rfl, hs, rfl⟩
  | cons key keys ih =>
    obtain ⟨hga, hgf, hgs⟩ := (hp.sound hs).get key
    obtain ⟨ha, hs', hp'⟩ := settle_plain hp ht hs (·.get key) hga hgf hgs
    rw [← hp.seen, hp.rewritten] at hp'
    simp only [readAll, collect, hp.seen]
    generalize place.settle tell w (·.get key) = r at ha hs' hp'
    obtain ⟨answer, w'⟩ := r
    dsimp only at ha hs' hp'
    subst ha
    cases (place.get w).store.find? key with
    | none =>
      simp only [← hp.seen, ← hp']
      exact ih found hs'
    | some value =>
      simp only [← hp.seen, ← hp']
      exact ih (addFound key value found) hs'

/-- A call that reaches its store acts on its map. -/
theorem serve_plain (hp : place.Shows see write)
    (ht : ∀ hearer event (w : World V σ), w.Keeps (tell hearer event w)) {w : World V σ}
    (hs : w.Sound)
    (call : StoreCall K T) :
    (place.serve tell w call).1 = (call.onMap (see w.plain)).1 ∧
      (place.serve tell w call).2.Sound ∧
      (place.serve tell w call).2.plain = write w.plain (call.onMap (see w.plain)).2 := by
  have hstore := hp.sound hs
  cases call with
  | get key =>
    obtain ⟨ha, hf, hk⟩ := hstore.get key
    rw [← hp.seen] at ha hf
    exact settle_plain hp ht hs _ ha hf hk
  | getAll keys =>
    obtain ⟨ha, hs', hp'⟩ := readAll_plain hp ht keys [] hs
    exact ⟨ha, hs', hp'.trans (hp.rewritten _).symm⟩
  | put key value mode =>
    obtain ⟨ha, hf, hk⟩ := hstore.put key value mode
    rw [← hp.seen] at ha hf
    exact settle_plain hp ht hs _ ha hf hk
  | remove key mode =>
    obtain ⟨ha, hf, hk⟩ := hstore.remove key mode
    rw [← hp.seen] at ha hf
    exact settle_plain hp ht hs _ ha hf hk
  | evict key =>
    obtain ⟨hf, hk⟩ := hstore.evict key
    rw [← hp.seen] at hf
    exact settle_plain hp ht hs _ rfl hf hk

end
end Place
end SessionAttributes
