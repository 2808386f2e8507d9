import SessionAttributes.Proofs.World.Plain
import SessionAttributes.Proofs.World.Reaction

namespace SessionAttributes

variable {V σ K T α : Type}

def Measure.Passing : Measure → Prop
  | .cascadeEviction | .activationNotified _ => True
  | _ => False

namespace World

/-- The views leave all callbacks to the factories. They do over a store that is not persistent. -/
def Mute (w : World V σ) : Prop :=
  w.attributes.store.persistent = false → ∀ live ∈ w.views, live.notifier = none

/-- Views change in what has nothing to do with callbacks. -/
theorem Mute.changeView {w : World V σ} (h : w.Mute) (number : Nat)
    {change : LiveView V → LiveView V}
    (hc : ∀ live, live.notifier = none → (change live).notifier = none) :
    (w.changeView number change).Mute := by
  intro hp live hm
  obtain ⟨i, hi⟩ := List.getElem?_of_mem hm
  rw [World.changeView, List.getElem?_modify] at hi
  obtain ⟨old, hold, hlive⟩ := Option.map_eq_some_iff.mp hi
  have hnone := h hp old (List.mem_of_getElem? hold)
  rw [← hlive]
  split
  · exact hc old hnone
  · exact hnone

/-- A property that nothing ends that happens inside a call: neither the steps of the stores, nor
what factories schedule, nor what they count by the way. -/
structure Enduring (I : World V σ → Prop) : Prop where
  metadata : ∀ {w : World V σ} {store}, w.metadata.store.Advance store → I w →
    I { w with metadata := { w.metadata with store } }
  names : ∀ {w : World V σ} {store}, w.names.store.Advance store → I w →
    I { w with names := { w.names with store } }
  attributes : ∀ {w : World V σ} {store}, w.attributes.store.Advance store → I w →
    I { w with attributes := { w.attributes with store } }
  execute : ∀ {w : World V σ} number key, I w →
    I (w.changeFactory number fun f => { f with executor := f.executor.execute key })
  passing : ∀ {w : World V σ} number measure, Measure.Passing measure → I w →
    I (w.record number measure)

/-- A property that neither the steps of the stores nor the duties of the factories can end. -/
structure Lasting (I : World V σ → Prop) : Prop extends Enduring I where
  listeners : ∀ {w : World V σ} metadata names attributes, I w → I { w with
    metadata := { w.metadata with listeners := metadata }
    names := { w.names with listeners := names }
    attributes := { w.attributes with listeners := attributes } }
  duty : ∀ {w : World V σ} number {change}, (∀ f, (change f).metrics = f.metrics) → I w →
    I (w.changeFactory number change)
  rest : ∀ {w : World V σ} views drawn scene, I w → I { w with views, drawn, scene }

end World

/-- Surroundings that do not end a property, whoever they tell. -/
abbrev Surroundings.Observes (env : Surroundings V σ) (I : World V σ → Prop) : Prop :=
  env.Leaves fun w w' => I w → I w'

theorem Surroundings.quiet_observes (m : Marshaller V) (draw : Nat → AttributeId)
    (I : World V σ → Prop) : (Surroundings.quiet m draw).Observes I :=
  Surroundings.quiet_leaves m draw fun _ => id

theorem foldl_lasting {W : Type} {I : W → Prop} {f : W → α → W} (hf : ∀ w a, I w → I (f w a))
    (as : List α) {w : W} (h : I w) : I (as.foldl f w) := by
  induction as generalizing w with
  | nil => exact h
  | cons a as ih => exact ih (hf w a h)

theorem foldl_congr_lasting {W : Type} {I : W → Prop} {f g : W → α → W} {as : List α}
    (hf : ∀ w a, I w → I (f w a)) (hg : ∀ a ∈ as, ∀ w, I w → g w a = f w a) {w : W} (h : I w) :
    as.foldl g w = as.foldl f w := by
  induction as generalizing w with
  | nil => rfl
  | cons a as ih =>
    rw [List.foldl_cons, List.foldl_cons, hg a List.mem_cons_self w h]
    exact ih (fun b hb => hg b (List.mem_cons_of_mem a hb)) (hf w a h)

section Heeding
variable {W : Type} [DecidableEq K] [ShardKey K] {place : Place W K T} {tell : Place.Tell W K T}
  {I : W → Prop} (heard : Event K T → Prop)
  (hset : ∀ w {store}, (place.get w).store.Advance store → I w →
    I (place.set w { place.get w with store }))
  (hheard : ∀ {w notice}, I w → (place.get w).store.announces notice = true →
    ∀ event ∈ notice.rounds, heard event)
  (htell : ∀ hearer event w, heard event → I w → I (tell hearer event w))
include hset hheard htell

theorem Place.announce_heeding (notice : Notice K T) {w : W} (h : I w) :
    I (place.announce tell w notice) := by
  have hcounted := hset w (.count notice) h
  unfold Place.announce
  dsimp only
  split
  · rename_i hannounced
    have hrounds := hheard h hannounced
    generalize notice.rounds = rounds at hrounds
    generalize place.set w _ = w₁ at hcounted
    induction rounds generalizing w₁ with
    | nil => exact hcounted
    | cons event rounds ih =>
      obtain ⟨hevent, hrest⟩ := List.forall_mem_cons.mp hrounds
      refine ih hrest _ ?_
      exact foldl_lasting (fun w hearer => htell hearer event w hevent) _ hcounted
  · exact hcounted

theorem Place.settle_heeding {A : Type} (step : Store K T → Outcome K T A) {w : W}
    (hs : (place.get w).store.Advance (step (place.get w).store).store) (h : I w) :
    I (place.settle tell w step).2 :=
  foldl_lasting (fun _ notice => place.announce_heeding heard hset hheard htell notice) _
    (hset w hs h)

/-- What served calls keep, if steps of the store keep it, and telling of an event that may be
announced. -/
theorem Place.serve_heeding (call : StoreCall K T) {w : W} (h : I w) :
    I (place.serve tell w call).2 := by
  have hsettle : ∀ {A : Type} (step : Store K T → Outcome K T A) {w : W},
      (place.get w).store.Advance (step (place.get w).store).store → I w →
      I (place.settle tell w step).2 :=
    fun {A} step {w} hs h => place.settle_heeding heard hset hheard htell step hs h
  cases call with
  | getAll keys =>
    change I (place.readAll tell keys [] w).2
    rw [Place.readAll_world]
    exact foldl_lasting (fun w key hw => hsettle (·.get key) (.step (.get key)) hw) keys h
  | get key => exact hsettle _ (.step (.get key)) h
  | put key value mode => exact hsettle _ (.step (.put key value mode)) h
  | remove key mode => exact hsettle _ (.step (.remove key mode)) h
  | evict key => exact hsettle _ (.step (.evict key)) h

end Heeding

/-- What served calls keep, if steps of the store and telling of an event keep it. -/
theorem Place.serve_lasting {W : Type} [DecidableEq K] [ShardKey K] {place : Place W K T}
    {tell : Place.Tell W K T} {I : W → Prop}
    (hset : ∀ w {store}, (place.get w).store.Advance store → I w →
      I (place.set w { place.get w with store }))
    (htell : ∀ hearer event w, I w → I (tell hearer event w)) (call : StoreCall K T) {w : W}
    (h : I w) : I (place.serve tell w call).2 :=
  place.serve_heeding (fun _ => True) hset (fun _ _ _ _ => trivial)
    (fun hearer event w _ => htell hearer event w) call h

section Congruence
variable {W : Type} [DecidableEq K] [ShardKey K] {place : Place W K T}
  {tell tell' : Place.Tell W K T} {I : W → Prop}
  (hset : ∀ w {store}, (place.get w).store.Advance store → I w →
    I (place.set w { place.get w with store }))
  (htell : ∀ hearer event w, I w → I (tell hearer event w))
  (hsame : ∀ w, I w → ∀ hearer ∈ (place.get w).listeners.snapshot, ∀ event w, I w →
    tell' hearer event w = tell hearer event w)
  {w : W} (h : I w)
include hset htell hsame h

theorem Place.announce_congr (notice : Notice K T) :
    place.announce tell' w notice = place.announce tell w notice := by
  have hcounted := hset w (.count notice) h
  unfold Place.announce
  dsimp only
  split
  · refine foldl_congr_lasting (fun w event hw => ?_) (fun event _ w hw => ?_) hcounted
    · exact foldl_lasting (fun w hearer => htell hearer event w) _ hw
    · exact foldl_congr_lasting (fun w hearer => htell hearer event w)
        (fun hearer hm w hw => hsame _ h hearer hm event w hw) hw
  · rfl

theorem Place.settle_congr {A : Type} (step : Store K T → Outcome K T A)
    (hs : (place.get w).store.Advance (step (place.get w).store).store) :
    place.settle tell' w step = place.settle tell w step :=
  Prod.ext rfl (foldl_congr_lasting
    (fun _ notice hw => place.announce_heeding (fun _ => True) hset (fun _ _ _ _ => trivial)
      (fun hearer event w _ => htell hearer event w) notice hw)
    (fun notice _ _ hw => Place.announce_congr hset htell hsame hw notice) (hset w hs h))

/-- How somebody is told of events does not matter as long as he does not listen. -/
theorem Place.serve_congr (call : StoreCall K T) :
    place.serve tell' w call = place.serve tell w call := by
  have hsettle : ∀ {w}, I w → ∀ {A : Type} (step : Store K T → Outcome K T A),
      (place.get w).store.Advance (step (place.get w).store).store →
      place.settle tell' w step = place.settle tell w step :=
    fun h => Place.settle_congr hset htell hsame h
  cases call with
  | getAll keys =>
    suffices hread : ∀ found {w}, I w →
        place.readAll tell' keys found w = place.readAll tell keys found w from hread [] h
    induction keys with
    | nil => exact fun _ _ _ => rfl
    | cons key keys ih =>
      intro found w h
      have hfirst := place.settle_heeding (fun _ => True) hset (fun _ _ _ _ => trivial)
        (fun hearer event w _ => htell hearer event w) (·.get key) (.step (.get key)) h
      unfold Place.readAll
      rw [hsettle h (·.get key) (.step (.get key))]
      generalize place.settle tell w (·.get key) = r at hfirst
      obtain ⟨answer, w'⟩ := r
      cases answer with
      | none => exact ih _ hfirst
      | some value => exact ih _ hfirst
  | get key => exact hsettle h (·.get key) (.step (.get key))
  | put key value mode => exact hsettle h (·.put key value mode) (.step (.put key value mode))
  | remove key mode => exact hsettle h (·.remove key mode) (.step (.remove key mode))
  | evict key => exact hsettle h (·.evict key) (.step (.evict key))

end Congruence

namespace World

variable {env : Surroundings V σ} {I : World V σ → Prop} {w : World V σ}

namespace Enduring

theorem guarded (he : env.Observes I) (request : Request)
    {serve : World V σ → α × World V σ} (hserve : ∀ w, I w → I (serve w).2) (h : I w) :
    I (w.guarded env request serve).2 := by
  have hbefore := he.before request w h
  unfold World.guarded
  generalize env.before request w = r at hbefore
  obtain ⟨fault, w₁⟩ := r
  cases fault with
  | some fault => exact hbefore
  | none => exact he.after request _ (hserve w₁ hbefore)

variable (hI : Enduring I) (he : env.Observes I)
include hI he

theorem raise (callback : Callback V) (h : I w) : I (w.raise env callback) :=
  hI.passing callback.factory (.activationNotified callback.direction) trivial
    (he.callback callback w h)

theorem relay (number : Nat) (direction : Direction) (key : AttributeKey) (bytes : Bytes)
    (h : I w) : I (w.relay env number direction key bytes) := by
  have hdecode := he.decode bytes w h
  unfold World.relay
  generalize env.decode bytes w = r at hdecode
  obtain ⟨answer, w₁⟩ := r
  cases answer with
  | error fault => exact hdecode
  | ok value => exact hI.raise he _ hdecode

theorem tellAttributes (hearer : Subscriber) (event : Event AttributeKey Bytes) (h : I w) :
    I (tellAttributes env hearer event w) := by
  cases hearer with
  | observer number => exact he.hear number (.attributes event) w h
  | factory number =>
    cases event with
    | prePassivate key bytes => exact hI.relay he number .passivate key bytes h
    | postActivate key bytes => exact hI.relay he number .activate key bytes h
    | _ => exact h

theorem callAttributes (call : StoreCall AttributeKey Bytes) (h : I w) :
    I (w.callAttributes env call).2 :=
  guarded he _ (fun _ => attributesPlace.serve_lasting (fun _ _ => hI.attributes)
    (fun hearer event _ => hI.tellAttributes he hearer event) call) h

omit he in
theorem schedule (number : Nat) (session : SessionId) (id : AttributeId) (h : I w) :
    I (World.schedule number session w id) :=
  hI.passing number .cascadeEviction trivial (hI.execute number ⟨session, id⟩ h)

theorem tellNames (hearer : Subscriber) (event : Event SessionId Names) (h : I w) :
    I (tellNames env hearer event w) := by
  cases hearer with
  | observer number => exact he.hear number (.names event) w h
  | factory number =>
    cases event with
    | prePassivate session names =>
      exact foldl_lasting (fun _ id => hI.schedule number session id) _ h
    | _ => exact h

theorem callNames (call : StoreCall SessionId Names) (h : I w) : I (w.callNames env call).2 :=
  guarded he _ (fun _ => namesPlace.serve_lasting (fun _ _ => hI.names)
    (fun hearer event _ => hI.tellNames he hearer event) call) h

theorem tellMetadata (hearer : Subscriber) (event : Event SessionId Metadata) (h : I w) :
    I (tellMetadata env hearer event w) := by
  cases hearer with
  | observer number => exact he.hear number (.metadata event) w h
  | factory number =>
    cases event with
    | postPassivate session => exact hI.callNames he (.evict session) h
    | _ => exact h

theorem callMetadata (call : StoreCall SessionId Metadata) (h : I w) :
    I (w.callMetadata env call).2 :=
  guarded he _ (fun _ => metadataPlace.serve_lasting (fun _ _ => hI.metadata)
    (fun hearer event _ => hI.tellMetadata he hearer event) call) h

theorem notifyView (number : Nat) (direction : Direction) (value : V) (h : I w) :
    I (w.notifyView env number direction value) := by
  unfold World.notifyView
  split
  · exact h
  · split
    · exact h
    · split
      · exact h
      · exact hI.raise he _ h

/-- What an action does to the views, and what it records, is the concern of the property. No
action gives a view a notifier. -/
theorem perform (hrest : ∀ {w : World V σ} views drawn,
      (w.Mute → Mute { w with views, drawn }) → I w → I { w with views, drawn })
    (actor : Actor) (action : Action V)
    (hrecord : ∀ measure, action = .record measure → I (w.record actor.factory measure)) (h : I w) :
    I (w.perform env actor action).2 := by
  cases action with
  | isOpen => exact h
  | encode value => exact he.encode value w h
  | decode bytes => exact he.decode bytes w h
  | names call => exact hI.callNames he call h
  | attributes call => exact hI.callAttributes he call h
  | draw => exact hrest w.views (w.drawn + 1) id h
  | record measure => exact hrecord measure rfl
  | lock =>
    obtain ⟨factory, view⟩ := actor
    cases view with
    | none => exact h
    | some number =>
      exact hrest (w.changeView number _).views w.drawn (·.changeView number fun _ => id) h
  | unlock state =>
    obtain ⟨factory, view⟩ := actor
    cases view with
    | none => exact h
    | some number =>
      exact hrest (w.changeView number _).views w.drawn (·.changeView number fun _ => id) h
  | notify direction value =>
    obtain ⟨factory, view⟩ := actor
    cases view with
    | none => exact h
    | some number => exact hI.notifyView he number direction value h

end Enduring

namespace Lasting

section Duties
variable (hI : Lasting I) (he : env.Observes I)
include hI he

theorem workerStep (number : Nat) (step : WorkerStep) (h : I w) :
    I (World.workerStep env number w step) := by
  cases step with
  | receive =>
    unfold World.workerStep
    dsimp only
    split
    · exact h
    · exact hI.duty number (fun _ => rfl) h
  | finish position =>
    unfold World.workerStep
    dsimp only
    split
    · exact h
    · exact hI.duty number (fun _ => rfl) (hI.callAttributes he _ h)

theorem workerSteps (number : Nat) (steps : List WorkerStep) (h : I w) :
    I (w.workerSteps env number steps) :=
  foldl_lasting (fun _ step => hI.workerStep he number step) steps h

omit he in
/-- A factory that is closed stops listening and lets its workers leave. -/
theorem closeFactory {worker : Surroundings V σ} (he : worker.Observes I) (number : Nat) (h : I w) :
    I (w.closeFactory worker number) := by
  unfold World.closeFactory
  split
  · exact h
  · rename_i f _
    split
    · exact h
    · refine hI.duty number (fun _ => rfl) (hI.workerSteps he number _ ?_)
      refine hI.duty number (fun _ => rfl) ?_
      unfold World.unsubscribe
      cases f.subscriptions.attributes with
      | none => exact hI.listeners _ _ w.attributes.listeners h
      | some r => exact hI.listeners _ _ _ h

omit he in
theorem openView {number view : Nat} {session : SessionId} {bundle : Bundle V}
    {metadata : Metadata} {context : String} {w' : World V σ}
    (ho : w.openView number session bundle metadata context = .ok (view, w')) (h : I w) : I w' := by
  unfold World.openView at ho
  split at ho
  · cases ho
  · split at ho
    · cases ho
    · cases ho
      exact hI.rest _ w.drawn w.scene h

end Duties

section Procedures
variable (hI : Lasting I) (he : env.Observes I)
include hI he

/-- Only what an action records may end the property. -/
theorem perform (actor : Actor) (action : Action V)
    (hrecord : ∀ measure, action = .record measure → I (w.record actor.factory measure)) (h : I w) :
    I (w.perform env actor action).2 :=
  hI.toEnduring.perform he (fun {w} views drawn _ => hI.rest views drawn w.scene) actor action
    hrecord h

theorem carryOut (hrecord : ∀ w number measure, I w → I (World.record w number measure))
    (actor : Actor) (p : Procedure V α) (h : I w) : I (w.carryOut env actor p).2 := by
  induction p generalizing w with
  | done result => exact h
  | act action next ih =>
    exact ih _ (hI.perform he actor action (fun measure _ => hrecord w _ measure h) h)

end Procedures
end Lasting
end World

namespace World

structure Placed (metadata names attributes : StoreOptions) (w : World V σ) : Prop where
  metadata : w.metadata.store.Kept metadata
  names : w.names.store.Kept names
  attributes : w.attributes.store.Kept attributes

variable {metadata names attributes : StoreOptions}

theorem placed_lasting : Lasting (Placed metadata names attributes : World V σ → Prop) where
  metadata hs h := ⟨hs.kept h.metadata, h.names, h.attributes⟩
  names hs h := ⟨h.metadata, hs.kept h.names, h.attributes⟩
  attributes hs h := ⟨h.metadata, h.names, hs.kept h.attributes⟩
  execute _ _ h := ⟨h.metadata, h.names, h.attributes⟩
  listeners _ _ _ h := ⟨h.metadata, h.names, h.attributes⟩
  duty _ _ _ h := ⟨h.metadata, h.names, h.attributes⟩
  passing _ _ _ h := ⟨h.metadata, h.names, h.attributes⟩
  rest _ _ _ h := ⟨h.metadata, h.names, h.attributes⟩

theorem Placed.record {w : World V σ} (h : w.Placed metadata names attributes) (number : Nat)
    (measure : Measure) : (w.record number measure).Placed metadata names attributes :=
  ⟨h.metadata, h.names, h.attributes⟩

theorem openWith_placed {w : World V σ} {scene : σ}
    (h : World.openWith metadata names attributes scene = .ok w) :
    w.Placed metadata names attributes := by
  obtain ⟨sm, sn, sa, hm, hn, ha, rfl⟩ := openWith_shape h
  exact ⟨Store.openWith_kept hm, Store.openWith_kept hn, Store.openWith_kept ha⟩

end World
end SessionAttributes
