import SessionAttributes.Proofs.Store.Moves
import SessionAttributes.Proofs.Store.Refinement

namespace SessionAttributes

variable {W K T E : Type}

namespace Store

def announced (s : Store K T) (notices : List (Notice K T)) : List (Event K T) :=
  (notices.filter s.announces).flatMap Notice.rounds

theorem announces_congr {s s' : Store K T} (h : s'.persistent = s.persistent) :
    s'.announces = s.announces := by
  funext notice
  cases notice <;> simp [announces, h]

theorem announced_congr {s s' : Store K T} (h : s'.persistent = s.persistent) :
    s'.announced = s.announced := by
  funext notices
  rw [announced, announced, announces_congr h]

theorem announced_single (s : Store K T) (notice : Notice K T) :
    s.announced [notice] = if s.announces notice then notice.rounds else [] := by
  unfold announced
  split <;> simp [*]

/-- A store that is not persistent keeps nothing to itself. -/
theorem announced_all {s : Store K T} (h : s.persistent = false) (notices : List (Notice K T)) :
    s.announced notices = notices.flatMap Notice.rounds := by
  have hall : ∀ notice ∈ notices, s.announces notice = true := fun notice _ => by
    cases notice <;> simp [announces, h]
  rw [announced, List.filter_eq_self.mpr hall]

theorem announced_append (s : Store K T) (notices notices' : List (Notice K T)) :
    s.announced (notices ++ notices') = s.announced notices ++ s.announced notices' := by
  unfold announced
  rw [List.filter_append, List.flatMap_append]

theorem count_persistent (s : Store K T) (notice : Notice K T) :
    (s.count notice).persistent = s.persistent := by cases notice <;> rfl

theorem Sound.foldl_count {s : Store K T} (h : s.Sound) (notices : List (Notice K T)) :
    (notices.foldl Store.count s).Sound := by
  induction notices generalizing s with
  | nil => exact h
  | cons notice notices ih => exact ih (h.count notice)

variable [DecidableEq K] [ShardKey K]

theorem settled_persistent (s : Store K T) (call : StoreCall K T) :
    (call.step s).1.persistent = s.persistent ∧ (s.settled call).persistent = s.persistent := by
  have hstep : (call.step s).1.persistent = s.persistent := by
    cases call with
    | getAll keys => rfl
    | put key value mode => rfl
    | get key =>
      unfold StoreCall.step Store.get
      dsimp only
      split
      · rfl
      · split <;> rfl
    | remove key mode =>
      unfold StoreCall.step Store.remove
      dsimp only
      split <;> rfl
    | evict key =>
      unfold StoreCall.step Store.evict
      dsimp only
      split <;> rfl
  have hcount : ∀ (notices : List (Notice K T)) (s : Store K T),
      (notices.foldl Store.count s).persistent = s.persistent := by
    intro notices
    induction notices with
    | nil => exact fun s => rfl
    | cons notice notices ih => exact fun s => (ih _).trans (s.count_persistent notice)
  exact ⟨hstep, (hcount _ _).trans hstep⟩

inductive Advance (s : Store K T) : Store K T → Prop
  | still : Advance s s
  | step (call : StoreCall K T) : Advance s (call.step s).1
  | count (notice : Notice K T) : Advance s (s.count notice)

theorem Advance.kept {s s' : Store K T} (h : s.Advance s') {options : StoreOptions}
    (hk : s.Kept options) : s'.Kept options := by
  cases h with
  | still => exact hk
  | step call => exact (call.step_steps hk).kept
  | count notice => exact hk.count notice

theorem Advance.persistent {s s' : Store K T} (h : s.Advance s') :
    s'.persistent = s.persistent := by
  cases h with
  | still => rfl
  | step call => exact (s.settled_persistent call).1
  | count notice => exact s.count_persistent notice

theorem after_persistent (s : Store K T) (calls : List (StoreCall K T)) :
    (s.after calls).persistent = s.persistent := by
  induction calls generalizing s with
  | nil => rfl
  | cons call calls ih => exact (ih _).trans (s.settled_persistent call).2

def news (s : Store K T) : List (StoreCall K T) → List (Event K T)
  | [] => []
  | call :: calls => s.announced (call.step s).2 ++ (s.settled call).news calls

theorem news_single (s : Store K T) (call : StoreCall K T) :
    s.news [call] = s.announced (call.step s).2 := List.append_nil _

theorem news_append (s : Store K T) (calls calls' : List (StoreCall K T)) :
    s.news (calls ++ calls') = s.news calls ++ (s.after calls).news calls' := by
  induction calls generalizing s with
  | nil => rfl
  | cons call calls ih =>
    rw [List.cons_append, news, news, ih, List.append_assoc]
    rfl

end Store

namespace Place

def withStore (place : Place W K T) (w : W) (store : Store K T) : W :=
  place.set w { place.get w with store }

/-- What listeners make of some events, each of them told to everyone before the next one. -/
def reactions (echo : Subscriber → Event K T → List E) (listeners : List Subscriber)
    (events : List (Event K T)) : List E :=
  events.flatMap fun event => listeners.flatMap fun hearer => echo hearer event

theorem reactions_append (echo : Subscriber → Event K T → List E) (listeners : List Subscriber)
    (events events' : List (Event K T)) :
    reactions echo listeners (events ++ events') =
      reactions echo listeners events ++ reactions echo listeners events' := List.flatMap_append

section Stores
variable {place : Place W K T} {tell : Tell W K T}

theorem announceAll_store (hl : place.Lawful) (hq : place.Quiet tell)
    (notices : List (Notice K T)) (w : W) :
    (place.get (notices.foldl (place.announce tell) w)).store =
      notices.foldl Store.count (place.get w).store := by
  induction notices generalizing w with
  | nil => rfl
  | cons notice notices ih => rw [List.foldl_cons, ih, announce_store hl hq, List.foldl_cons]

variable [DecidableEq K] [ShardKey K]

theorem settle_store {A : Type} (hl : place.Lawful) (hq : place.Quiet tell) (w : W)
    {call : StoreCall K T} {f : Store K T → Outcome K T A}
    (hf : call.step (place.get w).store =
      ((f (place.get w).store).store, (f (place.get w).store).notices)) :
    (place.get (place.settle tell w f).2).store = (place.get w).store.settled call := by
  have hall := announceAll_store hl hq (f (place.get w).store).notices
    (place.set w { place.get w with store := (f (place.get w).store).store })
  rw [hl] at hall
  rw [Store.settled, hf]
  exact hall

theorem readAll_store (hl : place.Lawful) (hq : place.Quiet tell) (keys : List K)
    (found : List (K × T)) (w : W) :
    (place.get (place.readAll tell keys found w).2).store =
      (place.get w).store.after (keys.map .get) := by
  rw [readAll_world]
  induction keys generalizing w with
  | nil => rfl
  | cons key keys ih =>
    have hread : (place.get (place.settle tell w (·.get key)).2).store =
        (place.get w).store.settled (.get key) := settle_store hl hq w rfl
    rw [List.foldl_cons, ih, hread]
    rfl

/-- A store whose listeners leave it alone settles the calls on single keys that a call is made
of. -/
theorem serve_store (hl : place.Lawful) (hq : place.Quiet tell) (w : W) (call : StoreCall K T) :
    (place.get (place.serve tell w call).2).store = (place.get w).store.after call.parts := by
  cases call with
  | getAll keys => exact readAll_store hl hq keys [] w
  | _ => exact settle_store hl hq w rfl

end Stores

/-- A world that still is as it has to be, after something was made of some events, and what has
become of its store. -/
structure Leads (place : Place W K T) (I : W → Prop) (R : W → W → List E → Prop) (w w' : W)
    (made : List E) (store : Store K T) : Prop where
  holds : I w'
  made : R w w' made
  store : (place.get w').store = store

/-- Listeners who leave a store alone while they are told of its events, and do otherwise what they
like. A relation tells what each of them makes of an event. Of what they all make, nothing depends
on the world, as long as it is as it has to be. -/
structure Attends [DecidableEq K] [ShardKey K] (place : Place W K T) (tell : Tell W K T)
    (I : W → Prop) (R : W → W → List E → Prop) (echo : Subscriber → Event K T → List E)
    (made : Event K T → List E) : Prop where
  refl : ∀ w, R w w []
  trans : ∀ {w w' w'' l l'}, R w w' l → R w' w'' l' → R w w'' (l ++ l')
  lawful : place.Lawful
  put : ∀ {w store}, (place.get w).store.Advance store → I w →
    I (place.withStore w store) ∧ R w (place.withStore w store) []
  tell : ∀ hearer event {w}, I w →
    place.Leads I R w (tell hearer event w) (echo hearer event) (place.get w).store
  all : ∀ {w}, I w → ∀ event,
    ((place.get w).listeners.snapshot.flatMap fun hearer => echo hearer event) = made event

namespace Attends

variable [DecidableEq K] [ShardKey K] {place : Place W K T} {tell : Tell W K T} {I : W → Prop}
  {R : W → W → List E → Prop} {echo : Subscriber → Event K T → List E}
  {made : Event K T → List E} {w w' w'' : W} {l l' : List E} {store store' : Store K T}

theorem next (h : place.Attends tell I R echo made) (hfirst : place.Leads I R w w' l store)
    (hthen : place.Leads I R w' w'' l' store') : place.Leads I R w w'' (l ++ l') store' :=
  ⟨hthen.holds, h.trans hfirst.made hthen.made, hthen.store⟩

theorem moved (h : place.Attends tell I R echo made) (hs : (place.get w).store.Advance store)
    (hw : I w) : place.Leads I R w (place.withStore w store) [] store :=
  ⟨(h.put hs hw).1, (h.put hs hw).2, congrArg Site.store (h.lawful _ _)⟩

theorem foldl (h : place.Attends tell I R echo made) {A : Type} {f : W → A → W}
    {makes : A → List E}
    (hf : ∀ a {w}, I w → place.Leads I R w (f w a) (makes a) (place.get w).store) (as : List A)
    (hw : I w) :
    place.Leads I R w (as.foldl f w) (as.flatMap makes) (place.get w).store := by
  induction as generalizing w with
  | nil => exact ⟨hw, h.refl w, rfl⟩
  | cons a as ih =>
    have hfirst := hf a hw
    have hrest := ih hfirst.holds
    rw [hfirst.store] at hrest
    exact h.next hfirst hrest

/-- A notice is counted and heard, unless the store keeps it to itself. Those who listen when its
turn comes hear of it. -/
theorem announce (h : place.Attends tell I R echo made) (hw : I w) (notice : Notice K T) :
    place.Leads I R w (place.announce tell w notice)
      (((place.get w).store.announced [notice]).flatMap made)
      ((place.get w).store.count notice) := by
  have hcounted := h.moved (.count notice) hw
  have hround : ∀ event {w'}, I w' → place.Leads I R w'
      (tellAll tell (place.get w).listeners.snapshot w' event) (made event)
      (place.get w').store := by
    intro event w' hw'
    rw [← h.all hw event]
    exact h.foldl (fun hearer _ hw => h.tell hearer event hw) _ hw'
  have hrounds := h.foldl hround notice.rounds hcounted.holds
  rw [hcounted.store] at hrounds
  rw [Store.announced_single]
  unfold Place.announce
  dsimp only
  split
  · exact h.next hcounted hrounds
  · exact hcounted

theorem announceAll (h : place.Attends tell I R echo made) (notices : List (Notice K T))
    (hw : I w) : place.Leads I R w (notices.foldl (place.announce tell) w)
      (((place.get w).store.announced notices).flatMap made)
      (notices.foldl Store.count (place.get w).store) := by
  induction notices generalizing w with
  | nil => exact ⟨hw, h.refl w, rfl⟩
  | cons notice notices ih =>
    have hfirst := h.announce hw notice
    have hrest := ih hfirst.holds
    rw [hfirst.store,
      Store.announced_congr ((place.get w).store.count_persistent notice)] at hrest
    rw [← List.singleton_append, Store.announced_append, List.flatMap_append]
    exact h.next hfirst hrest

/-- After a call on one key the store has settled it, and what it left to be announced was heard. -/
theorem settle {A : Type} (h : place.Attends tell I R echo made) (hw : I w)
    {call : StoreCall K T} {f : Store K T → Outcome K T A}
    (hf : call.step (place.get w).store =
      ((f (place.get w).store).store, (f (place.get w).store).notices)) :
    place.Leads I R w (place.settle tell w f).2
      (((place.get w).store.news [call]).flatMap made) ((place.get w).store.settled call) := by
  have hpersistent := ((place.get w).store.settled_persistent call).1
  have hadvance : (place.get w).store.Advance (call.step (place.get w).store).1 := .step call
  rw [hf] at hpersistent hadvance
  have hstepped := h.moved hadvance hw
  have hall := h.announceAll (f (place.get w).store).notices hstepped.holds
  rw [hstepped.store, Store.announced_congr hpersistent] at hall
  rw [Store.news_single, Store.settled, hf]
  exact h.next hstepped hall

theorem read (h : place.Attends tell I R echo made) (hw : I w) (key : K) :
    place.Leads I R w (place.settle tell w (·.get key)).2
      (((place.get w).store.news [.get key]).flatMap made)
      ((place.get w).store.settled (.get key)) := h.settle hw rfl

theorem readAll (h : place.Attends tell I R echo made) (keys : List K) (found : List (K × T))
    (hw : I w) : place.Leads I R w (place.readAll tell keys found w).2
      (((place.get w).store.news (keys.map .get)).flatMap made)
      ((place.get w).store.after (keys.map .get)) := by
  rw [Place.readAll_world]
  induction keys generalizing w with
  | nil => exact ⟨hw, h.refl w, rfl⟩
  | cons key keys ih =>
    have hread := h.read hw key
    have hnews := (place.get w).store.news_append [.get key] (keys.map .get)
    rw [List.singleton_append] at hnews
    rw [List.map_cons, hnews, List.flatMap_append]
    have hrest := ih hread.holds
    rw [hread.store] at hrest
    exact h.next hread hrest

/-- After a call the store has settled the calls on single keys that it is made of, and all that
they left to be announced was heard. -/
theorem serve (h : place.Attends tell I R echo made) (hw : I w) (call : StoreCall K T) :
    place.Leads I R w (place.serve tell w call).2
      (((place.get w).store.news call.parts).flatMap made)
      ((place.get w).store.after call.parts) := by
  cases call with
  | getAll keys => exact h.readAll keys [] hw
  | _ => exact h.settle hw rfl

theorem readAll_answer (h : place.Attends tell I R echo made) (keys : List K)
    (found : List (K × T)) (hw : I w) (hs : (place.get w).store.Sound) :
    (place.readAll tell keys found w).1 = collect (place.get w).store.find? keys found := by
  induction keys generalizing found w with
  | nil => rfl
  | cons key keys ih =>
    obtain ⟨hanswer, hfind, hsound⟩ := hs.get key
    have hread := h.read hw key
    have hsound' : (place.get (place.settle tell w (·.get key)).2).store.Sound := by
      rw [hread.store]
      exact hsound.foldl_count _
    have hfind' : (place.get (place.settle tell w (·.get key)).2).store.find? =
        (place.get w).store.find? := by
      rw [hread.store]
      exact (funext fun k => Store.settled_find _ _ k).trans hfind
    have hfirst : (place.settle tell w (·.get key)).1 = (place.get w).store.find? key := hanswer
    unfold Place.readAll collect
    rw [← hfirst]
    generalize place.settle tell w (·.get key) = r at hread hsound' hfind' hfirst
    obtain ⟨answer, w'⟩ := r
    cases answer with
    | none =>
      rw [← hfind']
      exact ih found hread.holds hsound'
    | some value =>
      rw [← hfind']
      exact ih (addFound key value found) hread.holds hsound'

/-- A call that reaches its store answers as a map does. -/
theorem serve_answer (h : place.Attends tell I R echo made) (hw : I w)
    (hs : (place.get w).store.Sound) (call : StoreCall K T) :
    (place.serve tell w call).1 = (call.onMap (place.get w).store.find?).1 := by
  cases call with
  | get key => exact (hs.get key).1
  | getAll keys => exact h.readAll_answer keys [] hw hs
  | put key value mode => exact (hs.put key value mode).1
  | remove key mode => exact (hs.remove key mode).1
  | evict key => rfl

end Attends

/-- Listeners who leave their own store and its listeners alone, and what each of them makes of an
event. A relation tells which worlds may follow on one another, and what was made of the events in
between. -/
structure Reacts (place : Place W K T) (tell : Tell W K T) (R : W → W → List E → Prop)
    (echo : Subscriber → Event K T → List E) : Prop where
  refl : ∀ w, R w w []
  trans : ∀ {w w' w'' l l'}, R w w' l → R w' w'' l' → R w w'' (l ++ l')
  site : ∀ {w w' l}, R w w' l → place.get w' = place.get w
  withStore : ∀ {w w' l} store, R w w' l → R (place.withStore w store) (place.withStore w' store) l
  lawful : place.Lawful
  rewritten : ∀ w site site', place.set (place.set w site) site' = place.set w site'
  kept : ∀ w, place.set w (place.get w) = w
  tell : ∀ hearer event w, R w (tell hearer event w) (echo hearer event)

namespace Reacts

variable {place : Place W K T} {tell : Tell W K T} {R : W → W → List E → Prop}
  {echo : Subscriber → Event K T → List E}

theorem withStore_self (h : place.Reacts tell R echo) (w : W) :
    place.withStore w (place.get w).store = w := h.kept w

theorem get_withStore (h : place.Reacts tell R echo) (w : W) (store : Store K T) :
    place.get (place.withStore w store) = { place.get w with store } := h.lawful _ _

theorem withStore_withStore (h : place.Reacts tell R echo) (w : W) (store store' : Store K T) :
    place.withStore (place.withStore w store) store' = place.withStore w store' := by
  rw [Place.withStore, h.get_withStore]
  exact h.rewritten _ _ _

variable [DecidableEq K] [ShardKey K]

/-- Calls that are settled one after the other. -/
theorem next (h : place.Reacts tell R echo) {w w' w'' : W} {calls calls' : List (StoreCall K T)}
    (hfirst : R (place.withStore w ((place.get w).store.after calls)) w'
      (reactions echo (place.get w).listeners.snapshot ((place.get w).store.news calls)))
    (hthen : R (place.withStore w' ((place.get w').store.after calls')) w''
      (reactions echo (place.get w').listeners.snapshot ((place.get w').store.news calls'))) :
    R (place.withStore w ((place.get w).store.after (calls ++ calls'))) w''
      (reactions echo (place.get w).listeners.snapshot
        ((place.get w).store.news (calls ++ calls'))) := by
  have hsite : place.get w' = { place.get w with store := (place.get w).store.after calls } :=
    (h.site hfirst).trans (h.get_withStore _ _)
  rw [hsite] at hthen
  have hput := h.withStore (((place.get w).store.after calls).after calls') hfirst
  rw [h.withStore_withStore] at hput
  rw [Store.after_append, Store.news_append, reactions_append]
  exact h.trans hput hthen

/-- As nobody changes who listens, the same listeners hear of everything. -/
theorem attends (h : place.Reacts tell R echo) (listeners : Listeners Subscriber) :
    place.Attends tell (fun w => (place.get w).listeners = listeners)
      (fun w w' l => R (place.withStore w (place.get w').store) w' l) echo
      fun event => listeners.snapshot.flatMap fun hearer => echo hearer event where
  refl w := (h.withStore_self w).symm ▸ h.refl w
  trans {w w' w'' l l'} hfirst hthen := by
    have hput := h.withStore (place.get w'').store hfirst
    rw [h.withStore_withStore] at hput
    exact h.trans hput hthen
  lawful := h.lawful
  put {w store} _ hw := by
    rw [h.get_withStore]
    exact ⟨hw, h.refl _⟩
  tell hearer event {w} hw := by
    have htold := h.tell hearer event w
    have hsite := h.site htold
    refine ⟨(congrArg Site.listeners hsite).trans hw, ?_, congrArg Site.store hsite⟩
    rw [hsite, h.withStore_self]
    exact htold
  all {w} hw event := by rw [hw]

/-- After a call the store has settled the calls on single keys that it is made of, and all that
they left to be announced was heard. -/
theorem serve (h : place.Reacts tell R echo) (w : W) (call : StoreCall K T) :
    R (place.withStore w ((place.get w).store.after call.parts)) (place.serve tell w call).2
      (reactions echo (place.get w).listeners.snapshot
        ((place.get w).store.news call.parts)) := by
  have hserved := (h.attends (place.get w).listeners).serve rfl call
  have hmade := hserved.made
  rw [hserved.store] at hmade
  exact hmade

/-- A call that reaches its store answers as a map does. -/
theorem serve_answer (h : place.Reacts tell R echo) {w : W} (hs : (place.get w).store.Sound)
    (call : StoreCall K T) :
    (place.serve tell w call).1 = (call.onMap (place.get w).store.find?).1 :=
  (h.attends (place.get w).listeners).serve_answer rfl hs call

end Reacts
end Place
end SessionAttributes
