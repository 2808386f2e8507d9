import SessionAttributes.Proofs.World.Beside

namespace SessionAttributes

variable {V σ : Type}

namespace Listeners

variable {l l' : Listeners Subscriber}

theorem without_without (l : Listeners Subscriber) (number : Nat) :
    (l.without number).without number = l.without number := by
  unfold without
  simp only [List.filter_filter, Bool.and_self]

theorem without_comm (l : Listeners Subscriber) (j k : Nat) :
    (l.without j).without k = (l.without k).without j := by
  unfold without
  simp only [List.filter_filter, Bool.and_comm]

theorem without_register {number : Nat} (h : l.without number = l'.without number)
    (subscriber : Subscriber) :
    (l.register subscriber).2.without number = (l'.register subscriber).2.without number := by
  obtain ⟨hnext, hentries⟩ := Listeners.mk.inj h
  unfold Listeners.register without
  dsimp only at hnext hentries ⊢
  rw [List.filter_append, List.filter_append, hnext, hentries]

theorem without_unobserve (l : Listeners Subscriber) (id number : Nat) :
    (l.unobserve id).without number = (l.without number).unobserve id := by
  have hany : ∀ p : Nat × Subscriber → Bool, (∀ id, p (id, .factory number) = false) →
      (l.without number).entries.any p = l.entries.any p := by
    intro p hp
    unfold without
    rw [List.any_filter]
    refine congrArg _ (funext fun e => ?_)
    by_cases he : e.2 = .factory number
    · have hnone := hp e.1
      rw [← he] at hnone
      simp [hnone]
    · simp [he]
  unfold Listeners.unobserve
  rw [hany _ fun _ => Bool.and_false _]
  split
  · unfold without Listeners.unlink
    simp only [List.filter_filter, Bool.and_comm]
  · rfl

end Listeners

/-- Whatever happens but that one factory hands out a view. -/
def Happening.Spares (number : Nat) : Happening V → Prop
  | .openView k .. => k ≠ number
  | _ => True

namespace World

variable {env : Surroundings V σ} {w w' A A' B B' : World V σ} {k n j : Nat}

/-- A worker evicts entries, and its pool goes on. -/
theorem finish_turns (he : env.Aloof) (w : World V σ) (number position : Nat) :
    ∃ calls w₁, (∀ c ∈ calls, ∃ key, c = StoreCall.evict key) ∧
      w.Turns w₁ w.metadata.store w.names.store (w.attributes.store.after calls) [] ∧
      w.workerStep env number (.finish position) = w₁.changeFactory number fun f =>
        { f with executor := f.executor.advanced (.finish position) } := by
  cases hf : (w.factory? number).bind fun f => f.executor.running[position]? with
  | none =>
    refine ⟨[], w, List.forall_mem_nil _, Turns.refl w, ?_⟩
    rw [finish_nothing hf]
    refine (changeFactory_self fun f h => ?_).symm
    rw [h, Option.bind_some, List.getElem?_eq_none_iff] at hf
    simp [Executor.advanced, Nat.not_lt.mpr hf]
  | some key =>
    obtain ⟨calls, hcalls, hw₁⟩ := callAttributes_handed he w (.evict key)
    have hturns := hw₁.turns (w := w) rfl rfl rfl rfl rfl rfl
      ((deeds_lasting w.deeds).callAttributes (he.discreet.observes _) (.evict key) rfl)
    refine ⟨calls, _, fun c hc => ?_, hturns, ?_⟩
    · exact ⟨key, List.mem_singleton.mp (hcalls.sublist.subset hc)⟩
    · rw [finish_task hf]
      refine changeFactory_congr fun f h => ?_
      -- The call has left the pool as it was, so the task is still running.
      have hpool := hturns.factory number
      rw [h, Option.map_some, eq_comm, Option.map_eq_some_iff] at hpool
      obtain ⟨f', hf', heq⟩ := hpool
      have hx := congrArg Factory.executor heq
      change f'.executor = f.executor at hx
      rw [hf', Option.bind_some, hx] at hf
      have hlt := (List.getElem?_eq_some_iff.mp hf).1
      simp [Executor.advanced, hlt]

section Own

theorem stop_relisted (hw : w.Regular) {f : Factory V} (hf : w.factory? k = some f)
    (ho : f.isOpen = true) :
    w.Relisted (w.unsubscribe f.subscriptions) ∧ ∀ shelf,
      (w.unsubscribe f.subscriptions).listenersOf shelf = (w.listenersOf shelf).without k := by
  refine ⟨⟨⟨rfl, rfl, ?_⟩, rfl, rfl, rfl⟩, fun shelf => ?_⟩
  · unfold unsubscribe
    cases f.subscriptions.attributes <;> rfl
  · rw [← hw.stop_listeners, stop_eq hf ho]
    cases shelf <;> rfl

/-- What a factory does of its own accord is nothing to anybody else. -/
theorem own_beside (he : env.Aloof) (hw : w.Regular) {metadata names attributes : StoreOptions}
    (hp : w.Placed metadata names attributes) {happening : Happening V}
    (ho : happening.Own k) (n : Nat) : Beside k n (w.happen env happening) w := by
  cases happening with
  | work number step =>
    obtain rfl : number = k := ho
    cases step with
    | receive =>
      change Beside number n (w.workerStep env number .receive) w
      rw [receive_eq]
      exact change_beside number n w _
    | finish position =>
      obtain ⟨calls, w₁, hcalls, hturns, hw₁⟩ := finish_turns he w number position
      change Beside number n (w.workerStep env number (.finish position)) w
      rw [hw₁]
      refine (change_beside number n w₁ _).trans
        ((Beside.refl number n w).turns hturns (Turns.refl w) rfl rfl ?_ ?_
          (fun _ _ _ => rfl) fun _ _ _ _ => rfl)
      · exact hp.attributes.evicted_find hcalls
      · exact Store.after_persistent _ _
  | stop number =>
    obtain rfl : number = k := ho
    change Beside number n (w.stop number) w
    rcases stop_still w number with hsame | ⟨f, hf, hopen⟩
    · rw [hsame]
      exact .refl number n w
    · obtain ⟨hrelisted, hl⟩ := stop_relisted hw hf hopen
      rw [stop_eq hf hopen]
      refine (change_beside number n _ _).trans ((Beside.refl number n w).relist hrelisted
        ⟨⟨rfl, rfl, rfl⟩, rfl, rfl, rfl⟩ fun shelf => ?_)
      rw [hl, Listeners.without_without]
  | join number =>
    obtain rfl : number = k := ho
    exact change_beside number n w _
  | _ => cases ho

end Own

section Both
variable (h : Beside k n A B)
include h

theorem Beside.changeListeners {change : Listeners Subscriber → Listeners Subscriber}
    (hc : ∀ l l' : Listeners Subscriber, l.without k = l'.without k →
      (change l).without k = (change l').without k) (shelf : Shelf) :
    Beside k n (A.changeListeners change shelf) (B.changeListeners change shelf) := by
  have hrelisted : ∀ w : World V σ, w.Relisted (w.changeListeners change shelf) := by
    intro w
    cases shelf <;> exact ⟨⟨rfl, rfl, rfl⟩, rfl, rfl, rfl⟩
  refine h.relist (hrelisted A) (hrelisted B) fun shelf' => ?_
  have hl := h.listeners shelf'
  cases shelf <;> cases shelf' <;> first | exact hc _ _ hl | exact hl

theorem Beside.stop (hA : A.Regular) (hB : B.Regular) (hj : j ≠ k) :
    Beside k n (A.stop j) (B.stop j) := by
  have hs := h.subscriptions hj
  cases hsA : A.subscriptions? j with
  | none =>
    rw [stop_idle hsA, stop_idle (hs.symm.trans hsA)]
    exact h
  | some s =>
    obtain ⟨f, hf, ho, rfl⟩ := subscriptions?_some hsA
    obtain ⟨f', hf', ho', hsame⟩ := subscriptions?_some (hs.symm.trans hsA)
    obtain ⟨hrelisted, hl⟩ := stop_relisted hA hf ho
    obtain ⟨hrelisted', hl'⟩ := stop_relisted hB hf' ho'
    have hboth : Beside k n (A.unsubscribe f.subscriptions) (B.unsubscribe f'.subscriptions) := by
      refine h.relist hrelisted hrelisted' fun shelf => ?_
      rw [hl, hl', Listeners.without_comm, h.listeners, Listeners.without_comm]
    rw [stop_eq hf ho, stop_eq hf' ho']
    refine hboth.change j (fun f => ?_) (fun f f' heq => ?_) nofun fun {i} hi => ?_
    · simp [Factory.duty, Option.map_map, Function.comp_def]
    · obtain ⟨-, hrest⟩ := Prod.mk.inj heq
      exact congrArg (Prod.mk false) hrest
    · have hdeeds : ∀ w : World V σ, (w.changeFactory j fun f =>
          { f with isOpen := false, executor := f.executor.stopAccepting }).deeds = w.deeds :=
        fun w => deeds_change w j fun _ => rfl
      rw [hdeeds, hdeeds, hboth.deeds hi]

/-- A factory with the same number and the same registrations opens in both worlds. To the
newcomer the worlds are the same as long as the names are. -/
theorem Beside.enter {m : Nat} (hm : ∀ j, j < m → j < n ∨ j = A.factories.length)
    (hnew : A.factories.length < m → A.names.store = B.names.store) (f : Factory V) :
    Beside k m (A.enter f) (B.enter f) := by
  have hstore : ∀ w : World V σ, (w.enter f).attributes.store = w.attributes.store := by
    intro w
    unfold World.enter
    dsimp only
    split <;> rfl
  have hdeeds : ∀ (w : World V σ) j, (w.enter f).deeds j =
      if j = w.factories.length then f.metrics.map Metrics.deeds else w.deeds j := by
    intro w j
    unfold World.deeds
    rw [enter_factory?]
    split <;> rfl
  refine ⟨h.metadata, h.names, ?_, ?_, fun shelf => ?_, h.views, h.drawn, ?_, fun {j} hj => ?_,
    fun {j} hj => ?_, fun {j} hj hlt => ?_, fun {j} hj hlt ho => ?_⟩
  · rw [hstore, hstore, h.attributes]
  · rw [hstore, hstore, h.persistent]
  · have hregistered := Listeners.without_register (h.listeners shelf)
      (.factory A.factories.length)
    cases shelf with
    | metadata => simpa only [listenersOf, World.enter, ← h.count] using hregistered
    | names => simpa only [listenersOf, World.enter, ← h.count] using hregistered
    | attributes =>
      simp only [listenersOf, World.enter, ← h.count, ← h.persistent]
      split
      · exact h.listeners .attributes
      · exact hregistered
  · simp [World.enter, h.count]
  · rw [enter_factory?, enter_factory?, ← h.count]
    split
    · rfl
    · exact h.standing hj
  · rw [hdeeds, hdeeds, ← h.count]
    split
    · rfl
    · exact h.deeds hj
  · rw [enter_factory?, enter_factory?, ← h.count]
    split
    · rfl
    · exact h.duty hj ((hm j hlt).resolve_right ‹_›)
  · by_cases hlast : j = A.factories.length
    · exact hnew (hlast ▸ hlt)
    · unfold subscriptions? at ho
      rw [enter_factory?, if_neg hlast] at ho
      exact h.abreast hj ((hm j hlt).resolve_right hlast) ho

theorem Beside.changeView (number : Nat) (change : LiveView V → LiveView V) :
    Beside k n (A.changeView number change) (B.changeView number change) :=
  h.rest (congrArg (fun views : List (LiveView V) => views.modify number change) h.views) h.drawn
    A.scene B.scene

theorem Beside.openView (hj : j ≠ k) (session : SessionId) (bundle : Bundle V)
    (metadata : Metadata) (context : String) :
    (A.openView j session bundle metadata context).map Prod.fst =
        (B.openView j session bundle metadata context).map Prod.fst ∧
      Beside k n (A.opened (A.openView j session bundle metadata context))
        (B.opened (B.openView j session bundle metadata context)) := by
  have hstanding := h.standing hj
  unfold World.openView
  cases hA : A.factory? j with
  | none =>
    rw [hA, Option.map_none, eq_comm, Option.map_eq_none_iff] at hstanding
    rw [hstanding]
    exact ⟨rfl, h⟩
  | some f =>
    rw [hA, Option.map_some, eq_comm] at hstanding
    obtain ⟨f', hB, heq⟩ := Option.map_eq_some_iff.mp hstanding
    obtain ⟨ho, himmutability, -⟩ :
        f'.isOpen = f.isOpen ∧ f'.immutability = f.immutability ∧ _ := by
      simpa only [Factory.standing, Prod.mk.injEq] using heq
    rw [hB]
    dsimp only
    rw [ho, himmutability, h.views, h.persistent]
    split
    · exact ⟨rfl, h⟩
    · exact ⟨rfl, h.rest rfl h.drawn A.scene B.scene⟩

theorem Beside.registrations : A.registrations = B.registrations := by
  have hnext : ∀ shelf, (A.listenersOf shelf).nextId = (B.listenersOf shelf).nextId :=
    fun shelf => (Listeners.mk.inj (h.listeners shelf)).1
  have hm : A.metadata.listeners.nextId = B.metadata.listeners.nextId := hnext .metadata
  have hn : A.names.listeners.nextId = B.names.listeners.nextId := hnext .names
  have ha : A.attributes.listeners.nextId = B.attributes.listeners.nextId := hnext .attributes
  unfold World.registrations
  rw [hm, hn, ha, h.persistent]

/-- A factory opens in both worlds or in none. -/
theorem Beside.openings (options : FactoryOptions) (immutability : Immutability V)
    (context : String) (counts : Bool) :
    (A.opened (A.openFactory options immutability context counts) = A ∧
      B.opened (B.openFactory options immutability context counts) = B) ∨
    ∃ f, A.opened (A.openFactory options immutability context counts) = A.enter f ∧
      B.opened (B.openFactory options immutability context counts) = B.enter f := by
  rw [openFactory_eq, openFactory_eq, ← h.registrations]
  cases (do options.validate; Executor.spawn options.workers :
      Except SessionError (Executor AttributeKey)) with
  | error fault => exact .inl ⟨rfl, rfl⟩
  | ok executor => exact .inr ⟨_, rfl, rfl⟩

theorem Beside.openFactory (hn : n ≤ A.factories.length) (options : FactoryOptions)
    (immutability : Immutability V) (context : String) (counts : Bool) :
    Beside k n (A.opened (A.openFactory options immutability context counts))
      (B.opened (B.openFactory options immutability context counts)) := by
  rcases h.openings options immutability context counts with ⟨hA, hB⟩ | ⟨f, hA, hB⟩
  · rw [hA, hB]
    exact h
  · rw [hA, hB]
    exact h.enter (fun _ => .inl) (fun hlt => absurd hlt (Nat.not_lt.mpr hn)) f

/-- A newcomer is one of those to whom the worlds are the same, as long as another one of them is
open. -/
theorem Beside.welcome (hn : n = A.factories.length) (hj : j ≠ k) (hlt : j < n)
    (ho : (A.subscriptions? j).isSome) (options : FactoryOptions) (immutability : Immutability V)
    (context : String) (counts : Bool) :
    Beside k (A.opened (A.openFactory options immutability context counts)).factories.length
      (A.opened (A.openFactory options immutability context counts))
      (B.opened (B.openFactory options immutability context counts)) := by
  rcases h.openings options immutability context counts with ⟨hA, hB⟩ | ⟨f, hA, hB⟩
  · rw [hA, hB, ← hn]
    exact h
  · have hlength : (A.enter f).factories.length = A.factories.length + 1 := List.length_append
    rw [hA, hB, hlength]
    exact h.enter (fun j hj => by omega) (fun _ => h.abreast hj hlt ho) f

variable (he : env.Aloof)
include he

theorem Beside.raise (callback : Callback V) :
    Beside k n (A.raise env callback) (B.raise env callback) := by
  obtain ⟨scene, hA⟩ := he.callback callback A
  obtain ⟨scene', hB⟩ := he.callback callback B
  unfold World.raise
  rw [hA, hB]
  exact (h.rest h.views h.drawn scene scene').record callback.factory _

theorem Beside.notifyView (number : Nat) (direction : Direction) (value : V) :
    Beside k n (A.notifyView env number direction value)
      (B.notifyView env number direction value) := by
  have hview : A.view? number = B.view? number := congrArg (·[number]?) h.views
  unfold World.notifyView
  rw [hview]
  split
  · exact h
  · split
    · exact h
    · split
      · exact h
      · exact h.raise he _

theorem Beside.work {options options' : StoreOptions} (hkA : A.attributes.store.Kept options)
    (hkB : B.attributes.store.Kept options') (number : Nat) (step : WorkerStep) :
    Beside k n (A.workerStep env number step) (B.workerStep env number step) := by
  cases step with
  | receive =>
    rw [receive_eq, receive_eq]
    exact h.changePool number Executor.received
  | finish position =>
    obtain ⟨calls, A₁, hcalls, hturns, hA⟩ := finish_turns he A number position
    obtain ⟨calls', B₁, hcalls', hturns', hB⟩ := finish_turns he B number position
    have hboth : Beside k n A₁ B₁ := by
      refine h.turns hturns hturns' h.metadata h.names ?_ ?_ (fun _ _ _ => rfl) fun j => h.abreast
      · rw [hkA.evicted_find hcalls, hkB.evicted_find hcalls', h.attributes]
      · rw [Store.after_persistent, Store.after_persistent, h.persistent]
    rw [hA, hB]
    exact hboth.changePool number (Executor.advanced · (.finish position))

variable (hA : A.Regular) (hB : B.Regular)
  {metadata names attributes metadata' names' attributes' : StoreOptions}
  (hkA : A.Placed metadata names attributes) (hkB : B.Placed metadata' names' attributes')
  (hi : env.Impartial)
include hkA hkB hi

section Acting
include hA

theorem Beside.perform (actor : Actor) (action : Action V) :
    Beside k n (A.perform env actor action).2 (B.perform env actor action).2 := by
  cases action with
  | isOpen => exact h
  | names call => exact h.callNames hA hkA hkB he hi call
  | attributes call => exact h.callAttributes hkA hkB he hi call
  | encode value =>
    obtain ⟨scene, hA'⟩ := he.encode value A
    obtain ⟨scene', hB'⟩ := he.encode value B
    change Beside k n (env.encode value A).2 (env.encode value B).2
    rw [hA', hB']
    exact h.rest h.views h.drawn scene scene'
  | decode bytes =>
    obtain ⟨scene, hA'⟩ := he.decode bytes A
    obtain ⟨scene', hB'⟩ := he.decode bytes B
    change Beside k n (env.decode bytes A).2 (env.decode bytes B).2
    rw [hA', hB']
    exact h.rest h.views h.drawn scene scene'
  | draw => exact h.rest h.views (congrArg (· + 1) h.drawn) A.scene B.scene
  | record measure => exact h.record actor.factory measure
  | lock =>
    obtain ⟨factory, view⟩ := actor
    cases view with
    | none => exact h
    | some number => exact h.changeView number _
  | unlock state =>
    obtain ⟨factory, view⟩ := actor
    cases view with
    | none => exact h
    | some number => exact h.changeView number _
  | notify direction value =>
    obtain ⟨factory, view⟩ := actor
    cases view with
    | none => exact h
    | some number => exact h.notifyView he number direction value

end Acting

include hA hB

/-- Whatever happens but that the factory hands out a view, the worlds stay the same to everybody
else. -/
theorem Beside.happen (hn : n ≤ A.factories.length) {happening : Happening V}
    (hs : happening.Spares k) : Beside k n (A.happen env happening) (B.happen env happening) := by
  cases happening with
  | metadata call => exact h.callMetadata hA hB hkA hkB he hi call
  | act actor action => exact h.perform he hA hkA hkB hi actor action
  | work number step => exact h.work he hkA.attributes hkB.attributes number step
  | openFactory options immutability context counts => exact h.openFactory hn _ _ _ _
  | stop number =>
    by_cases hk : number = k
    · have hown : (Happening.stop (V := V) number).Own k := hk
      exact ((own_beside he hA hkA hown n).trans h).trans (own_beside he hB hkB hown n).symm
    · exact h.stop hA hB hk
  | join number => exact h.changePool number Executor.join
  | openView number session bundle metadata context => exact (h.openView hs _ _ _ _).2
  | closeView number => exact h.changeView number _
  | observe shelf number =>
    exact h.changeListeners (fun l l' hl => Listeners.without_register hl _) shelf
  | unobserve shelf id =>
    have hgone : ∀ l l' : Listeners Subscriber, l.without k = l'.without k →
        (l.unobserve id).without k = (l'.unobserve id).without k := by
      intro l l' hl
      rw [Listeners.without_unobserve, Listeners.without_unobserve, hl]
    exact h.changeListeners hgone shelf

omit hA hB

/-- To everybody else an action has the same answer. -/
theorem Beside.answer {actor : Actor} (hne : actor.factory ≠ k) (action : Action V) :
    (A.perform env actor action).1 = (B.perform env actor action).1 := by
  cases action with
  | isOpen =>
    have hopen := congrArg (Option.map Prod.fst) (h.standing hne)
    rw [Option.map_map, Option.map_map] at hopen
    exact congrArg (Option.getD · false) hopen
  | names call =>
    change (A.callNames env call).1 = (B.callNames env call).1
    rw [callNames_verdict he hkA.names.sound, callNames_verdict he hkB.names.sound, h.names,
      hi.before _ A B]
  | attributes call =>
    change (A.callAttributes env call).1 = (B.callAttributes env call).1
    rw [callAttributes_verdict he hkA.attributes.sound,
      callAttributes_verdict he hkB.attributes.sound, h.attributes, hi.before _ A B]
  | encode value => exact hi.encode value A B
  | decode bytes => exact hi.decode bytes A B
  | draw => exact congrArg env.draw h.drawn
  | lock =>
    change (((actor.view.bind fun number => A.views[number]?).map LiveView.state).getD _) =
      ((actor.view.bind fun number => B.views[number]?).map LiveView.state).getD _
    rw [h.views]
  | unlock state => rfl
  | record measure => rfl
  | notify direction value => rfl

end Both
end World
end SessionAttributes
