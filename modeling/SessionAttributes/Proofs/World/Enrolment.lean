import SessionAttributes.Proofs.World.Calling
import SessionAttributes.Proofs.World.Tasks

namespace SessionAttributes

variable {V σ : Type}

namespace Executor

variable {T : Type}

/-- A pool that can work off what it has accepted, and accepts as long as its factory is open. -/
structure Serves (e : Executor T) (isOpen : Bool) : Prop where
  staffed : 0 < e.workers
  accepting : e.accepting = isOpen
  joined : e.joined = true → e.isDrained = true

theorem isDrained_iff (e : Executor T) :
    e.isDrained = true ↔ e.accepting = false ∧ e.queued = [] ∧ e.running = [] := by
  simp [isDrained, and_assoc]

variable {e : Executor T} {isOpen : Bool}

/-- Who does not accept drops what he is handed. -/
theorem execute_closed (h : e.accepting = false) (task : T) : e.execute task = e := by
  simp [execute, h]

theorem received_drained (h : e.isDrained = true) : e.received = e := by
  obtain ⟨-, hq, -⟩ := e.isDrained_iff.mp h
  simp [received, receive, hq]

theorem join_drained (h : e.isDrained = true) : e.join = { e with joined := true } := if_pos h

theorem Serves.execute (h : e.Serves isOpen) (task : T) : (e.execute task).Serves isOpen := by
  cases ha : e.accepting with
  | false =>
    rw [execute_closed ha]
    exact h
  | true =>
    have hnever : e.joined = false := by
      refine Bool.eq_false_iff.mpr fun hj => ?_
      obtain ⟨hc, -⟩ := e.isDrained_iff.mp (h.joined hj)
      exact absurd (ha.symm.trans hc) nofun
    simp only [Executor.execute, ha, if_true]
    exact ⟨h.staffed, ha.symm.trans h.accepting, fun hj => absurd (hnever.symm.trans hj) nofun⟩

theorem Serves.received (h : e.Serves isOpen) : e.received.Serves isOpen := by
  cases hj : e.joined with
  | true =>
    rw [received_drained (h.joined hj)]
    exact h
  | false =>
    rcases e.received_cases with he | ⟨task, rest, -, he⟩
    · rw [he]
      exact h
    · rw [he]
      exact ⟨h.staffed, h.accepting, fun hj' => absurd (hj.symm.trans hj') nofun⟩

theorem Serves.finish (h : e.Serves isOpen) (position : Nat) :
    (e.finish position).Serves isOpen := by
  refine ⟨h.staffed, h.accepting, fun hj => ?_⟩
  obtain ⟨ha, hq, hr⟩ := e.isDrained_iff.mp (h.joined hj)
  simp [Executor.finish, isDrained_iff, ha, hq, hr]

theorem Serves.stopAccepting (h : e.Serves isOpen) : e.stopAccepting.Serves false := by
  refine ⟨h.staffed, rfl, fun hj => ?_⟩
  obtain ⟨-, hq, hr⟩ := e.isDrained_iff.mp (h.joined hj)
  simp [Executor.stopAccepting, isDrained_iff, hq, hr]

theorem Serves.join (h : e.Serves isOpen) : e.join.Serves isOpen := by
  cases hd : e.isDrained with
  | false =>
    rw [Executor.join, hd]
    exact h
  | true =>
    rw [join_drained hd]
    exact ⟨h.staffed, h.accepting, fun _ => hd⟩

theorem spawn_serves {workers : Nat} (h : spawn workers = .ok e) : e.Serves true := by
  unfold spawn at h
  split at h
  · cases h
  · cases h
    exact ⟨Nat.pos_of_ne_zero ‹_›, rfl, nofun⟩

end Executor

def Subscriptions.at? (s : Subscriptions) : Shelf → Option Nat
  | .metadata => some s.metadata.id
  | .names => some s.names.id
  | .attributes => s.attributes.map Registration.id

namespace Listeners

def without (l : Listeners Subscriber) (number : Nat) : Listeners Subscriber :=
  { l with entries := l.entries.filter fun e => e.2 ≠ .factory number }

theorem entriesOf_without (l : Listeners Subscriber) (number : Nat) (subscriber : Subscriber) :
    (l.without number).entriesOf subscriber =
      if subscriber = .factory number then [] else l.entriesOf subscriber := by
  unfold without entriesOf
  rw [List.filter_filter]
  split
  · simp_all
  · refine List.filter_congr fun e _ => ?_
    by_cases he : e.2 = subscriber <;> simp_all

theorem without_absent {l : Listeners Subscriber} {number : Nat}
    (h : l.entriesOf (.factory number) = []) : l.without number = l := by
  have hall : l.entries.filter (fun e => e.2 ≠ .factory number) = l.entries := by
    refine List.filter_eq_self.mpr fun e he => ?_
    simpa using List.filter_eq_nil_iff.mp h e he
  rw [without, hall]

variable {l : Listeners Subscriber} {ids : Nat → Option Nat}

/-- The registration of a factory is nobody else's. -/
theorem Lists.unlink_eq {away : Nat → Prop} (h : l.Lists ids away) {number id : Nat}
    (hi : ids number = some id) : l.unlink id = l.without number := by
  have hown : ∀ e ∈ l.entries, e.1 = id ↔ e.2 = .factory number := by
    intro e he
    constructor
    · rintro rfl
      exact h.unique he (h.mem hi)
    · intro hs
      have hone : e ∈ l.entriesOf (.factory number) := List.mem_filter.mpr ⟨he, by simp [hs]⟩
      rw [h.listed hi] at hone
      rw [List.mem_singleton.mp hone]
  unfold Listeners.unlink Listeners.without
  congr 1
  refine List.filter_congr fun e he => ?_
  rw [Bool.eq_iff_iff]
  simp [hown e he]

/-- Of those who listen one leaves. -/
theorem Lists.leave (h : l.Lists ids (ids · = none)) (number : Nat) :
    (l.without number).Lists (fun k => if k = number then none else ids k)
      (fun k => (if k = number then none else ids k) = none) := by
  refine ⟨h.nodup.sublist (List.filter_sublist.map Prod.fst),
    fun e he => h.fresh e (List.mem_filter.mp he).1, fun {k id} hi => ?_, fun {k} hn => ?_⟩
  · split at hi
    · cases hi
    · rename_i hk
      rw [entriesOf_without, if_neg fun he => hk (Subscriber.factory.inj he)]
      exact h.listed hi
  · rw [entriesOf_without]
    split at hn
    · rename_i hk
      rw [if_pos (congrArg _ hk)]
    · rename_i hk
      rw [if_neg fun he => hk (Subscriber.factory.inj he)]
      exact h.absent hn

end Listeners

namespace World

variable {env : Surroundings V σ} {w w' : World V σ} {number : Nat}

section Changing
variable {number : Nat} {change : Factory V → Factory V}

theorem subscriptions?_changeFactory
    (hc : ∀ f, (change f).isOpen = f.isOpen ∧ (change f).subscriptions = f.subscriptions) :
    (w.changeFactory number change).subscriptions? = w.subscriptions? := by
  funext k
  unfold subscriptions?
  rw [factory?_changeFactory]
  split
  · cases w.factory? k with
    | none => rfl
    | some f => simp [hc f]
  · rfl

end Changing

/-- What no callback ends is ended by those factories only whose workers or whose close can end
it. -/
theorem Perennial.ever {I : World V σ → Prop} (hI : Perennial I) {harmless : Nat → Prop}
    (hwork : ∀ {w : World V σ} number (work : Executor AttributeKey → Executor AttributeKey),
      harmless number → I w →
      I (w.changeFactory number fun f => { f with executor := work f.executor }))
    (hstop : ∀ {w : World V σ} number, harmless number → I w → I (w.stop number))
    (he : env.Stirring) {happening : Happening V}
    (ho : ∀ number, happening.Own number → harmless number) (h : I w) :
    I (w.happen env happening) := by
  have hobserves := hI.observes he
  cases happening with
  | work number step =>
    cases step with
    | receive =>
      change I (w.workerStep env number .receive)
      rw [receive_eq]
      exact hwork number Executor.received (ho number rfl) h
    | finish position =>
      change I (w.workerStep env number (.finish position))
      cases hf : (w.factory? number).bind fun f => f.executor.running[position]? with
      | none =>
        rw [finish_nothing hf]
        exact h
      | some key =>
        rw [finish_task hf]
        exact hwork number (·.finish position) (ho number rfl)
          (hI.enduring.callAttributes hobserves (.evict key) h)
  | stop number => exact hstop number (ho number rfl) h
  | join number => exact hwork number Executor.join (ho number rfl) h
  | _ => exact hI.happens hobserves rfl h

section Opening

/-- The registrations that a factory makes when it opens. -/
def registrations (w : World V σ) : Subscriptions :=
  ⟨⟨w.metadata.listeners.nextId, false⟩, ⟨w.names.listeners.nextId, false⟩,
    if w.attributes.store.persistent then none else some ⟨w.attributes.listeners.nextId, false⟩⟩

/-- The world with one more factory, which has registered with the stores. -/
def enter (w : World V σ) (f : Factory V) : World V σ :=
  { w with
    metadata := { w.metadata with
      listeners := (w.metadata.listeners.register (.factory w.factories.length)).2 }
    names := { w.names with
      listeners := (w.names.listeners.register (.factory w.factories.length)).2 }
    attributes := if w.attributes.store.persistent then w.attributes else { w.attributes with
      listeners := (w.attributes.listeners.register (.factory w.factories.length)).2 }
    factories := w.factories ++ [f] }

/-- A factory opens if its options permit it, in whatever world. -/
theorem openFactory_eq (w : World V σ) (options : FactoryOptions) (immutability : Immutability V)
    (context : String) (counts : Bool) :
    w.openFactory options immutability context counts =
      (do options.validate; Executor.spawn options.workers).map fun executor =>
        (w.factories.length, w.enter {
          isOpen := true, immutability, context, executor
          metrics := if counts then some {} else none
          subscriptions := w.registrations }) := by
  unfold openFactory enter registrations
  cases options.validate with
  | error fault => rfl
  | ok _ =>
    cases Executor.spawn (T := AttributeKey) options.workers with
    | error fault => rfl
    | ok executor => cases w.attributes.store.persistent <;> rfl

/-- Nothing is opened, or a factory that can serve. -/
theorem opened_enters (w : World V σ) (options : FactoryOptions) (immutability : Immutability V)
    (context : String) (counts : Bool) :
    w.opened (w.openFactory options immutability context counts) = w ∨
      ∃ f : Factory V, f.isOpen = true ∧ f.executor.Serves true ∧
        f.subscriptions = w.registrations ∧
        w.opened (w.openFactory options immutability context counts) = w.enter f := by
  rw [openFactory_eq]
  cases options.validate with
  | error fault => exact .inl rfl
  | ok _ =>
    cases hx : Executor.spawn (T := AttributeKey) options.workers with
    | error fault =>
      left
      simp [bind, Except.bind, Except.map, opened]
    | ok executor =>
      refine .inr ⟨{
        isOpen := true, immutability, context, executor
        metrics := if counts then some {} else none
        subscriptions := w.registrations }, rfl, Executor.spawn_serves hx, rfl, ?_⟩
      simp [bind, Except.bind, Except.map, opened]

theorem enter_factory? (w : World V σ) (f : Factory V) (k : Nat) :
    (w.enter f).factory? k = if k = w.factories.length then some f else w.factory? k := by
  change (w.factories ++ [f])[k]? = if k = w.factories.length then some f else w.factories[k]?
  by_cases hk : k = w.factories.length
  · rw [if_pos hk, hk, List.getElem?_concat_length]
  · rw [if_neg hk, List.getElem?_append]
    split
    · rfl
    · rw [List.getElem?_eq_none (by simp; omega), List.getElem?_eq_none (by omega)]

end Opening

/-- There is a factory with a number, and something holds of it. -/
def Has (number : Nat) (P : Factory V → Prop) (w : World V σ) : Prop :=
  ∃ f, w.factory? number = some f ∧ P f

section Having
variable {P Q : Factory V → Prop}

theorem Has.change (h : w.Has number P) (k : Nat) {change : Factory V → Factory V}
    (hc : k = number → ∀ f, P f → Q (change f)) (hsame : k ≠ number → ∀ f, P f → Q f) :
    (w.changeFactory k change).Has number Q := by
  obtain ⟨f, hf, hp⟩ := h
  by_cases hk : k = number
  · refine ⟨change f, ?_, hc hk f hp⟩
    rw [factory?_changeFactory, if_pos hk, hf]
    rfl
  · refine ⟨f, ?_, hsame hk f hp⟩
    rw [factory?_changeFactory, if_neg hk, hf]

/-- No callback changes a factory in what neither tasks nor counters have to do with. -/
theorem has_perennial
    (hx : ∀ (f : Factory V) key, P f → P { f with executor := f.executor.execute key })
    (hm : ∀ (f : Factory V) metrics, P f → P { f with metrics }) :
    Perennial (Has (σ := σ) number P) where
  metadata _ := id
  names _ := id
  attributes _ := id
  rest _ _ _ _ := id
  execute k key h := h.change k (fun _ f => hx f key) fun _ _ => id
  record k measure h := h.change k (fun _ f => hm f _) fun _ _ => id
  observe shelf k h := by cases shelf <;> exact h
  unobserve shelf id h := by cases shelf <;> exact h
  openFactory {w} options immutability context counts h := by
    rcases opened_enters w options immutability context counts with he | ⟨f, -, -, -, he⟩
    · rw [he]
      exact h
    · obtain ⟨f', hf', hp⟩ := h
      have hlt : number < w.factories.length := (List.getElem?_eq_some_iff.mp hf').1
      refine ⟨f', ?_, hp⟩
      rw [he, enter_factory?, if_neg (Nat.ne_of_lt hlt)]
      exact hf'

end Having

def listenersOf (w : World V σ) : Shelf → Listeners Subscriber
  | .metadata => w.metadata.listeners
  | .names => w.names.listeners
  | .attributes => w.attributes.listeners

/-- The registration at a store of a factory that is open. -/
def enrolled (w : World V σ) (shelf : Shelf) (number : Nat) : Option Nat :=
  (w.subscriptions? number).bind (·.at? shelf)

/-- The factories that are open listen, each once, and no others; and each has a pool that
serves. -/
structure Regular (w : World V σ) : Prop where
  listed : ∀ shelf, (w.listenersOf shelf).Lists (w.enrolled shelf) (w.enrolled shelf · = none)
  pools : ∀ {number f}, w.factory? number = some f → f.executor.Serves f.isOpen

theorem enrolled_congr (hs : w'.subscriptions? = w.subscriptions?) : w'.enrolled = w.enrolled := by
  unfold enrolled
  rw [hs]

theorem Regular.of_same (h : w.Regular) (hl : w'.listenersOf = w.listenersOf)
    (hf : w'.factories = w.factories) : w'.Regular := by
  have hfactory : w'.factory? = w.factory? := funext fun k => congrArg (·[k]?) hf
  have henrolled : w'.enrolled = w.enrolled := by
    refine enrolled_congr ?_
    unfold subscriptions?
    rw [hfactory]
  refine ⟨fun shelf => ?_, fun {k f} hk => h.pools (hfactory ▸ hk)⟩
  rw [henrolled, hl]
  exact h.listed shelf

theorem Regular.change (h : w.Regular) (number : Nat) {change : Factory V → Factory V}
    (hc : ∀ f, (change f).isOpen = f.isOpen ∧ (change f).subscriptions = f.subscriptions)
    (hx : ∀ f, f.executor.Serves f.isOpen → (change f).executor.Serves f.isOpen) :
    (w.changeFactory number change).Regular := by
  refine ⟨fun shelf => ?_, fun {k f} hf => ?_⟩
  · rw [enrolled_congr (subscriptions?_changeFactory hc)]
    cases shelf
    · exact h.listed .metadata
    · exact h.listed .names
    · exact h.listed .attributes
  · rw [factory?_changeFactory] at hf
    split at hf
    · obtain ⟨f', hf', rfl⟩ := Option.map_eq_some_iff.mp hf
      rw [(hc f').1]
      exact hx f' (h.pools hf')
    · exact h.pools hf

/-- Who listens is changed in a way that factories do not mind. -/
theorem Regular.changeListeners (h : w.Regular)
    (change : Listeners Subscriber → Listeners Subscriber)
    (hc : ∀ {l : Listeners Subscriber} {ids away}, l.Lists ids away → (change l).Lists ids away)
    (shelf : Shelf) : (w.changeListeners change shelf).Regular := by
  have hfactories : (w.changeListeners change shelf).factories = w.factories := by
    cases shelf <;> rfl
  have henrolled : (w.changeListeners change shelf).enrolled = w.enrolled := by
    cases shelf <;> rfl
  refine ⟨fun shelf' => ?_, fun {number f} hf => ?_⟩
  · rw [henrolled]
    have hl := h.listed shelf'
    cases shelf <;> cases shelf' <;> first | exact hc hl | exact hl
  · unfold factory? at hf
    rw [hfactories] at hf
    exact h.pools hf

theorem enter_enrolled (w : World V σ) {f : Factory V} (ho : f.isOpen = true) (shelf : Shelf) :
    (w.enter f).enrolled shelf = fun k =>
      if k = w.factories.length then f.subscriptions.at? shelf else w.enrolled shelf k := by
  funext k
  unfold enrolled subscriptions?
  rw [enter_factory?]
  split <;> simp [ho]

theorem Regular.enter (h : w.Regular) {f : Factory V} (ho : f.isOpen = true)
    (hx : f.executor.Serves true) (hs : f.subscriptions = w.registrations) :
    (w.enter f).Regular := by
  have hnew : ∀ shelf, w.enrolled shelf w.factories.length = none := by
    intro shelf
    unfold enrolled subscriptions? factory?
    simp
  refine ⟨fun shelf => ?_, fun {k f'} hf' => ?_⟩
  · have hregistered : ∀ id, f.subscriptions.at? shelf = some id →
        (w.enter f).listenersOf shelf =
          ((w.listenersOf shelf).register (.factory w.factories.length)).2 →
        id = (w.listenersOf shelf).nextId →
        ((w.enter f).listenersOf shelf).Lists ((w.enter f).enrolled shelf)
          ((w.enter f).enrolled shelf · = none) := by
      intro id hid hlisteners hnext
      have haway : ((w.enter f).enrolled shelf · = none) = fun k =>
          w.enrolled shelf k = none ∧ k ≠ w.factories.length := by
        funext k
        rw [enter_enrolled w ho]
        by_cases hk : k = w.factories.length <;> simp [hk, hid]
      rw [haway, hlisteners, enter_enrolled w ho, hid, hnext]
      exact (h.listed shelf).enter (hnew shelf)
    cases shelf with
    | metadata => exact hregistered _ rfl rfl (by rw [hs]; rfl)
    | names => exact hregistered _ rfl rfl (by rw [hs]; rfl)
    | attributes =>
      cases hp : w.attributes.store.persistent with
      | false =>
        refine hregistered w.attributes.listeners.nextId ?_ ?_ rfl
        · simp [hs, registrations, Subscriptions.at?, hp]
        · simp [listenersOf, World.enter, hp]
      | true =>
        -- A persistent store is left alone.
        have hsame : (w.enter f).enrolled .attributes = w.enrolled .attributes := by
          rw [enter_enrolled w ho]
          funext k
          by_cases hk : k = w.factories.length
          · simp [hk, hnew, hs, registrations, Subscriptions.at?, hp]
          · simp [hk]
        have hlisteners : (w.enter f).listenersOf .attributes = w.listenersOf .attributes := by
          simp [listenersOf, World.enter, hp]
        rw [hsame, hlisteners]
        exact h.listed .attributes
  · rw [enter_factory?] at hf'
    split at hf'
    · obtain rfl := Option.some.inj hf'
      rw [ho]
      exact hx
    · exact h.pools hf'

theorem regular_perennial : Perennial (Regular : World V σ → Prop) where
  metadata _ h := h.of_same (funext fun shelf => by cases shelf <;> rfl) rfl
  names _ h := h.of_same (funext fun shelf => by cases shelf <;> rfl) rfl
  attributes _ h := h.of_same (funext fun shelf => by cases shelf <;> rfl) rfl
  execute number key h := h.change number (fun _ => ⟨rfl, rfl⟩) fun _ hx => hx.execute key
  record number measure h := h.change number (fun _ => ⟨rfl, rfl⟩) fun _ hx => hx
  rest _ _ _ _ h := h.of_same (funext fun shelf => by cases shelf <;> rfl) rfl
  observe shelf number h := h.changeListeners _ (fun hl => hl.observe number) shelf
  unobserve shelf id h := h.changeListeners _ (fun hl => hl.unobserve id) shelf
  openFactory {w} options immutability context counts h := by
    rcases opened_enters w options immutability context counts with he | ⟨f, ho, hx, hs, he⟩
    · rw [he]
      exact h
    · rw [he]
      exact h.enter ho hx hs

section Stopping
variable {number : Nat}

theorem subscriptions?_some {s : Subscriptions} (h : w.subscriptions? number = some s) :
    ∃ f, w.factory? number = some f ∧ f.isOpen = true ∧ f.subscriptions = s := by
  obtain ⟨f, hf, ho⟩ := Option.bind_eq_some_iff.mp h
  split at ho
  · exact ⟨f, hf, ‹_›, Option.some.inj ho⟩
  · cases ho

theorem stop_idle (h : w.subscriptions? number = none) : w.stop number = w := by
  rcases stop_still w number with hsame | ⟨f, hf, ho⟩
  · exact hsame
  · exact absurd ((subscriptions?_of_open hf ho).symm.trans h) nofun

/-- Who stops leaves every store, and nobody else does. -/
theorem Regular.stop_listeners (h : w.Regular) (number : Nat) (shelf : Shelf) :
    (w.stop number).listenersOf shelf = (w.listenersOf shelf).without number := by
  cases hs : w.subscriptions? number with
  | none =>
    rw [stop_idle hs, Listeners.without_absent]
    exact (h.listed shelf).absent (by simp [enrolled, hs])
  | some s =>
    obtain ⟨f, hf, ho, rfl⟩ := subscriptions?_some hs
    have hlisted : ∀ {id}, f.subscriptions.at? shelf = some id →
        (w.listenersOf shelf).unlink id = (w.listenersOf shelf).without number :=
      fun hid => (h.listed shelf).unlink_eq (by simp [enrolled, hs, hid])
    rw [stop_eq hf ho]
    cases shelf with
    | metadata => exact hlisted rfl
    | names => exact hlisted rfl
    | attributes =>
      unfold unsubscribe changeFactory
      cases hr : f.subscriptions.attributes with
      | none =>
        refine (Listeners.without_absent ((h.listed .attributes).absent ?_)).symm
        simp [enrolled, hs, Subscriptions.at?, hr]
      | some r => exact hlisted (by simp [Subscriptions.at?, hr])

theorem stop_enrolled (w : World V σ) (number : Nat) (shelf : Shelf) :
    (w.stop number).enrolled shelf = fun k =>
      if k = number then none else w.enrolled shelf k := by
  funext k
  unfold enrolled
  cases hs : w.subscriptions? number with
  | none =>
    rw [stop_idle hs]
    by_cases hk : k = number <;> simp [hk, hs]
  | some s =>
    obtain ⟨f, hf, ho, -⟩ := subscriptions?_some hs
    rw [stop_subscriptions? hf ho]
    split <;> rfl

theorem Regular.stop (h : w.Regular) (number : Nat) : (w.stop number).Regular := by
  refine ⟨fun shelf => ?_, fun {k f'} hf' => ?_⟩
  · rw [h.stop_listeners, stop_enrolled]
    exact (h.listed shelf).leave number
  · rcases stop_still w number with hsame | ⟨f, hf, ho⟩
    · rw [hsame] at hf'
      exact h.pools hf'
    · rw [stop_factory? hf ho] at hf'
      split at hf'
      · obtain ⟨f'', hf'', rfl⟩ := Option.map_eq_some_iff.mp hf'
        exact (h.pools hf'').stopAccepting
      · exact h.pools hf'

end Stopping

/-- Whatever happens, those who are open listen, and nobody else does. -/
theorem Regular.happens (h : w.Regular) (he : env.Stirring) (happening : Happening V) :
    (w.happen env happening).Regular := by
  have hobserves := regular_perennial.observes he
  cases happening with
  | work number step =>
    cases step with
    | receive =>
      change (w.workerStep env number .receive).Regular
      rw [receive_eq]
      exact h.change number (fun _ => ⟨rfl, rfl⟩) fun _ hx => hx.received
    | finish position =>
      change (w.workerStep env number (.finish position)).Regular
      cases hf : (w.factory? number).bind fun f => f.executor.running[position]? with
      | none =>
        rw [finish_nothing hf]
        exact h
      | some key =>
        rw [finish_task hf]
        exact (regular_perennial.enduring.callAttributes hobserves (.evict key) h).change number
          (fun _ => ⟨rfl, rfl⟩) fun _ hx => hx.finish position
  | stop number => exact h.stop number
  | join number => exact h.change number (fun _ => ⟨rfl, rfl⟩) fun _ hx => hx.join
  | _ => exact regular_perennial.happens hobserves rfl h

theorem openWith_regular {metadata names attributes : StoreOptions} {scene : σ}
    (h : World.openWith metadata names attributes scene = .ok w) : w.Regular := by
  obtain ⟨sm, sn, sa, -, -, -, rfl⟩ := openWith_shape h
  have hempty : ∀ ids away, (∀ k, ids k = none) → Listeners.empty.Lists ids away := by
    intro ids away hids
    exact ⟨List.nodup_nil, List.forall_mem_nil _,
      fun {k id} hi => absurd ((hids k).symm.trans hi) nofun, fun _ => rfl⟩
  refine ⟨fun shelf => ?_, nofun⟩
  cases shelf <;> exact hempty _ _ fun _ => rfl

theorem Lived.regular (h : w.Lived) : w.Regular := by
  obtain ⟨metadata, names, attributes, scene, w₀, hopen, hkeeps⟩ := h.keeps
  exact hkeeps regular_perennial (fun he happening hr => hr.happens he happening)
    (openWith_regular hopen)

section Placing
variable {metadata names attributes : StoreOptions}

theorem placed_perennial :
    Perennial (Placed metadata names attributes : World V σ → Prop) where
  metadata := placed_lasting.metadata
  names := placed_lasting.names
  attributes := placed_lasting.attributes
  execute := placed_lasting.execute
  record k measure h := h.record k measure
  rest views drawn scene _ := placed_lasting.rest views drawn scene
  observe shelf _ h := by cases shelf <;> exact ⟨h.metadata, h.names, h.attributes⟩
  unobserve shelf _ h := by cases shelf <;> exact ⟨h.metadata, h.names, h.attributes⟩
  openFactory {w} options immutability context counts h := by
    rcases opened_enters w options immutability context counts with he | ⟨f, -, -, -, he⟩
    · rw [he]
      exact h
    · rw [he]
      refine ⟨h.metadata, h.names, ?_⟩
      unfold enter
      dsimp only
      split <;> exact h.attributes

theorem Placed.happens (h : w.Placed metadata names attributes) (he : env.Stirring)
    (happening : Happening V) : (w.happen env happening).Placed metadata names attributes := by
  refine placed_perennial.ever (fun _ _ _ h => ⟨h.metadata, h.names, h.attributes⟩)
    (fun {w} k _ h => ?_) he (fun _ _ => trivial) h
  rcases stop_still w k with hsame | ⟨f, hf, ho⟩
  · rw [hsame]
    exact h
  · obtain ⟨hm, hn, ha⟩ := stop_stores hf ho
    exact ⟨hm ▸ h.metadata, hn ▸ h.names, ha ▸ h.attributes⟩

/-- Each store keeps to the options that it was opened with. -/
theorem Lived.placed (h : w.Lived) : ∃ metadata names attributes,
    w.Placed metadata names attributes := by
  obtain ⟨metadata, names, attributes, scene, w₀, hopen, hkeeps⟩ := h.keeps
  exact ⟨metadata, names, attributes, hkeeps placed_perennial
    (fun he happening hp => hp.happens he happening) (openWith_placed hopen)⟩

end Placing

/-- Nobody gives a view a notifier over a store that is not persistent. -/
theorem mute_perennial : Perennial (Mute : World V σ → Prop) where
  metadata _ := id
  names _ := id
  attributes hs h hp := h (hs.persistent.symm.trans hp)
  execute _ _ := id
  record _ _ := id
  rest _ _ _ hm := hm
  observe shelf _ h := by cases shelf <;> exact h
  unobserve shelf _ h := by cases shelf <;> exact h
  openFactory {w} options immutability context counts h := by
    rcases opened_enters w options immutability context counts with he | ⟨f, -, -, -, he⟩
    · rw [he]
      exact h
    · rw [he]
      intro hp
      refine h (Eq.trans ?_ hp)
      unfold enter
      dsimp only
      split <;> rfl

theorem stop_mute (h : w.Mute) (number : Nat) : (w.stop number).Mute := by
  rcases stop_still w number with hsame | ⟨f, hf, ho⟩
  · rw [hsame]
    exact h
  · intro hp
    rw [(stop_stores hf ho).2.2] at hp
    rw [stop_eq hf ho]
    exact h hp

theorem Lived.mute (h : w.Lived) : w.Mute := by
  obtain ⟨metadata, names, attributes, scene, w₀, hopen, hkeeps⟩ := h.keeps
  refine hkeeps mute_perennial (fun he happening hm => ?_) ?_
  · exact mute_perennial.ever (fun _ _ _ => id) (fun k _ hm => stop_mute hm k) he
      (fun _ _ => trivial) hm
  · obtain ⟨sm, sn, sa, -, -, -, rfl⟩ := openWith_shape hopen
    exact fun _ => List.forall_mem_nil _

end World
end SessionAttributes
