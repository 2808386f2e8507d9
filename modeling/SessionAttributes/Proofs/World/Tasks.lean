import SessionAttributes.Proofs.World.Wiring

namespace SessionAttributes

variable {V σ : Type}

namespace Executor

variable {T : Type}

theorem execute_holds (e : Executor T) (tasks : List T) {task : T} (h : e.Holds task) :
    (tasks.foldl execute e).Holds task := by
  induction tasks generalizing e with
  | nil => exact h
  | cons next tasks ih =>
    refine ih _ ?_
    unfold execute
    split
    · exact h.imp (List.mem_append_left _) id
    · exact h

theorem execute_accepting (e : Executor T) (tasks : List T) :
    (tasks.foldl execute e).accepting = e.accepting := by
  induction tasks generalizing e with
  | nil => rfl
  | cons next tasks ih =>
    refine (ih _).trans ?_
    unfold execute
    split <;> rfl

/-- Workers that accept queue all that they are handed. -/
theorem execute_queued (e : Executor T) (ha : e.accepting = true) (tasks : List T) :
    tasks.foldl execute e =
      { e with queued := e.queued ++ tasks, pending := e.pending + tasks.length } := by
  induction tasks generalizing e with
  | nil => simp
  | cons next tasks ih =>
    have hnext : e.execute next =
        { e with queued := e.queued ++ [next], pending := e.pending + 1 } := if_pos ha
    rw [List.foldl_cons, hnext]
    refine (ih { e with queued := e.queued ++ [next], pending := e.pending + 1 } ha).trans ?_
    simp [Nat.add_assoc, Nat.add_comm 1]

/-- The pool after a free worker has received a task, if there is any. -/
def received (e : Executor T) : Executor T := (e.receive.map Prod.snd).getD e

theorem received_cases (e : Executor T) : e.received = e ∨
    ∃ task rest, e.queued = task :: rest ∧
      e.received = { e with queued := rest, running := e.running ++ [task] } := by
  unfold received receive
  cases hq : e.queued with
  | nil => exact .inl rfl
  | cons task rest =>
    dsimp only
    split
    · exact .inr ⟨task, rest, rfl, rfl⟩
    · exact .inl rfl

theorem received_holds (e : Executor T) {task : T} (h : e.Holds task) : e.received.Holds task := by
  rcases e.received_cases with he | ⟨next, rest, hq, he⟩
  · rw [he]
    exact h
  · rw [he]
    rcases h with h | h
    · rw [hq] at h
      rcases List.mem_cons.mp h with rfl | h
      · exact .inr (List.mem_append_right _ (List.mem_singleton.mpr rfl))
      · exact .inl h
    · exact .inr (List.mem_append_left _ h)

theorem received_accepting (e : Executor T) : e.received.accepting = e.accepting := by
  rcases e.received_cases with he | ⟨next, rest, -, he⟩ <;> rw [he]

theorem finish_holds (e : Executor T) (position : Nat) {task : T} (h : e.Holds task) :
    (e.finish position).Holds task ∨ e.running[position]? = some task := by
  rcases h with h | h
  · exact .inl (.inl h)
  · obtain ⟨i, hi, rfl⟩ := List.getElem_of_mem h
    by_cases hp : i = position
    · subst hp
      exact .inr (List.getElem?_eq_getElem hi)
    · refine .inl (.inr ?_)
      change e.running[i] ∈ e.running.eraseIdx position
      exact List.mem_eraseIdx_iff_getElem.mpr ⟨i, hi, hp, rfl⟩

theorem join_holds (e : Executor T) {task : T} (h : e.Holds task) : e.join.Holds task := by
  unfold join
  split <;> exact h

end Executor

namespace World

variable {env : Surroundings V σ} {w w' : World V σ}

/-- What may be said of the calls that the stores settle, and of the work that is done, when
something happens. -/
structure Proper (env : Surroundings V σ) (w : World V σ) (happening : Happening V)
    (names : List (StoreCall SessionId Names)) (attributes : List (StoreCall AttributeKey Bytes))
    (work : Nat → Executor AttributeKey → Executor AttributeKey) : Prop where
  ofNames : ∀ call ∈ names, call.isSingle = true ∧
    ∀ session, ¬ happening.UsesNames session → ¬ call.Uses session
  ofEntries : ∀ call ∈ attributes, call.isSingle = true ∧
    ∀ key, ¬ happening.UsesEntry key → ¬ call.Uses key
  accepting : ∀ number e, (work number e).accepting = e.accepting
  holds : ∀ {number f key}, w.factory? number = some f → f.executor.Holds key →
    (work number f.executor).Holds key ∨ key ∈ w.finishes number happening
  finished : env.Reliable → ∀ {number key}, key ∈ w.finishes number happening →
    attributes = [.evict key]

variable {happening : Happening V}

/-- Handing out evictions is proper work. -/
theorem Proper.handed {names : List (StoreCall SessionId Names)}
    {attributes : List (StoreCall AttributeKey Bytes)}
    (hn : ∀ call ∈ names, call.isSingle = true ∧
      ∀ session, ¬ happening.UsesNames session → ¬ call.Uses session)
    (ha : ∀ call ∈ attributes, call.isSingle = true ∧
      ∀ key, ¬ happening.UsesEntry key → ¬ call.Uses key)
    (hf : ∀ number, w.finishes number happening = []) (orders : List (Nat × AttributeKey)) :
    w.Proper env happening names attributes fun number e =>
      (forFactory number orders).foldl Executor.execute e := by
  refine ⟨hn, ha, fun number e => e.execute_accepting _,
    fun _ hh => .inl (Executor.execute_holds _ _ hh), fun _ number key hk => ?_⟩
  rw [hf] at hk
  cases hk

/-- What happens settles some calls of the stores and gives the workers something to do, unless it
changes who listens. -/
def Ordinary (env : Surroundings V σ) (w : World V σ) (happening : Happening V) : Prop :=
  ∃ metadata names attributes work,
    w.Settles (w.happen env happening) metadata names attributes work ∧
      w.Proper env happening names attributes work

/-- Handing out evictions, as something that happens. -/
theorem Handed.proper {orders : List (Nat × AttributeKey)}
    (h : w.Handed (w.happen env happening) orders)
    (hf : ∀ number, w.finishes number happening = []) : w.Ordinary env happening :=
  ⟨[], [], [], _, h.settling rfl rfl rfl rfl,
    .handed (List.forall_mem_nil _) (List.forall_mem_nil _) hf orders⟩

/-- Nothing that the stores or the workers know of. -/
theorem aside_proper (hm : (w.happen env happening).metadata = w.metadata)
    (hn : (w.happen env happening).names = w.names)
    (ha : (w.happen env happening).attributes = w.attributes)
    (hp : ∀ number, ((w.happen env happening).factory? number).map Factory.post =
      (w.factory? number).map Factory.post)
    (hf : ∀ number, w.finishes number happening = []) : w.Ordinary env happening := by
  refine ⟨[], [], [], fun _ e => e, ⟨hm, hn, ha, hp⟩,
    List.forall_mem_nil _, List.forall_mem_nil _, fun _ _ => rfl,
    fun _ hh => .inl hh, fun _ number key hk => ?_⟩
  rw [hf] at hk
  cases hk

theorem metadata_proper (he : env.Aloof) (w : World V σ) (call : StoreCall SessionId Metadata) :
    w.Ordinary env (.metadata call) := by
  obtain ⟨calls, names, -, hnames, h⟩ := callMetadata_cascades he w call
  refine ⟨calls, names, [], _, h.settling rfl rfl rfl rfl,
    .handed (fun c hc => ?_) (List.forall_mem_nil _) (fun _ => rfl) _⟩
  obtain ⟨session, rfl⟩ := mem_evictions (hnames.sublist.subset hc)
  exact ⟨rfl, fun _ _ => id⟩

theorem names_proper (he : env.Aloof) (w : World V σ) (actor : Actor)
    (call : StoreCall SessionId Names) : w.Ordinary env (.act actor (.names call)) := by
  obtain ⟨calls, hcalls, h⟩ := callNames_cascades he w call
  refine ⟨[], calls, [], _, h.settling rfl rfl rfl rfl, .handed (fun c hc => ?_)
    (List.forall_mem_nil _) (fun _ => rfl) _⟩
  have hm := hcalls.sublist.subset hc
  exact ⟨call.parts_single c hm, fun session hs => call.parts_uses hs c hm⟩

theorem attributes_proper (he : env.Aloof) (w : World V σ) (actor : Actor)
    (call : StoreCall AttributeKey Bytes) : w.Ordinary env (.act actor (.attributes call)) := by
  obtain ⟨calls, hcalls, h⟩ := callAttributes_handed he w call
  refine ⟨[], [], calls, _, h.settling rfl rfl rfl rfl, .handed (List.forall_mem_nil _)
    (fun c hc => ?_) (fun _ => rfl) _⟩
  have hm := hcalls.sublist.subset hc
  exact ⟨call.parts_single c hm, fun key hk => call.parts_uses hk c hm⟩

theorem notify_handed (he : env.Aloof) (w : World V σ) (number : Nat) (direction : Direction)
    (value : V) : w.Handed (w.notifyView env number direction value) [] := by
  unfold notifyView
  split
  · exact .refl w
  · split
    · exact .refl w
    · split
      · exact .refl w
      · rename_i live _ _ n _ _
        obtain ⟨scene, hw⟩ := he.callback ⟨live.factory, direction, n.session, n.context, value⟩ w
        exact (Handed.scene hw).trans (.record _ _ nofun)

theorem act_proper (he : env.Aloof) (w : World V σ) (actor : Actor) (action : Action V) :
    w.Ordinary env (.act actor action) := by
  cases action with
  | names call => exact names_proper he w actor call
  | attributes call => exact attributes_proper he w actor call
  | isOpen => exact aside_proper rfl rfl rfl (fun _ => rfl) fun _ => rfl
  | draw => exact aside_proper rfl rfl rfl (fun _ => rfl) fun _ => rfl
  | encode value =>
    obtain ⟨scene, hw⟩ := he.encode value w
    exact (Handed.scene hw).proper fun _ => rfl
  | decode bytes =>
    obtain ⟨scene, hw⟩ := he.decode bytes w
    exact (Handed.scene hw).proper fun _ => rfl
  | lock =>
    obtain ⟨factory, view⟩ := actor
    cases view <;> exact aside_proper rfl rfl rfl (fun _ => rfl) fun _ => rfl
  | unlock state =>
    obtain ⟨factory, view⟩ := actor
    cases view <;> exact aside_proper rfl rfl rfl (fun _ => rfl) fun _ => rfl
  | record measure =>
    refine aside_proper rfl rfl rfl (fun number => ?_) fun _ => rfl
    change ((w.record actor.factory measure).factory? number).map Factory.post = _
    rw [World.record, factory?_changeFactory]
    split
    · rw [Option.map_map]
      rfl
    · rfl
  | notify direction value =>
    obtain ⟨factory, view⟩ := actor
    cases view with
    | none => exact aside_proper rfl rfl rfl (fun _ => rfl) fun _ => rfl
    | some number => exact (notify_handed he w number direction value).proper fun _ => rfl

section Changing
variable {number : Nat} {change change' : Factory V → Factory V}

theorem changeFactory_congr
    (h : ∀ f, w.factory? number = some f → change f = change' f) :
    w.changeFactory number change = w.changeFactory number change' := by
  unfold changeFactory
  congr 1
  refine List.ext_getElem? fun k => ?_
  rw [List.getElem?_modify, List.getElem?_modify]
  by_cases hk : number = k
  · subst hk
    cases hf : w.factories[number]? with
    | none => rfl
    | some f => simp [h f hf]
  · simp [hk]

theorem changeFactory_self (h : ∀ f, w.factory? number = some f → change f = f) :
    w.changeFactory number change = w := by
  have hid : w.changeFactory number change = w.changeFactory number id := changeFactory_congr h
  rw [hid, changeFactory, List.modify_id]

end Changing

/-- A free worker receives the next task, if there is one. -/
theorem receive_eq (env : Surroundings V σ) (w : World V σ) (number : Nat) :
    w.workerStep env number .receive =
      w.changeFactory number fun f => { f with executor := f.executor.received } := by
  unfold workerStep
  dsimp only
  cases hf : w.factory? number with
  | none => exact (changeFactory_self fun f h => absurd (hf.symm.trans h) nofun).symm
  | some f =>
    rw [Option.bind_some]
    cases hr : f.executor.receive with
    | none =>
      refine (changeFactory_self fun f' h => ?_).symm
      obtain rfl := Option.some.inj (hf.symm.trans h)
      simp [Executor.received, hr]
    | some r =>
      refine changeFactory_congr fun f' h => ?_
      obtain rfl := Option.some.inj (hf.symm.trans h)
      simp [Executor.received, hr]

section Finishing
variable {number position : Nat} {key : AttributeKey}

theorem finish_nothing
    (h : ((w.factory? number).bind fun f => f.executor.running[position]?) = none) :
    w.workerStep env number (.finish position) = w := by
  unfold workerStep
  simp only [h]

/-- A worker evicts the entry of its task and is done with it. -/
theorem finish_task
    (h : ((w.factory? number).bind fun f => f.executor.running[position]?) = some key) :
    w.workerStep env number (.finish position) =
      (w.callAttributes env (.evict key)).2.changeFactory number fun f =>
        { f with executor := f.executor.finish position } := by
  unfold workerStep
  simp only [h]

theorem finishes_task
    (h : ((w.factory? number).bind fun f => f.executor.running[position]?) = some key) (k : Nat) :
    w.finishes k (.work number (.finish position)) = if k = number then [key] else [] := by
  simp only [finishes, h, Option.toList_some, eq_comm]

end Finishing

/-- A pool that keeps its tasks and accepts as before. -/
theorem pool_proper {number : Nat} {work : Executor AttributeKey → Executor AttributeKey}
    (hw : w.happen env happening =
      w.changeFactory number fun f => { f with executor := work f.executor })
    (ha : ∀ e, (work e).accepting = e.accepting)
    (hh : ∀ {e : Executor AttributeKey} {key}, e.Holds key → (work e).Holds key)
    (hf : ∀ k, w.finishes k happening = []) : w.Ordinary env happening := by
  have hchange := (Settles.refl w).change number (fun f => { f with executor := work f.executor })
    (fun k e => if k = number then work e else e) (fun _ => ⟨rfl, rfl⟩)
    (fun _ hk => (if_pos hk).symm) (fun hk _ => if_neg hk)
  refine ⟨[], [], [], _, hw ▸ hchange, List.forall_mem_nil _, List.forall_mem_nil _, fun k e => ?_,
    fun {k f key} _ hheld => .inl ?_, fun _ k key hk => ?_⟩
  · split
    · exact ha e
    · rfl
  · split
    · exact hh hheld
    · exact hheld
  · rw [hf] at hk
    cases hk

/-- A worker that receives a task keeps it, and one that finishes a task has evicted its entry. -/
theorem work_proper (he : env.Aloof) (w : World V σ) (number : Nat) (step : WorkerStep) :
    w.Ordinary env (.work number step) := by
  cases step with
  | receive =>
    exact pool_proper (receive_eq env w number) (·.received_accepting) (Executor.received_holds _)
      fun _ => rfl
  | finish position =>
    cases hf : (w.factory? number).bind fun f => f.executor.running[position]? with
    | none =>
      have hnone : w.happen env (.work number (.finish position)) = w := finish_nothing hf
      refine aside_proper (by rw [hnone]) (by rw [hnone]) (by rw [hnone]) (fun k => by rw [hnone])
        fun k => ?_
      simp [finishes, hf]
    | some key =>
      have hsome : w.happen env (.work number (.finish position)) = _ := finish_task hf
      obtain ⟨calls, hcalls, h⟩ := callAttributes_handed he w (.evict key)
      have hsettles : w.Settles _ [] [] calls _ := h.settling rfl rfl rfl rfl
      have hchange := hsettles.change number
        (fun f => { f with executor := f.executor.finish position })
        (fun k e => if k = number then e.finish position else e) (fun _ => ⟨rfl, rfl⟩)
        (fun _ hk => (if_pos hk).symm) (fun hk _ => if_neg hk)
      have hfinishes : ∀ {k task}, task ∈ w.finishes k (.work number (.finish position)) ↔
          k = number ∧ task = key := by
        intro k task
        rw [finishes_task hf]
        split <;> simp [*]
      refine ⟨[], [], calls, _, hsome ▸ hchange, List.forall_mem_nil _, fun c hc => ?_,
        fun k e => ?_, fun {k f task} hfactory hh => ?_, fun hr k task hk => ?_⟩
      · obtain rfl := List.mem_singleton.mp (hcalls.sublist.subset hc)
        exact ⟨rfl, fun _ _ => id⟩
      · split <;> rfl
      · by_cases hk : k = number
        · subst hk
          rw [hfactory] at hf
          refine (f.executor.finish_holds position hh).imp (fun h => ?_) fun h => ?_
          · simpa [forFactory] using h
          · rw [hfinishes]
            exact ⟨rfl, Option.some.inj (h.symm.trans hf)⟩
        · refine .inl ?_
          simpa [forFactory, hk] using hh
      · obtain ⟨-, rfl⟩ := hfinishes.mp hk
        exact hcalls.all hr

theorem join_proper (env : Surroundings V σ) (w : World V σ) (number : Nat) :
    w.Ordinary env (.join number) := by
  refine pool_proper rfl (fun e => ?_) (Executor.join_holds _) fun _ => rfl
  unfold Executor.join
  split <;> rfl

theorem openView_proper (env : Surroundings V σ) (w : World V σ) (number : Nat)
    (session : SessionId) (bundle : Bundle V) (metadata : Metadata) (context : String) :
    w.Ordinary env (.openView number session bundle metadata context) := by
  have hshape : w.opened (w.openView number session bundle metadata context) = w ∨
      ∃ views, w.opened (w.openView number session bundle metadata context) = { w with views } := by
    unfold openView
    split
    · exact .inl rfl
    · split
      · exact .inl rfl
      · exact .inr ⟨_, rfl⟩
  obtain ⟨views, hw⟩ : ∃ views, w.happen env (.openView number session bundle metadata context) =
      { w with views } := by
    rcases hshape with hw | hw
    · exact ⟨w.views, hw⟩
    · exact hw
  exact aside_proper (by rw [hw]) (by rw [hw]) (by rw [hw])
    (fun k => by rw [hw]; rfl) fun _ => rfl

structure Follows (env : Surroundings V σ) (w w' : World V σ) (happening : Happening V) : Prop where
  wired : w'.Wired
  names : ∃ calls, w'.names.store = w.names.store.after calls ∧ ∀ call ∈ calls,
    call.isSingle = true ∧ ∀ session, ¬ happening.UsesNames session → ¬ call.Uses session
  entries : ∃ calls, w'.attributes.store = w.attributes.store.after calls ∧
    (∀ call ∈ calls, call.isSingle = true ∧ ∀ key, ¬ happening.UsesEntry key → ¬ call.Uses key) ∧
    (env.Reliable → ∀ {number key}, key ∈ w.finishes number happening → calls = [.evict key])
  holds : ∀ {number f key}, w.factory? number = some f → f.executor.Holds key →
    (∃ f', w'.factory? number = some f' ∧ f'.executor.Holds key) ∨
      key ∈ w.finishes number happening

theorem Ordinary.follows (h : w.Ordinary env happening) (hw : w.Wired) :
    Follows env w (w.happen env happening) happening := by
  obtain ⟨metadata, names, attributes, work, hs, hp⟩ := h
  refine ⟨hw.settling hs hp.accepting, ⟨names, congrArg Site.store hs.names, hp.ofNames⟩,
    ⟨attributes, congrArg Site.store hs.attributes, hp.ofEntries, hp.finished⟩,
    fun {number f key} hf hh => (hp.holds hf hh).imp_left fun hh' => ?_⟩
  obtain ⟨f', hf', -, -, hexecutor⟩ := hs.factory' hf
  exact ⟨f', hf', hexecutor ▸ hh'⟩

/-- Who listens is changed, and the stores are left alone. -/
theorem Wired.follows (hw' : w'.Wired) (hn : w'.names.store = w.names.store)
    (ha : w'.attributes.store = w.attributes.store)
    (hx : ∀ {number f}, w.factory? number = some f → ∃ f', w'.factory? number = some f' ∧
      f'.executor.queued = f.executor.queued ∧ f'.executor.running = f.executor.running)
    (hf : ∀ number, w.finishes number happening = []) : Follows env w w' happening := by
  refine ⟨hw', ⟨[], hn, List.forall_mem_nil _⟩, ⟨[], ha, List.forall_mem_nil _,
    fun _ number key hk => ?_⟩, fun {number f key} hfactory hh => .inl ?_⟩
  · rw [hf] at hk
    cases hk
  · obtain ⟨f', hf', hq, hr⟩ := hx hfactory
    refine ⟨f', hf', ?_⟩
    unfold Executor.Holds
    rw [hq, hr]
    exact hh

section Rewiring
variable (hw : w.Wired)
include hw

theorem Wired.changeListeners (change : Listeners Subscriber → Listeners Subscriber)
    (hc : ∀ {l : Listeners Subscriber} {ids away}, l.Lists ids away → (change l).Lists ids away)
    (shelf : Shelf) : (w.changeListeners change shelf).Wired := by
  obtain ⟨hm, hn, ha, hml, hnl, hacc⟩ := hw
  cases shelf with
  | metadata => exact ⟨hm, hn, ha, hc hml, hnl, hacc⟩
  | names => exact ⟨hm, hn, ha, hml, hc hnl, hacc⟩
  | attributes => exact ⟨hm, hn, ha, hml, hnl, hacc⟩

theorem changeListeners_follows (change : Listeners Subscriber → Listeners Subscriber)
    (hc : ∀ {l : Listeners Subscriber} {ids away}, l.Lists ids away → (change l).Lists ids away)
    (shelf : Shelf) (hf : ∀ number, w.finishes number happening = []) :
    Follows env w (w.changeListeners change shelf) happening := by
  refine (hw.changeListeners change hc shelf).follows ?_ ?_ (fun {number f} hfactory => ?_) hf
  · cases shelf <;> rfl
  · cases shelf <;> rfl
  · refine ⟨f, ?_, rfl, rfl⟩
    cases shelf <;> exact hfactory

/-- Of the factories only one changes who it is, and it is not open any more. -/
theorem stop_follows (number : Nat) : Follows env w (w.stop number) (.stop number) := by
  rcases stop_still w number with hsame | ⟨f, hf, ho⟩
  · rw [hsame]
    exact hw.follows rfl rfl (fun {k f} hf => ⟨f, hf, rfl, rfl⟩) fun _ => rfl
  · obtain ⟨-, hn, ha⟩ := stop_stores hf ho
    refine (stop_wired hf ho hw).follows hn ha (fun {k f'} hf' => ?_) fun _ => rfl
    rw [stop_factory? hf ho]
    split
    · exact ⟨_, congrArg (Option.map _) hf', rfl, rfl⟩
    · exact ⟨f', hf', rfl, rfl⟩

/-- A new factory is connected to the stores. -/
theorem openFactory_follows (options : FactoryOptions) (immutability : Immutability V)
    (context : String) (counts : Bool) :
    Follows env w (w.opened (w.openFactory options immutability context counts))
      (.openFactory options immutability context counts) := by
  rcases openFactory_enters w options immutability context counts with hsame | ⟨factory, h⟩
  · rw [hsame]
    exact hw.follows rfl rfl (fun {k f} hf => ⟨f, hf, rfl, rfl⟩) fun _ => rfl
  · refine (h.wired hw).follows (by rw [h.names]) h.attributes (fun {k f} hf => ?_) fun _ => rfl
    refine ⟨f, ?_, rfl, rfl⟩
    rw [h.factory?, if_neg]
    · exact hf
    · rintro rfl
      have hnone : w.factory? w.factories.length = none :=
        List.getElem?_eq_none (Nat.le_refl _)
      cases hnone.symm.trans hf

end Rewiring

/-- Whatever happens, the world stays wired, the stores settle proper calls, and an eviction that a
factory was handed waits until it is carried out. -/
theorem Wired.happens (hw : w.Wired) (he : env.Aloof) (happening : Happening V) :
    Follows env w (w.happen env happening) happening := by
  cases happening with
  | metadata call => exact (metadata_proper he w call).follows hw
  | act actor action => exact (act_proper he w actor action).follows hw
  | work number step => exact (work_proper he w number step).follows hw
  | openFactory options immutability context counts =>
    exact openFactory_follows hw options immutability context counts
  | stop number => exact stop_follows hw number
  | join number => exact (join_proper env w number).follows hw
  | openView number session bundle metadata context =>
    exact (openView_proper env w number session bundle metadata context).follows hw
  | closeView number =>
    exact (aside_proper rfl rfl rfl (fun _ => rfl) fun _ => rfl : w.Ordinary env _).follows hw
  | observe shelf number =>
    exact changeListeners_follows hw _ (fun hl => hl.observe number) shelf fun _ => rfl
  | unobserve shelf id =>
    exact changeListeners_follows hw _ (fun hl => hl.unobserve id) shelf fun _ => rfl

theorem openWith_wired {metadata names attributes : StoreOptions} {scene : σ}
    (h : World.openWith metadata names attributes scene = .ok w) : w.Wired := by
  have hempty : ∀ ids away, (∀ number, ids number = none) → Listeners.empty.Lists ids away := by
    intro ids away hids
    refine ⟨List.nodup_nil, List.forall_mem_nil _, fun {number id} hi => ?_, fun _ => rfl⟩
    rw [hids] at hi
    cases hi
  obtain ⟨sm, sn, sa, hm, hn, ha, rfl⟩ := openWith_shape h
  exact ⟨⟨_, Store.openWith_kept hm⟩, ⟨_, Store.openWith_kept hn⟩, ⟨_, Store.openWith_kept ha⟩,
    hempty _ _ fun _ => rfl, hempty _ _ fun _ => rfl, nofun⟩

theorem Reached.wired (h : w.Reached) : w.Wired := by
  induction h with
  | opened h => exact openWith_wired h
  | step _ he happening ih => exact (ih.happens he happening).wired

/-- What happens after a moment, as far as it is allowed, and the evictions that a factory carries
out meanwhile. The workers are not refused by the store. -/
inductive Meanwhile (number : Nat) (allowed : Happening V → Prop) (w : World V σ) :
    List AttributeKey → World V σ → Prop
  | start : Meanwhile number allowed w [] w
  | step {finished : List AttributeKey} {w' : World V σ}
      (h : Meanwhile number allowed w finished w') {env : Surroundings V σ} (he : env.Aloof)
      {happening : Happening V} (ha : allowed happening)
      (hr : happening.isWork = true → env.Reliable) :
      Meanwhile number allowed w (finished ++ w'.finishes number happening)
        (w'.happen env happening)

section Meanwhile
variable {number : Nat} {allowed : Happening V → Prop} {finished : List AttributeKey}

theorem Meanwhile.wired (h : Meanwhile number allowed w finished w') (hw : w.Wired) :
    w'.Wired := by
  induction h with
  | start => exact hw
  | step _ he _ _ ih => exact (ih.happens he _).wired

/-- The workers go on. -/
theorem Meanwhile.workerSteps (h : Meanwhile number allowed w finished w') (he : env.Aloof)
    (hr : env.Reliable) (ha : ∀ step, allowed (.work number step)) (steps : List WorkerStep) :
    ∃ finished', Meanwhile number allowed w finished' (w'.workerSteps env number steps) := by
  induction steps generalizing finished w' with
  | nil => exact ⟨finished, h⟩
  | cons step steps ih => exact ih (h.step he (ha step) fun _ => hr)

theorem Follows.find {happening : Happening V} (h : Follows env w w' happening) (hw : w.Wired)
    {key : AttributeKey} (hk : ¬ happening.UsesEntry key) :
    w'.attributes.store.find? key = w.attributes.store.find? key := by
  obtain ⟨options, hkept⟩ := hw.attributes
  obtain ⟨calls, hstore, hcalls, -⟩ := h.entries
  rw [hstore]
  exact hkept.after_find fun c hc => (hcalls c hc).2 key hk

theorem Follows.inactive {happening : Happening V} (h : Follows env w w' happening) (hw : w.Wired)
    {key : AttributeKey} (hk : ¬ happening.UsesEntry key)
    (ha : w.attributes.store.isActive key = false) : w'.attributes.store.isActive key = false := by
  obtain ⟨options, hkept⟩ := hw.attributes
  obtain ⟨calls, hstore, hcalls, -⟩ := h.entries
  rw [hstore]
  exact hkept.after_inactive (fun c hc => (hcalls c hc).1) (fun c hc => (hcalls c hc).2 key hk) ha

/-- An eviction that is carried out takes its entry out of primary memory. -/
theorem Follows.evicted {happening : Happening V} (h : Follows env w w' happening) (hw : w.Wired)
    (hr : env.Reliable) {key : AttributeKey} (hk : key ∈ w.finishes number happening) :
    w'.attributes.store.isActive key = false := by
  obtain ⟨options, hkept⟩ := hw.attributes
  obtain ⟨calls, hstore, -, hcalls⟩ := h.entries
  rw [hstore, hcalls hr hk]
  exact hkept.evict_inactive key

theorem isWork_of_finishes {happening : Happening V} {key : AttributeKey}
    (hk : key ∈ w.finishes number happening) : happening.isWork = true := by
  cases happening with
  | work k step => rfl
  | _ => cases hk

/-- As long as nobody uses an entry it keeps its value, and once its eviction is carried out it is
out of primary memory. -/
theorem Meanwhile.entry (h : Meanwhile number allowed w finished w') (hw : w.Wired)
    {key : AttributeKey} (ha : ∀ happening, allowed happening → ¬ happening.UsesEntry key) :
    w'.attributes.store.find? key = w.attributes.store.find? key ∧
      (w.attributes.store.isActive key = false ∨ key ∈ finished →
        w'.attributes.store.isActive key = false) := by
  induction h with
  | start => exact ⟨rfl, fun hn => hn.resolve_right List.not_mem_nil⟩
  | @step finished w' hm env he happening hallowed hr ih =>
    obtain ⟨hfind, hinactive⟩ := ih
    have hw' := hm.wired hw
    have hfollows := hw'.happens he happening
    refine ⟨(hfollows.find hw' (ha _ hallowed)).trans hfind, ?_⟩
    rintro (hn | hn)
    · exact hfollows.inactive hw' (ha _ hallowed) (hinactive (.inl hn))
    · rcases List.mem_append.mp hn with hn | hn
      · exact hfollows.inactive hw' (ha _ hallowed) (hinactive (.inr hn))
      · exact hfollows.evicted hw' (hr (isWork_of_finishes hn)) hn

/-- An eviction waits until it is carried out. -/
theorem Meanwhile.waits (h : Meanwhile number allowed w finished w') (hw : w.Wired)
    {f : Factory V} (hf : w.factory? number = some f) {key : AttributeKey}
    (hh : f.executor.Holds key) :
    key ∈ finished ∨ ∃ f', w'.factory? number = some f' ∧ f'.executor.Holds key := by
  induction h with
  | start => exact .inr ⟨f, hf, hh⟩
  | step hm he _ _ ih =>
    rcases ih with ih | ⟨f', hf', hh'⟩
    · exact .inl (List.mem_append_left _ ih)
    · rcases ((hm.wired hw).happens he _).holds hf' hh' with hnext | hdone
      · exact .inr hnext
      · exact .inl (List.mem_append_right _ hdone)

/-- An entry whose eviction waited is out of primary memory when it does not wait any more. -/
theorem Meanwhile.drained (h : Meanwhile number allowed w finished w') (hw : w.Wired)
    {f : Factory V} (hf : w.factory? number = some f) {key : AttributeKey}
    (ha : ∀ happening, allowed happening → ¬ happening.UsesEntry key)
    (hh : f.executor.Holds key ∨ w.attributes.store.isActive key = false)
    (hdone : key ∈ finished ∨ ∀ f', w'.factory? number = some f' → ¬ f'.executor.Holds key) :
    w'.attributes.store.isActive key = false := by
  refine (h.entry hw ha).2 ?_
  rcases hh with hh | hn
  · rcases hdone with hdone | hdone
    · exact .inr hdone
    · rcases h.waits hw hf hh with hfinished | ⟨f', hf', hh'⟩
      · exact .inr hfinished
      · exact absurd hh' (hdone f' hf')
  · exact .inl hn

/-- Names that nobody uses stay as they are. -/
theorem Meanwhile.names_find (h : Meanwhile number allowed w finished w') (hw : w.Wired)
    {session : SessionId} (ha : ∀ happening, allowed happening → ¬ happening.UsesNames session) :
    w'.names.store.find? session = w.names.store.find? session := by
  induction h with
  | start => rfl
  | @step finished w' hm env he happening hallowed _ ih =>
    obtain ⟨options, hkept⟩ := (hm.wired hw).names
    obtain ⟨calls, hstore, hcalls⟩ := ((hm.wired hw).happens he happening).names
    rw [hstore, ← ih]
    exact hkept.after_find fun c hc => (hcalls c hc).2 session (ha _ hallowed)

/-- They do not come back to primary memory. -/
theorem Meanwhile.names_inactive (h : Meanwhile number allowed w finished w') (hw : w.Wired)
    {session : SessionId} (ha : ∀ happening, allowed happening → ¬ happening.UsesNames session)
    (hn : w.names.store.isActive session = false) : w'.names.store.isActive session = false := by
  induction h with
  | start => exact hn
  | @step finished w' hm env he happening hallowed _ ih =>
    have hw' := hm.wired hw
    obtain ⟨options, hkept⟩ := hw'.names
    obtain ⟨calls, hstore, hcalls⟩ := (hw'.happens he happening).names
    rw [hstore]
    exact hkept.after_inactive (fun c hc => (hcalls c hc).1)
      (fun c hc => (hcalls c hc).2 session (ha _ hallowed)) ih

end Meanwhile
end World
end SessionAttributes
