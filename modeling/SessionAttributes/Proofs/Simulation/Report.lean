import SessionAttributes.Proofs.Config
import SessionAttributes.Proofs.Simulation.Phases

namespace SessionAttributes.Simulation

variable {stores : StoreSections} {stock : SessionId → Stock} {metrics : Metrics}
  {w : SimulatedWorld} {env : Surroundings Json Nat} {attributes : Nat}

/-- Some sessions are kept in another way, and all others as before. -/
def restock (sessions : List SessionId) (new : Stock) (stock : SessionId → Stock) :
    SessionId → Stock := fun session => if session ∈ sessions then new else stock session

theorem restock_nil (new : Stock) (stock : SessionId → Stock) : restock [] new stock = stock :=
  funext fun _ => if_neg List.not_mem_nil

theorem restock_cons (session : SessionId) (sessions : List SessionId) (new : Stock)
    (stock : SessionId → Stock) : restock sessions new (Function.update stock session new) =
      restock (session :: sessions) new stock := by
  funext other
  unfold restock
  by_cases ho : other = session <;> by_cases hm : other ∈ sessions <;> simp [ho, hm]

theorem restock_known {sessions : List SessionId} {new : Stock} {session : SessionId}
    (hn : new.known = true) (h : (stock session).known = true) :
    (restock sessions new stock session).known = true := by
  unfold restock
  split
  · exact hn
  · exact h

/-- A step of a phase: it finds a session of one kind and leaves it in another way, as often as the
phase makes it. What `Holds` says may depend on how many sessions were met before. -/
def Steps {S : Type} (step : S → SessionId → Except SessionError S)
    (Holds : (SessionId → Stock) → Nat → S → Prop) (finds : Stock → Prop) (new : Stock)
    (total : Nat) : Prop :=
  ∀ stock count state session, count < total → finds (stock session) → Holds stock count state →
    ∃ state', step state session = .ok state' ∧
      Holds (Function.update stock session new) (count + 1) state'

/-- A phase goes from session to session. Each step finds its session as the phase has found it, as
no session comes up twice. -/
theorem Steps.run {S : Type} {step : S → SessionId → Except SessionError S}
    {Holds : (SessionId → Stock) → Nat → S → Prop} {finds : Stock → Prop} {new : Stock}
    {total : Nat} (hstep : Steps step Holds finds new total) {sessions : List SessionId}
    (hn : sessions.Nodup) {stock : SessionId → Stock} {count : Nat} {state : S}
    (ht : count + sessions.length ≤ total) (hf : ∀ session ∈ sessions, finds (stock session))
    (h : Holds stock count state) :
    ∃ state', sessions.foldlM step state = .ok state' ∧
      Holds (restock sessions new stock) (count + sessions.length) state' := by
  induction sessions generalizing stock count state with
  | nil => exact ⟨state, rfl, (restock_nil new stock).symm ▸ h⟩
  | cons session sessions ih =>
    rw [List.length_cons] at ht
    obtain ⟨hfirst, hrest⟩ := List.nodup_cons.mp hn
    obtain ⟨middle, hrun, hmiddle⟩ :=
      hstep _ _ _ session (by omega) (hf session List.mem_cons_self) h
    have hfound : ∀ other ∈ sessions, finds (Function.update stock session new other) := by
      intro other ho
      have hne : other ≠ session := fun he => hfirst (he ▸ ho)
      rw [Function.update_of_ne hne]
      exact hf other (List.mem_cons_of_mem _ ho)
    obtain ⟨last, hlast, hend⟩ := ih hrest (by omega) hfound hmiddle
    refine ⟨last, ?_, ?_⟩
    · rw [List.foldlM_cons, hrun]
      exact hlast
    · rw [restock_cons, Nat.add_assoc, Nat.add_comm 1] at hend
      exact hend

section Phases
variable {sessions : List SessionId}

/-- Every session gets its attributes. -/
theorem writes_stand (attributes : Nat) (h : Stands stores stock (counters 0 0 0 0 0) w)
    (he : Smooth stores env) (hn : sessions.Nodup)
    (hf : ∀ session ∈ sessions, (stock session).size = 0) (hw : w.drawn = 0)
    (hd : ∀ n k, n < k → k < sessions.length * attributes → env.draw n ≠ env.draw k) :
    ∃ w', sessions.foldlM (writeSession env attributes) w = .ok w' ∧
      Stands stores (restock sessions ⟨true, attributes, true⟩ stock)
        (counters (sessions.length * attributes) 0 0 0 0) w' := by
  let Holds (stock : SessionId → Stock) (count : Nat) (w : SimulatedWorld) : Prop :=
    w.drawn = count * attributes ∧ Stands stores stock (counters (count * attributes) 0 0 0 0) w
  have hstart : Holds stock 0 w := by
    simp only [Holds, Nat.zero_mul]
    exact ⟨hw, h⟩
  have hstep : Steps (writeSession env attributes) Holds (·.size = 0) ⟨true, attributes, true⟩
      sessions.length := by
    intro stock count w session hlt hz hw
    have hfit : (count + 1) * attributes ≤ sessions.length * attributes :=
      Nat.mul_le_mul_right attributes hlt
    rw [Nat.succ_mul] at hfit
    have hdistinct : ∀ n k, n < k → k < attributes →
        env.draw (w.drawn + n) ≠ env.draw (w.drawn + k) := by
      intro n k hnk hk
      rw [hw.1]
      exact hd _ _ (by omega) (by omega)
    obtain ⟨w', hrun, hdrawn, hend⟩ := writeSession_stands hw.2 he hz hdistinct
    refine ⟨w', hrun, ?_, ?_⟩
    · rw [hdrawn, hw.1, Nat.succ_mul]
    · rw [Nat.succ_mul]
      exact hend
  obtain ⟨w', hrun, -, hend⟩ := hstep.run hn (by omega) hf hstart
  rw [Nat.zero_add] at hend
  exact ⟨w', hrun, hend⟩

theorem evictions_stand (sessions : List SessionId) (h : Stands stores stock metrics w)
    (he : Smooth stores env) :
    ∃ w', sessions.foldlM (evictSession env) w = .ok w' ∧ Stands stores stock metrics w' := by
  induction sessions generalizing w with
  | nil => exact ⟨w, rfl, h⟩
  | cons session sessions ih =>
    obtain ⟨w₁, hrun, h₁⟩ := evictSession_stands h he session
    obtain ⟨w₂, hrest, h₂⟩ := ih h₁
    refine ⟨w₂, ?_, h₂⟩
    rw [List.foldlM_cons, hrun]
    exact hrest

/-- Each session loses the first of its attributes, if it has any. -/
theorem corruptions_stand (h : Stands stores stock metrics w) (he : Smooth stores env)
    (hn : sessions.Nodup)
    (hf : ∀ session ∈ sessions, stock session = ⟨true, attributes, true⟩) :
    ∃ w', sessions.foldlM (corruptSession env) (0, w) =
        .ok (if 0 < attributes then sessions.length else 0, w') ∧
      Stands stores (restock sessions ⟨true, attributes, attributes = 0⟩ stock) metrics w' := by
  let corrupted (count : Nat) : Nat := if 0 < attributes then count else 0
  let Holds (stock : SessionId → Stock) (count : Nat) (state : Nat × SimulatedWorld) : Prop :=
    state.1 = corrupted count ∧ Stands stores stock metrics state.2
  have hstart : Holds stock 0 (0, w) := ⟨(ite_self 0).symm, h⟩
  have hstep : Steps (corruptSession env) Holds (· = ⟨true, attributes, true⟩)
      ⟨true, attributes, attributes = 0⟩ sessions.length := by
    rintro stock count ⟨_, w⟩ session - hstock ⟨rfl, hw⟩
    cases attributes with
    | zero =>
      obtain ⟨w', hrun, hend⟩ := corruptSession_nothing hw he (by rw [hstock])
      refine ⟨_, hrun, rfl, ?_⟩
      have hsame : (⟨true, 0, decide (0 = 0)⟩ : Stock) = stock session := by rw [hstock]; rfl
      rw [hsame, Function.update_eq_self]
      exact hend
    | succ size =>
      obtain ⟨w', hrun, hend⟩ := corruptSession_spoils hw he (by rw [hstock])
      refine ⟨_, hrun, rfl, ?_⟩
      rw [hstock] at hend
      exact hend
  obtain ⟨⟨_, w'⟩, hrun, hcount, hend⟩ := hstep.run hn (by omega) hf hstart
  rw [Nat.zero_add] at hcount
  obtain rfl : _ = corrupted sessions.length := hcount
  exact ⟨w', hrun, hend⟩

/-- Loads of corrupt sessions take all that is left of them away. -/
theorem repairs_stand {written : Nat} (h : Stands stores stock (counters written 0 0 0 0) w)
    (he : Smooth stores env) (hn : sessions.Nodup)
    (hf : ∀ session ∈ sessions, stock session = ⟨true, attributes, false⟩) :
    ∃ w', sessions.foldlM (reloadSession env) (0, w) = .ok (0, w') ∧
      Stands stores (restock sessions ⟨true, 0, true⟩ stock)
        (counters written sessions.length 0 0 0) w' := by
  let Holds (stock : SessionId → Stock) (count : Nat) (state : Nat × SimulatedWorld) : Prop :=
    state.1 = 0 ∧ Stands stores stock (counters written count 0 0 0) state.2
  have hstart : Holds stock 0 (0, w) := ⟨rfl, h⟩
  have hstep : Steps (reloadSession env) Holds (· = ⟨true, attributes, false⟩) ⟨true, 0, true⟩
      sessions.length := by
    rintro stock count ⟨_, w⟩ session - hstock ⟨rfl, hw⟩
    obtain ⟨w', hrun, hend⟩ := reloadSession_corrupt hw he (by rw [hstock])
    rw [hstock] at hend
    exact ⟨_, hrun, rfl, hend⟩
  obtain ⟨⟨_, w'⟩, hrun, rfl, hend⟩ := hstep.run hn (by omega) hf hstart
  rw [Nat.zero_add] at hend
  exact ⟨w', hrun, hend⟩

/-- Loads of intact sessions find all their attributes. -/
theorem reloads_stand {written corrupt : Nat}
    (h : Stands stores stock (counters written corrupt 0 0 0) w) (he : Smooth stores env)
    (hn : sessions.Nodup)
    (hf : ∀ session ∈ sessions, stock session = ⟨true, attributes, true⟩) :
    ∃ w', sessions.foldlM (reloadSession env) (0, w) =
        .ok (if 0 < attributes then sessions.length else 0, w') ∧
      Stands stores (restock sessions ⟨true, attributes, true⟩ stock)
        (counters written corrupt sessions.length (sessions.length * attributes) 0) w' := by
  let reloaded (count : Nat) : Nat := if 0 < attributes then count else 0
  let Holds (stock : SessionId → Stock) (count : Nat) (state : Nat × SimulatedWorld) : Prop :=
    state.1 = reloaded count ∧
      Stands stores stock (counters written corrupt count (count * attributes) 0) state.2
  have hstart : Holds stock 0 (0, w) := by
    refine ⟨(ite_self 0).symm, ?_⟩
    rw [Nat.zero_mul]
    exact h
  have hstep : Steps (reloadSession env) Holds (· = ⟨true, attributes, true⟩)
      ⟨true, attributes, true⟩ sessions.length := by
    rintro stock count ⟨_, w⟩ session - hstock ⟨rfl, hw⟩
    obtain ⟨w', hrun, hend⟩ := reloadSession_intact (reloaded count) hw he (by rw [hstock])
    rw [hstock] at hrun hend
    refine ⟨_, hrun, ?_, ?_⟩
    · by_cases ha : 0 < attributes <;> simp [reloaded, ha]
    · rw [← hstock, Function.update_eq_self, Nat.succ_mul]
      exact hend
  obtain ⟨⟨_, w'⟩, hrun, hcount, hend⟩ := hstep.run hn (by omega) hf hstart
  rw [Nat.zero_add] at hcount hend
  obtain rfl : _ = reloaded sessions.length := hcount
  exact ⟨w', hrun, hend⟩

theorem removals_stand {written corrupt loaded total : Nat}
    (h : Stands stores stock (counters written corrupt loaded total 0) w) (he : Smooth stores env)
    (hn : sessions.Nodup) (hf : ∀ session ∈ sessions, (stock session).known = true) :
    ∃ w', sessions.foldlM (removeSession env) (0, w) = .ok (sessions.length, w') ∧
      Stands stores (restock sessions ⟨true, 0, true⟩ stock)
        (counters written corrupt loaded total sessions.length) w' := by
  let Holds (stock : SessionId → Stock) (count : Nat) (state : Nat × SimulatedWorld) : Prop :=
    state.1 = count ∧ Stands stores stock (counters written corrupt loaded total count) state.2
  have hstart : Holds stock 0 (0, w) := ⟨rfl, h⟩
  have hstep : Steps (removeSession env) Holds (·.known = true) ⟨true, 0, true⟩
      sessions.length := by
    rintro stock count ⟨_, w⟩ session - hknown ⟨rfl, hw⟩
    obtain ⟨w', hrun, hend⟩ := removeSession_stands hw he session
    rw [hknown] at hend
    exact ⟨_, hrun, rfl, hend⟩
  obtain ⟨⟨_, w'⟩, hrun, hcount, hend⟩ := hstep.run hn (by omega) hf hstart
  rw [Nat.zero_add] at hcount hend
  obtain rfl : _ = sessions.length := hcount
  exact ⟨w', hrun, hend⟩

def damaged (attributes corrupt sessions : Nat) : Nat :=
  if 0 < attributes then min corrupt sessions else 0

/-- Sessions are damaged and then loaded one by one. Those that were damaged are lost. -/
theorem damage_stands {written : Nat} (corrupt : Nat)
    (h : Stands stores stock (counters written 0 0 0 0) w) (he : Smooth stores env)
    (hn : sessions.Nodup) (hf : ∀ session ∈ sessions, stock session = ⟨true, attributes, true⟩) :
    ∃ w₁ w₂, (sessions.take corrupt).foldlM (corruptSession env) (0, w) =
        .ok (damaged attributes corrupt sessions.length, w₁) ∧
      sessions.foldlM (reloadSession env) (0, w₁) = .ok (if 0 < attributes then
        sessions.length - damaged attributes corrupt sessions.length else 0, w₂) ∧
      ∃ stock', (∀ session ∈ sessions, (stock' session).known = true) ∧
        (∀ session ∉ sessions, stock' session = stock session) ∧
        Stands stores stock' (counters written (damaged attributes corrupt sessions.length)
          (sessions.length - damaged attributes corrupt sessions.length)
          ((sessions.length - damaged attributes corrupt sessions.length) * attributes) 0) w₂ := by
  have htake : (sessions.take corrupt).Nodup := hn.sublist (List.take_sublist _ _)
  have hdrop : (sessions.drop corrupt).Nodup := hn.sublist (List.drop_sublist _ _)
  have htaken : ∀ session ∈ sessions.take corrupt, session ∈ sessions :=
    fun session => List.mem_of_mem_take
  obtain ⟨w₁, hcorrupted, h₁⟩ :=
    corruptions_stand h he htake fun session hm => hf session (htaken session hm)
  by_cases ha : 0 < attributes
  · have hlost : damaged attributes corrupt sessions.length = (sessions.take corrupt).length := by
      rw [damaged, if_pos ha, List.length_take]
    have hleft : sessions.length - damaged attributes corrupt sessions.length =
        (sessions.drop corrupt).length := by
      rw [hlost, List.length_take, List.length_drop]
      omega
    rw [if_pos ha] at hcorrupted
    rw [decide_eq_false (Nat.ne_of_gt ha)] at h₁
    obtain ⟨w₂, hrepaired, h₂⟩ := repairs_stand h₁ he htake fun session hm => if_pos hm
    have hapart : ∀ session ∈ sessions.drop corrupt, session ∉ sessions.take corrupt :=
      fun session hd ht => List.disjoint_take_drop hn le_rfl ht hd
    obtain ⟨w₃, hreloaded, h₃⟩ := reloads_stand h₂ he hdrop fun session hm => by
      rw [restock, if_neg (hapart session hm), restock, if_neg (hapart session hm)]
      exact hf session (List.mem_of_mem_drop hm)
    rw [if_pos ha] at hreloaded ⊢
    rw [hleft, hlost]
    refine ⟨w₁, w₃, hcorrupted, ?_, _, fun session hm => ?_, fun session hm => ?_, h₃⟩
    · nth_rewrite 1 [← List.take_append_drop corrupt sessions]
      rw [List.foldlM_append, hrepaired]
      exact hreloaded
    · have hknown : (stock session).known = true := congrArg Stock.known (hf session hm)
      exact restock_known rfl (restock_known rfl (restock_known rfl hknown))
    · have hnot : session ∉ sessions.drop corrupt := fun hd => hm (List.mem_of_mem_drop hd)
      have hnot' : session ∉ sessions.take corrupt := fun ht => hm (htaken session ht)
      simp only [restock, if_neg hnot, if_neg hnot']
  · obtain rfl : attributes = 0 := Nat.eq_zero_of_not_pos ha
    have hsame : restock (sessions.take corrupt) ⟨true, 0, decide (0 = 0)⟩ stock = stock := by
      funext session
      unfold restock
      split
      · rename_i hm
        exact (hf session (htaken session hm)).symm
      · rfl
    rw [hsame] at h₁
    obtain ⟨w₂, hreloaded, h₂⟩ := reloads_stand h₁ he hn hf
    refine ⟨w₁, w₂, hcorrupted, hreloaded, _, fun session hm => ?_, fun session hm => ?_, h₂⟩
    · rw [restock, if_pos hm]
    · rw [restock, if_neg hm]

end Phases

/-- A store whose keys are known holds no other entries. -/
theorem stats_of_keys {K T : Type} [DecidableEq K] [ShardKey K] {options : StoreOptions}
    {store : Store K T} (h : store.Kept options) {keys : List K} (hn : keys.Nodup)
    (hk : ∀ key, (store.find? key).isSome ↔ key ∈ keys) :
    store.stats.active + store.stats.passivated = keys.length := by
  have hperm : store.keys.Perm keys :=
    (List.perm_ext_iff_of_nodup h.nodup_keys hn).mpr fun key => (h.mem_keys key).trans (hk key)
  rw [Store.size_eq_stats, Store.size_eq_keys, hperm.length_eq]

section Ends

/-- All options of a configuration that was read are valid. -/
theorem valid_of_ofToml {text : String} {config : Config} (h : Config.ofToml text = .ok config) :
    config.factory.validate = .ok () ∧ config.stores.metadata.validate = .ok () ∧
      config.stores.names.validate = .ok () ∧ config.stores.attributes.validate = .ok () := by
  have hv := Config.validate_of_ofToml h
  unfold Config.validate at hv
  cases hf : config.factory.validate with
  | error fault => simp [hf, bind, Except.bind] at hv
  | ok _ =>
    cases hm : config.stores.metadata.validate with
    | error fault => simp [hf, hm, bind, Except.bind] at hv
    | ok _ =>
      cases hn : config.stores.names.validate with
      | error fault => simp [hf, hm, hn, bind, Except.bind] at hv
      | ok _ =>
        simp only [hf, hm, hn, bind, Except.bind] at hv
        exact ⟨rfl, rfl, rfl, hv⟩

/-- A workload starts with empty stores and a factory of its own. -/
theorem start_stands {text : String} {config : Config} (h : Config.ofToml text = .ok config) :
    ∃ w₀ w : SimulatedWorld,
      World.openWith config.stores.metadata config.stores.names config.stores.attributes 0 =
        .ok w₀ ∧
      w₀.openFactory config.factory Immutability.scalars "" true = .ok (factory, w) ∧
      w.drawn = 0 ∧
      Stands config.stores (fun _ => ⟨false, 0, true⟩) (counters 0 0 0 0 0) w := by
  obtain ⟨hfactory, hmetadata, hnames, hattributes⟩ := valid_of_ofToml h
  obtain ⟨w₀, h₀⟩ : ∃ w₀ : SimulatedWorld, World.openWith config.stores.metadata
      config.stores.names config.stores.attributes 0 = .ok w₀ := by
    simp only [World.openWith, Store.openWith, hmetadata, hnames, hattributes, bind, Except.bind]
    exact ⟨_, rfl⟩
  obtain ⟨hs₀, hp₀⟩ := World.openWith_plain h₀
  have hplaced₀ := World.openWith_placed h₀
  obtain ⟨f, w, hopen, hmetrics, hrun, hfactories, hm, hn, ha, -, hdrawn⟩ :=
    World.openFactory_ok hfactory w₀ Immutability.scalars "" true
  have hempty : w₀.factories = [] := List.map_eq_nil_iff.mp (congrArg PlainWorld.factories hp₀)
  have hfirst : w.factory? factory = some f := by
    rw [World.factory?, hfactories, hempty]
    rfl
  rw [hempty] at hrun
  refine ⟨w₀, w, h₀, hrun, hdrawn.trans (congrArg PlainWorld.drawn hp₀),
    World.openFactory_sound hrun hs₀, ⟨?_, ?_, ?_⟩, ?_, ?_, fun session => ?_, fun session => ?_⟩
  · rw [hm]
    exact hplaced₀.metadata
  · rw [hn]
    exact hplaced₀.names
  · rw [ha]
    exact hplaced₀.attributes
  · rw [hfirst]
    exact congrArg some hopen
  · rw [World.deeds, hfirst, Option.bind_some, hmetrics]
    rfl
  · have hnone : w.plain.metadata session = none := by
      change w.metadata.store.find? session = none
      rw [hm]
      exact congrFun (congrArg PlainWorld.metadata hp₀) session
    rw [hnone]
    rfl
  · refine Scope.stocked_nothing ?_ fun id => ?_
    · change w.names.store.find? session = none
      rw [hn]
      exact congrFun (congrArg PlainWorld.names hp₀) session
    · change w.attributes.store.find? ⟨session, id⟩ = none
      rw [ha]
      exact congrFun (congrArg PlainWorld.attributes hp₀) ⟨session, id⟩

/-- When the factory is closed, the stores and the counters are as its sessions were left. -/
theorem Stands.closed (h : Stands stores stock metrics w) (draw : Nat → AttributeId) :
    let last := w.closeFactory (Surroundings.quiet Frame.marshaller draw) factory
    last.Sound ∧ last.Placed stores.metadata stores.names stores.attributes ∧
      last.deeds factory = some metrics ∧ last.plain.metadata = w.plain.metadata ∧
      last.plain.names = w.plain.names ∧ last.plain.attributes = w.plain.attributes := by
  have hcalm := Surroundings.quiet_calm (σ := Nat) Frame.marshaller draw
  have hquiet := Surroundings.quiet_observes (σ := Nat) Frame.marshaller draw
  obtain ⟨hs, hp⟩ := World.closeFactory_plain hcalm h.sound factory
  have hdeeds := (World.deeds_lasting w.deeds).closeFactory (hquiet _) factory rfl
  refine ⟨hs, World.placed_lasting.closeFactory (hquiet _) factory h.placed,
    (congrFun hdeeds _).trans h.deeds, ?_, ?_, ?_⟩ <;> rw [hp] <;> rfl

end Ends

structure Exact (workload : Workload) (report : Report) : Prop where
  sessions : report.sessions = workload.sessions
  attributes : report.attributesPerSession = workload.attributes
  evicted : report.evicted = if workload.evictEvery = 0 then 0
    else (workload.sessions + workload.evictEvery - 1) / workload.evictEvery
  corrupted : report.corrupted =
    if 0 < workload.attributes then min workload.corrupt workload.sessions else 0
  reloaded : report.reloaded =
    if 0 < workload.attributes then workload.sessions - report.corrupted else 0
  removed : report.removed = workload.sessions
  sessionsLoaded : report.metrics.sessionsLoaded = workload.sessions - report.corrupted
  attributesLoaded : report.metrics.attributesLoaded =
    (workload.sessions - report.corrupted) * workload.attributes
  sessionsCorrupt : report.metrics.sessionsCorrupt = report.corrupted
  sessionsPurged : report.metrics.sessionsPurged = report.corrupted
  sessionsRemoved : report.metrics.sessionsRemoved = workload.sessions
  attributesWritten : report.metrics.attributesWritten =
    workload.sessions * workload.attributes
  attributeWritesSkipped : report.metrics.attributeWritesSkipped = 0
  metadataStore : report.metadataStore.active + report.metadataStore.passivated =
    workload.sessions
  namesStore : report.namesStore.active = 0 ∧ report.namesStore.passivated = 0
  attributeStore : report.attributeStore.active = 0 ∧ report.attributeStore.passivated = 0

/-- What is left when all sessions are removed: their metadata. -/
theorem Stands.stats (h : Stands stores stock metrics w) {sessions : List SessionId}
    (hn : sessions.Nodup) (hk : ∀ session, (stock session).known = true ↔ session ∈ sessions)
    (hz : ∀ session, (stock session).size = 0) (draw : Nat → AttributeId) :
    let last := w.closeFactory (Surroundings.quiet Frame.marshaller draw) factory
    last.metadata.store.stats.active + last.metadata.store.stats.passivated = sessions.length ∧
      last.names.store.stats.active + last.names.store.stats.passivated = 0 ∧
      last.attributes.store.stats.active + last.attributes.store.stats.passivated = 0 := by
  intro last
  obtain ⟨-, hplaced, -, hmetadata, hnames, hattributes⟩ := h.closed draw
  have hnothing : ∀ session, w.plain.names session = none ∧
      ∀ id, w.plain.attributes ⟨session, id⟩ = none := by
    intro session
    have hstocked := h.stocked session
    rw [hz] at hstocked
    exact hstocked.nothing
  refine ⟨stats_of_keys hplaced.metadata hn fun session => ?_,
    stats_of_keys hplaced.names List.nodup_nil fun session => ?_,
    stats_of_keys hplaced.attributes List.nodup_nil fun key => ?_⟩
  · have hsame : last.metadata.store.find? session = w.plain.metadata session :=
      congrFun hmetadata session
    rw [hsame, h.known session, hk]
  · have hsame : last.names.store.find? session = none :=
      (congrFun hnames session).trans (hnothing session).1
    rw [hsame]
    simp
  · have hsame : last.attributes.store.find? key = none :=
      (congrFun hattributes key).trans ((hnothing key.session).2 key.id)
    rw [hsame]
    simp

def demands (config : Config) (workload : Workload) : List Demand :=
  config.stores.metadata.demands ++ config.stores.names.demands ++
    config.stores.attributes.demands ++
    [.workers config.factory.workers, .sessions workload.sessions]

section Demands
variable {allowance : Allowance}

theorem forM_ask (demands : List Demand) :
    demands.forM allowance.ask = if demands.all allowance then .ok () else .error .starved := by
  induction demands with
  | nil => rfl
  | cons demand demands ih =>
    change (allowance.ask demand >>= fun _ => demands.forM allowance.ask) = _
    rw [ih, List.all_cons, Allowance.ask]
    cases allowance demand <;> rfl

theorem openStore_eq {K T : Type} {options : StoreOptions} {store : Store K T}
    (h : Store.openWith options = .ok store) : Store.openIn allowance options =
      if options.demands.all allowance then .ok store else .error .starved := by
  have hv : options.validate = .ok () := by
    cases hv : options.validate with
    | error fault => simp [Store.openWith, hv, bind, Except.bind] at h
    | ok => rfl
  rw [Store.openIn, hv, forM_ask, h]
  cases options.demands.all allowance <;> rfl

theorem openWorld_eq {metadata names attributes : StoreOptions}
    (h : World.openWith metadata names attributes 0 = .ok w) :
    World.openIn allowance metadata names attributes 0 =
      if (metadata.demands ++ names.demands ++ attributes.demands).all allowance then .ok w
      else .error .starved := by
  obtain ⟨sm, sn, sa, hm, hn, ha, rfl⟩ := World.openWith_shape h
  rw [World.openIn, openStore_eq hm, openStore_eq hn, openStore_eq ha, List.all_append,
    List.all_append]
  cases metadata.demands.all allowance <;> cases names.demands.all allowance <;>
    cases attributes.demands.all allowance <;> rfl

/-- All that is asked for comes before the work or is the list of its sessions. -/
theorem run_eq {config : Config} {w₀ : SimulatedWorld}
    (hopen : World.openWith config.stores.metadata config.stores.names config.stores.attributes 0 =
      .ok w₀)
    (hfactory : w₀.openFactory config.factory Immutability.scalars "" true = .ok (factory, w))
    (workload : Workload) (schedule : Schedule) (draw : Nat → AttributeId) :
    run allowance config workload schedule draw =
      if (demands config workload).all allowance then
        (runOn workload schedule draw w).mapError .failed
      else .error .starved := by
  have hall : (demands config workload).all allowance =
      ((config.stores.metadata.demands ++ config.stores.names.demands ++
        config.stores.attributes.demands).all allowance &&
      (allowance (.workers config.factory.workers) &&
        (allowance (.sessions workload.sessions) && true))) := List.all_append
  rw [run, openWorld_eq hopen, hall]
  cases (config.stores.metadata.demands ++ config.stores.names.demands ++
      config.stores.attributes.demands).all allowance with
  | false => rfl
  | true =>
    simp only [if_true, Allowance.ask, bind, Except.bind, hfactory]
    cases allowance (.workers config.factory.workers) <;>
      cases allowance (.sessions workload.sessions) <;> rfl

/-- Without what it asks for a workload does not even fail with an error. -/
theorem run_starved {text : String} {config : Config} (hconfig : Config.ofToml text = .ok config)
    {workload : Workload} {demand : Demand} (hd : demand ∈ demands config workload)
    (hrefused : allowance demand = false) (schedule : Schedule) (draw : Nat → AttributeId) :
    run allowance config workload schedule draw = .error .starved := by
  obtain ⟨w₀, w, hopen, hfactory, -⟩ := start_stands hconfig
  have hnot : ¬(demands config workload).all allowance = true := by
    rw [List.all_eq_true]
    intro hall
    rw [hall demand hd] at hrefused
    cases hrefused
  rw [run_eq hopen hfactory, if_neg hnot]

end Demands

/-- A workload succeeds, and its report is exact, if it is given what it asks for at once.
Attributes need identifiers of their own. -/
theorem report_exact {text : String} {config : Config} (hconfig : Config.ofToml text = .ok config)
    {workload : Workload} {allowance : Allowance}
    (hgranted : ∀ demand ∈ demands config workload, allowance demand = true) (schedule : Schedule)
    {draw : Nat → AttributeId}
    (hd : ∀ n k, n < k → k < workload.sessions * workload.attributes → draw n ≠ draw k) :
    ∃ report, run allowance config workload schedule draw = .ok report ∧
      Exact workload report := by
  obtain ⟨w₀, w, hopen, hfactory, hdrawn, hstart⟩ := start_stands hconfig
  have he : Smooth config.stores (surroundings schedule draw) :=
    surroundings_smooth config.stores schedule draw
  have hn := sessionNames_nodup workload.sessions
  have hlength := sessionNames_length workload.sessions
  obtain ⟨w₁, hwritten, h₁⟩ := writes_stand workload.attributes hstart he hn (fun _ _ => rfl) hdrawn
    (by rw [hlength]; exact hd)
  obtain ⟨w₂, hevicted, h₂⟩ :=
    evictions_stand (evictedNames workload.sessions workload.evictEvery) h₁ he
  have h₃ : Stands _ _ _ (pass schedule draw w₂) := h₂.unseen (pass_keeps schedule draw w₂)
    (pass_lasting schedule draw World.placed_lasting h₂.placed)
    (pass_lasting schedule draw (World.deeds_lasting w₂.deeds) rfl)
  obtain ⟨w₄, w₅, hcorrupted, hreloaded, stock, hknown, hothers, h₅⟩ :=
    damage_stands workload.corrupt h₃ he hn fun session hm => if_pos hm
  obtain ⟨w₆, hremoved, h₆⟩ := removals_stand h₅ he hn hknown
  have hlast : ∀ session, restock (sessionNames workload.sessions) ⟨true, 0, true⟩ stock session =
      ⟨decide (session ∈ sessionNames workload.sessions), 0, true⟩ := by
    intro session
    by_cases hm : session ∈ sessionNames workload.sessions
    · simp [restock, hm]
    · have hstart := hothers session hm
      simp only [restock, if_neg hm] at hstart ⊢
      simp [hstart, hm]
  obtain ⟨hmetadata, hnames, hattributes⟩ := h₆.stats hn (fun session => by simp [hlast])
    (fun session => by rw [hlast]) draw
  obtain ⟨-, -, hdeeds, -⟩ := h₆.closed draw
  obtain ⟨counted, hcounted, hmetrics⟩ := Option.map_eq_some_iff.mp hdeeds
  rw [hlength] at hcorrupted hreloaded hremoved hmetadata hmetrics
  let last := w₆.closeFactory (Surroundings.quiet Frame.marshaller draw) factory
  let drained :=
    (((pass schedule draw w₂).factory? factory).map fun f => f.executor.isIdle).getD true
  let lost := damaged workload.attributes workload.corrupt workload.sessions
  refine ⟨⟨workload.sessions, workload.attributes,
    (evictedNames workload.sessions workload.evictEvery).length, drained,
    if 0 < workload.attributes then workload.sessions - lost else 0, lost, workload.sessions,
    counted, last.metadata.store.stats, last.names.store.stats, last.attributes.store.stats⟩,
    ?_, ?_⟩
  · rw [run_eq hopen hfactory, if_pos (List.all_eq_true.mpr hgranted)]
    simp only [runOn, hwritten, hevicted, hcorrupted, hreloaded, hremoved, hcounted, bind,
      Except.bind, pure, Except.pure]
    rfl
  · refine ⟨rfl, rfl, evictedNames_length _ _, rfl, rfl, rfl, ?_, ?_, ?_, ?_, ?_, ?_, ?_, hmetadata,
      Nat.add_eq_zero_iff.mp hnames, Nat.add_eq_zero_iff.mp hattributes⟩
    · exact congrArg Metrics.sessionsLoaded hmetrics
    · exact congrArg Metrics.attributesLoaded hmetrics
    · exact congrArg Metrics.sessionsCorrupt hmetrics
    · exact congrArg Metrics.sessionsPurged hmetrics
    · exact congrArg Metrics.sessionsRemoved hmetrics
    · exact congrArg Metrics.attributesWritten hmetrics
    · exact congrArg Metrics.attributeWritesSkipped hmetrics

/-- Three sessions of two attributes by the defaults, two of them evicted and one corrupted. -/
theorem report_exact_defaults :
    Config.ofToml "" = .ok {} ∧
      (∀ demand ∈ demands {} ⟨3, 2, 2, 1, 5000⟩, Allowance.addressable demand = true) ∧
      (∀ n k, n < k → k < 3 * 2 → AttributeId.ofNat n ≠ AttributeId.ofNat k) ∧
      ∃ report, run .addressable {} ⟨3, 2, 2, 1, 5000⟩ Schedule.eager AttributeId.ofNat =
          .ok report ∧ Exact ⟨3, 2, 2, 1, 5000⟩ report := by
  have hconfig : Config.ofToml "" = .ok {} := by decide +kernel
  have hgranted : ∀ demand ∈ demands {} ⟨3, 2, 2, 1, 5000⟩,
      Allowance.addressable demand = true := by
    decide
  have hd : ∀ n k, n < k → k < 3 * 2 → AttributeId.ofNat n ≠ AttributeId.ofNat k := by
    have h : ∀ k < 3 * 2, ∀ n < k, AttributeId.ofNat n ≠ AttributeId.ofNat k := by decide +kernel
    exact fun n k hn hk => h k hk n hn
  exact ⟨hconfig, hgranted, hd, report_exact hconfig hgranted Schedule.eager hd⟩

def crowded : Config := { stores := { metadata := { shards := 9223372036854775807 } } }

/-- A configuration that is accepted may ask for more than can be addressed. -/
theorem report_starved :
    Config.ofToml "[stores.metadata]\nshards = 9223372036854775807" = .ok crowded ∧
      run .addressable crowded {} Schedule.eager AttributeId.ofNat = .error .starved := by
  have hconfig : Config.ofToml "[stores.metadata]\nshards = 9223372036854775807" = .ok crowded := by
    decide +kernel
  have hasked : Demand.shards 9223372036854775807 ∈ demands crowded {} := List.mem_cons_self
  exact ⟨hconfig, run_starved hconfig hasked (by decide) _ _⟩

end SessionAttributes.Simulation
