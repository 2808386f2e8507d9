import SessionAttributes.Proofs.World.Cascade

namespace SessionAttributes.World

variable {V σ : Type} {env : Surroundings V σ} {w w' : World V σ} {session : SessionId}
  {number : Nat} {f : Factory V}

/-- Metadata that leaves primary memory takes the names along, and leaves their value. -/
theorem Wired.names_follow (hw : w.Wired) (hm : w.metadata.store.persistent = false)
    (hf : w.factory? number = some f) (ho : f.isOpen = true) (he : env.Aloof) (hr : env.Reliable)
    {call : StoreCall SessionId Metadata} (ha : w.metadata.store.isActive session = true)
    (hp : (w.callMetadata env call).2.metadata.store.isPassivated session = true) :
    (w.callMetadata env call).2.names.store.isActive session = false ∧
      (w.callMetadata env call).2.names.store.find? session = w.names.store.find? session := by
  obtain ⟨options, hkept⟩ := hw.metadata
  obtain ⟨options', hkept'⟩ := hw.names
  obtain ⟨calls, names, hcalls, hnames, h⟩ := callMetadata_cascades he w call
  obtain rfl := hcalls.all hr
  obtain rfl := hnames.all hr
  have hs := subscriptions?_of_open hf ho
  obtain ⟨n, hn⟩ := evictions_eq hw.metadataListeners (by rw [hs]; rfl) call.parts
  have hmetadata : (w.callMetadata env call).2.metadata.store =
      w.metadata.store.after call.parts := congrArg Site.store (Handed.metadata h)
  have hstore : (w.callMetadata env call).2.names.store =
      w.names.store.after ((keysOf (w.metadata.store.departures call.parts)).map .evict) := by
    refine (congrArg Site.store (Handed.names h)).trans ?_
    refine Eq.trans ?_ (hkept'.evict_each (keysOf (w.metadata.store.departures call.parts)) n).1
    change w.names.store.after (w.evictions call.parts) = _
    rw [hn, Store.heard, if_neg (hm ▸ Bool.false_ne_true)]
    rfl
  have hleft : session ∈ keysOf (w.metadata.store.departures call.parts) :=
    hkept.mem_departures call.parts_single (hkept.sound.apart ha) (hmetadata ▸ hp)
  rw [hstore]
  refine ⟨hkept'.evicted_inactive hleft, hkept'.after_find fun c hc => ?_⟩
  obtain ⟨key, -, rfl⟩ := List.mem_map.mp hc
  exact id

/-- Then each entry that the names refer to waits for its eviction or is out of primary memory, if
that was so in case the names had left before. -/
theorem Reached.entries_follow (h : w.Reached) (hn : w.names.store.persistent = false)
    (hf : w.factory? number = some f) (ho : f.isOpen = true) (he : env.Aloof)
    {call : StoreCall SessionId Metadata}
    (hinactive : (w.callMetadata env call).2.names.store.isActive session = false)
    (hsame : (w.callMetadata env call).2.names.store.find? session = w.names.store.find? session)
    {names : Names} (hnames : w.names.store.find? session = some names)
    (hrest : w.names.store.isActive session = false → ∀ key ∈ evictionsOf (session, names),
      w.attributes.store.isActive key = true → f.executor.Holds key) :
    ∃ f', (w.callMetadata env call).2.factory? number = some f' ∧
      ∀ key ∈ evictionsOf (session, names), f'.executor.Holds key ∨
        (w.callMetadata env call).2.attributes.store.isActive key = false := by
  obtain ⟨passed, f', hpasses, hf', hqueues⟩ :=
    h.wired.request_queues hn hf ho he (.metadata call)
  refine ⟨f', hf', fun key hk => ?_⟩
  cases hactive : w.names.store.isActive session with
  | true =>
    -- The names leave now and hand their entries to the workers.
    obtain ⟨options, hkept⟩ := h.wired.names
    have hafter : (w.callMetadata env call).2.names.store.isPassivated session = true :=
      Store.isPassivated_of_find (by rw [hsame, hnames]; rfl) hinactive
    obtain ⟨e, hm, hs⟩ :=
      List.mem_map.mp (hpasses.all session (hkept.sound.apart hactive) hafter)
    have hvalue := hpasses.held e hm
    rw [hs, hnames] at hvalue
    obtain rfl : e = (session, names) := Prod.ext hs (Option.some.inj hvalue).symm
    refine .inl (.inl ?_)
    rw [hqueues.executor]
    exact List.mem_append_right _ (List.mem_flatMap.mpr ⟨_, hm, hk⟩)
  | false =>
    -- They left before, so the entries that are still there wait for their evictions.
    have hfollows := h.wired.happens he (.metadata call)
    cases hentry : w.attributes.store.isActive key with
    | false => exact .inr (hfollows.inactive h.wired id hentry)
    | true =>
      rcases hfollows.holds hf (hrest hactive key hk hentry) with ⟨f'', hf'', hholds⟩ | hfinishes
      · obtain rfl := Option.some.inj (hf'.symm.trans hf'')
        exact .inl hholds
      · cases hfinishes

/-- A session whose metadata leaves primary memory leaves it as a whole when the evictions have been
carried out, if none of its entries came back after its names had left. -/
theorem session_leaves (h : w.Reached) (hm : w.metadata.store.persistent = false)
    (hn : w.names.store.persistent = false) (hf : w.factory? number = some f)
    (ho : f.isOpen = true) (he : env.Aloof) (hr : env.Reliable)
    {call : StoreCall SessionId Metadata} (ha : w.metadata.store.isActive session = true)
    (hp : (w.callMetadata env call).2.metadata.store.isPassivated session = true)
    (hrest : w.names.store.isActive session = false → ∀ names,
      w.names.store.find? session = some names → ∀ key ∈ evictionsOf (session, names),
      w.attributes.store.isActive key = true → f.executor.Holds key)
    {finished : List AttributeKey}
    (hw' : Meanwhile number (fun happening => ¬ happening.UsesNames session ∧
      ∀ id, ¬ happening.UsesEntry ⟨session, id⟩) (w.callMetadata env call).2 finished w')
    (hdone : ∀ f', w'.factory? number = some f' → ∀ id, ¬ f'.executor.Holds ⟨session, id⟩) :
    w'.names.store.isActive session = false ∧ ∀ names,
      w'.names.store.find? session = some names → ∀ key ∈ evictionsOf (session, names),
      w'.attributes.store.isActive key = false := by
  obtain ⟨hinactive, hsame⟩ := h.wired.names_follow hm hf ho he hr ha hp
  have hwired := (h.request he (.metadata call)).wired
  have hunused : ∀ happening : Happening V, (¬ happening.UsesNames session ∧
      ∀ id, ¬ happening.UsesEntry ⟨session, id⟩) → ¬ happening.UsesNames session :=
    fun _ hallowed => hallowed.1
  refine ⟨hw'.names_inactive hwired hunused hinactive, fun names hnames key hk => ?_⟩
  rw [hw'.names_find hwired hunused, hsame] at hnames
  obtain ⟨f', hf', hentries⟩ := h.entries_follow hn hf ho he hinactive hsame hnames
    fun hgone => hrest hgone names hnames
  have hkey := hentries key hk
  obtain ⟨a, -, rfl⟩ := List.mem_map.mp hk
  exact hw'.drained hwired hf' (fun _ hallowed => hallowed.2 a) hkey
    (.inr fun f'' hf'' => hdone f'' hf'' a)

/-- The metadata is evicted, and a worker carries out the one eviction that follows. -/
theorem session_leaves_evicted :
    ∃ w w' : World Unit Unit, w.Reached ∧ w.metadata.store.isActive "s" = true ∧
      w.attributes.store.isActive ⟨"s", .ofNat 0⟩ = true ∧
      (w.callMetadata hushed (.evict "s")).2.metadata.store.isPassivated "s" = true ∧
      w' = (w.callMetadata hushed (.evict "s")).2.workerSteps hushed 0 [.receive, .finish 0] ∧
      w'.names.store.isActive "s" = false ∧ ∀ names,
      w'.names.store.find? "s" = some names → ∀ key ∈ evictionsOf ("s", names),
      w'.attributes.store.isActive key = false := by
  obtain ⟨w, hw⟩ : ∃ w, w = boarded := ⟨_, rfl⟩
  obtain ⟨w', hw'⟩ : ∃ w', w' = (w.callMetadata hushed (.evict "s")).2.workerSteps hushed 0
    [.receive, .finish 0] := ⟨_, rfl⟩
  have h : w.Reached := hw ▸ boarded_reached
  have hfactory : (w.factory? 0).map Factory.isOpen = some true := by rw [hw]; decide +kernel
  have hactive : w.metadata.store.isActive "s" = true ∧
      w.attributes.store.isActive ⟨"s", .ofNat 0⟩ = true ∧ w.names.store.isActive "s" = true := by
    rw [hw]
    decide +kernel
  have hpersistent : w.metadata.store.persistent = false ∧ w.names.store.persistent = false := by
    rw [hw]
    decide +kernel
  have hp : (w.callMetadata hushed (.evict "s")).2.metadata.store.isPassivated "s" = true := by
    rw [hw]
    decide +kernel
  have hidle : (w'.factory? 0).map (fun f => f.executor.queued ++ f.executor.running) =
      some [] := by
    rw [hw', hw]
    decide +kernel
  have hstart : Meanwhile 0 (fun happening => ¬ happening.UsesNames "s" ∧
      ∀ id, ¬ happening.UsesEntry ⟨"s", id⟩) (w.callMetadata hushed (.evict "s")).2 [] _ := .start
  obtain ⟨finished, hrun⟩ := hstart.workerSteps hushed_aloof hushed_reliable
    (fun _ => ⟨id, fun _ => id⟩) [.receive, .finish 0]
  rw [← hw'] at hrun
  obtain ⟨f, hf, ho⟩ := Option.map_eq_some_iff.mp hfactory
  refine ⟨w, w', h, hactive.1, hactive.2.1, hp, hw', ?_⟩
  refine session_leaves h hpersistent.1 hpersistent.2 hf ho hushed_aloof hushed_reliable hactive.1
    hp (fun hno => absurd (hactive.2.2.symm.trans hno) nofun) hrun fun _ hf' _ =>
    unheld_of_idle hidle hf' _

/-- The names are evicted, and all that follows is done. The view writes the attribute again, and
that leaves the names where they are. So when the metadata is evicted nobody evicts the entry. -/
theorem session_stays :
    ∃ w₁ w₂ w₃ : World Unit Unit, boarded.Reached ∧
      w₁ = (boarded.callNames hushed (.evict "s")).2.workerSteps hushed 0 [.receive, .finish 0] ∧
      w₂ = (w₁.carryOut hushed ⟨0, some 0⟩
        (View.set ⟨"s", false, Immutability.never⟩ "a" ()).run).2 ∧
      w₂.Reached ∧ (w₂.factory? 0).map Factory.isOpen = some true ∧
      (w₂.metadata.store.persistent = false ∧ w₂.names.store.persistent = false ∧
        w₂.attributes.store.persistent = false) ∧
      w₂.metadata.store.isActive "s" = true ∧
      w₃ = (w₂.callMetadata hushed (.evict "s")).2 ∧
      w₃.metadata.store.isPassivated "s" = true ∧
      (w₃.factory? 0).map (fun f => f.executor.queued ++ f.executor.running) = some [] ∧
      ∃ names key, w₃.names.store.find? "s" = some names ∧ key ∈ evictionsOf ("s", names) ∧
        w₃.attributes.store.isActive key = true := by
  have hreached := ((boarded_reached.request hushed_aloof (.names (.evict "s"))).workerSteps
    hushed_aloof 0 [.receive, .finish 0]).carryOut hushed_aloof ⟨0, some 0⟩
    (View.set ⟨"s", false, Immutability.never⟩ "a" ()).run
  let names : Names := ⟨[("a", .ofNat 0)], List.pairwise_singleton _ _⟩
  exact ⟨_, _, _, boarded_reached, rfl, rfl, hreached, by decide +kernel, by decide +kernel,
    by decide +kernel, rfl, by decide +kernel, by decide +kernel, names, ⟨"s", .ofNat 0⟩,
    by decide +kernel, List.mem_singleton.mpr rfl, by decide +kernel⟩

end SessionAttributes.World
