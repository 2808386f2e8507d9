import SessionAttributes.Proofs.Session.Balance
import SessionAttributes.Proofs.Session.SingleView

namespace SessionAttributes

variable {V σ : Type} {m : Marshaller V} {session : SessionId} {x : Supply} {number : Nat}

namespace World

/-- What is stored of a session is what its view refers to: its names, or none if it has none, and
exactly the entries of its attributes. -/
structure Settled (session : SessionId) (w : World V σ) (live : LiveView V) : Prop where
  owner : live.view.session = session
  distinct : live.state.bundle.names.values.Nodup
  stored : w.names.store.find? session = some live.state.bundle.names ∨
    w.names.store.find? session = none ∧ live.state.bundle.names = Dict.empty
  entries : ∀ id, (w.attributes.store.find? ⟨session, id⟩).isSome ↔
    id ∈ live.state.bundle.names.values

/-- A view settles when it is opened, if the session has no entry that its names do not refer to. -/
theorem Opened.settled [BEq V] {w₀ w : World V σ} (h : Opened m session w₀ number w)
    (hs : w₀.Sound)
    (he : ∀ id, w₀.attributes.store.find? ⟨session, id⟩ ≠ none →
      ∃ names, w₀.names.store.find? session = some names ∧ id ∈ names.values) :
    ∃ live, w.view? number = some live ∧ w.Settled session live := by
  obtain ⟨-, v, halone⟩ := h.alone hs he
  obtain ⟨live, hl, rfl⟩ := Option.map_eq_some_iff.mp ((w.plain_view number).symm.trans halone.view)
  have hm := halone.mirrors
  have hbundle : (w.plain.scope session ⟨live.factory, some number⟩).bundle = live.state.bundle :=
    congrArg ViewState.bundle halone.state
  refine ⟨live, hl, halone.owner, ?_, ?_, fun id => ⟨fun hid => ?_, fun hid => ?_⟩⟩
  · rw [← hbundle]
    exact hm.tidy.distinct.values_nodup
  · rw [← hbundle]
    rcases hm.stored with hstored | ⟨hstored, hempty⟩
    · exact .inl hstored
    · exact .inr ⟨hstored, congrArg Bundle.names hempty⟩
  · rw [← hbundle]
    exact halone.exact id (Option.isSome_iff_ne_none.mp hid)
  · rw [← hbundle] at hid
    obtain ⟨name, hname⟩ := Dict.mem_values.mp hid
    obtain ⟨value, -, hvalue⟩ := hm.tidy.get?_some hname
    obtain ⟨-, ⟨bytes, hbytes, -⟩, -⟩ := hm.read hvalue
    exact Option.isSome_iff_exists.mpr ⟨bytes, hbytes⟩

end World

namespace Upkeep

/-- The parts that operations of the only view of a session have in it. -/
structure Overlaps (x : Supply) (session : SessionId) (number factory : Nat) (locks : Locks)
    (part : Nat → Upkeep) (p : PlainWorld V) : Prop where
  view : ∃ v, p.views[number]? = some v ∧ v.view.session = session ∧ v.factory = factory
  parts : Holds x (locks.holder number) part (p.scope session ⟨factory, some number⟩)

/-- Each operation of the view keeps to its part. -/
theorem upholds {factory : Nat} {calls : List (Pending V)}
    (hcalls : ∀ q ∈ calls, q.view = number ∧ q.factory = factory) :
    Upkeep.rule.Upholds m session x True calls (Overlaps x session number factory) := by
  intro i q locks part p action post hq h hon ha hrule
  obtain ⟨hview, hfactory⟩ := hcalls q (List.mem_of_getElem? hq)
  rw [hview] at ha ⊢
  rw [hfactory]
  obtain ⟨r, hpost, hparts⟩ := h.parts.act m hon ha hrule
  obtain ⟨p', hstep, hview', hscope⟩ := PlainWorld.perform_view hon m x.draw h.view
  rw [hstep]
  refine ⟨r, hpost, hview', ?_⟩
  rw [hscope]
  exact hparts

/-- A settled session is balanced before anything has begun. -/
theorem overlaps_settled {w : World V σ} {live : LiveView V} (hl : w.view? number = some live)
    (h : w.Settled session live)
    (hfresh : ∀ id ∈ live.state.bundle.names.values, ∀ k, w.drawn ≤ k → k < x.limit →
      x.draw k ≠ id) :
    Overlaps x session number live.factory Locks.free (fun _ => rest) w.plain := by
  have hv : w.plain.views[number]? = some live.plain := World.plain_live hl
  refine ⟨⟨live.plain, hv, h.owner, rfl⟩, fun _ => .nothing, .keep, rfl, ?_⟩
  have hnames : (w.plain.scope session ⟨live.factory, some number⟩).bundle.names =
      live.state.bundle.names := congrArg Bundle.names (PlainWorld.scope_bundle hv _ _)
  have hentry : ∀ id, (w.plain.scope session ⟨live.factory, some number⟩).entries id ≠ none ↔
      id ∈ live.state.bundle.names.values :=
    fun id => Option.isSome_iff_ne_none.symm.trans (h.entries id)
  constructor
  · rw [hnames]
    exact Dict.injective_of_nodup h.distinct
  · rw [hnames]
    exact h.stored
  · exact fun _ => rfl
  · exact fun _ => trivial
  · exact fun _ => trivial
  · exact nofun
  · rw [hnames]
    rintro id (hid | ⟨_, ⟨⟩⟩)
    exact hfresh id hid
  · rw [hnames]
    exact fun hid => (hentry _).mpr hid
  · exact nofun
  · rw [hnames]
    exact fun hid => .inl ((hentry _).mp hid)

/-- When every operation is done the session is settled again. -/
theorem Overlaps.settled {w : World V σ} {factory : Nat} {locks : Locks} {part : Nat → Upkeep}
    (h : Overlaps x session number factory locks part w.plain) (hrest : ∀ i, part i = rest) :
    ∃ live, w.view? number = some live ∧ w.Settled session live := by
  obtain ⟨⟨v, hv, howner, rfl⟩, care, change, rfl, hb⟩ := h
  have hnames := congrArg Bundle.names (PlainWorld.scope_bundle hv session v.factory)
  rw [World.plain_view] at hv
  obtain ⟨live, hl, rfl⟩ := Option.map_eq_some_iff.mp hv
  have hcare : ∀ i, care i = .nothing := fun i => congrArg Upkeep.care (hrest i)
  have hkeep : change = .keep := by
    apply hb.idle
    cases hholder : locks.holder number with
    | none => rfl
    | some i =>
      have hgrip := congrArg Upkeep.grip (hrest i)
      simp [all, hholder, rest] at hgrip
  subst hkeep
  refine ⟨live, hl, howner, ?_, ?_, fun id => ⟨fun hid => ?_, fun hid => ?_⟩⟩
  · have hdistinct := hb.distinct
    rw [hnames] at hdistinct
    exact hdistinct.values_nodup
  · have hstored := hb.stored
    rw [hnames] at hstored
    exact hstored
  · rcases hb.kept (Option.isSome_iff_ne_none.mp hid) with hm | ⟨i, hi⟩
    · rw [hnames] at hm
      exact hm
    · rw [hcare i] at hi
      cases hi
  · refine Option.isSome_iff_ne_none.mpr (hb.present ?_)
    rw [hnames]
    exact hid

end Upkeep

section Single
variable [BEq V] {Part : Type} {rule : Rule V Part}
  {ends : (call : ViewCall V) → call.Answer → Part → Prop}
  {holds : Locks → (Nat → Part) → PlainWorld V → Prop} {w : World V σ} {live : LiveView V}
  {calls : List (Pending V)} {probes : List (Probe V)} {c : Interleaving V σ}

/-- Operations of one view that begin in their parts are led. -/
theorem Interleaving.led_single {part : Nat → Part} (hs : w.Sound) (hl : w.view? number = some live)
    (howner : live.view.session = session) (hcalls : ∀ q ∈ calls, q.view = number ∧ q.Begins w)
    (hprobes : ∀ q ∈ probes, q.Begins) (hholds : holds Locks.free part w.plain)
    (hsecures : ∀ {i : Nat} {q : Pending V}, calls[i]? = some q →
      (q.call.procedure live.view).Secures rule (ends q.call) (part i)) :
    (start w calls probes).Led session rule ends holds calls part part := by
  have hlive : ∀ q ∈ calls, ∀ live', w.view? q.view = some live' → live' = live := by
    intro q hq live' hl'
    rw [(hcalls q hq).1, hl] at hl'
    exact (Option.some.inj hl').symm
  refine led_start hs hprobes (fun q hq => ⟨(hcalls q hq).2, fun live' hl' => ?_⟩) hholds
    fun {i q} hq => ?_
  · rw [hlive q hq live' hl']
    exact howner
  · have hm := List.mem_of_getElem? hq
    obtain ⟨-, live', hl', -, hrest⟩ := hcalls q hm
    rw [hrest, hlive q hm live' hl']
    exact hsecures hq

theorem Pending.seats_single (hl : w.view? number = some live)
    (hcalls : ∀ q ∈ calls, q.view = number ∧ q.Begins w) :
    ∀ q ∈ calls, q.view = number ∧ q.factory = live.factory := by
  intro q hq
  obtain ⟨hview, live', hl', hfactory, -⟩ := hcalls q hq
  rw [hview, hl] at hl'
  obtain rfl := Option.some.inj hl'
  exact ⟨hview, hfactory⟩

/-- However the operations of the only view of a settled session overlap, each keeps to its part in
its upkeep. -/
theorem Interleaves.overlaps (hs : w.Sound) (hl : w.view? number = some live)
    (h₀ : w.Settled session live)
    (hfresh : ∀ id ∈ live.state.bundle.names.values, ∀ k, w.drawn ≤ k → k < x.limit →
      x.draw k ≠ id)
    (hcalls : ∀ q ∈ calls, q.view = number ∧ q.Begins w) (hprobes : ∀ q ∈ probes, q.Begins)
    (h : Interleaves m x True (.start w calls probes) c) :
    ∃ part, c.Led session Upkeep.rule (fun _ => Upkeep.Ends)
      (Upkeep.Overlaps x session number live.factory) calls (fun _ => Upkeep.rest) part :=
  h.led (Upkeep.upholds (Pending.seats_single hl hcalls))
    (Interleaving.led_single hs hl h₀.owner hcalls hprobes (Upkeep.overlaps_settled hl h₀ hfresh)
      fun {_ q} _ => View.procedure_keeps live.view q.call)

end Single

/-- Whatever way the operations of the only view of a settled session overlap, at no point do the
stored names refer to an entry that is not there, and when all are done the session is settled. -/
theorem Interleaves.settles [BEq V] {w : World V σ} {live : LiveView V} {calls : List (Pending V)}
    {probes : List (Probe V)} {c : Interleaving V σ} (hs : w.Sound)
    (hl : w.view? number = some live) (h₀ : w.Settled session live)
    (hfresh : ∀ id ∈ live.state.bundle.names.values, ∀ k, w.drawn ≤ k → k < x.limit →
      x.draw k ≠ id)
    (hcalls : ∀ q ∈ calls, q.view = number ∧ q.Begins w) (hprobes : ∀ q ∈ probes, q.Begins)
    (h : Interleaves m x True (.start w calls probes) c) :
    (∀ names, c.world.names.store.find? session = some names → ∀ id ∈ names.values,
      (c.world.attributes.store.find? ⟨session, id⟩).isSome) ∧
    (c.Over → ∃ live, c.world.view? number = some live ∧ c.world.Settled session live) := by
  obtain ⟨part, hled⟩ := h.overlaps hs hl h₀ hfresh hcalls hprobes
  refine ⟨fun names hn id hid => ?_, fun hover => hled.holds.settled (hled.rested hover)⟩
  obtain ⟨-, care, change, -, hb⟩ := hled.holds
  exact Option.isSome_iff_ne_none.mpr (hb.intact hn hid)

/-- Two writes of one new name, neither of which knows of the other when it stores its entry. The
one that comes last takes its entry back. -/
theorem Interleaves.settles_twice :
    ∃ (live : LiveView Bool) (c : Interleaving Bool Unit), World.viewed.view? 0 = some live ∧
      Interleaves .bits .counting True (.start World.viewed
        [live.begin 0 (.set "a" true), live.begin 0 (.set "a" false)] []) c ∧ c.Over ∧
      c.world.names.store.find? "s" = some (Dict.empty.insert "a" (AttributeId.ofNat 0)) ∧
      ∃ live, c.world.view? 0 = some live ∧ c.world.Settled "s" live := by
  let env : Surroundings Bool Unit := .quiet .bits AttributeId.ofNat
  let live : LiveView Bool :=
    ⟨⟨"s", false, Immutability.never⟩, 0, ⟨Bundle.empty, []⟩, false, none⟩
  let calls : List (Pending Bool) :=
    [live.begin 0 (.set "a" true), live.begin 0 (.set "a" false)]
  let order : List Nat := [0, 0, 0, 0, 0, 1, 1, 1, 1, 1, 0, 0, 0, 0, 0, 1, 1, 1, 1]
  have hfollows : Interleaving.Follows env .counting True order (.start World.viewed calls []) := by
    decide +kernel
  let c := order.foldl (Interleaving.advance env) (.start World.viewed calls [])
  have hrun : Interleaves .bits .counting True (.start World.viewed calls []) c :=
    Interleaves.start.follow (Surroundings.quiet_calm _ _) (Surroundings.quiet_reliable _ _) rfl
      hfollows
  have hover : ∀ q ∈ c.calls, q.rest.isDone = true := by decide +kernel
  have hempty : (World.single Bool).attributes.store.find? = fun _ => none :=
    congrArg PlainWorld.attributes (World.single_plain Bool)
  obtain ⟨_, ⟨⟩, hsettled⟩ := World.viewed_opened.settled (World.single_sound Bool)
    fun id hid => absurd (congrFun hempty ⟨"s", id⟩) hid
  have hcalls : ∀ q ∈ calls, q.view = 0 ∧ q.Begins World.viewed := by
    intro q hq
    rcases List.mem_pair.mp hq with rfl | rfl
    · exact ⟨rfl, live, rfl, rfl, rfl⟩
    · exact ⟨rfl, live, rfl, rfl, rfl⟩
  have hprobes : ∀ q ∈ ([] : List (Probe Bool)), q.Begins := fun _ hq => nomatch hq
  obtain ⟨-, hend⟩ := Interleaves.settles World.viewed_sound rfl hsettled nofun hcalls hprobes hrun
  exact ⟨live, c, rfl, hrun, hover, by decide +kernel, hend hover⟩

end SessionAttributes
