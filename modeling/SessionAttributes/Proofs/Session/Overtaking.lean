import SessionAttributes.Proofs.Session.Opened
import SessionAttributes.Proofs.Session.Waiting

namespace SessionAttributes

variable {V σ : Type}

/-- An operation of a view that is being carried out, and the identifier for it to draw. -/
structure Running (V : Type) where
  factory : Nat
  call : ViewCall V
  rest : Procedure V call.Answer
  fresh : AttributeId

structure Race (V σ : Type) where
  world : World V σ
  running : Option (Running V)
  load : Procedure V (Except SessionError (Option (Bundle V)))
  /-- The names that the load has read and whose entries it has not. -/
  read : Option Names

/-- A load races the operations of a view, which does one after the other. What the view writes is
encoded and read back as an equal value, and it draws identifiers that it has not bound; its calls
do not fail, those of the load may. -/
inductive Races [BEq V] (m : Marshaller V) (session : SessionId) (number factory : Nat)
    (repair : Bool) (overtaking : Prop) (w₁ : World V σ) : Race V σ → Prop
  | start : Races m session number factory repair overtaking w₁
      ⟨w₁, none, (Session.load session repair).run, none⟩
  | passive {r : Race V σ} {w : World V σ}
      (h : Races m session number factory repair overtaking w₁ r)
      (hp : World.Passive m r.world w) :
      Races m session number factory repair overtaking w₁ { r with world := w }
  | call {r : Race V σ} {live : LiveView V}
      (h : Races m session number factory repair overtaking w₁ r) (hn : r.running = none)
      (hl : r.world.view? number = some live) (call : ViewCall V)
      (hv : ∀ value, call.written live.state.bundle = some value → Faithful m value)
      {fresh : AttributeId} (hf : fresh ∉ live.state.bundle.names.values) :
      Races m session number factory repair overtaking w₁
        { r with running := some ⟨live.factory, call, call.procedure live.view, fresh⟩ }
  | act {r : Race V σ} {env : Surroundings V σ} {seat : Nat} {call : ViewCall V}
      {action : Action V} {next : action.Answer → Procedure V call.Answer} {fresh : AttributeId}
      (h : Races m session number factory repair overtaking w₁ r) (hc : env.Calm m)
      (hr : env.Reliable) (hd : action = .draw → env.draw r.world.drawn = fresh)
      (ho : overtaking ∨ ¬ action.Overtakes session r.read)
      (hp : r.running = some ⟨seat, call, .act action next, fresh⟩) :
      Races m session number factory repair overtaking w₁ { r with
        world := (r.world.perform env ⟨seat, some number⟩ action).2
        running := some ⟨seat, call, next (r.world.perform env ⟨seat, some number⟩ action).1,
          fresh⟩ }
  | finish {r : Race V σ} {seat : Nat} {call : ViewCall V} {answer : call.Answer}
      {fresh : AttributeId} (h : Races m session number factory repair overtaking w₁ r)
      (hp : r.running = some ⟨seat, call, .done answer, fresh⟩) :
      Races m session number factory repair overtaking w₁ { r with running := none }
  | load {r : Race V σ} {env : Surroundings V σ} {action : Action V}
      {next : action.Answer → Procedure V (Except SessionError (Option (Bundle V)))}
      (h : Races m session number factory repair overtaking w₁ r) (hc : env.Calm m)
      (hp : r.load = .act action next) :
      Races m session number factory repair overtaking w₁ { r with
        world := (r.world.perform env ⟨factory, none⟩ action).2
        load := next (r.world.perform env ⟨factory, none⟩ action).1
        read := action.awaited r.read (r.world.perform env ⟨factory, none⟩ action).1 }

variable [BEq V] {m : Marshaller V} {session : SessionId} {number factory seat : Nat}
  {repair : Bool} {overtaking : Prop} {w₀ w₁ : World V σ} {r : Race V σ}

/-- The session can be loaded, the load will find what it has read the names of, and the view
mirrors the session, or will when its operation is done. -/
structure Race.Whole (m : Marshaller V) (session : SessionId) (number seat : Nat) (r : Race V σ) :
    Prop where
  sound : r.world.Sound
  seats : ∃ v, r.world.plain.views[number]? = some v ∧ v.view.session = session ∧ v.factory = seat
  loadable : (r.world.plain.scope session ⟨seat, some number⟩).Loadable m
  covers : (r.world.plain.scope session ⟨seat, some number⟩).Covers m r.read
  rests : r.running = none → (r.world.plain.scope session ⟨seat, some number⟩).Mirrors m
  runs : ∀ q, r.running = some q → q.factory = seat ∧ q.rest.Asks (Action.On session true) ∧
    q.rest.Secures ((Terms.steady m q.fresh).rule m session) (fun _ s => s.Mirrors m)
      (r.world.plain.scope session ⟨seat, some number⟩)
  waits : r.load.Secures (loading m session) (fun answer _ => answer ≠ .ok none) r.read

namespace Race.Whole

theorem actor_seats (h : r.Whole m session number seat) :
    r.world.plain.Seats ⟨seat, some number⟩ := by
  obtain ⟨v, hv, -⟩ := h.seats
  exact ⟨number, rfl, (List.getElem?_eq_some_iff.mp hv).1⟩

/-- What changes nothing that shows keeps the session whole, whatever becomes of the load. -/
theorem unseen (h : r.Whole m session number seat) {w : World V σ} (hs : w.Sound)
    (hp : w.plain = r.world.plain) {load : Procedure V (Except SessionError (Option (Bundle V)))}
    {read : Option Names}
    (hr : (r.world.plain.scope session ⟨seat, some number⟩).Covers m read)
    (hl : load.Secures (loading m session) (fun answer _ => answer ≠ .ok none) read) :
    Race.Whole m session number seat { r with world := w, load, read } := by
  refine ⟨hs, ?_, ?_, ?_, fun hn => ?_, fun q hq => ?_, hl⟩
  · exact hp.symm ▸ h.seats
  · exact hp.symm ▸ h.loadable
  · exact hp.symm ▸ hr
  · exact hp.symm ▸ h.rests hn
  · exact hp.symm ▸ h.runs q hq

theorem call (h : r.Whole m session number seat) (hn : r.running = none) {live : LiveView V}
    (hl : r.world.view? number = some live) (call : ViewCall V)
    (hv : ∀ value, call.written live.state.bundle = some value → Faithful m value)
    {fresh : AttributeId} (hf : fresh ∉ live.state.bundle.names.values) :
    Race.Whole m session number seat
      { r with running := some ⟨live.factory, call, call.procedure live.view, fresh⟩ } := by
  obtain ⟨v, hview, howner, hseat⟩ := h.seats
  have hlive : r.world.plain.views[number]? = some live.plain := World.plain_live hl
  cases hlive.symm.trans hview
  have hb := PlainWorld.scope_bundle hlive session seat
  refine ⟨h.sound, h.seats, h.loadable, h.covers, nofun, ?_, h.waits⟩
  rintro q ⟨⟩
  refine ⟨hseat, howner ▸ View.procedure_on live.view call, ?_⟩
  have hrun := View.procedure_steady (w := live.view) (h.rests hn) (hb.symm ▸ hv) (hb.symm ▸ hf)
  rw [show live.view.session = session from howner] at hrun
  exact hrun

/-- An action of the view that overtakes no load. -/
theorem act (h : r.Whole m session number seat) {env : Surroundings V σ} {call : ViewCall V}
    {action : Action V} {next : action.Answer → Procedure V call.Answer} {fresh : AttributeId}
    (hc : env.Calm m) (hr : env.Reliable) (hd : action = .draw → env.draw r.world.drawn = fresh)
    (ho : ¬ action.Overtakes session r.read)
    (hp : r.running = some ⟨seat, call, .act action next, fresh⟩) :
    Race.Whole m session number seat { r with
      world := (r.world.perform env ⟨seat, some number⟩ action).2
      running := some ⟨seat, call, next (r.world.perform env ⟨seat, some number⟩ action).1,
        fresh⟩ } := by
  obtain ⟨-, hasks, hrest⟩ := h.runs _ hp
  obtain ⟨hs', s, hkeeps, hor, hplain, hscope, hnext⟩ := World.perform_secures hc (.inr hr) h.sound
    hasks.1 (fun _ => h.actor_seats) hrest h.loadable hd
  refine ⟨hs', ?_, hscope.symm ▸ hkeeps, ?_, nofun, ?_, h.waits⟩
  · obtain ⟨v, hview, howner, hseat⟩ := h.seats
    refine ⟨{ v with state := s.state }, ?_, howner, hseat⟩
    rw [hplain]
    simp [PlainWorld.withScope, hview]
  · rw [hscope]
    rcases hor with rfl | rfl
    · exact h.covers
    · exact h.covers.perform hasks.1 hrest ho env.draw
  · rintro q ⟨⟩
    exact ⟨rfl, hasks.2 _, hscope.symm ▸ hnext⟩

end Race.Whole

namespace Races

/-- While the view overtakes no load, the session stays whole. -/
theorem whole (h : Races m session number factory repair False w₁ r) (hs : w₀.Sound)
    (ho : World.Opened m session w₀ number w₁) : ∃ seat, r.Whole m session number seat := by
  induction h with
  | start =>
    obtain ⟨hs', v, hv, howner, -, hm, -⟩ := ho.mirrors hs
    exact ⟨v.factory, hs', ⟨v, hv, howner, rfl⟩, hm.loadable, nofun, fun _ => hm, nofun,
      Session.load_waits session repair⟩
  | passive _ hp ih =>
    obtain ⟨seat, hw⟩ := ih
    obtain ⟨hs', hplain⟩ := hp.keeps hw.sound
    exact ⟨seat, hw.unseen hs' hplain hw.covers hw.waits⟩
  | call _ hn hl call hv hf ih =>
    obtain ⟨seat, hw⟩ := ih
    exact ⟨seat, hw.call hn hl call hv hf⟩
  | act _ hc hr hd hover hp ih =>
    obtain ⟨seat, hw⟩ := ih
    obtain ⟨rfl, -⟩ := hw.runs _ hp
    exact ⟨_, hw.act hc hr hd (hover.resolve_left id) hp⟩
  | finish _ hp ih =>
    obtain ⟨seat, hw⟩ := ih
    obtain ⟨-, -, hdone⟩ := hw.runs _ hp
    exact ⟨seat, hw.sound, hw.seats, hw.loadable, hw.covers, fun _ => hdone, nofun, hw.waits⟩
  | load _ hc hp ih =>
    obtain ⟨seat, hw⟩ := ih
    obtain ⟨hs', hplain, hcovers, hwaits⟩ := World.load_step hc hw.sound hw.loadable hw.covers _
      (hp ▸ hw.waits)
    exact ⟨seat, hw.unseen hs' hplain hcovers hwaits⟩

/-- A load that the view does not overtake changes nothing and does not take the session for
corrupt. Whenever the view is at rest, every load finds what the view holds. -/
theorem load_spares [PartialEquivBEq V] (hs : w₀.Sound)
    (ho : World.Opened m session w₀ number w₁)
    (h : Races m session number factory repair False w₁ r) :
    (∀ action next, r.load = .act action next → ∀ env : Surroundings V σ, env.Calm m →
      let w := (r.world.perform env ⟨factory, none⟩ action).2
      w.metadata.store.find? = r.world.metadata.store.find? ∧
        w.names.store.find? = r.world.names.store.find? ∧
        w.attributes.store.find? = r.world.attributes.store.find?) ∧
    (∀ answer, r.load = .done answer → answer ≠ .ok none) ∧
    (r.running = none → ∃ live, r.world.view? number = some live ∧
      ∀ (env : Surroundings V σ) (factory : Nat) (repair : Bool), env.Calm m → env.Reliable →
        (r.world.factory? factory).map Factory.isOpen = some true →
        ∃ b, (r.world.carryOut env ⟨factory, none⟩ (Session.load session repair).run).1 =
            .ok (some b) ∧ b.equal live.state.bundle = true) := by
  obtain ⟨seat, hw⟩ := h.whole hs ho
  refine ⟨fun action next hp env hc => ?_, fun answer hp => ?_, fun hn => ?_⟩
  · obtain ⟨-, hplain, -⟩ := World.load_step hc hw.sound hw.loadable hw.covers factory
      (hp ▸ hw.waits)
    exact ⟨congrArg PlainWorld.metadata hplain, congrArg PlainWorld.names hplain,
      congrArg PlainWorld.attributes hplain⟩
  · have hwaits := hw.waits
    rw [hp] at hwaits
    exact hwaits
  · obtain ⟨v, hv, -⟩ := hw.seats
    rw [World.plain_view] at hv
    obtain ⟨live, hl, -⟩ := Option.map_eq_some_iff.mp hv
    exact ⟨live, hl, fun env factory repair hc hr hopen =>
      World.load_mirrored (hw.rests hn) hw.sound hl hc hr hopen repair⟩

/-- An operation may be carried out as a whole. -/
theorem carryOut {env : Surroundings V σ} {call : ViewCall V} {rest : Procedure V call.Answer}
    {fresh : AttributeId} (h : Races m session number factory repair overtaking w₁ r)
    (hc : env.Calm m) (hr : env.Reliable) (hd : ∀ k, env.draw k = fresh)
    (ho : overtaking ∨ r.read = none) (hp : r.running = some ⟨seat, call, rest, fresh⟩) :
    Races m session number factory repair overtaking w₁ { r with
      world := (r.world.carryOut env ⟨seat, some number⟩ rest).2, running := none } := by
  induction rest generalizing r with
  | done answer => exact h.finish hp
  | act action next ih =>
    refine ih _ (h.act hc hr (fun _ => hd _) ?_ hp) ho rfl
    exact ho.imp_right fun hread => by rw [hread]; exact action.not_overtakes session

/-- So may the rest of a load. -/
theorem carryOut_load {env : Surroundings V σ} (hc : env.Calm m) {w : World V σ}
    {running : Option (Running V)} {read : Option Names}
    {load : Procedure V (Except SessionError (Option (Bundle V)))}
    (h : Races m session number factory repair overtaking w₁ ⟨w, running, load, read⟩) :
    ∃ read', Races m session number factory repair overtaking w₁
      ⟨(w.carryOut env ⟨factory, none⟩ load).2, running,
        .done (w.carryOut env ⟨factory, none⟩ load).1, read'⟩ := by
  induction load generalizing w read with
  | done answer => exact ⟨read, h⟩
  | act action next ih => exact ih _ (h.load hc rfl)

/-- A whole operation of a view at rest, and what it does. -/
theorem turn {env : Surroundings V σ} {v : PlainView V} {fresh : AttributeId}
    (h : Races m session number factory repair overtaking w₁ r) (hc : env.Calm m)
    (hr : env.Reliable) (hd : ∀ k, env.draw k = fresh) (ho : overtaking ∨ r.read = none)
    (hs : r.world.Sound) (hn : r.running = none) (hv : r.world.plain.views[number]? = some v)
    (call : ViewCall V) (hw : ∀ value, call.written v.state.bundle = some value → Faithful m value)
    (hf : fresh ∉ v.state.bundle.names.values) :
    ∃ w activated, Races m session number factory repair overtaking w₁ { r with world := w } ∧
      w.Sound ∧
      let actor : World.Actor := ⟨v.factory, some number⟩
      let s := (((r.world.plain.scope v.view.session actor).carryOut m env.draw v.view.immutability
        call).2).announcing activated
      w.plain = r.world.plain.withScope v.view.session actor s ∧
        w.plain.scope v.view.session actor = s ∧
        w.plain.views[number]? = some { v with state := s.state } := by
  obtain ⟨hs', -, activated, hp, hscope⟩ := World.call_effect hc hr hs hv call
  rw [World.plain_view] at hv
  obtain ⟨live, hl, rfl⟩ := Option.map_eq_some_iff.mp hv
  have hrun := (h.call hn hl call hw hf).carryOut hc hr hd ho rfl
  refine ⟨_, activated, ?_, hs', hp, hscope, ?_⟩
  · rw [← hn] at hrun
    exact hrun
  · rw [hp]
    simp [PlainWorld.withScope, World.plain_view, hl]

/-- A load reads the names of its session and then waits for their entries. -/
theorem read_names {env : Surroundings V σ} {names : Names}
    (h : Races m session number factory repair overtaking w₁ r) (hc : env.Calm m)
    (hr : env.Reliable) (hs : r.world.Sound) (hl : r.load = (Session.load session repair).run)
    (ho : (r.world.plain.scope session ⟨factory, none⟩).isOpen = true)
    (hn : r.world.plain.names session = some names) :
    ∃ w, Races m session number factory repair overtaking w₁ { r with
        world := w, load := (Session.loadNamed session repair names).run, read := some names } ∧
      w.Sound ∧ w.plain = r.world.plain := by
  rw [Session.load_run] at hl
  have hopen : (r.world.perform env ⟨factory, none⟩ .isOpen).1 = true := by
    obtain ⟨-, ⟨hf, _⟩ | ⟨ha, _⟩⟩ := World.perform_plain hc hs ⟨factory, none⟩ .isOpen
    · exact hf.elim
    · exact ha.trans ho
  obtain ⟨hs', ⟨hf, _⟩ | ⟨ha, hp⟩⟩ :=
    World.perform_plain hc hs ⟨factory, none⟩ (.names (.get session))
  · exact absurd hf (World.perform_reliable hr _ _ _)
  · have hread : (r.world.perform env ⟨factory, none⟩ (.names (.get session))).1 =
        .ok (some names) := ha.trans (congrArg Except.ok hn)
    have h₁ := h.load hc hl
    rw [hopen] at h₁
    have h₂ := h₁.load hc rfl
    change Races m session number factory repair overtaking w₁
      ⟨(r.world.perform env ⟨factory, none⟩ (.names (.get session))).2, r.running,
        Session.loadFrom session repair
          (r.world.perform env ⟨factory, none⟩ (.names (.get session))).1,
        Action.awaited r.read (.names (.get session))
          (r.world.perform env ⟨factory, none⟩ (.names (.get session))).1⟩ at h₂
    rw [hread] at h₂
    exact ⟨_, h₂, hs', hp⟩

/-- A load that was overtaken ends with nothing, and its repair leaves nothing stored. -/
theorem misses {env : Surroundings V σ} {names : Names} {id : AttributeId}
    (h : Races m session number factory true overtaking w₁ r) (hc : env.Calm m) (hr : env.Reliable)
    (hs : r.world.Sound) (hl : r.load = (Session.loadNamed session true names).run)
    (ho : (r.world.plain.scope session ⟨factory, none⟩).isOpen = true) (hm : id ∈ names.values)
    (he : r.world.plain.attributes ⟨session, id⟩ = none) :
    ∃ w read, Races m session number factory true overtaking w₁
        ⟨w, r.running, .done (.ok none), read⟩ ∧
      w.Sound ∧ w.plain.names session = none ∧ w.plain.views = r.world.plain.views ∧
      w.plain.factories = r.world.plain.factories := by
  obtain ⟨read, hrun⟩ := h.carryOut_load hc
  have hon : (Session.loadNamed session true names : Attempt V _).run.Asks
      (Action.On session false) := by
    have hload : (Session.load session true : Attempt V _).run.Asks (Action.On session false) :=
      Session.load_on session true
    rw [Session.load_run] at hload
    exact (hload.2 true).2 (.ok (some names))
  have hmiss : (Session.loadNamed session true names).Secures
      ((Terms.plain env.draw).rule m session) (fun b s => b = none ∧ s.stored = none)
      (fun _ _ => False) (r.world.plain.scope session ⟨factory, none⟩) :=
    Session.loadNamed_misses hm he ho
  obtain ⟨hs', s, -, hp, hend⟩ := World.carryOut_secures hc (.inr hr) hs hon nofun hmiss trivial
    fun _ => rfl
  rw [hl] at hrun
  generalize r.world.carryOut env ⟨factory, none⟩ (Session.loadNamed session true names).run =
    ended at *
  obtain ⟨answer, w⟩ := ended
  match answer, hend with
  | .ok none, ⟨_, hstored⟩ =>
    refine ⟨w, read, hrun, hs', ?_, ?_, ?_⟩
    · rw [hp]
      exact (Function.update_self ..).trans hstored
    · rw [hp]
      rfl
    · rw [hp]
      rfl

/-- The view writes a first name. -/
theorem first_write (overtaking : Prop) :
    ∃ w activated, Races .bits "s" 0 0 true overtaking World.viewed
        ⟨w, none, (Session.load "s" true).run, none⟩ ∧ w.Sound ∧
      let s := ((⟨true, none, fun _ => none, ⟨Bundle.empty, []⟩, 0⟩ : Scope Bool).carryOut .bits
        (fun _ => AttributeId.ofNat 0) Immutability.never (.set "a" true)).2.announcing activated
      w.plain.scope "s" ⟨0, some 0⟩ = s ∧
        w.plain.views[0]? = some ⟨⟨"s", false, Immutability.never⟩, 0, s.state⟩ := by
  have hview : World.viewed.plain.views[0]? =
      some ⟨⟨"s", false, Immutability.never⟩, 0, ⟨Bundle.empty, []⟩⟩ := by
    rw [World.viewed_plain]
    rfl
  have hstart : Races .bits "s" 0 0 true overtaking World.viewed
      ⟨World.viewed, none, (Session.load "s" true).run, none⟩ := .start
  obtain ⟨w, activated, h, hs, -, hscope, hview⟩ := hstart.turn
    (Surroundings.quiet_calm .bits fun _ => AttributeId.ofNat 0)
    (Surroundings.quiet_reliable _ _) (fun _ => rfl) (.inr rfl) World.viewed_sound rfl hview
    (.set "a" true) (fun value _ => bits_faithful value) nofun
  rw [World.viewed_scope] at hscope hview
  exact ⟨w, activated, h, hs, hscope, hview⟩

/-- A load that has read the name of a write. -/
theorem load_spares_write :
    ∃ (r : Race Bool Unit) (live : LiveView Bool) (b : Bundle Bool),
      Races .bits "s" 0 0 true False World.viewed r ∧ r.read ≠ none ∧
      r.world.view? 0 = some live ∧ live.state.bundle.get? "a" = some true ∧
      (r.world.carryOut (.quiet .bits AttributeId.ofNat) ⟨0, none⟩ (Session.find "s").run).1 =
        .ok (some b) ∧ b.equal live.state.bundle = true := by
  obtain ⟨w₁, _, h₁, hs₁, hscope₁, hview₁⟩ := first_write False
  have hc : (Surroundings.quiet .bits AttributeId.ofNat : Surroundings Bool Unit).Calm .bits :=
    Surroundings.quiet_calm _ _
  have hr : (Surroundings.quiet .bits AttributeId.ofNat : Surroundings Bool Unit).Reliable :=
    Surroundings.quiet_reliable _ _
  have hnames₁ : w₁.plain.names "s" = some (Dict.empty.insert "a" (AttributeId.ofNat 0)) :=
    congrArg Scope.stored hscope₁
  have hopen₁ : (w₁.plain.scope "s" ⟨0, none⟩).isOpen = true := congrArg Scope.isOpen hscope₁
  obtain ⟨w₂, h₂, -, hp₂⟩ := h₁.read_names hc hr hs₁ rfl hopen₁ hnames₁
  obtain ⟨-, -, hload⟩ := load_spares (World.single_sound Bool) World.viewed_opened h₂
  obtain ⟨live, hlive, hfound⟩ := hload rfl
  rw [← hp₂, World.plain_view, hlive] at hview₁
  have hbundle := congrArg (fun v => v.state.bundle) (Option.some.inj hview₁)
  rw [← hp₂, World.isOpen_scope] at hopen₁
  obtain ⟨b, hb, he⟩ := hfound _ 0 true hc hr hopen₁
  refine ⟨_, live, b, h₂, nofun, hlive, ?_, hb, he⟩
  rw [show live.state.bundle = _ from hbundle]
  rfl

/-- A view binds two names, a load reads them, and the view removes one of the two before the load
reads their entries. The load takes the session for corrupt and purges it, and what the view still
holds is not found any more. -/
theorem overtaken_load_purges :
    ∃ (env : Surroundings Bool Unit) (r : Race Bool Unit) (w : World Bool Unit) (b : Bundle Bool)
      (live : LiveView Bool),
      World.Opened .bits "s" (World.single Bool) 0 World.viewed ∧
      Races .bits "s" 0 0 true True World.viewed r ∧ r.running = none ∧
      r.load = .done (.ok none) ∧ r.world.names.store.find? "s" = none ∧
      r.world.view? 0 = some live ∧ live.state.bundle.get? "b" = some true ∧
      env.Calm .bits ∧ env.Reliable ∧
      r.world.carryOut env ⟨0, none⟩ (Session.find "s").run = (.ok (some b), w) ∧
      b.equal live.state.bundle = false := by
  let env (k : Nat) : Surroundings Bool Unit := .quiet .bits fun _ => AttributeId.ofNat k
  have hc (k : Nat) : (env k).Calm .bits := Surroundings.quiet_calm _ _
  have hr (k : Nat) : (env k).Reliable := Surroundings.quiet_reliable _ _
  have hd (k n : Nat) : (env k).draw n = AttributeId.ofNat k := rfl
  obtain ⟨w₁, _, h₁, hs₁, hscope₁, hview₁⟩ := first_write True
  obtain ⟨w₂, _, h₂, hs₂, -, hscope₂, hview₂⟩ := h₁.turn (hc 1) (hr 1) (hd 1) (.inl trivial)
    hs₁ rfl hview₁ (.set "b" true) (fun value _ => bits_faithful value)
    (show AttributeId.ofNat 1 ∉ [AttributeId.ofNat 0] by decide)
  rw [show w₁.plain.scope "s" ⟨0, some 0⟩ = _ from hscope₁] at hscope₂ hview₂
  have hnames₂ : w₂.plain.names "s" = some ((Dict.empty.insert "a" (AttributeId.ofNat 0)).insert "b"
      (AttributeId.ofNat 1)) := congrArg Scope.stored hscope₂
  have hopen₂ : (w₂.plain.scope "s" ⟨0, none⟩).isOpen = true := congrArg Scope.isOpen hscope₂
  -- The load reads both names, and only then the view removes one of them.
  obtain ⟨w₃, h₃, hs₃, hp₃⟩ := h₂.read_names (hc 0) (hr 0) hs₂ rfl hopen₂ hnames₂
  rw [← hp₃] at hscope₂ hview₂
  obtain ⟨w₄, _, h₄, hs₄, -, hscope₄, hview₄⟩ := h₃.turn (hc 2) (hr 2) (hd 2) (.inl trivial)
    hs₃ rfl hview₂ (.remove "a") nofun
    (show AttributeId.ofNat 2 ∉ [AttributeId.ofNat 0, AttributeId.ofNat 1] by decide)
  rw [show w₃.plain.scope "s" ⟨0, some 0⟩ = _ from hscope₂] at hscope₄ hview₄
  have hopen₄ : (w₄.plain.scope "s" ⟨0, none⟩).isOpen = true := congrArg Scope.isOpen hscope₄
  have hgone : w₄.plain.attributes ⟨"s", AttributeId.ofNat 0⟩ = none :=
    congrFun (congrArg Scope.entries hscope₄) (AttributeId.ofNat 0)
  obtain ⟨w₅, _, h₅, hs₅, hnames₅, hviews₅, hfactories₅⟩ := h₄.misses (hc 0) (hr 0) hs₄ rfl hopen₄
    (List.mem_cons_self : AttributeId.ofNat 0 ∈ [AttributeId.ofNat 0, AttributeId.ofNat 1]) hgone
  rw [← hviews₅, World.plain_view] at hview₄
  obtain ⟨live, hlive, hplain⟩ := Option.map_eq_some_iff.mp hview₄
  have hbundle := congrArg (fun v => v.state.bundle) hplain
  have hopen₅ : (w₅.plain.scope "s" ⟨0, none⟩).isOpen = true := by
    rw [← hopen₄]
    simp only [PlainWorld.scope, hfactories₅]
  have hloaded₅ : (w₅.plain.scope "s" ⟨0, none⟩).loaded .bits "s" = some Bundle.empty := by
    simp only [Scope.loaded, PlainWorld.scope, hnames₅]
  obtain ⟨-, -, -, hfound⟩ := World.load_found (hc 0) hs₅ 0 true hloaded₅
  refine ⟨env 0, _, _, Bundle.empty, live, World.viewed_opened, h₅, rfl, rfl, hnames₅, hlive, ?_,
    hc 0, hr 0, Prod.ext (hfound (hr 0) hopen₅) rfl, ?_⟩
  · rw [show live.state.bundle = _ from hbundle]
    rfl
  · rw [show live.state.bundle = _ from hbundle]
    rfl

end Races
end SessionAttributes
