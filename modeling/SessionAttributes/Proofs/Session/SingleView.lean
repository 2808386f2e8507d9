import SessionAttributes.Proofs.Session.Opened
import SessionAttributes.Proofs.View.OnMap

namespace SessionAttributes

variable {V σ : Type} [BEq V] {m : Marshaller V} {session : SessionId}

structure Turn (V : Type) where
  call : ViewCall V
  answer : call.Answer

/-- What a plain map becomes by a sequence of operations, if it answers like this. -/
inductive MapRun : (String → Option V) → List (Turn V) → (String → Option V) → Prop
  | start (f : String → Option V) : MapRun f [] f
  | turn {f g h : String → Option V} {turns : List (Turn V)} {turn : Turn V} :
      MapRun f turns g → turn.call.OnMap turn.answer g h → MapRun f (turns ++ [turn]) h

namespace World

/-- A run in which only one view works on a session. Its calls do not fail, it draws identifiers
that it has not bound, and the values it writes are encoded and read back as equal ones. -/
inductive Solo (m : Marshaller V) (session : SessionId) (number : Nat) (w₀ : World V σ) :
    List (Turn V) → World V σ → Prop
  | start : Solo m session number w₀ [] w₀
  | background {turns : List (Turn V)} {w w' : World V σ} (h : Solo m session number w₀ turns w)
      (hb : Background m session w w') : Solo m session number w₀ turns w'
  | load {turns : List (Turn V)} {w : World V σ} {env : Surroundings V σ}
      (h : Solo m session number w₀ turns w) (hc : env.Calm m) (hr : env.Reliable) (factory : Nat)
      (other : SessionId) (repair : Bool) :
      Solo m session number w₀ turns
        (w.carryOut env ⟨factory, none⟩ (Session.load other repair).run).2
  | call {turns : List (Turn V)} {w : World V σ} {env : Surroundings V σ} {live : LiveView V}
      (h : Solo m session number w₀ turns w) (hc : env.Calm m) (hr : env.Reliable)
      (hl : w.view? number = some live) (call : ViewCall V)
      (hv : ∀ value, call.written live.state.bundle = some value → Faithful m value)
      (hd : env.draw w.drawn ∉ live.state.bundle.names.values) :
      Solo m session number w₀
        (turns ++ [⟨call,
          (w.carryOut env ⟨live.factory, some number⟩ (call.procedure live.view)).1⟩])
        (w.carryOut env ⟨live.factory, some number⟩ (call.procedure live.view)).2

/-- A view that mirrors its session, with no entry beyond it, and follows a map. -/
structure Alone (m : Marshaller V) (session : SessionId) (number : Nat) (turns : List (Turn V))
    (f : String → Option V) (v : PlainView V) (p : PlainWorld V) : Prop where
  view : p.views[number]? = some v
  owner : v.view.session = session
  mirrors : (p.scope session ⟨v.factory, some number⟩).Mirrors m
  follows : v.state.bundle.Follows f
  exact : (p.scope session ⟨v.factory, some number⟩).Exact
  stored : p.names session = none → ∀ turn ∈ turns, ¬ turn.call.Stores turn.answer

variable {number : Nat} {turns : List (Turn V)} {f : String → Option V} {v : PlainView V}
  {p p' : PlainWorld V}

theorem Alone.state (h : Alone m session number turns f v p) :
    (p.scope session ⟨v.factory, some number⟩).state = v.state := by
  simp [PlainWorld.scope, PlainWorld.stateOf, h.view]

theorem Alone.spares (h : Alone m session number turns f v p)
    (hp : PlainWorld.Spares session p p') : Alone m session number turns f v p' := by
  have hs := hp.scope ⟨v.factory, some number⟩
  refine ⟨hp.views ▸ h.view, h.owner, ?_, h.follows, ?_, fun hn => h.stored (hp.names ▸ hn)⟩
  · rw [hs]
    exact ⟨h.mirrors.tidy, h.mirrors.stored, h.mirrors.read⟩
  · rw [hs]
    exact h.exact

/-- Any factory finds the same of the session as the factory of the view. -/
theorem Alone.loaded [PartialEquivBEq V] (h : Alone m session number turns f v p) (factory : Nat) :
    ∃ b, (p.scope session ⟨factory, none⟩).loaded m session = some b ∧
      b.equal v.state.bundle = true := by
  obtain ⟨b, hb, he⟩ := h.mirrors.loaded session
  refine ⟨b, hb, ?_⟩
  unfold Scope.bundle at he
  rw [h.state] at he
  exact he

/-- Putting back what an operation left keeps the view alone with its session. -/
theorem Alone.withScope (h : Alone m session number turns f v p) {s' : Scope V}
    {f' : String → Option V} (turn : Turn V)
    (hl : Scope.Leaves m (p.scope session ⟨v.factory, some number⟩) s' f'
      (turn.call.Stores turn.answer))
    (hs : (p.withScope session ⟨v.factory, some number⟩ s').scope session ⟨v.factory, some number⟩ =
      s') :
    Alone m session number (turns ++ [turn]) f' { v with state := s'.state }
      (p.withScope session ⟨v.factory, some number⟩ s') := by
  refine ⟨?_, h.owner, ?_, hl.follows, ?_, fun hn turn' ht => ?_⟩
  · simp [PlainWorld.withScope, h.view]
  · rw [hs]
    exact hl.mirrors
  · rw [hs]
    exact hl.exact h.exact
  · have hn' : s'.stored = none := by
      rw [← hs]
      exact hn
    obtain ⟨hbefore, hturn⟩ := hl.stored hn'
    rcases List.mem_append.mp ht with ht | ht
    · exact h.stored hbefore turn' ht
    · rw [List.mem_singleton.mp ht]
      exact hturn

variable [PartialEquivBEq V] {w : World V σ} {env : Surroundings V σ} {live : LiveView V}

/-- An operation of the view answers as its map does. -/
theorem Alone.call (h : Alone m session number turns f v w.plain) (hs : w.Sound)
    (hc : env.Calm m) (hr : env.Reliable) (hl : w.view? number = some live) (call : ViewCall V)
    (hv : ∀ value, call.written live.state.bundle = some value → Faithful m value)
    (hd : env.draw w.drawn ∉ live.state.bundle.names.values) :
    ∃ f' v', let r := w.carryOut env ⟨live.factory, some number⟩ (call.procedure live.view)
      r.2.Sound ∧ call.OnMap r.1 f f' ∧
        Alone m session number (turns ++ [⟨call, r.1⟩]) f' v' r.2.plain := by
  have hlive : live.plain = v := by
    have hv := h.view
    rw [plain_view, hl] at hv
    exact Option.some.inj hv
  subst hlive
  have howner : live.view.session = session := h.owner
  subst howner
  let actor : Actor := ⟨live.factory, some number⟩
  have hb : (w.plain.scope live.view.session actor).bundle = live.state.bundle :=
    congrArg ViewState.bundle h.state
  have hmirrors : (w.plain.scope live.view.session actor).Mirrors m := h.mirrors
  have hfollows : (w.plain.scope live.view.session actor).bundle.Follows f := hb ▸ h.follows
  obtain ⟨hs', ha, activated, hp, hscope⟩ := call_effect hc hr hs h.view call
  obtain ⟨f', hmap, hleaves⟩ := Scope.carryOut_onMap hmirrors hfollows env.draw
    live.view.immutability call
    (fun value hw => hv value (hb ▸ hw)) (hb ▸ hd)
  have ha : (w.carryOut env actor (call.procedure live.view)).1 =
      (Scope.carryOut m env.draw live.view.immutability call
        (w.plain.scope live.view.session actor)).1 := ha
  rw [← ha] at hmap hleaves
  have hleaves := hleaves.alike ⟨activated, rfl⟩
  rw [hp] at hscope
  have halone := h.withScope ⟨call, _⟩ hleaves hscope
  exact ⟨f', _, hs', hmap, Eq.subst (motive := Alone m _ number _ f' _) hp.symm halone⟩

omit [PartialEquivBEq V] in
/-- A view that was just opened mirrors its session, and its map is its bundle. -/
theorem Opened.alone {w₀ w : World V σ} (h : Opened m session w₀ number w) (hs : w₀.Sound)
    (he : ∀ id, w₀.attributes.store.find? ⟨session, id⟩ ≠ none →
      ∃ names, w₀.names.store.find? session = some names ∧ id ∈ names.values) :
    w.Sound ∧ ∃ v, Alone m session number [] v.state.bundle.get? v w.plain := by
  obtain ⟨hs', v, hv, howner, hfollows, hm, hn, ha⟩ := h.mirrors hs
  refine ⟨hs', v, hv, howner, hm, hfollows, fun id hid => ?_, fun _ => nofun⟩
  change w.plain.attributes ⟨session, id⟩ ≠ none at hid
  rw [ha] at hid
  obtain ⟨names, hnames, hmem⟩ := he id hid
  rcases hm.stored with hstored | ⟨hstored, _⟩
  · change w.plain.names session = _ at hstored
    rw [hn] at hstored
    cases hnames.symm.trans hstored
    exact hmem
  · change w.plain.names session = none at hstored
    rw [hn] at hstored
    cases hnames.symm.trans hstored

/-- A load leaves a view alone with its session. -/
theorem Alone.load (h : Alone m session number turns f v w.plain) (hs : w.Sound)
    (hc : env.Calm m) (hr : env.Reliable) (factory : Nat) (other : SessionId) (repair : Bool) :
    let r := w.carryOut env ⟨factory, none⟩ (Session.load other repair).run
    r.2.Sound ∧ Alone m session number turns f v r.2.plain := by
  by_cases hne : other = session
  · subst hne
    obtain ⟨b, hb, _⟩ := h.loaded factory
    obtain ⟨hs', hp, _⟩ := load_found hc hs factory repair hb
    refine ⟨hs', ?_⟩
    rw [hp]
    exact h
  · obtain ⟨hs', hp⟩ := load_other hc hr hs hne factory repair
    exact ⟨hs', h.spares hp⟩

/-- Through a whole run the answers of the view are those of its map. -/
theorem Solo.alone {w₀ : World V σ} (hrun : Solo m session number w₀ turns w) (hs : w₀.Sound)
    {f₀ : String → Option V} (h : Alone m session number [] f₀ v w₀.plain) :
    w.Sound ∧ ∃ f v', MapRun f₀ turns f ∧ Alone m session number turns f v' w.plain := by
  induction hrun with
  | start => exact ⟨hs, f₀, v, .start f₀, h⟩
  | background _ hb ih =>
    obtain ⟨hs', f, v', hmap, halone⟩ := ih
    obtain ⟨hs'', hp⟩ := hb.spares hs'
    exact ⟨hs'', f, v', hmap, halone.spares hp⟩
  | load _ hc hr factory other repair ih =>
    obtain ⟨hs', f, v', hmap, halone⟩ := ih
    obtain ⟨hs'', halone'⟩ := halone.load hs' hc hr factory other repair
    exact ⟨hs'', f, v', hmap, halone'⟩
  | call _ hc hr hl call hv hd ih =>
    obtain ⟨hs', f, v', hmap, halone⟩ := ih
    obtain ⟨f', v'', hs'', hanswer, halone'⟩ := halone.call hs' hc hr hl call hv hd
    exact ⟨hs'', f', v'', hmap.turn hanswer, halone'⟩

end World
end SessionAttributes
