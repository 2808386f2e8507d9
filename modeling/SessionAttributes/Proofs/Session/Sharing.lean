import SessionAttributes.Proofs.Session.Ownership
import SessionAttributes.Proofs.Session.Stale

namespace SessionAttributes

variable {V σ : Type}

structure Pending (V : Type) where
  view : Nat
  factory : Nat
  call : ViewCall V
  rest : Procedure V call.Answer

/-- A world with the operation that is being carried out, the views of a session that may be used
and the bundles that views may be opened over. -/
structure Shared (V σ : Type) where
  world : World V σ
  pending : Option (Pending V)
  views : List Nat
  bundles : List (Bundle V)

def returned : Except SessionError (Option (Bundle V)) → List (Bundle V)
  | .ok (some b) => [b]
  | _ => []

theorem mem_returned {answer : Except SessionError (Option (Bundle V))} {b : Bundle V}
    (h : b ∈ returned answer) : answer = .ok (some b) := by
  match answer with
  | .ok (some _) => rw [List.mem_singleton.mp h]
  | .ok none => cases h
  | .error _ => cases h

namespace Shared

/-- The views of a session do one operation after the other, and calls may fail. Between the actions
of an operation there are passive steps and whole loads. Once a session was deleted, or purged by a
load, none of the views and bundles from before is used. Identifiers come from one supply, and what
is written decodes if entries do. -/
inductive Reaches [BEq V] (m : Marshaller V) (session : SessionId) (reads : Prop) (x : Supply)
    (c₀ : Shared V σ) : Shared V σ → Prop
  | start : Reaches m session reads x c₀ c₀
  | passive {c : Shared V σ} {w : World V σ} (h : Reaches m session reads x c₀ c)
      (hp : World.Passive m c.world w) : Reaches m session reads x c₀ { c with world := w }
  | load {c : Shared V σ} {w : World V σ} {env : Surroundings V σ} {factory : Nat} {repair : Bool}
      {answer : Except SessionError (Option (Bundle V))} (h : Reaches m session reads x c₀ c)
      (hc : env.Calm m) (hl : c.world.carryOut env ⟨factory, none⟩
        (Session.load session repair).run = (answer, w))
      (hk : reads ∨ w.plain = c.world.plain) :
      Reaches m session reads x c₀ { c with world := w, bundles := returned answer ++ c.bundles }
  | purge {c : Shared V σ} {env : Surroundings V σ} (h : Reaches m session reads x c₀ c)
      (hn : c.pending = none) (hc : env.Calm m) (factory : Nat) (repair : Bool) :
      Reaches m session reads x c₀
        ⟨(c.world.carryOut env ⟨factory, none⟩ (Session.load session repair).run).2, none, [], []⟩
  | delete {c : Shared V σ} {env : Surroundings V σ} (h : Reaches m session reads x c₀ c)
      (hn : c.pending = none) (hc : env.Calm m) (factory : Nat) (deletion : Deletion) :
      Reaches m session reads x c₀
        ⟨(c.world.carryOut env ⟨factory, none⟩ (Session.delete session deletion).run).2, none, [],
          []⟩
  | openView {c : Shared V σ} {w : World V σ} {factory number : Nat} {b : Bundle V}
      {metadata : Metadata} {context : String} (h : Reaches m session reads x c₀ c)
      (hb : b = Bundle.empty ∨ b ∈ c.bundles)
      (ho : c.world.openView factory session b metadata context = .ok (number, w)) :
      Reaches m session reads x c₀ { c with world := w, views := number :: c.views }
  | call {c : Shared V σ} {view : Nat} {live : LiveView V} (h : Reaches m session reads x c₀ c)
      (hn : c.pending = none) (hv : view ∈ c.views) (hl : c.world.view? view = some live)
      (call : ViewCall V)
      (hr : reads → ∀ value bytes, call.written live.state.bundle = some value →
        m.write value = .ok bytes → ∃ value, m.read bytes = .ok value) :
      Reaches m session reads x c₀
        { c with pending := some ⟨view, live.factory, call, call.procedure live.view⟩ }
  | act {c : Shared V σ} {env : Surroundings V σ} {view factory : Nat} {call : ViewCall V}
      {action : Action V} {next : action.Answer → Procedure V call.Answer}
      (h : Reaches m session reads x c₀ c) (hc : env.Calm m) (hx : env.draw = x.draw)
      (hd : action = .draw → c.world.drawn < x.limit)
      (hp : c.pending = some ⟨view, factory, call, .act action next⟩) :
      Reaches m session reads x c₀ { c with
        world := (c.world.perform env ⟨factory, some view⟩ action).2
        pending := some ⟨view, factory, call,
          next (c.world.perform env ⟨factory, some view⟩ action).1⟩ }
  | finish {c : Shared V σ} {view factory : Nat} {call : ViewCall V} {answer : call.Answer}
      (h : Reaches m session reads x c₀ c)
      (hp : c.pending = some ⟨view, factory, call, .done answer⟩) :
      Reaches m session reads x c₀ { c with pending := none }

end Shared

def PlainWorld.seen (p : PlainWorld V) (session : SessionId) (b : Bundle V) : Scope V :=
  { p.scope session ⟨0, none⟩ with state := ⟨b, []⟩ }

/-- Nothing, a bundle that may be opened, or what a view holds. -/
def PlainWorld.Holds (p : PlainWorld V) (views : List Nat) (bundles : List (Bundle V))
    (b : Bundle V) : Prop :=
  b = Bundle.empty ∨ b ∈ bundles ∨
    ∃ view ∈ views, ∃ v, p.views[view]? = some v ∧ v.state.bundle = b

/-- The session is intact for all that is held, and for what is being carried out. -/
structure PlainWorld.Kept (m : Marshaller V) (session : SessionId) (reads : Prop) (x : Supply)
    (owner : AttributeId → String) (p : PlainWorld V) (pending : Option (Pending V))
    (views : List Nat) (bundles : List (Bundle V)) : Prop where
  intact : ∀ b, p.Holds views bundles b → (p.seen session b).Intact m reads x owner
  seats : ∀ view ∈ views, ∃ v, p.views[view]? = some v ∧ v.view.session = session
  pending : ∀ q, pending = some q → q.view ∈ views ∧ q.rest.Asks (Action.On session true) ∧
    q.rest.Secures ((Terms.guarding m reads x owner).rule m session) (fun _ _ => True)
      (p.scope session ⟨q.factory, some q.view⟩)

namespace PlainWorld

variable {m : Marshaller V} {session : SessionId} {reads : Prop} {x : Supply}
  {owner : AttributeId → String} {p : PlainWorld V} {pending : Option (Pending V)}
  {views : List Nat} {bundles : List (Bundle V)} {b : Bundle V}

/-- A view that is opened holds its bundle, and the others what they held. -/
theorem Holds.of_openView {view : View V} {factory : Nat}
    (hseats : ∀ n ∈ views, n < p.views.length) (hb : b = Bundle.empty ∨ b ∈ bundles)
    {b' : Bundle V}
    (h : Holds { p with views := p.views ++ [⟨view, factory, ⟨b, []⟩⟩] }
      (p.views.length :: views) bundles b') : p.Holds views bundles b' := by
  rcases h with he | hmem | ⟨n, hn, v, hview, rfl⟩
  · exact .inl he
  · exact .inr (.inl hmem)
  · rcases List.mem_cons.mp hn with rfl | hn
    · cases hview.symm.trans List.getElem?_concat_length
      exact hb.imp_right .inl
    · rw [List.getElem?_append_left (hseats n hn)] at hview
      exact .inr (.inr ⟨n, hn, v, hview, rfl⟩)

/-- A view that acts holds what its scope says, and the others what they held. -/
theorem Holds.of_withScope {view factory : Nat} {s : Scope V}
    (h : (p.withScope session ⟨factory, some view⟩ s).Holds views bundles b) :
    b = s.bundle ∨ p.Holds views bundles b := by
  rcases h with he | hmem | ⟨n, hn, v, hview, rfl⟩
  · exact .inr (.inl he)
  · exact .inr (.inr (.inl hmem))
  · simp only [withScope, List.getElem?_modify] at hview
    obtain ⟨v, hv, rfl⟩ := Option.map_eq_some_iff.mp hview
    by_cases he : view = n
    · exact .inl (by simp [he, Scope.bundle])
    · exact .inr (.inr (.inr ⟨n, hn, v, hv, by simp [he]⟩))

/-- The views of a session, and one more. -/
theorem seats_openView
    (h : ∀ n ∈ views, ∃ v, p.views[n]? = some v ∧ v.view.session = session) {view : View V}
    (hview : view.session = session) (factory : Nat) (b : Bundle V) :
    ∀ n ∈ p.views.length :: views,
      ∃ v, (p.views ++ [⟨view, factory, ⟨b, []⟩⟩])[n]? = some v ∧ v.view.session = session := by
  intro n hn
  rcases List.mem_cons.mp hn with rfl | hn
  · exact ⟨_, List.getElem?_concat_length, hview⟩
  · obtain ⟨v, hv, howner⟩ := h n hn
    have hlt := (List.getElem?_eq_some_iff.mp hv).1
    exact ⟨v, (List.getElem?_append_left hlt).trans hv, howner⟩

theorem seats_withScope
    (h : ∀ n ∈ views, ∃ v, p.views[n]? = some v ∧ v.view.session = session) (view factory : Nat)
    (s : Scope V) : ∀ n ∈ views,
      ∃ v, (p.withScope session ⟨factory, some view⟩ s).views[n]? = some v ∧
        v.view.session = session := by
  intro n hn
  obtain ⟨v, hv, howner⟩ := h n hn
  by_cases he : view = n
  · subst he
    exact ⟨_, withScope_view hv session factory s, howner⟩
  · refine ⟨v, ?_, howner⟩
    simp [withScope, he, hv]

/-- A healthy session with no identifier that is still to be drawn is intact. -/
theorem kept_of_healthy
    (hh : ∀ names, p.names session = some names →
      Scope.Healthy m names fun id => p.attributes ⟨session, id⟩)
    (hd : ∀ names, p.names session = some names → ∀ id ∈ names.values,
      ∀ k, p.drawn ≤ k → k < x.limit → x.draw k ≠ id) :
    ∃ owner, p.Kept m session reads x owner none [] [] := by
  obtain ⟨owner, ho⟩ : ∃ owner, ∀ names, p.names session = some names →
      Issued x owner p.drawn names := by
    cases hn : p.names session with
    | none => exact ⟨fun _ => "", nofun⟩
    | some names =>
      obtain ⟨owner, ho⟩ := Issued.of_distinct (hh names hn).distinct (hd names hn)
      exact ⟨owner, fun names' he => Option.some.inj he ▸ ho⟩
  refine ⟨owner, fun b hheld => ?_, nofun, nofun⟩
  rcases hheld with rfl | hmem | ⟨_, hmem, _⟩
  · refine ⟨fun hs id hm => ?_, fun hs => ho _ hs, .empty, fun _ => rfl⟩
    obtain ⟨value, bytes, he, hv⟩ := (hh _ hs).readable id hm
    exact ⟨bytes, he, fun _ => ⟨value, hv⟩⟩
  · cases hmem
  · cases hmem

/-- The scope of a view is what its bundle sees. -/
theorem Kept.scope (h : p.Kept m session reads x owner pending views bundles) {view : Nat}
    (hv : view ∈ views) (factory : Nat) :
    (p.scope session ⟨factory, some view⟩).Intact m reads x owner := by
  obtain ⟨v, hview, _⟩ := h.seats view hv
  have hi := h.intact v.state.bundle (.inr (.inr ⟨view, hv, v, hview, rfl⟩))
  have hb := scope_bundle hview session factory
  refine ⟨hi.present, hi.stored, ?_, fun hn => ?_⟩
  · rw [hb]
    exact hi.held
  · rw [hb]
    exact hi.bare hn

/-- If entries decode, there is a bundle to load. -/
theorem Kept.loaded (h : p.Kept m session reads x owner pending views bundles) (hr : reads)
    (factory : Nat) : ∃ b, (p.scope session ⟨factory, none⟩).loaded m session = some b := by
  have hi := h.intact _ (.inl rfl)
  cases hs : p.names session with
  | none => exact ⟨Bundle.empty, by simp only [Scope.loaded, PlainWorld.scope, hs]⟩
  | some names =>
    have hhealthy : Scope.Healthy m names (p.scope session ⟨factory, none⟩).entries := by
      refine ⟨fun id hm => ?_, (hi.stored hs).distinct⟩
      obtain ⟨bytes, he, hv⟩ := hi.present hs id hm
      obtain ⟨value, hv⟩ := hv hr
      exact ⟨value, bytes, he, hv⟩
    obtain ⟨b, hb, -⟩ := hhealthy.loaded hs session
    exact ⟨b, hb⟩

/-- A bundle with the stored names may be opened. -/
theorem Kept.load (h : p.Kept m session reads x owner pending views bundles)
    {new : List (Bundle V)} (hb : ∀ b ∈ new, b.names = (p.names session).getD Dict.empty) :
    p.Kept m session reads x owner pending views (new ++ bundles) := by
  refine ⟨fun b hheld => ?_, h.seats, h.pending⟩
  rcases hheld with rfl | hmem | hview
  · exact h.intact _ (.inl rfl)
  · rcases List.mem_append.mp hmem with hnew | hold
    · have hi := h.intact _ (.inl rfl)
      refine ⟨hi.present, hi.stored, ?_, fun hn => ?_⟩
      · change Issued x owner _ b.names
        rw [hb b hnew]
        cases hs : p.names session with
        | none => exact .empty
        | some names => exact hi.stored hs
      · change b.names = _
        change p.names session = none at hn
        rw [hb b hnew, hn]
        rfl
    · exact h.intact b (.inr (.inl hold))
  · exact h.intact b (.inr (.inr hview))

/-- A view may be opened at any time. -/
theorem Kept.openView (h : p.Kept m session reads x owner pending views bundles)
    (hb : b = Bundle.empty ∨ b ∈ bundles) {view : View V} (hv : view.session = session)
    (factory : Nat) :
    Kept m session reads x owner { p with views := p.views ++ [⟨view, factory, ⟨b, []⟩⟩] } pending
      (p.views.length :: views) bundles := by
  have hlt : ∀ n ∈ views, n < p.views.length := fun n hn =>
    (List.getElem?_eq_some_iff.mp (h.seats n hn).choose_spec.1).1
  refine ⟨fun b' hheld => h.intact b' (hheld.of_openView hlt hb),
    seats_openView h.seats hv factory b, fun q hq => ?_⟩
  obtain ⟨hn, hasks, hrest⟩ := h.pending q hq
  refine ⟨List.mem_cons_of_mem _ hn, hasks, ?_⟩
  have hscope : PlainWorld.scope { p with views := p.views ++ [⟨view, factory, ⟨b, []⟩⟩] } session
      ⟨q.factory, some q.view⟩ = p.scope session ⟨q.factory, some q.view⟩ := by
    simp only [PlainWorld.scope, stateOf, Option.bind_some,
      List.getElem?_append_left (hlt q.view hn)]
  rw [hscope]
  exact hrest

/-- What is drawn next may be promised to any name. -/
theorem Kept.claim (h : p.Kept m session reads x owner none views bundles)
    (hlt : p.drawn < x.limit) (name : String) :
    p.Kept m session reads x (Function.update owner (x.draw p.drawn) name) none views bundles := by
  refine ⟨fun b hheld => ?_, h.seats, nofun⟩
  have hi := h.intact b hheld
  exact ⟨hi.present, fun hs => (hi.stored hs).claim hlt name, hi.held.claim hlt name, hi.bare⟩

/-- An operation may be started on any of the views. -/
theorem Kept.call [BEq V] (h : p.Kept m session reads x owner none views bundles) {number : Nat}
    (hn : number ∈ views) {v : PlainView V} (hv : p.views[number]? = some v) (call : ViewCall V)
    (hr : reads → ∀ value bytes, call.written v.state.bundle = some value →
      m.write value = .ok bytes → ∃ value, m.read bytes = .ok value) :
    ∃ owner', p.Kept m session reads x owner'
      (some ⟨number, v.factory, call, call.procedure v.view⟩) views bundles := by
  obtain ⟨owner', h', hname⟩ : ∃ owner', p.Kept m session reads x owner' none views bundles ∧
      (p.drawn < x.limit → ∀ name, call.binds = some name → owner' (x.draw p.drawn) = name) := by
    by_cases hlt : p.drawn < x.limit
    · refine ⟨_, h.claim hlt (call.binds.getD ""), fun _ name hb => ?_⟩
      rw [Function.update_self, hb, Option.getD_some]
    · exact ⟨owner, h, fun hlt' => absurd hlt' hlt⟩
  obtain ⟨v', hv', howner⟩ := h'.seats number hn
  cases hv.symm.trans hv'
  have hb := scope_bundle hv session v.factory
  refine ⟨owner', h'.intact, h'.seats, ?_⟩
  rintro q ⟨⟩
  refine ⟨hn, howner ▸ View.procedure_on v.view call, ?_⟩
  have hsecures := View.procedure_intact (w := v.view) (h'.scope hn v.factory) hname
    (hb.symm ▸ hr)
  rw [howner] at hsecures
  exact hsecures

/-- A session without names, or left as it was, is kept for those who start anew. -/
theorem Kept.restart (h : p.Kept m session reads x owner none views bundles) {actor : World.Actor}
    {s : Scope V} (hs : s.stored = none ∨ s = p.scope session actor) :
    (p.withScope session actor s).Kept m session reads x owner none [] [] := by
  have hi := h.intact _ (.inl rfl)
  refine ⟨?_, nofun, nofun⟩
  rintro b (rfl | hmem | ⟨_, hmem, _⟩)
  · rcases hs with hs | rfl
    · have hn : (p.withScope session actor s).names session = none :=
        (Function.update_self ..).trans hs
      refine ⟨fun hs' => ?_, fun hs' => ?_, .empty, fun _ => rfl⟩
      · cases hn.symm.trans hs'
      · cases hn.symm.trans hs'
    · rw [withScope_scope]
      exact hi
  · cases hmem
  · cases hmem

/-- An action of an operation keeps what the other views hold as well. -/
theorem Kept.act {view factory : Nat} {call : ViewCall V} {rest rest' : Procedure V call.Answer}
    (h : p.Kept m session reads x owner (some ⟨view, factory, call, rest⟩) views bundles)
    {s : Scope V} (hi : s.Intact m reads x owner)
    (hstored : s.stored = none → p.names session = none)
    (hdrawn : p.drawn ≤ s.drawn)
    (hscope : (p.withScope session ⟨factory, some view⟩ s).scope session ⟨factory, some view⟩ = s)
    (hasks : rest'.Asks (Action.On session true))
    (hrest : rest'.Secures ((Terms.guarding m reads x owner).rule m session) (fun _ _ => True) s) :
    (p.withScope session ⟨factory, some view⟩ s).Kept m session reads x owner
      (some ⟨view, factory, call, rest'⟩) views bundles := by
  have hseen : ∀ b : Bundle V, Issued x owner s.drawn b.names →
      (s.stored = none → b.names = Dict.empty) →
        ((p.withScope session ⟨factory, some view⟩ s).seen session b).Intact m reads x owner := by
    intro b hb hbare
    have hsame := congrArg (fun s : Scope V => { s with state := ⟨b, []⟩ }) hscope
    have hb : Scope.Intact m reads x owner { s with state := ⟨b, []⟩ } :=
      ⟨hi.present, hi.stored, hb, hbare⟩
    rw [← hsame] at hb
    exact ⟨hb.present, hb.stored, hb.held, hb.bare⟩
  obtain ⟨hv, -, -⟩ := h.pending _ rfl
  refine ⟨fun b hheld => ?_, seats_withScope h.seats view factory s, ?_⟩
  · rcases hheld.of_withScope with rfl | hheld
    · exact hseen _ hi.held hi.bare
    · exact hseen b ((h.intact b hheld).held.mono hdrawn) fun hn =>
        (h.intact b hheld).bare (hstored hn)
  · rintro q ⟨⟩
    exact ⟨hv, hasks, hscope.symm ▸ hrest⟩

/-- A load leaves an intact session as it is if entries decode. -/
theorem Kept.load_same {w w' : World V σ} {env : Surroundings V σ} {factory : Nat} {repair : Bool}
    {answer : Except SessionError (Option (Bundle V))} (hs : w.Sound)
    (h : w.plain.Kept m session reads x owner pending views bundles) (hc : env.Calm m)
    (hl : w.carryOut env ⟨factory, none⟩ (Session.load session repair).run = (answer, w'))
    (hk : reads ∨ w'.plain = w.plain) : w'.Sound ∧ w'.plain = w.plain := by
  rcases hk with hreads | hk
  · obtain ⟨b, hb⟩ := h.loaded hreads factory
    obtain ⟨hs', hp, -⟩ := World.load_found hc hs factory repair hb
    rw [hl] at hs' hp
    exact ⟨hs', hp⟩
  · obtain ⟨hs', -⟩ := World.carryOut_secures hc (.inl trivial) hs (Session.load_on session repair)
      nofun (Session.load_clears repair _) (.inr rfl) fun _ => trivial
    rw [hl] at hs'
    exact ⟨hs', hk⟩

/-- A procedure without a view may leave the session without names. Then everyone starts anew. -/
theorem Kept.clear {α : Type} {w : World V σ} {env : Surroundings V σ} {factory : Nat}
    {attempt : Attempt V α} (hs : w.Sound)
    (h : w.plain.Kept m session reads x owner none views bundles) (hc : env.Calm m)
    (hon : attempt.Asks (Action.On session false))
    (hclears : ∀ s, attempt.Secures ((Session.clearing s).rule m session)
      (fun _ _ => True) (fun _ _ => True) s) :
    (w.carryOut env ⟨factory, none⟩ attempt.run).2.Sound ∧
      (w.carryOut env ⟨factory, none⟩ attempt.run).2.plain.Kept m session reads x owner none
        [] [] := by
  obtain ⟨hs', s, hstored, hp, -⟩ := World.carryOut_secures hc (.inl trivial) hs hon nofun
    (hclears _) (.inr rfl) fun _ => trivial
  rw [hp]
  exact ⟨hs', h.restart hstored⟩

end PlainWorld

theorem Scope.drawn_perform (m : Marshaller V) (draw : Nat → AttributeId) (session : SessionId)
    (action : Action V) (s : Scope V) : s.drawn ≤ (s.perform m draw session action).2.drawn := by
  cases action with
  | draw => exact Nat.le_succ _
  | _ => exact Nat.le_refl _

namespace Shared

variable [BEq V] {m : Marshaller V} {session : SessionId} {reads : Prop} {x : Supply}
  {c₀ c : Shared V σ}

/-- Through a whole run each identifier keeps an owner, and the session stays intact. -/
theorem Reaches.kept (h : Reaches m session reads x c₀ c) (hs : c₀.world.Sound)
    (h₀ : ∃ owner, c₀.world.plain.Kept m session reads x owner c₀.pending c₀.views c₀.bundles) :
    c.world.Sound ∧
      ∃ owner, c.world.plain.Kept m session reads x owner c.pending c.views c.bundles := by
  induction h with
  | start => exact ⟨hs, h₀⟩
  | passive _ hp ih =>
    obtain ⟨hs, hk⟩ := ih
    obtain ⟨hs', hplain⟩ := hp.keeps hs
    exact ⟨hs', hplain.symm ▸ hk⟩
  | load _ hc hl hk ih =>
    obtain ⟨hs, owner, hkept⟩ := ih
    obtain ⟨hs', hsame⟩ := PlainWorld.Kept.load_same hs hkept hc hl hk
    refine ⟨hs', owner, ?_⟩
    rw [hsame]
    refine hkept.load fun b hb => ?_
    rw [mem_returned hb] at hl
    exact Scope.loaded_names (World.found_of_load hc hs hl).2.2
  | purge _ hn hc factory repair ih =>
    obtain ⟨hs, owner, hkept⟩ := ih
    rw [hn] at hkept
    obtain ⟨hs', hkept'⟩ := PlainWorld.Kept.clear hs hkept hc (Session.load_on session repair)
      (Session.load_clears repair)
    exact ⟨hs', owner, hkept'⟩
  | delete _ hn hc factory deletion ih =>
    obtain ⟨hs, owner, hkept⟩ := ih
    rw [hn] at hkept
    obtain ⟨hs', hkept'⟩ := PlainWorld.Kept.clear hs hkept hc (Session.delete_on session deletion)
      (Session.delete_clears deletion)
    exact ⟨hs', owner, hkept'⟩
  | openView _ hb ho ih =>
    obtain ⟨hs, owner, hkept⟩ := ih
    obtain ⟨rfl, view, hv, hp⟩ := World.openView_shape ho
    refine ⟨World.openView_sound ho hs, owner, ?_⟩
    rw [hp]
    exact hkept.openView hb hv _
  | call _ hn hv hl call hr ih =>
    obtain ⟨hs, owner, hkept⟩ := ih
    rw [hn] at hkept
    exact ⟨hs, hkept.call hv (World.plain_live hl) call hr⟩
  | @act c env view factory call action next _ hc hx hd hp ih =>
    obtain ⟨hs, owner, hkept⟩ := ih
    rw [hp] at hkept
    obtain ⟨hv, hasks, hrest⟩ := hkept.pending _ rfl
    obtain ⟨v, hview, -⟩ := hkept.seats _ hv
    obtain ⟨hs', s, hi, hor, hplain, hscope, hnext⟩ := World.perform_secures hc (.inl trivial) hs
      hasks.1 (fun _ => ⟨_, rfl, (List.getElem?_eq_some_iff.mp hview).1⟩) hrest (hkept.scope hv _)
      fun he => ⟨hd he, congrFun hx _⟩
    refine ⟨hs', owner, ?_⟩
    rw [hplain] at hscope ⊢
    refine hkept.act hi ?_ ?_ hscope (hasks.2 _) hnext
    · rcases hor with rfl | rfl
      · exact id
      · exact fun hn => by_contra fun hne => hasks.1.keeps_stored m env.draw hne hn
    · rcases hor with rfl | rfl
      · exact Nat.le_refl _
      · exact Scope.drawn_perform m env.draw session action
          (c.world.plain.scope session ⟨factory, some view⟩)
  | finish _ hp ih =>
    obtain ⟨hs, owner, hkept⟩ := ih
    exact ⟨hs, owner, hkept.intact, hkept.seats, nofun⟩

/-- At no point of a run do the stored names refer to an entry that is not there. If entries decode,
then no load finds the session corrupt, and none changes what the stores hold. -/
theorem names_never_dangle {w₀ : World V σ} (hs : w₀.Sound)
    (hhealthy : ∀ names, w₀.names.store.find? session = some names →
      Scope.Healthy m names fun id => w₀.attributes.store.find? ⟨session, id⟩)
    (hfresh : ∀ names, w₀.names.store.find? session = some names → ∀ id ∈ names.values,
      ∀ k, w₀.drawn ≤ k → k < x.limit → x.draw k ≠ id)
    (h : Reaches m session reads x ⟨w₀, none, [], []⟩ c) :
    (∀ names, c.world.names.store.find? session = some names → ∀ id ∈ names.values,
      (c.world.attributes.store.find? ⟨session, id⟩).isSome) ∧
    (reads → ∀ (env : Surroundings V σ) (factory : Nat) (repair : Bool), env.Calm m →
      let r := c.world.carryOut env ⟨factory, none⟩ (Session.load session repair).run
      r.1 ≠ .ok none ∧ r.2.metadata.store.find? = c.world.metadata.store.find? ∧
        r.2.names.store.find? = c.world.names.store.find? ∧
        r.2.attributes.store.find? = c.world.attributes.store.find?) := by
  obtain ⟨hsound, owner, hkept⟩ := h.kept hs (PlainWorld.kept_of_healthy hhealthy hfresh)
  refine ⟨fun names hn id hm => ?_, fun hr env factory repair hc => ?_⟩
  · obtain ⟨bytes, he, -⟩ := (hkept.intact _ (.inl rfl)).present hn id hm
    exact Option.isSome_iff_exists.mpr ⟨bytes, he⟩
  · obtain ⟨b, hb⟩ := hkept.loaded hr factory
    obtain ⟨-, hp, hnone, -⟩ := World.load_found hc hsound factory repair hb
    exact ⟨hnone, congrArg PlainWorld.metadata hp, congrArg PlainWorld.names hp,
      congrArg PlainWorld.attributes hp⟩

/-- An operation may be carried out as a whole. -/
theorem Reaches.carryOut (h : Reaches m session reads x c₀ c) (hs : c.world.Sound)
    {env : Surroundings V σ} (hc : env.Calm m) (hx : env.draw = x.draw) {view factory : Nat}
    {call : ViewCall V} {rest : Procedure V call.Answer}
    (hp : c.pending = some ⟨view, factory, call, rest⟩)
    (hlimit : (c.world.carryOut env ⟨factory, some view⟩ rest).2.drawn ≤ x.limit) :
    Reaches m session reads x c₀
      { c with world := (c.world.carryOut env ⟨factory, some view⟩ rest).2, pending := none } := by
  induction rest generalizing c with
  | done answer => exact h.finish hp
  | act action next ih =>
    have hs' := (World.perform_plain hc hs ⟨factory, some view⟩ action).1
    refine ih _ (h.act hc hx (fun he => ?_) hp) hs' rfl hlimit
    subst he
    exact Nat.lt_of_lt_of_le (Nat.lt_succ_self _)
      (Nat.le_trans (World.drawn_carryOut hc hs' ⟨factory, some view⟩ (next _)) hlimit)

/-- A run of one write, in a world of empty stores. -/
theorem names_never_dangle_write :
    ∃ c : Shared Bool Unit, Reaches .bits "s" True ⟨AttributeId.ofNat, 1, by omega⟩
        ⟨World.single Bool, none, [], []⟩ c ∧
      c.world.names.store.find? "s" = some (Dict.empty.insert "a" (AttributeId.ofNat 0)) ∧
      (c.world.attributes.store.find? ⟨"s", AttributeId.ofNat 0⟩).isSome := by
  let x : Supply := ⟨AttributeId.ofNat, 1, by omega⟩
  obtain ⟨-, hnames, -, -, -, hdrawn⟩ := World.viewed_write AttributeId.ofNat
  have hempty : (World.single Bool).names.store.find? "s" = none :=
    congrFun (congrArg PlainWorld.names (World.single_plain Bool)) "s"
  have hopen : Reaches .bits "s" True x ⟨World.single Bool, none, [], []⟩
      ⟨World.viewed, none, [0], []⟩ := Reaches.openView .start (.inl rfl) World.viewed_open
  have hcall := hopen.call rfl List.mem_cons_self rfl (.set "a" true)
    fun _ _ bytes _ _ => ⟨bytes == [1], rfl⟩
  have hrun := hcall.carryOut World.viewed_sound (Surroundings.quiet_calm .bits AttributeId.ofNat)
    rfl rfl (Nat.le_of_eq hdrawn)
  obtain ⟨hdangle, -⟩ := names_never_dangle (World.single_sound Bool)
    (fun _ hn => nomatch hempty.symm.trans hn) (fun _ hn => nomatch hempty.symm.trans hn) hrun
  exact ⟨_, hrun, hnames, hdangle _ hnames _ List.mem_cons_self⟩

end Shared
end SessionAttributes
