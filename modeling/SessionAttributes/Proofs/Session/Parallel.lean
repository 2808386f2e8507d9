import SessionAttributes.Proofs.Session.Skipping

namespace SessionAttributes

variable {V σ : Type}

/-- Two views of a session that hold equal values, the second of which writes everything. -/
structure PlainView.Beside [BEq V] (session : SessionId) (v v' : PlainView V) : Prop where
  owner : v.view.session = session
  owner' : v'.view.session = session
  never : v'.view.immutability = Immutability.never
  bundle : v.state.bundle.Like v'.state.bundle

namespace PlainWorld

variable {session : SessionId} {p p' : PlainWorld V}

theorem withScope_views (p : PlainWorld V) (session : SessionId) (actor : World.Actor)
    (s : Scope V) (n : Nat) : (p.withScope session actor s).views[n]? = p.views[n]?.map fun v =>
      if actor.view = some n then { v with state := s.state } else v := by
  unfold withScope
  cases actor.view with
  | none => simp
  | some number => simp [List.getElem?_modify, Option.map_eq_map]

/-- Two worlds that show the same of a session but for some attributes, and in the second of which
nothing is taken for immutable. No stored name refers to one of those attributes. -/
structure Beside [BEq V] (m : Marshaller V) (session : SessionId) (views : List Nat)
    (bundles : List (Bundle V × Bundle V)) (missed : List AttributeId) (p p' : PlainWorld V) :
    Prop where
  factories : p'.factories = p.factories.map fun f => ⟨f.isOpen, Immutability.never⟩
  drawn : p'.drawn = p.drawn
  stored : p'.names session = p.names session
  entries : ∀ id, id ∉ missed →
    Same (m.decoded (p.attributes ⟨session, id⟩)) (m.decoded (p'.attributes ⟨session, id⟩))
  unlisted : ∀ id ∈ missed, id ∉ ((p.names session).getD Dict.empty).values
  views : ∀ n ∈ views, ∃ v v', p.views[n]? = some v ∧ p'.views[n]? = some v' ∧ v.Beside session v'
  bundles : ∀ e ∈ bundles, e.1.Like e.2

namespace Beside

variable [BEq V] {m : Marshaller V} {views : List Nat} {bundles : List (Bundle V × Bundle V)}
  {missed missed' : List AttributeId}

theorem isOpen (h : p.Beside m session views bundles missed p') (factory : Nat) :
    (p'.scope session ⟨factory, none⟩).isOpen = (p.scope session ⟨factory, none⟩).isOpen := by
  simp only [PlainWorld.scope, h.factories, List.getElem?_map, Option.map_map]
  rfl

/-- What an operation on the session reaches that works for no view. -/
theorem scope (h : p.Beside m session views bundles missed p') (factory : Nat) :
    (p.scope session ⟨factory, none⟩).Beside m missed (p'.scope session ⟨factory, none⟩) :=
  ⟨h.stored, h.drawn, .refl _, h.entries⟩

theorem scope_view (h : p.Beside m session views bundles missed p') {view : Nat}
    {v v' : PlainView V} (hv : p.views[view]? = some v) (hv' : p'.views[view]? = some v')
    (hb : v.Beside session v') (factory factory' : Nat) :
    (p.scope session ⟨factory, some view⟩).Beside m missed
      (p'.scope session ⟨factory', some view⟩) := by
  refine ⟨h.stored, h.drawn, ?_, h.entries⟩
  rw [scope_bundle hv, scope_bundle hv']
  exact hb.bundle

/-- What operations leave of their scopes is put back on both sides. -/
theorem withScope (h : p.Beside m session views bundles missed p') {actor actor' : World.Actor}
    (ha : actor'.view = actor.view) {s s' : Scope V} (hs : s.Beside m missed' s')
    (hl : ∀ id ∈ missed', id ∉ s.listed.values) :
    (p.withScope session actor s).Beside m session views bundles missed'
      (p'.withScope session actor' s') := by
  refine ⟨h.factories, hs.drawn, ?_, fun id hid => ?_, ?_, fun n hn => ?_, h.bundles⟩
  · rw [names_withScope, names_withScope, hs.stored]
  · rw [attributes_withScope, attributes_withScope]
    exact hs.entries id hid
  · rw [names_withScope]
    exact hl
  · obtain ⟨v, v', hv, hv', hb⟩ := h.views n hn
    rw [withScope_views, withScope_views, hv, hv', ha]
    refine ⟨_, _, rfl, rfl, ?_⟩
    split
    · exact ⟨hb.owner, hb.owner', hb.never, hs.bundle⟩
    · exact hb

theorem openView (h : p.Beside m session views bundles missed p')
    (hlength : p'.views.length = p.views.length) {v v' : PlainView V} (hb : v.Beside session v') :
    Beside m session (p.views.length :: views) bundles missed
      { p with views := p.views ++ [v] } { p' with views := p'.views ++ [v'] } := by
  refine ⟨h.factories, h.drawn, h.stored, h.entries, h.unlisted, fun n hn => ?_, h.bundles⟩
  rcases List.mem_cons.mp hn with rfl | hn
  · refine ⟨v, v', List.getElem?_concat_length, ?_, hb⟩
    rw [← hlength]
    exact List.getElem?_concat_length
  · obtain ⟨w, w', hw, hw', hb⟩ := h.views n hn
    have hlt := (List.getElem?_eq_some_iff.mp hw).1
    have hlt' := (List.getElem?_eq_some_iff.mp hw').1
    exact ⟨w, w', (List.getElem?_append_left hlt).trans hw,
      (List.getElem?_append_left hlt').trans hw', hb⟩

theorem load (h : p.Beside m session views bundles missed p') {new : List (Bundle V × Bundle V)}
    (hb : ∀ e ∈ new, e.1.Like e.2) : p.Beside m session views (new ++ bundles) missed p' := by
  refine ⟨h.factories, h.drawn, h.stored, h.entries, h.unlisted, h.views, fun e he => ?_⟩
  rcases List.mem_append.mp he with he | he
  · exact hb e he
  · exact h.bundles e he

end Beside
end PlainWorld

/-- An opened view goes by the policy of its factory. -/
theorem World.openView_policy {w w' : World V σ} {factory n : Nat} {session : SessionId}
    {b : Bundle V} {metadata : Metadata} {context : String}
    (h : w.openView factory session b metadata context = .ok (n, w')) :
    n = w.plain.views.length ∧ ∃ f v, w.plain.factories[factory]? = some f ∧
      v.view.session = session ∧ v.view.immutability = f.immutability ∧ v.state.bundle = b ∧
      w'.plain = { w.plain with views := w.plain.views ++ [v] } := by
  have hp := w.openView_plain factory session b metadata context
  rw [h] at hp
  unfold PlainWorld.openView at hp
  split at hp
  · cases hp
  · rename_i f hf
    split at hp
    · cases hp
    · obtain ⟨hn, hw⟩ := Prod.mk.inj (Except.ok.inj hp)
      exact ⟨hn, f, _, hf, rfl, rfl, rfl, hw⟩

/-- A world in which views skip writes and one in which they never do, with the views of a session
that may be used, the bundles that views may be opened over, and the attributes whose last write was
skipped while they had another value stored. -/
structure Twin (V σ : Type) where
  skipping : World V σ
  writing : World V σ
  views : List Nat
  bundles : List (Bundle V × Bundle V)
  missed : List AttributeId

namespace Twin

def Clean (session : SessionId) (t : Twin V σ) : Prop :=
  ∀ names ∈ t.skipping.names.store.find? session, ∀ id ∈ t.missed, id ∉ names.values

instance (session : SessionId) (t : Twin V σ) : Decidable (t.Clean session) :=
  inferInstanceAs (Decidable (∀ names ∈ _, ∀ id ∈ _, id ∉ Dict.values names))

theorem Clean.unlisted {session : SessionId} {t : Twin V σ} (h : t.Clean session) :
    ∀ id ∈ t.missed, id ∉ ((t.skipping.plain.names session).getD Dict.empty).values := by
  intro id hid hm
  cases hn : t.skipping.plain.names session with
  | none =>
    rw [hn] at hm
    cases hm
  | some names =>
    rw [hn] at hm
    exact h names hn id hid hm

def call [BEq V] (m : Marshaller V) (t : Twin V σ) (env env' : Surroundings V σ) (view : Nat)
    (live live' : LiveView V) (call : ViewCall V) : Twin V σ where
  skipping := (t.skipping.carryOut env ⟨live.factory, some view⟩ (call.procedure live.view)).2
  writing := (t.writing.carryOut env' ⟨live'.factory, some view⟩ (call.procedure live'.view)).2
  views := t.views
  bundles := t.bundles
  missed := call.missed m env.draw live.view.immutability
    (t.skipping.plain.scope live.view.session ⟨live.factory, some view⟩) t.missed

def turn [BEq V] (m : Marshaller V) (env : Surroundings V σ) (t : Twin V σ)
    (turn : Nat × ViewCall V) : Twin V σ :=
  match t.skipping.view? turn.1, t.writing.view? turn.1 with
  | some live, some live' => t.call m env env turn.1 live live' turn.2
  | _, _ => t

/-- Whether views may do these operations one after the other. -/
def Follows [BEq V] (m : Marshaller V) (env : Surroundings V σ) (session : SessionId)
    (clean : Prop) : Twin V σ → List (Nat × ViewCall V) → Prop
  | _, [] => True
  | t, turn :: turns =>
    (turn.1 ∈ t.views ∧ (clean → (t.turn m env turn).Clean session)) ∧
      Follows m env session clean (t.turn m env turn) turns

instance decidableFollows [BEq V] (m : Marshaller V) (env : Surroundings V σ)
    (session : SessionId) (clean : Prop) [Decidable clean] :
    (t : Twin V σ) → (turns : List (Nat × ViewCall V)) →
      Decidable (Follows m env session clean t turns)
  | _, [] => isTrue trivial
  | t, turn :: turns =>
    have := decidableFollows m env session clean (t.turn m env turn) turns
    inferInstanceAs (Decidable ((_ ∧ _) ∧ Follows m env session clean _ turns))

/-- A load, and one more view that is opened over what it returned. -/
def reopen (env : Surroundings V σ) (session : SessionId) (factory : Nat) (t : Twin V σ) :
    Twin V σ :=
  let r := t.skipping.carryOut env ⟨factory, none⟩ (Session.load session true).run
  let r' := t.writing.carryOut env ⟨factory, none⟩ (Session.load session true).run
  match (returned r.1).zip (returned r'.1) with
  | [] => t
  | (b, b') :: _ =>
    match r.2.openView factory session b ⟨0, 0, 0⟩ "",
      r'.2.openView factory session b' ⟨0, 0, 0⟩ "" with
    | .ok (number, w), .ok (number', w') =>
      if number' = number then
        ⟨w, w', number :: t.views, (returned r.1).zip (returned r'.1) ++ t.bundles, t.missed⟩
      else t
    | _, _ => t

end Twin

/-- The same operations are done in two worlds: loads through factories that are open, views that
are opened over nothing or over what a load returned in either world, and operations of these views.
No call fails, and both worlds draw the same identifiers. Beside that anything may happen that
changes nothing that shows. -/
inductive Parallel [BEq V] (m : Marshaller V) (session : SessionId) (clean : Prop)
    (t₀ : Twin V σ) : Twin V σ → Prop
  | start : Parallel m session clean t₀ t₀
  | skipping {t : Twin V σ} {w : World V σ} (h : Parallel m session clean t₀ t)
      (hp : World.Passive m t.skipping w) : Parallel m session clean t₀ { t with skipping := w }
  | writing {t : Twin V σ} {w : World V σ} (h : Parallel m session clean t₀ t)
      (hp : World.Passive m t.writing w) : Parallel m session clean t₀ { t with writing := w }
  | load {t : Twin V σ} {w w' : World V σ} {env env' : Surroundings V σ} {factory : Nat}
      {answer answer' : Except SessionError (Option (Bundle V))}
      (h : Parallel m session clean t₀ t) (hc : env.Calm m) (hr : env.Reliable) (hc' : env'.Calm m)
      (hr' : env'.Reliable) (ho : (t.skipping.factory? factory).map Factory.isOpen = some true)
      (repair : Bool)
      (hl : t.skipping.carryOut env ⟨factory, none⟩ (Session.load session repair).run = (answer, w))
      (hl' : t.writing.carryOut env' ⟨factory, none⟩ (Session.load session repair).run =
        (answer', w')) :
      Parallel m session clean t₀ { t with
        skipping := w
        writing := w'
        bundles := (returned answer).zip (returned answer') ++ t.bundles }
  | openView {t : Twin V σ} {w w' : World V σ} {factory number : Nat} {b b' : Bundle V}
      {metadata : Metadata} {context : String} (h : Parallel m session clean t₀ t)
      (hb : (b, b') = (Bundle.empty, Bundle.empty) ∨ (b, b') ∈ t.bundles)
      (ho : t.skipping.openView factory session b metadata context = .ok (number, w))
      (ho' : t.writing.openView factory session b' metadata context = .ok (number, w')) :
      Parallel m session clean t₀ { t with
        skipping := w
        writing := w'
        views := number :: t.views }
  | call {t : Twin V σ} {env env' : Surroundings V σ} {view : Nat} {live live' : LiveView V}
      (h : Parallel m session clean t₀ t) (hc : env.Calm m) (hr : env.Reliable) (hc' : env'.Calm m)
      (hr' : env'.Reliable) (hd : env'.draw = env.draw) (hv : view ∈ t.views)
      (hl : t.skipping.view? view = some live) (hl' : t.writing.view? view = some live')
      {call : ViewCall V} (hx : call.Congruent)
      (hm : clean → (t.call m env env' view live live' call).Clean session) :
      Parallel m session clean t₀ (t.call m env env' view live live' call)

/-- Two worlds in which the same is stored of a session and the same factories are open, those of
the second one with the policy that takes nothing for immutable. -/
structure World.Counterpart (session : SessionId) (w w' : World V σ) : Prop where
  names : w'.names.store.find? session = w.names.store.find? session
  attributes : ∀ id,
    w'.attributes.store.find? ⟨session, id⟩ = w.attributes.store.find? ⟨session, id⟩
  drawn : w'.drawn = w.drawn
  factories : w'.plain.factories = w.plain.factories.map fun f => ⟨f.isOpen, Immutability.never⟩

namespace Twin

structure Beside [BEq V] (m : Marshaller V) (session : SessionId) (t : Twin V σ) : Prop where
  sound : t.skipping.Sound
  sound' : t.writing.Sound
  plain : t.skipping.plain.Beside m session t.views t.bundles t.missed t.writing.plain

namespace Beside

variable [BEq V] {m : Marshaller V} {session : SessionId} {t : Twin V σ} {w w' : World V σ}
  {env env' : Surroundings V σ}

/-- A factory is open in both worlds or in none. -/
theorem opens (h : t.Beside m session) {factory : Nat}
    (ho : (t.skipping.factory? factory).map Factory.isOpen = some true) :
    (t.writing.factory? factory).map Factory.isOpen = some true := by
  refine (World.isOpen_scope factory none).mp ((h.plain.isOpen factory).trans ?_)
  exact (World.isOpen_scope factory none).mpr ho

/-- What two loads return. -/
theorem like_of_returned {found found' : Option (Bundle V)}
    (h : Option.Rel Bundle.Like found found') :
    ∀ e ∈ (returned (.ok found)).zip (returned (.ok found')), e.1.Like e.2 := by
  cases h with
  | none => exact nofun
  | some h =>
    intro e he
    rw [List.mem_singleton.mp he]
    exact h

theorem load (h : t.Beside m session) (hc : env.Calm m) (hr : env.Reliable) (hc' : env'.Calm m)
    (hr' : env'.Reliable) {factory : Nat}
    (ho : (t.skipping.factory? factory).map Factory.isOpen = some true) (repair : Bool)
    {answer answer' : Except SessionError (Option (Bundle V))}
    (hl : t.skipping.carryOut env ⟨factory, none⟩ (Session.load session repair).run = (answer, w))
    (hl' : t.writing.carryOut env' ⟨factory, none⟩ (Session.load session repair).run =
      (answer', w')) :
    Beside m session { t with
      skipping := w
      writing := w'
      bundles := (returned answer).zip (returned answer') ++ t.bundles } := by
  obtain ⟨hs, hanswer, hplain⟩ := World.load_plain hc hr h.sound ho session repair
  obtain ⟨hs', hanswer', hplain'⟩ := World.load_plain hc' hr' h.sound' (h.opens ho) session repair
  rw [hl] at hs hanswer hplain
  rw [hl'] at hs' hanswer' hplain'
  refine ⟨hs, hs', ?_⟩
  dsimp only at hanswer hanswer' hplain hplain' ⊢
  rw [hplain, hplain', hanswer, hanswer']
  have hscope := h.plain.scope factory
  have hsettled := hscope.settled h.plain.unlisted session repair
  have hfound := like_of_returned (hscope.loaded h.plain.unlisted session)
  refine (h.plain.withScope rfl hsettled fun id hid hlisted => ?_).load hfound
  exact h.plain.unlisted id hid (Scope.mem_settled hlisted)

theorem openView (h : t.Beside m session) {factory number : Nat} {b b' : Bundle V}
    {metadata : Metadata} {context : String}
    (hb : (b, b') = (Bundle.empty, Bundle.empty) ∨ (b, b') ∈ t.bundles)
    (ho : t.skipping.openView factory session b metadata context = .ok (number, w))
    (ho' : t.writing.openView factory session b' metadata context = .ok (number, w')) :
    Beside m session { t with skipping := w, writing := w', views := number :: t.views } := by
  obtain ⟨rfl, f, v, hf, howner, -, hbundle, hplain⟩ := World.openView_policy ho
  obtain ⟨hlength, f', v', hf', howner', hpolicy, hbundle', hplain'⟩ := World.openView_policy ho'
  have hnever : f'.immutability = Immutability.never := by
    rw [h.plain.factories, List.getElem?_map, hf] at hf'
    rw [← Option.some.inj hf']
  have hlike : v.state.bundle.Like v'.state.bundle := by
    rw [hbundle, hbundle']
    rcases hb with he | hmem
    · obtain ⟨rfl, rfl⟩ := Prod.mk.inj he
      exact .refl _
    · exact h.plain.bundles _ hmem
  refine ⟨World.openView_sound ho h.sound, World.openView_sound ho' h.sound', ?_⟩
  dsimp only
  rw [hplain, hplain']
  exact h.plain.openView hlength.symm ⟨howner, howner', hpolicy.trans hnever, hlike⟩

theorem call [PartialEquivBEq V] (h : t.Beside m session) (hm : m.Respects) (hc : env.Calm m)
    (hr : env.Reliable) (hc' : env'.Calm m) (hr' : env'.Reliable) (hd : env'.draw = env.draw)
    {view : Nat} {live live' : LiveView V} (hv : view ∈ t.views)
    (hl : t.skipping.view? view = some live) (hl' : t.writing.view? view = some live')
    {call : ViewCall V} (hx : call.Congruent)
    (hclean : (t.call m env env' view live live' call).Clean session) :
    (t.call m env env' view live live' call).Beside m session := by
  obtain ⟨v, v', hseat, hseat', hviews⟩ := h.plain.views view hv
  obtain rfl : v = live.plain := by
    rw [World.plain_view, hl] at hseat
    exact (Option.some.inj hseat).symm
  obtain rfl : v' = live'.plain := by
    rw [World.plain_view, hl'] at hseat'
    exact (Option.some.inj hseat').symm
  obtain rfl : live.view.session = session := hviews.owner
  have howner : live'.view.session = live.view.session := hviews.owner'
  have hnever : live'.view.immutability = Immutability.never := hviews.never
  obtain ⟨-, hs, -, -, activated, hplain⟩ := World.call_live hc hr h.sound hl call
  obtain ⟨-, hs', -, -, activated', hplain'⟩ := World.call_live hc' hr' h.sound' hl' call
  rw [howner, hnever, hd] at hplain'
  have hscope := h.plain.scope_view hseat hseat' hviews live.factory live'.factory
  have hdone := hscope.carryOut hm env.draw live.view.immutability hx
  have hlisted := hclean.unlisted
  refine ⟨hs, hs', ?_⟩
  unfold Twin.call at hlisted ⊢
  dsimp only at hlisted ⊢
  rw [hplain, PlainWorld.names_withScope] at hlisted
  rw [hplain, hplain']
  exact h.plain.withScope rfl (hdone.announcing activated activated') hlisted

end Beside
end Twin

namespace Parallel

variable [BEq V] {m : Marshaller V} {session : SessionId} {clean : Prop} {t₀ t : Twin V σ}

section
variable [PartialEquivBEq V]

/-- The worlds stay beside each other. -/
theorem beside (h : Parallel m session True t₀ t) (hm : m.Respects) (h₀ : t₀.Beside m session) :
    t.Beside m session := by
  induction h with
  | start => exact h₀
  | skipping _ hp ih =>
    obtain ⟨hkept, hplain⟩ := hp.keeps ih.sound
    exact ⟨hkept, ih.sound', hplain.symm ▸ ih.plain⟩
  | writing _ hp ih =>
    obtain ⟨hkept, hplain⟩ := hp.keeps ih.sound'
    exact ⟨ih.sound, hkept, hplain.symm ▸ ih.plain⟩
  | load _ hc hr hc' hr' ho repair hl hl' ih => exact ih.load hc hr hc' hr' ho repair hl hl'
  | openView _ hb ho ho' ih => exact ih.openView hb ho ho'
  | call _ hc hr hc' hr' hd hv hl hl' hx hclean ih =>
    exact ih.call hm hc hr hc' hr' hd hv hl hl' hx (hclean trivial)

/-- Skipped writes are not observed: whatever the policy of the first world is, every load finds the
same names there as in the second one, with equal values. -/
theorem unobserved {w w' : World V σ} (hm : m.Respects) (hs : w.Sound) (hs' : w'.Sound)
    (hw : w.Counterpart session w') (h : Parallel m session True ⟨w, w', [], [], []⟩ t)
    {env env' : Surroundings V σ} (hc : env.Calm m) (hr : env.Reliable) (hc' : env'.Calm m)
    (hr' : env'.Reliable) {factory : Nat}
    (ho : (t.skipping.factory? factory).map Factory.isOpen = some true) (repair : Bool) :
    ∃ found found',
      (t.skipping.carryOut env ⟨factory, none⟩ (Session.load session repair).run).1 = .ok found ∧
      (t.writing.carryOut env' ⟨factory, none⟩ (Session.load session repair).run).1 = .ok found' ∧
      Option.Rel (fun b b' => b'.names = b.names ∧ ∀ name, Same (b.get? name) (b'.get? name))
        found found' := by
  have h₀ : w.plain.Beside m session [] [] [] w'.plain := by
    refine ⟨hw.factories, hw.drawn, hw.names, fun id _ => .inl ?_, nofun, nofun, nofun⟩
    exact congrArg m.decoded (hw.attributes id).symm
  have hbeside := h.beside hm ⟨hs, hs', h₀⟩
  obtain ⟨-, hanswer, -⟩ := World.load_plain hc hr hbeside.sound ho session repair
  obtain ⟨-, hanswer', -⟩ :=
    World.load_plain hc' hr' hbeside.sound' (hbeside.opens ho) session repair
  refine ⟨_, _, hanswer, hanswer', ?_⟩
  have hfound := (hbeside.plain.scope factory).loaded hbeside.plain.unlisted session
  revert hfound
  generalize Scope.loaded _ m session = found, Scope.loaded _ m session = found'
  rintro (hlike | _)
  · exact .some ⟨hlike.names, hlike.get?⟩
  · exact .none

end

/-- Views may do one operation after the other, as long as each of them is allowed. -/
theorem follow {env : Surroundings V σ} (h : Parallel m session clean t₀ t) (hc : env.Calm m)
    (hr : env.Reliable) (hx : ∀ call : ViewCall V, call.Congruent)
    {turns : List (Nat × ViewCall V)} (hturns : t.Follows m env session clean turns) :
    Parallel m session clean t₀ (turns.foldl (Twin.turn m env) t) := by
  induction turns generalizing t with
  | nil => exact h
  | cons turn turns ih =>
    obtain ⟨⟨hv, hclean⟩, hturns⟩ := hturns
    refine ih ?_ hturns
    unfold Twin.turn at hclean ⊢
    split
    · rename_i live live' hl hl'
      rw [hl, hl'] at hclean
      exact h.call hc hr hc hr rfl hv hl hl' (hx turn.2) hclean
    · exact h

/-- A load may be done, and one more view may be opened. -/
theorem reopen {env : Surroundings V σ} (h : Parallel m session clean t₀ t) (hc : env.Calm m)
    (hr : env.Reliable) {factory : Nat}
    (ho : (t.skipping.factory? factory).map Factory.isOpen = some true) :
    Parallel m session clean t₀ (t.reopen env session factory) := by
  have hload := h.load hc hr hc hr ho true Prod.mk.eta.symm Prod.mk.eta.symm
  unfold Twin.reopen
  dsimp only
  split
  · exact h
  · rename_i b b' _ hb
    split
    · rename_i hw hw'
      split
      · rename_i hnumber
        subst hnumber
        refine hload.openView (.inr ?_) hw hw'
        rw [hb]
        exact List.mem_append_left _ List.mem_cons_self
      · exact h
    · exact h

end Parallel

namespace World

/-- A world of empty stores with one open factory, which goes by a policy and counts its writes. -/
def ruled (immutability : Immutability Bool) : World Bool Unit :=
  (single Bool).changeFactory 0 fun f => { f with immutability, metrics := some {} }

theorem ruled_sound (immutability : Immutability Bool) : (ruled immutability).Sound := by
  obtain ⟨hmetadata, hnames, hattributes⟩ := single_sound Bool
  exact ⟨hmetadata, hnames, hattributes⟩

theorem ruled_counterpart (immutability : Immutability Bool) :
    (ruled immutability).Counterpart "s" (ruled Immutability.never) :=
  ⟨rfl, fun _ => rfl, rfl, rfl⟩

/-- The same world with a view of a session over nothing. -/
def ruling (immutability : Immutability Bool) : World Bool Unit :=
  { ruled immutability with
    views := [⟨⟨"s", false, immutability⟩, 0, ⟨Bundle.empty, []⟩, false, none⟩] }

theorem ruling_open (immutability : Immutability Bool) :
    (ruled immutability).openView 0 "s" Bundle.empty ⟨0, 0, 0⟩ "" = .ok (0, ruling immutability) :=
  rfl

/-- How many writes a factory has counted, and how many that were skipped. -/
def counts (w : World V σ) (factory : Nat) : Option (Nat × Nat) := do
  let metrics ← (← w.factory? factory).metrics
  return (metrics.attributesWritten, metrics.attributeWritesSkipped)

end World

namespace Parallel

theorem ruling (clean : Prop) (immutability : Immutability Bool) :
    Parallel .bits "s" clean ⟨World.ruled immutability, World.ruled Immutability.never, [], [], []⟩
      ⟨World.ruling immutability, World.ruling Immutability.never, [0], [], []⟩ :=
  Parallel.start.openView (.inl rfl) (World.ruling_open _) (World.ruling_open _)

/-- A view writes one value twice and then another one. -/
theorem unobserved_twice :
    ∃ t : Twin Bool Unit, Parallel .bits "s" True
        ⟨World.ruled Immutability.always, World.ruled Immutability.never, [], [], []⟩ t ∧
      t.skipping.counts 0 = some (2, 1) ∧ t.writing.counts 0 = some (3, 0) ∧
      ∃ found found',
        (t.skipping.carryOut (.quiet .bits AttributeId.ofNat) ⟨0, none⟩
          (Session.load "s" true).run).1 = .ok found ∧
        (t.writing.carryOut (.quiet .bits AttributeId.ofNat) ⟨0, none⟩
          (Session.load "s" true).run).1 = .ok found' ∧
        Option.Rel (fun b b' => b'.names = b.names ∧ ∀ name, Same (b.get? name) (b'.get? name))
          found found' := by
  let env : Surroundings Bool Unit := .quiet .bits AttributeId.ofNat
  have hc : env.Calm .bits := Surroundings.quiet_calm _ _
  have hr : env.Reliable := Surroundings.quiet_reliable _ _
  let turns : List (Nat × ViewCall Bool) :=
    [(0, .set "a" true), (0, .set "a" true), (0, .set "b" false)]
  let t : Twin Bool Unit :=
    ⟨World.ruling Immutability.always, World.ruling Immutability.never, [0], [], []⟩
  have hfollows : t.Follows .bits env "s" True turns := by decide +kernel
  have h := (ruling True Immutability.always).follow hc hr ViewCall.congruent_of_lawful hfollows
  exact ⟨_, h, by decide +kernel, by decide +kernel,
    unobserved (Marshaller.respects_of_lawful _) (World.ruled_sound _) (World.ruled_sound _)
      (World.ruled_counterpart _) h hc hr hc hr (by decide +kernel) true⟩

/-- A second view loads what the first one has written, and writes another value to the same
attribute. The first view writes its value again, which is skipped: the next load finds the value of
the second view. If nothing is skipped it finds the value that was written last. -/
theorem skip_observed :
    (World.ruled Immutability.always).Counterpart "s" (World.ruled Immutability.never) ∧
    ∃ t : Twin Bool Unit, Parallel .bits "s" False
        ⟨World.ruled Immutability.always, World.ruled Immutability.never, [], [], []⟩ t ∧
      (t.skipping.carryOut (.quiet .bits AttributeId.ofNat) ⟨0, none⟩
        (Session.load "s" true).run).1.toOption.join.map (·.get? "a") = some (some false) ∧
      (t.writing.carryOut (.quiet .bits AttributeId.ofNat) ⟨0, none⟩
        (Session.load "s" true).run).1.toOption.join.map (·.get? "a") = some (some true) := by
  let env : Surroundings Bool Unit := .quiet .bits AttributeId.ofNat
  have hc : env.Calm .bits := Surroundings.quiet_calm _ _
  have hr : env.Reliable := Surroundings.quiet_reliable _ _
  let t₀ : Twin Bool Unit :=
    ⟨World.ruling Immutability.always, World.ruling Immutability.never, [0], [], []⟩
  let t₁ := [(0, .set "a" true)].foldl (Twin.turn .bits env) t₀
  let t₂ := t₁.reopen env "s" 0
  let turns : List (Nat × ViewCall Bool) := [(1, .set "a" false), (0, .set "a" true)]
  have hfirst : t₀.Follows .bits env "s" False [(0, .set "a" true)] := by decide +kernel
  have h₁ := (ruling False Immutability.always).follow hc hr ViewCall.congruent_of_lawful hfirst
  have hopen : (t₁.skipping.factory? 0).map Factory.isOpen = some true := by decide +kernel
  have h₂ := h₁.reopen hc hr hopen
  have hturns : t₂.Follows .bits env "s" False turns := by decide +kernel
  have h₃ := h₂.follow hc hr ViewCall.congruent_of_lawful hturns
  exact ⟨World.ruled_counterpart _, _, h₃, by decide +kernel, by decide +kernel⟩

end Parallel
end SessionAttributes
