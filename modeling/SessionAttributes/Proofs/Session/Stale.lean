import SessionAttributes.Proofs.Session.Mirror
import SessionAttributes.Proofs.World.Background
import SessionAttributes.Proofs.World.Opening

namespace SessionAttributes

variable {V σ : Type}

namespace World

variable [BEq V] {m : Marshaller V} {env : Surroundings V σ} {w : World V σ} {live : LiveView V}
  {number : Nat}

/-- A write of a name that a view has not bound. -/
theorem set_free (hc : env.Calm m) (hr : env.Reliable) (hs : w.Sound)
    (hl : w.view? number = some live) {name : String} {value : V} {bytes : Bytes}
    (hb : live.state.bundle.attributeId? name = none) (hw : m.write value = .ok bytes) :
    let r := w.carryOut env ⟨live.factory, some number⟩ (live.view.set name value).run
    let s := w.plain.scope live.view.session ⟨live.factory, some number⟩
    r.2.Sound ∧ ∃ activated, r.2.plain = w.plain.withScope live.view.session
      ⟨live.factory, some number⟩ (({ s with drawn := s.drawn + 1 }.create name value
        (env.draw s.drawn) bytes).announcing activated) := by
  have hv : w.plain.views[number]? = some live.plain := plain_live hl
  have hbundle := PlainWorld.scope_bundle hv live.view.session live.factory
  obtain ⟨hs', -, activated, hp, -⟩ := call_effect hc hr hs hv (.set name value)
  refine ⟨hs', activated, hp.trans ?_⟩
  change w.plain.withScope _ _ (Scope.announcing (Scope.set m env.draw live.view.immutability name
    value (w.plain.scope live.view.session ⟨live.factory, some number⟩)).2 activated) = _
  rw [Scope.set_free (by rw [hbundle]; exact hb) hw]
  rfl

/-- A write in a world of empty stores. -/
theorem viewed_write (draw : Nat → AttributeId) :
    let w := (viewed.carryOut (.quiet .bits draw) ⟨0, some 0⟩
      (View.set ⟨"s", false, Immutability.never⟩ "a" true).run).2
    w.Sound ∧ w.plain.names "s" = some (Dict.empty.insert "a" (draw 0)) ∧
      w.plain.attributes ⟨"s", draw 0⟩ = some [1] ∧
      w.plain.factories = [⟨true, Immutability.never⟩] ∧ w.plain.views.length = 1 ∧
      w.plain.drawn = 1 := by
  have hfree : (Bundle.empty : Bundle Bool).attributeId? "a" = none := rfl
  have hview : viewed.view? 0 = some ⟨⟨"s", false, Immutability.never⟩, 0, ⟨Bundle.empty, []⟩,
    false, none⟩ := rfl
  obtain ⟨hs, activated, hp⟩ := set_free (Surroundings.quiet_calm .bits draw)
    (Surroundings.quiet_reliable _ _) viewed_sound hview hfree
    (rfl : Marshaller.bits.write true = .ok [1])
  rw [viewed_plain] at hp
  refine ⟨hs, ?_⟩
  rw [hp]
  exact ⟨rfl, if_pos rfl, rfl, rfl, rfl⟩

omit [BEq V] in
theorem drawn_carryOut {α : Type} (hc : env.Calm m) (hs : w.Sound) (actor : Actor)
    (q : Procedure V α) : w.drawn ≤ (w.carryOut env actor q).2.drawn := by
  induction q generalizing w with
  | done result => exact Nat.le_refl _
  | act action next ih =>
    obtain ⟨hs', hstep⟩ := perform_plain hc hs actor action
    have hle : w.plain.drawn ≤ (w.perform env actor action).2.plain.drawn := by
      rcases hstep with ⟨_, hp⟩ | ⟨_, hp⟩
      · rw [hp]
      · rw [hp]
        obtain ⟨factory, view⟩ := actor
        cases action with
        | draw => exact Nat.le_succ _
        | unlock state => cases view <;> exact Nat.le_refl _
        | _ => exact Nat.le_refl _
    exact Nat.le_trans hle (ih _ hs')

/-- A view over a bundle that was loaded before the session was deleted: a write of another name
brings the names of the bundle back, but not their entries. -/
theorem dangles_of_stale (hc : env.Calm m) (hr : env.Reliable) (hs : w.Sound)
    (hl : w.view? number = some live) (hn : w.names.store.find? live.view.session = none)
    {name stale : String} {id : AttributeId}
    (hstale : live.state.bundle.attributeId? stale = some id)
    (he : w.attributes.store.find? ⟨live.view.session, id⟩ = none) (hid : env.draw w.drawn ≠ id)
    {value : V} {bytes : Bytes} (hb : live.state.bundle.attributeId? name = none)
    (hw : m.write value = .ok bytes) :
    let r := w.carryOut env ⟨live.factory, some number⟩ (live.view.set name value).run
    ∃ names, r.2.names.store.find? live.view.session = some names ∧ id ∈ names.values ∧
      r.2.attributes.store.find? ⟨live.view.session, id⟩ = none := by
  obtain ⟨-, activated, hp⟩ := set_free hc hr hs hl hb hw
  let s := w.plain.scope live.view.session ⟨live.factory, some number⟩
  have hknown : s.known = live.state.bundle.names := by
    have hstored : s.stored = none := hn
    have hbundle : s.bundle = live.state.bundle :=
      PlainWorld.scope_bundle (plain_live hl) _ _
    rw [Scope.known, hstored, hbundle, Option.getD_none]
  have hcreate : { s with drawn := s.drawn + 1 }.create name value (env.draw s.drawn) bytes =
      (({ s with drawn := s.drawn + 1 }.setEntry (env.draw s.drawn) (some bytes)).save
        (live.state.bundle.names.insert name (env.draw s.drawn))).hold
          ((s.bundle.bindName name (env.draw s.drawn)).setValue (env.draw s.drawn) value) := by
    have hfree : (s.known.get? name).filter (· != env.draw s.drawn) = none := by
      rw [hknown, show live.state.bundle.names.get? name = none from hb, Option.filter_none]
    unfold Scope.create
    rw [show Scope.known { s with drawn := s.drawn + 1 } = s.known from rfl, hfree, hknown]
    rfl
  rw [hcreate] at hp
  have hnames := congrFun (congrArg PlainWorld.names hp) live.view.session
  have hentry := congrFun (congrArg PlainWorld.attributes hp) ⟨live.view.session, id⟩
  refine ⟨live.state.bundle.names.insert name (env.draw s.drawn), ?_, ?_, ?_⟩
  · exact hnames.trans (Function.update_self ..)
  · refine Dict.mem_values.mpr ⟨stale, Dict.get?_insert_eq_some.mpr (.inr ⟨?_, hstale⟩)⟩
    rintro rfl
    cases hb.symm.trans hstale
  · refine hentry.trans ((if_pos rfl).trans ?_)
    exact (Function.update_of_ne (Ne.symm hid) _ _).trans he

/-- So it goes with every bundle that binds a name and is kept through a deletion. -/
theorem dangles_after_delete (hc : env.Calm m) (hr : env.Reliable) (hs : w.Sound) {factory : Nat}
    {f : PlainFactory V} (hf : w.plain.factories[factory]? = some f) (ho : f.isOpen = true)
    {session : SessionId} {b : Bundle V} (hn : w.plain.names session = some b.names)
    {name stale : String} {id : AttributeId} (hstale : b.attributeId? stale = some id)
    (hfresh : ∀ k, w.drawn ≤ k → env.draw k ≠ id) {value : V} {bytes : Bytes}
    (hb : b.attributeId? name = none) (hw : m.write value = .ok bytes) (deletion : Deletion)
    (metadata : Metadata) (context : String) :
    let w₁ := (w.carryOut env ⟨factory, none⟩ (Session.delete session deletion).run).2
    ∃ w₂ live, w₁.openView factory session b metadata context = .ok (w.plain.views.length, w₂) ∧
      w₂.view? w.plain.views.length = some live ∧
      let w₃ := (w₂.carryOut env ⟨factory, some w.plain.views.length⟩
        (live.view.set name value).run).2
      ∃ names, w₃.names.store.find? session = some names ∧ id ∈ names.values ∧
        w₃.attributes.store.find? ⟨session, id⟩ = none := by
  have hscope : (w.plain.scope session ⟨factory, none⟩).isOpen = true := by
    simp [PlainWorld.scope, hf, ho]
  obtain ⟨hs₁, s, hp₁, hnone, hgone⟩ := delete_gone hc hr hs hscope deletion
  have hdrawn := drawn_carryOut hc hs ⟨factory, none⟩ (Session.delete session deletion).run
  intro w₁
  have hnames₁ : w₁.plain.names session = none := by
    rw [hp₁]
    exact (Function.update_self ..).trans hnone
  have hentry₁ : w₁.plain.attributes ⟨session, id⟩ = none := by
    rw [hp₁]
    exact (if_pos rfl).trans (hgone _ hn id (Dict.mem_values.mpr ⟨stale, hstale⟩))
  have hf₁ : w₁.plain.factories[factory]? = some f := by
    rw [hp₁]
    exact hf
  obtain ⟨view, w₂, rfl, hopen, hp₂⟩ := openView_ok hf₁ ho session b metadata context
  have hlength : w₁.plain.views.length = w.plain.views.length := by
    rw [hp₁]
    rfl
  rw [hlength] at hopen
  have hview : w₂.plain.views[w.plain.views.length]? = some ⟨view, factory, ⟨b, []⟩⟩ := by
    rw [hp₂, ← hlength]
    exact List.getElem?_concat_length
  rw [plain_view, Option.map_eq_some_iff] at hview
  obtain ⟨live, hlive, hplain⟩ := hview
  obtain ⟨rfl, rfl, hstate⟩ := PlainView.mk.inj hplain
  have hbundle : live.state.bundle = b := congrArg ViewState.bundle hstate
  rw [← hbundle] at hstale hb
  refine ⟨w₂, live, hopen, hlive, dangles_of_stale hc hr (openView_sound hopen hs₁) hlive ?_
    hstale ?_ (hfresh _ ?_) hb hw⟩
  · exact (congrFun (congrArg PlainWorld.names hp₂) _).trans hnames₁
  · exact (congrFun (congrArg PlainWorld.attributes hp₂) _).trans hentry₁
  · exact Nat.le_trans hdrawn (Nat.le_of_eq (congrArg PlainWorld.drawn hp₂).symm)

/-- A bundle is loaded, its session is purged, and then a view is opened over the bundle. Its first
write leaves a name whose entry is not there. -/
theorem stale_bundle_dangles :
    ∃ (env : Surroundings Bool Unit) (w₂ w₃ w₄ w₅ w₆ : World Bool Unit) (b : Bundle Bool)
      (live : LiveView Bool) (names : Names) (id : AttributeId),
      env.Calm .bits ∧ env.Reliable ∧
      (single Bool).openView 0 "s" Bundle.empty ⟨0, 0, 0⟩ "" = .ok (0, viewed) ∧
      w₂ = (viewed.carryOut env ⟨0, some 0⟩
        (View.set ⟨"s", false, Immutability.never⟩ "a" true).run).2 ∧
      w₂.carryOut env ⟨0, none⟩ (Session.find "s").run = (.ok (some b), w₃) ∧
      w₄ = (w₃.carryOut env ⟨0, none⟩ (Session.purge "s").run).2 ∧
      w₄.openView 0 "s" b ⟨0, 0, 0⟩ "" = .ok (1, w₅) ∧ w₅.view? 1 = some live ∧
      w₆ = (w₅.carryOut env ⟨0, some 1⟩ (live.view.set "b" true).run).2 ∧
      w₆.names.store.find? "s" = some names ∧ id ∈ names.values ∧
      w₆.attributes.store.find? ⟨"s", id⟩ = none := by
  let draw : Nat → AttributeId := fun k => AttributeId.ofNat (min k 1)
  let env : Surroundings Bool Unit := .quiet .bits draw
  have hc : env.Calm .bits := Surroundings.quiet_calm _ _
  have hr : env.Reliable := Surroundings.quiet_reliable _ _
  obtain ⟨hs₂, hnames₂, hentry₂, hfactories₂, hviews₂, hdrawn₂⟩ := viewed_write draw
  generalize hw₂ : (viewed.carryOut (.quiet .bits draw) ⟨0, some 0⟩
    (View.set ⟨"s", false, Immutability.never⟩ "a" true).run).2 = w₂ at *
  have hopen₂ : (w₂.plain.scope "s" ⟨0, none⟩).isOpen = true := by
    simp [PlainWorld.scope, hfactories₂]
  have hhealthy : Scope.Healthy .bits (Dict.empty.insert "a" (draw 0))
      (w₂.plain.scope "s" ⟨0, none⟩).entries := by
    refine ⟨fun id hm => ?_, List.nodup_singleton _⟩
    obtain rfl := List.mem_singleton.mp hm
    exact ⟨true, [1], hentry₂, rfl⟩
  obtain ⟨b, hb, hbnames, -, -⟩ := hhealthy.loaded hnames₂ "s"
  obtain ⟨hs₃, hp₃, -, hfound⟩ := load_found hc hs₂ 0 true hb
  have hfind : w₂.carryOut env ⟨0, none⟩ (Session.find "s").run =
      (.ok (some b), (w₂.carryOut env ⟨0, none⟩ (Session.find "s").run).2) :=
    Prod.ext (hfound hr hopen₂) rfl
  change (w₂.carryOut env ⟨0, none⟩ (Session.find "s").run).2.Sound at hs₃
  change (w₂.carryOut env ⟨0, none⟩ (Session.find "s").run).2.plain = w₂.plain at hp₃
  generalize (w₂.carryOut env ⟨0, none⟩ (Session.find "s").run).2 = w₃ at *
  have hdrawn₃ : w₃.drawn = 1 := (congrArg PlainWorld.drawn hp₃).trans hdrawn₂
  have hfresh : ∀ k, w₃.drawn ≤ k → env.draw k ≠ draw 0 := by
    intro k hk
    have hk : min k 1 = 1 := Nat.min_eq_right (hdrawn₃ ▸ hk)
    change AttributeId.ofNat (min k 1) ≠ AttributeId.ofNat (min 0 1)
    rw [hk]
    decide
  have hnames₃ : w₃.plain.names "s" = some b.names := by
    rw [hp₃, hbnames]
    exact hnames₂
  have hviews₃ : w₃.plain.views.length = 1 := by
    rw [hp₃]
    exact hviews₂
  have hold : b.attributeId? "a" = some (draw 0) := by
    rw [Bundle.attributeId?, hbnames, Dict.get?_insert, if_pos rfl]
  have hnew : b.attributeId? "b" = none := by
    rw [Bundle.attributeId?, hbnames, Dict.get?_insert, if_neg (by decide), Dict.get?_empty]
  obtain ⟨w₅, live, hopen₅, hlive, names, hdangles⟩ := dangles_after_delete hc hr hs₃
    (congrArg (·[0]?) (hp₃ ▸ hfactories₂)) rfl hnames₃ hold hfresh hnew
    (rfl : Marshaller.bits.write true = .ok [1]) .purge ⟨0, 0, 0⟩ ""
  rw [hviews₃] at hopen₅ hlive hdangles
  exact ⟨env, w₂, w₃, _, w₅, _, b, live, names, draw 0, hc, hr, viewed_open, hw₂.symm, hfind, rfl,
    hopen₅, hlive, rfl, hdangles⟩

end World
end SessionAttributes
