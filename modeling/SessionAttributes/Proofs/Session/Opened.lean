import SessionAttributes.Proofs.Session.Mirror
import SessionAttributes.Proofs.World.Background
import SessionAttributes.Proofs.World.Opening

namespace SessionAttributes

variable {V σ : Type} [BEq V] {m : Marshaller V} {session : SessionId}

namespace World

variable {w : World V σ} {number : Nat}

/-- A view was opened over nothing, for a session with nothing stored, or over a bundle that a load
returned. -/
inductive Opened (m : Marshaller V) (session : SessionId) : World V σ → Nat → World V σ → Prop
  | created {w w' : World V σ} {number factory : Nat} {metadata : Metadata} {context : String}
      (hn : w.names.store.find? session = none)
      (ho : w.openView factory session Bundle.empty metadata context = .ok (number, w')) :
      Opened m session w number w'
  | loaded {w w' w'' : World V σ} {number factory : Nat} {metadata : Metadata} {context : String}
      {env : Surroundings V σ} {repair : Bool} {b : Bundle V} (hc : env.Calm m)
      (hl : w.carryOut env ⟨factory, none⟩ (Session.load session repair).run = (.ok (some b), w'))
      (hb : b.equal b = true)
      (ho : w'.openView factory session b metadata context = .ok (number, w'')) :
      Opened m session w number w''

omit [BEq V] in
/-- A bundle with a value for each of its attributes, in whatever order they were read. -/
theorem tidy_of_keys {b : Bundle V} (hdistinct : b.names.values.Nodup)
    (hkeys : keysOf b.values = b.names.values.reverse) : b.Tidy := by
  refine ⟨Dict.injective_of_nodup hdistinct, ?_, fun id => ?_⟩
  · rw [hkeys]
    exact List.nodup_reverse.mpr hdistinct
  · rw [hkeys, List.mem_reverse]

omit [BEq V] in
/-- A load finds a bundle that is well formed. -/
theorem tidy_of_loaded {s : Scope V} {b : Bundle V} (hl : s.loaded m session = some b) :
    b.Tidy := by
  cases hs : s.stored with
  | none =>
    simp only [Scope.loaded, hs, Option.some.injEq] at hl
    exact hl ▸ Bundle.empty_tidy
  | some names =>
    have hh := Scope.healthy_of_loaded hs hl
    obtain ⟨b', hl', rfl, hk, -⟩ := hh.loaded hs session
    cases hl.symm.trans hl'
    exact tidy_of_keys hh.distinct hk

omit [BEq V] in
/-- Whatever is found, each identifier that is decoded gets one value, as an entry is used up by the
first name that refers to it. -/
theorem decodeEntries_unique (ids : List AttributeId) (entries : List (AttributeKey × Bytes))
    (values : List (AttributeId × V)) (hu : (keysOf values).Nodup)
    (hv : ∀ id ∈ keysOf values, entries.lookup (⟨session, id⟩ : AttributeKey) = none) :
    (Session.decodeEntries session ids entries values).Secures (Rule.only fun _ => True)
      (fun found _ => ∀ values', found = some values' →
        (keysOf values').Nodup ∧ keysOf values' = ids.reverse ++ keysOf values)
      (fun _ _ => True) () := by
  induction ids generalizing entries values with
  | nil =>
    intro values' hfound
    cases hfound
    exact ⟨hu, rfl⟩
  | cons id rest ih =>
    unfold Session.decodeEntries
    dsimp only
    cases hl : entries.lookup (⟨session, id⟩ : AttributeKey) with
    | none =>
      intro values' hfound
      cases hfound
    | some bytes =>
      rw [Attempt.secures_bind, Attempt.secures_ask]
      refine ⟨trivial, fun answer => ?_⟩
      cases answer with
      | error fault =>
        intro values' hfound
        cases hfound
      | ok value =>
        have hnew : id ∉ keysOf values := by
          intro hm
          cases hl.symm.trans (hv id hm)
        have hgone : ∀ k ∈ keysOf ((id, value) :: values),
            (Shard.without (⟨session, id⟩ : AttributeKey) entries).lookup ⟨session, k⟩ = none := by
          intro k hk
          rw [lookup_without]
          split
          · rfl
          · rename_i hne
            rcases List.mem_cons.mp hk with rfl | hk
            · exact absurd rfl hne
            · exact hv k hk
        refine Attempt.Secures.mono (Rule.only_monotone _) ?_ (fun _ _ h => h)
          (ih _ ((id, value) :: values) (List.nodup_cons.mpr ⟨hnew, hu⟩) hgone)
        intro found _ h values' hfound
        obtain ⟨hunique, hkeys⟩ := h values' hfound
        refine ⟨hunique, hkeys.trans ?_⟩
        simp [keysOf]

omit [BEq V] in
/-- Whatever its stores answer, a load returns a bundle that is well formed. -/
theorem load_tidy (repair : Bool) :
    (Session.load session repair).Secures (Rule.only fun _ => True)
      (fun found _ => ∀ b : Bundle V, found = some b → b.Tidy) (fun _ _ => True) () := by
  unfold Session.load
  refine Attempt.Secures.bind ?_
  rw [Attempt.secures_ensureOpen]
  refine ⟨trivial, fun isOpen => ?_⟩
  cases isOpen with
  | false => trivial
  | true =>
    refine Attempt.Secures.bind ⟨trivial, fun stored => ?_⟩
    cases stored with
    | error fault => trivial
    | ok stored =>
      cases stored with
      | none =>
        refine Attempt.Secures.bind ⟨trivial, fun _ => ?_⟩
        rintro b ⟨⟩
        exact Bundle.empty_tidy
      | some names =>
        refine Attempt.Secures.bind ⟨trivial, fun entries => ?_⟩
        cases entries with
        | error fault => trivial
        | ok entries =>
          refine Attempt.Secures.bind (Attempt.Secures.mono (Rule.only_monotone _) ?_
            (fun _ _ h => h) (decodeEntries_unique names.values entries [] List.nodup_nil nofun))
          intro found _ hfound
          cases found with
          | none =>
            refine Attempt.Secures.bind ⟨trivial, fun _ => ?_⟩
            cases repair with
            | false => exact nofun
            | true =>
              refine Attempt.Secures.bind (Procedure.Secures.mono (Rule.only_monotone _) ?_
                (Procedure.asks_all (Session.purge session).run))
              rintro (fault | done) _ -
              · trivial
              · exact nofun
          | some values =>
            refine Attempt.Secures.bind ⟨trivial, fun _ => ?_⟩
            rintro b ⟨⟩
            obtain ⟨hunique, hkeys⟩ := hfound values rfl
            have hids : keysOf values = names.values.reverse := hkeys.trans (List.append_nil _)
            refine tidy_of_keys ?_ hids
            rw [← List.nodup_reverse, ← hids]
            exact hunique

omit [BEq V] in
/-- The answer of a load, whatever its stores answer. -/
theorem load_run_tidy (session : SessionId) (repair : Bool) :
    (Session.load session repair).run.Secures (Rule.only fun _ => True)
      (fun answer _ => ∀ b : Bundle V, answer = .ok (some b) → b.Tidy) () := by
  rw [Attempt.secures_run]
  refine Attempt.Secures.mono (Rule.only_monotone _) ?_ (fun _ _ _ => nofun) (load_tidy repair)
  rintro found _ htidy b ⟨⟩
  exact htidy b rfl

/-- The bundle of a load mirrors the session that it was loaded from. -/
theorem mirrors_of_loaded {s : Scope V} {b : Bundle V} (hl : s.loaded m session = some b)
    (hb : b.equal b = true) :
    Scope.Mirrors m { s with state := ⟨b, []⟩ } ∧ ∀ name, b.get? name == b.get? name := by
  have htidy := tidy_of_loaded hl
  have hself : ∀ {id value}, b.value? id = some value → value == value := by
    intro id value hv
    simp only [Bundle.equal, Bool.and_eq_true, List.all_eq_true] at hb
    have he := hb.2 _ (mem_of_lookup hv)
    dsimp only at he
    rw [hv] at he
    exact he
  cases hs : s.stored with
  | none =>
    simp only [Scope.loaded, hs, Option.some.injEq] at hl
    subst hl
    exact ⟨Scope.mirrors_empty rfl rfl, fun _ => rfl⟩
  | some names =>
    obtain ⟨b', hl', hn, -, hr⟩ := (Scope.healthy_of_loaded hs hl).loaded hs session
    cases hl.symm.trans hl'
    refine ⟨⟨htidy, Or.inl ?_, fun {id value} hv => ?_⟩, fun name => ?_⟩
    · exact congrArg some hn.symm
    · exact ⟨value, hr _ (mem_of_lookup hv), hself hv⟩
    · cases hg : b.get? name with
      | none => rfl
      | some value =>
        rw [Bundle.get?_eq] at hg
        obtain ⟨id, _, hv⟩ := Option.bind_eq_some_iff.mp hg
        exact hself hv

omit [BEq V] in
/-- What a view reaches that was opened last. -/
theorem scope_opened {p p' : PlainWorld V} {view : View V} {factory : Nat} {b : Bundle V}
    (h : p' = { p with views := p.views ++ [⟨view, factory, ⟨b, []⟩⟩] }) :
    p'.scope session ⟨factory, some p.views.length⟩ =
      { p.scope session ⟨factory, none⟩ with state := ⟨b, []⟩ } := by
  subst h
  simp [PlainWorld.scope, PlainWorld.stateOf]

/-- A view mirrors its session if its bundle does. -/
theorem mirrors_of_openView {w' : World V σ} {factory : Nat} {b : Bundle V} {metadata : Metadata}
    {context : String} (ho : w.openView factory session b metadata context = .ok (number, w'))
    (hm : Scope.Mirrors m { w.plain.scope session ⟨factory, none⟩ with state := ⟨b, []⟩ }) :
    ∃ v, w'.plain.views[number]? = some v ∧ v.view.session = session ∧ v.state.bundle = b ∧
      (w'.plain.scope session ⟨v.factory, some number⟩).Mirrors m ∧
      w'.plain.names = w.plain.names ∧ w'.plain.attributes = w.plain.attributes := by
  obtain ⟨rfl, view, hview, hp⟩ := openView_shape ho
  refine ⟨⟨view, factory, ⟨b, []⟩⟩, ?_, hview, rfl, ?_, ?_⟩
  · rw [hp]
    exact List.getElem?_concat_length
  · rw [scope_opened hp]
    exact hm
  · rw [hp]
    exact ⟨rfl, rfl⟩

theorem Opened.mirrors {w₀ : World V σ} (h : Opened m session w₀ number w) (hs : w₀.Sound) :
    w.Sound ∧ ∃ v, w.plain.views[number]? = some v ∧ v.view.session = session ∧
      (∀ name, v.state.bundle.get? name == v.state.bundle.get? name) ∧
      (w.plain.scope session ⟨v.factory, some number⟩).Mirrors m ∧
      w.plain.names = w₀.plain.names ∧ w.plain.attributes = w₀.plain.attributes := by
  cases h with
  | created hn ho =>
    obtain ⟨v, hv, howner, hb, h⟩ := mirrors_of_openView (m := m) ho
      (Scope.mirrors_empty hn rfl)
    exact ⟨openView_sound ho hs, v, hv, howner, hb ▸ fun _ => rfl, h⟩
  | loaded hc hl hb ho =>
    obtain ⟨hs', hsame, hfound⟩ := found_of_load hc hs hl
    obtain ⟨hm, hself⟩ := mirrors_of_loaded hfound hb
    rw [← hsame] at hm
    obtain ⟨v, hv, howner, hb, h⟩ := mirrors_of_openView ho hm
    exact ⟨openView_sound ho hs', v, hv, howner, hb ▸ hself, hsame ▸ h⟩

omit [BEq V] in
theorem isOpen_scope (factory : Nat) (view : Option Nat) :
    (w.plain.scope session ⟨factory, view⟩).isOpen = true ↔
      (w.factory? factory).map Factory.isOpen = some true := by
  have hf : (w.plain.factories[factory]?).map PlainFactory.isOpen =
      (w.factory? factory).map Factory.isOpen := by
    simp only [plain, List.getElem?_map, Option.map_map]
    rfl
  simp only [PlainWorld.scope, hf]
  cases (w.factory? factory).map Factory.isOpen <;> simp

/-- Any factory that is open loads what a view holds that mirrors the session. -/
theorem load_mirrored [PartialEquivBEq V] {env : Surroundings V σ} {live : LiveView V} {seat : Nat}
    (hm : (w.plain.scope session ⟨seat, some number⟩).Mirrors m) (hs : w.Sound)
    (hl : w.view? number = some live) (hc : env.Calm m) (hr : env.Reliable) {factory : Nat}
    (ho : (w.factory? factory).map Factory.isOpen = some true) (repair : Bool) :
    ∃ b, (w.carryOut env ⟨factory, none⟩ (Session.load session repair).run).1 = .ok (some b) ∧
      b.equal live.state.bundle = true := by
  obtain ⟨b, hb, he⟩ := hm.loaded session
  rw [PlainWorld.scope_bundle (plain_live hl)] at he
  obtain ⟨-, -, -, hanswer⟩ := load_found hc hs factory repair
    (show (w.plain.scope session ⟨factory, none⟩).loaded m session = some b from hb)
  exact ⟨b, hanswer hr ((isOpen_scope factory none).mpr ho), he⟩

theorem viewed_opened : Opened .bits "s" (single Bool) 0 viewed :=
  .created (congrFun (congrArg PlainWorld.names (single_plain Bool)) "s") viewed_open

theorem viewed_scope : viewed.plain.scope "s" ⟨0, some 0⟩ =
    ⟨true, none, fun _ => none, ⟨Bundle.empty, []⟩, 0⟩ := by
  rw [viewed_plain]
  rfl

end World
end SessionAttributes
