import SessionAttributes.Proofs.Session.Chronicle

namespace SessionAttributes

variable {V σ : Type}

namespace ViewCall

/-- Whether a view that has bound the name it writes holds the attribute that is stored under it. A
name that it drops may have been dropped before. -/
def Informed (stored : Option Names) (b : Bundle V) : ViewCall V → Prop
  | .set name _ | .update name _ =>
    ∀ id ∈ b.attributeId? name, (stored.getD Dict.empty).get? name = some id
  | .remove name =>
    ∀ id ∈ b.attributeId? name, ∀ id' ∈ (stored.getD Dict.empty).get? name, id' = id
  | _ => True

/-- Whether an operation starts from the stored names. A view may store names of its own if none are
stored. -/
def Founded (stored : Option Names) (b : Bundle V) : ViewCall V → Prop
  | .set name _ =>
    (∀ id ∈ b.attributeId? name, (stored.getD Dict.empty).get? name = some id) ∧
      (b.attributeId? name = none → stored = none → b.names = Dict.empty)
  | .update name _ => ∀ id ∈ b.attributeId? name, (stored.getD Dict.empty).get? name = some id
  | .remove name => b.attributeId? name ≠ none → stored = none → b.names.erase name = Dict.empty
  | _ => True

instance (stored : Option Names) (b : Bundle V) (call : ViewCall V) :
    Decidable (call.Informed stored b) := by
  cases call <;> unfold Informed <;> infer_instance

instance (stored : Option Names) (b : Bundle V) (call : ViewCall V) :
    Decidable (call.Founded stored b) := by
  cases call <;> unfold Founded <;> infer_instance

variable {stored : Option Names} {b : Bundle V} {call : ViewCall V}

/-- As long as nobody holds names before any are stored, it is enough to be informed. -/
theorem Informed.founded (h : call.Informed stored b) (hb : stored = none → b.names = Dict.empty) :
    call.Founded stored b := by
  cases call with
  | set name value => exact ⟨h, fun _ hs => hb hs⟩
  | update name change => exact h
  | remove name =>
    intro _ hs
    rw [hb hs]
    rfl
  | get name => trivial
  | names => trivial
  | snapshot => trivial

end ViewCall

/-- An entry is there and decodes, to an equal value unless equal values may be taken for it. -/
def Shows [BEq V] (m : Marshaller V) (never : Prop) (entry : Option Bytes) (value : V) : Prop :=
  ∃ value', Readable m entry value' ∧ (never → value' == value)

theorem Faithful.shows [BEq V] {m : Marshaller V} {value : V} {bytes : Bytes}
    (h : Faithful m value) (hw : m.write value = .ok bytes) (never : Prop) :
    Shows m never (some bytes) value := by
  obtain ⟨value', hr, he⟩ := h.keeps hw
  exact ⟨value', hr, fun _ => he⟩

namespace Scope

/-- The stored names are those that were written last, with entries for their values. If it is asked
for, no other entries are stored. -/
structure Tells [BEq V] (m : Marshaller V) (never neat : Prop) (latest : String → Option V)
    (s : Scope V) : Prop where
  free : ∀ {name}, s.listed.get? name = none → latest name = none
  bound : ∀ {name id}, s.listed.get? name = some id →
    ∃ value, latest name = some value ∧ Shows m never (s.entries id) value
  exact : neat → ∀ {id}, s.entries id ≠ none → id ∈ s.listed.values

namespace Tells

variable [BEq V] {m : Marshaller V} {never neat : Prop} {latest : String → Option V}
  {s s' : Scope V} {x : Supply} {owner : AttributeId → String} {name : String} {value : V}
  {id : AttributeId} {bytes : Bytes}

theorem announcing (h : s.Tells m never neat latest) (activated : List AttributeId) :
    (s.announcing activated).Tells m never neat latest := ⟨h.free, h.bound, h.exact⟩

/-- What is told is a matter of what is stored alone. -/
theorem alike (h : s.Tells m never neat latest) (hs : s'.stored = s.stored)
    (he : s'.entries = s.entries) : s'.Tells m never neat latest := by
  have hl : s'.listed = s.listed := congrArg (Option.getD · Dict.empty) hs
  refine ⟨fun hn => h.free (hl ▸ hn), fun hb => ?_, fun hneat {id} hid => ?_⟩
  · rw [he]
    exact h.bound (hl ▸ hb)
  · rw [hl]
    exact h.exact hneat (he ▸ hid)

theorem isSome (h : s.Tells m never neat latest) (name : String) :
    (s.listed.get? name).isSome = (latest name).isSome := by
  cases hn : s.listed.get? name with
  | none =>
    rw [h.free hn]
    rfl
  | some id =>
    obtain ⟨value, hlatest, -⟩ := h.bound hn
    rw [hlatest]
    rfl

/-- The stored names have their entries. -/
theorem present (h : s.Tells m never neat latest) (hid : id ∈ s.listed.values) :
    (s.entries id).isSome := by
  obtain ⟨name, hn⟩ := Dict.mem_values.mp hid
  obtain ⟨_, -, _, ⟨bytes, he, -⟩, -⟩ := h.bound hn
  exact Option.isSome_iff_exists.mpr ⟨bytes, he⟩

/-- A single name is bound anew, or dropped, and the entries of the others stay. -/
theorem change (h : s.Tells m never neat latest) (name : String) (binding : Option AttributeId)
    (written : Option V)
    (hnames : ∀ k, s'.listed.get? k = if k = name then binding else s.listed.get? k)
    (hfree : binding = none → written = none)
    (hbound : ∀ id, binding = some id →
      ∃ value, written = some value ∧ Shows m never (s'.entries id) value)
    (hsame : ∀ {k j}, k ≠ name → s.listed.get? k = some j → s'.entries j = s.entries j)
    (hexact : neat → ∀ {j}, s'.entries j ≠ none →
      binding = some j ∨ s.entries j ≠ none ∧ s.listed.get? name ≠ some j) :
    s'.Tells m never neat (Function.update latest name written) := by
  refine ⟨fun {k} hk => ?_, fun {k j} hk => ?_, fun hneat {j} hj => ?_⟩
  · rw [hnames] at hk
    by_cases he : k = name
    · rw [if_pos he] at hk
      rw [he, Function.update_self]
      exact hfree hk
    · rw [if_neg he] at hk
      rw [Function.update_of_ne he]
      exact h.free hk
  · rw [hnames] at hk
    by_cases he : k = name
    · rw [if_pos he] at hk
      rw [he, Function.update_self]
      exact hbound j hk
    · rw [if_neg he] at hk
      rw [Function.update_of_ne he, hsame he hk]
      exact h.bound hk
  · rcases hexact hneat hj with hj | ⟨hj, hother⟩
    · exact Dict.mem_values.mpr ⟨name, by rw [hnames, if_pos rfl, hj]⟩
    · obtain ⟨k, hk⟩ := Dict.mem_values.mp (h.exact hneat hj)
      refine Dict.mem_values.mpr ⟨k, ?_⟩
      rw [hnames, if_neg, hk]
      rintro rfl
      exact hother hk

/-- The attribute that is stored under a name has another value from now on. -/
theorem rewrite (h : s.Tells m never neat latest) (hi : s.listed.Injective)
    (hl : s.listed.get? name = some id) (hlisted : s'.listed = s.listed)
    (hv : Shows m never (s'.entries id) value)
    (hentry : ∀ {j}, j ≠ id → s'.entries j = s.entries j) :
    s'.Tells m never neat (Function.update latest name (some value)) := by
  refine h.change name (some id) (some value) (fun k => ?_) nofun ?_ (fun {k j} hk hj => ?_)
    fun _ {j} hj => ?_
  · rw [hlisted]
    by_cases he : k = name
    · rw [if_pos he, he, hl]
    · rw [if_neg he]
  · rintro _ ⟨⟩
    exact ⟨value, rfl, hv⟩
  · refine hentry ?_
    rintro rfl
    exact hk (hi hj hl)
  · by_cases he : j = id
    · exact .inl (congrArg some he.symm)
    · rw [hentry he] at hj
      exact .inr ⟨hj, fun hj => he (Option.some.inj (hj.symm.trans hl))⟩

/-- A new attribute is stored under a name. -/
theorem create (h : s.Tells m never neat latest) (hi : s.listed.Injective)
    (hknown : s.known = s.listed) (hid : id ∉ s.listed.values)
    (hv : Shows m never (some bytes) value) :
    (s.create name value id bytes).Tells m never neat
      (Function.update latest name (some value)) := by
  refine h.change name (some id) (some value) (fun k => ?_) nofun ?_ (fun {k j} hk hj => ?_)
    fun _ {j} hj => ?_
  · rw [listed, create_stored, Option.getD_some, Dict.get?_insert, hknown]
  · rintro _ ⟨⟩
    refine ⟨value, rfl, ?_⟩
    rw [create_entries, if_neg (fun hn => hn.2 rfl), if_pos rfl]
    exact hv
  · rw [create_entries, if_neg, if_neg]
    · rintro rfl
      exact hid (Dict.mem_values.mpr ⟨k, hj⟩)
    · rintro ⟨hold, -⟩
      rw [hknown] at hold
      exact hk (hi hj hold)
  · rw [create_entries, hknown] at hj
    split at hj
    · exact absurd rfl hj
    · rename_i hno
      split at hj
      · rename_i he
        exact .inl (congrArg some he.symm)
      · rename_i he
        exact .inr ⟨hj, fun hold => hno ⟨hold, he⟩⟩

variable {immutability : Immutability V}

/-- A write is told of, also one that is skipped. -/
theorem set (h : s.Tells m never neat latest) (hf : s.Filed x owner) (hlt : s.drawn < x.limit)
    (hv : Faithful m value) (hi : never → ∀ value, immutability value = false)
    (hfits : (ViewCall.set name value).Founded s.stored s.bundle) :
    (∃ previous, (s.set m x.draw immutability name value).1 = .ok previous) ∧
      (s.set m x.draw immutability name value).2.Tells m never neat
        (Function.update latest name (some value)) := by
  obtain ⟨bytes, _, hw, _⟩ := id hv
  have hshows := hv.shows hw never
  have hinjective := hf.listed.injective
  unfold Scope.set
  rw [hw]
  dsimp only
  split
  · rename_i hskip
    refine ⟨⟨_, rfl⟩, ?_⟩
    obtain ⟨hg, himmutable⟩ := Bool.and_eq_true_iff.mp hskip
    cases hb : s.bundle.attributeId? name with
    | none =>
      rw [Bundle.Tidy.get?_none hb] at hg
      cases hg
    | some id =>
      obtain ⟨_, -, value', hread, -⟩ := h.bound (hfits.1 id hb)
      refine h.rewrite hinjective (hfits.1 id hb) rfl ⟨value', hread, fun hn => ?_⟩ fun _ => rfl
      cases (hi hn value).symm.trans himmutable
  · cases hb : s.bundle.attributeId? name with
    | some id =>
      refine ⟨⟨_, rfl⟩, h.rewrite hinjective (hfits.1 id hb) rfl ?_ ?_⟩
      · rw [show (s.overwrite value id bytes).entries id = some bytes from Function.update_self ..]
        exact hshows
      · exact fun hne => Function.update_of_ne hne _ _
    | none =>
      have hknown : s.known = s.listed := by
        unfold known listed
        cases hs : s.stored with
        | none => exact hfits.2 hb hs
        | some names => rfl
      have hdrawn : Tells m never neat latest { s with drawn := s.drawn + 1 } :=
        ⟨h.free, h.bound, h.exact⟩
      exact ⟨⟨_, rfl⟩, hdrawn.create hinjective hknown (hf.listed.fresh hlt) hshows⟩

/-- A removal is told of. -/
theorem remove (h : s.Tells m never neat latest) (hf : s.Filed x owner)
    (hfits : (ViewCall.remove name).Founded s.stored s.bundle)
    (hneat : neat → (ViewCall.remove name : ViewCall V).Informed s.stored s.bundle) :
    (s.remove name).2.Tells m never neat
      ((ViewCall.remove name).marks s.bundle latest (s.remove name).1) := by
  unfold Scope.remove
  cases hb : s.bundle.attributeId? name with
  | none => exact h
  | some id =>
    obtain ⟨value, -, hvalue⟩ := hf.tidy.get?_some hb
    have hknown : s.known.erase name = s.listed.erase name := by
      unfold known listed
      cases hs : s.stored with
      | none => exact hfits (by rw [hb]; nofun) hs
      | some names => rfl
    have howned : ∀ {k}, s.listed.get? k = some id → k = name :=
      fun hk => (hf.listed.owned hk).symm.trans (hf.held.owned hb)
    have hentry : ∀ {j}, j ≠ id → (((s.save (s.known.erase name)).setEntry id none).hold
        ((s.bundle.dropName name).dropValue id)).entries j = s.entries j :=
      fun hne => Function.update_of_ne hne _ _
    simp only [ViewCall.marks, hvalue]
    refine h.change name none none (fun k => ?_) (fun _ => rfl) nofun (fun {k j} hk hj => ?_)
      fun hn {j} hj => ?_
    · change (s.known.erase name).get? k = _
      rw [hknown, Dict.get?_erase]
    · refine hentry ?_
      rintro rfl
      exact hk (howned hj)
    · have hne : j ≠ id := by
        rintro rfl
        exact hj (Function.update_self ..)
      rw [hentry hne] at hj
      exact .inr ⟨hj, fun hl => hne (hneat hn id hb j hl)⟩

/-- What the stores tell, they tell after every operation that is fit for them. -/
theorem carryOut (h : s.Tells m never neat latest) (hf : s.Filed x owner)
    (hlt : s.drawn < x.limit) (call : ViewCall V)
    (hw : ∀ value, call.written s.bundle = some value → Faithful m value)
    (hi : never → ∀ value, immutability value = false) (hfits : call.Founded s.stored s.bundle)
    (hneat : neat → call.Informed s.stored s.bundle) :
    (s.carryOut m x.draw immutability call).2.Tells m never neat
      (call.marks s.bundle latest (s.carryOut m x.draw immutability call).1) := by
  cases call with
  | get name => exact h
  | names => exact h
  | snapshot => exact h
  | set name value =>
    obtain ⟨⟨previous, ha⟩, htells⟩ := h.set hf hlt (hw value rfl) hi hfits
    simp only [Scope.carryOut, ViewCall.marks, ha]
    exact htells
  | update name change =>
    simp only [Scope.carryOut, Scope.update]
    cases hg : s.bundle.get? name with
    | none => exact h
    | some value =>
      have hv : Faithful m (change value) :=
        hw _ (by simp only [ViewCall.written, hg, Option.map_some])
      have hset : (ViewCall.set name (change value)).Founded s.stored s.bundle := by
        refine ⟨hfits, fun hb => ?_⟩
        rw [Bundle.Tidy.get?_none hb] at hg
        cases hg
      obtain ⟨⟨previous, ha⟩, htells⟩ := h.set hf hlt hv hi hset
      simp only [ViewCall.marks, ha, hg, Except.map, Option.map_some]
      exact htells
  | remove name => exact h.remove hf hfits hneat

end Tells
end Scope

/-- What the stores tell of a session. While no names are stored, nobody holds any, if that is asked
for. -/
structure PlainWorld.Tells [BEq V] (m : Marshaller V) (session : SessionId) (never neat : Prop)
    (latest : String → Option V) (p : PlainWorld V) (views : List Nat)
    (bundles : List (Bundle V)) : Prop where
  scope : ∀ actor, (p.scope session actor).Tells m never neat latest
  bare : neat → p.names session = none → ∀ b, p.Holds views bundles b → b.names = Dict.empty

namespace PlainWorld.Tells

variable [BEq V] {m : Marshaller V} {session : SessionId} {never neat : Prop}
  {latest : String → Option V} {p : PlainWorld V} {views : List Nat} {bundles : List (Bundle V)}
  {x : Supply} {owner : AttributeId → String}

/-- A load finds what the stores tell. -/
theorem loaded (h : p.Tells m session never neat latest views bundles)
    (hf : p.Filed session x owner views bundles) (actor : World.Actor) :
    ∃ b, (p.scope session actor).loaded m session = some b ∧
      (∀ name, (b.get? name).isSome = (latest name).isSome) ∧ (never → b.Follows latest) := by
  have hscope := h.scope actor
  have hread : ∀ id ∈ (p.scope session actor).listed.values,
      ∃ value, Readable m ((p.scope session actor).entries id) value := by
    intro id hid
    obtain ⟨name, hn⟩ := Dict.mem_values.mp hid
    obtain ⟨_, -, value, hread, -⟩ := hscope.bound hn
    exact ⟨value, hread⟩
  obtain ⟨b, hb, hnames, hget⟩ := Scope.loaded_listed (hf.listed actor).distinct hread session
  refine ⟨b, hb, fun name => ?_, fun hnever name => ?_⟩
  · rw [(World.tidy_of_loaded hb).get?_isSome, ← hscope.isSome, ← hnames]
    rfl
  · cases hn : (p.scope session actor).listed.get? name with
    | none =>
      rw [hscope.free hn, Bundle.Tidy.get?_none (show b.names.get? name = none from hnames ▸ hn)]
      rfl
    | some id =>
      obtain ⟨value, hlatest, value', hread', he⟩ := hscope.bound hn
      rw [hget hn hread', hlatest]
      exact he hnever

/-- A bundle with the stored names may be opened. -/
theorem load (h : p.Tells m session never neat latest views bundles) {new : List (Bundle V)}
    (hb : ∀ b ∈ new, b.names = (p.names session).getD Dict.empty) :
    p.Tells m session never neat latest views (new ++ bundles) := by
  refine ⟨h.scope, fun hneat hnone b hheld => ?_⟩
  rcases hheld with he | hmem | hview
  · exact h.bare hneat hnone b (.inl he)
  · rcases List.mem_append.mp hmem with hnew | hold
    · rw [hb b hnew, hnone]
      rfl
    · exact h.bare hneat hnone b (.inr (.inl hold))
  · exact h.bare hneat hnone b (.inr (.inr hview))

theorem openView (h : p.Tells m session never neat latest views bundles)
    (hseats : ∀ n ∈ views, n < p.views.length) {b : Bundle V}
    (hb : b = Bundle.empty ∨ b ∈ bundles) (view : View V) (factory : Nat) :
    PlainWorld.Tells m session never neat latest
      { p with views := p.views ++ [⟨view, factory, ⟨b, []⟩⟩] } (p.views.length :: views)
      bundles := by
  refine ⟨fun actor => ?_, fun hneat hnone b' hheld => ?_⟩
  · obtain ⟨hfree, hbound, hexact⟩ := h.scope actor
    exact ⟨hfree, hbound, hexact⟩
  · exact h.bare hneat hnone b' (hheld.of_openView hseats hb)

/-- A view has done an operation. -/
theorem withScope {latest' : String → Option V}
    (h : p.Tells m session never neat latest views bundles) (view factory : Nat) {s : Scope V}
    (hs : s.Tells m never neat latest')
    (hbare : neat → s.stored = none → p.names session = none ∧ s.bundle.names = Dict.empty) :
    (p.withScope session ⟨factory, some view⟩ s).Tells m session never neat latest' views
      bundles := by
  let actor : World.Actor := ⟨factory, some view⟩
  refine ⟨fun _ => ?_, fun hneat hnone b hheld => ?_⟩
  · exact hs.alike (names_withScope _ _ actor _) (funext (attributes_withScope _ _ actor _))
  · rw [names_withScope] at hnone
    obtain ⟨hunstored, hnames⟩ := hbare hneat hnone
    rcases hheld.of_withScope with rfl | hheld
    · exact hnames
    · exact h.bare hneat hunstored b hheld

end PlainWorld.Tells

namespace Writes

variable [BEq V] {m : Marshaller V} {session : SessionId} {x : Supply} {never neat : Prop}
  {fits : Option Names → Bundle V → ViewCall V → Prop} {c₀ c : Chronicle V σ}

/-- What the stores tell, they tell through a whole run of operations that are fit for them. -/
theorem tells (h : Writes m session x never fits c₀ c) (hs : c₀.world.Sound)
    (hfiled : ∃ owner, c₀.world.plain.Filed session x owner c₀.views c₀.bundles)
    (hfits : ∀ {stored b call}, fits stored b call →
      (neat → stored = none → b.names = Dict.empty) →
        call.Founded stored b ∧ (neat → call.Informed stored b))
    (h₀ : c₀.world.plain.Tells m session never neat c₀.latest c₀.views c₀.bundles) :
    c.world.plain.Tells m session never neat c.latest c.views c.bundles := by
  induction h with
  | start => exact h₀
  | passive hrun hp ih =>
    obtain ⟨hs, -⟩ := hrun.filed hs hfiled
    obtain ⟨-, hplain⟩ := hp.keeps hs
    exact hplain.symm ▸ ih
  | @load c w env factory repair answer hrun hc hl ih =>
    obtain ⟨hs, owner, hfiled⟩ := hrun.filed hs hfiled
    obtain ⟨b, hb, -⟩ := ih.loaded hfiled ⟨factory, none⟩
    obtain ⟨-, hp, -⟩ := World.load_found hc hs factory repair hb
    rw [hl] at hp
    have hp : w.plain = c.world.plain := hp
    rw [hp]
    refine ih.load fun b hb => ?_
    rw [mem_returned hb] at hl
    exact Scope.loaded_names (World.found_of_load hc hs hl).2.2
  | openView hrun hb ho ih =>
    obtain ⟨hs, owner, hfiled⟩ := hrun.filed hs hfiled
    obtain ⟨rfl, view, -, hp⟩ := World.openView_shape ho
    rw [hp]
    refine ih.openView (fun n hn => ?_) hb view _
    exact (List.getElem?_eq_some_iff.mp (hfiled.seats n hn).choose_spec.1).1
  | @call c env view live hrun hc hr hx hd hv hl call hw hi hf ih =>
    obtain ⟨hs, owner, hfiled⟩ := hrun.filed hs hfiled
    obtain rfl : live.view.session = session := hfiled.belongs hv hl
    obtain ⟨hb, -, -, ha, activated, hp⟩ := World.call_live hc hr hs hl call
    rw [hx] at ha hp
    have hheld : c.world.plain.Holds c.views c.bundles live.state.bundle :=
      .inr (.inr ⟨view, hv, live.plain, World.plain_live hl, rfl⟩)
    obtain ⟨hfounded, hinformed⟩ := hfits hf fun hneat hnone => ih.bare hneat hnone _ hheld
    rw [← hb] at hw hfounded hinformed
    have htells := (ih.scope ⟨live.factory, some view⟩).carryOut (hfiled.scope hv live.factory) hd
      call hw hi hfounded hinformed
    rw [← ha, hb] at htells
    rw [hp]
    refine ih.withScope view live.factory (htells.announcing activated) fun hneat hnone => ?_
    obtain ⟨hnone, hnames⟩ := Scope.carryOut_unstored hnone
    rw [hb] at hnames
    exact ⟨hnone, hnames.trans (ih.bare hneat hnone _ hheld)⟩

/-- The views of a session that starts empty, none of which goes by an attribute that another one
has bound anew or dropped: every load finds what was written last, and there is an entry for each
name that it finds and for nothing else. -/
theorem last_wins {w₀ : World V σ} (hs : w₀.Sound) (hn : w₀.names.store.find? session = none)
    (ha : ∀ id, w₀.attributes.store.find? ⟨session, id⟩ = none)
    (h : Writes m session x True ViewCall.Informed ⟨w₀, [], [], fun _ => none⟩ c) :
    (∀ (env : Surroundings V σ) (factory : Nat) (repair : Bool), env.Calm m → env.Reliable →
      (c.world.factory? factory).map Factory.isOpen = some true →
      ∃ b, (c.world.carryOut env ⟨factory, none⟩ (Session.load session repair).run).1 =
        .ok (some b) ∧ b.Follows c.latest) ∧
    ∃ names, (c.world.names.store.find? session).getD Dict.empty = names ∧ names.Injective ∧
      (∀ name, (names.get? name).isSome = (c.latest name).isSome) ∧
      ∀ id, (c.world.attributes.store.find? ⟨session, id⟩).isSome ↔ id ∈ names.values := by
  have hfiled : ∃ owner, w₀.plain.Filed session x owner [] [] :=
    PlainWorld.Filed.start fun names hnames => nomatch hn.symm.trans hnames
  have hempty : ∀ actor, (w₀.plain.scope session actor).listed = Dict.empty :=
    fun _ => congrArg (Option.getD · Dict.empty) hn
  have htold : w₀.plain.Tells m session True True (fun _ => none) [] [] := by
    refine ⟨fun actor => ⟨fun _ => rfl, fun {name id} hb => ?_, fun _ {id} hid => ?_⟩,
      fun _ _ b hheld => ?_⟩
    · rw [hempty] at hb
      cases hb
    · exact absurd (ha id) hid
    · rcases hheld with rfl | ⟨⟨⟩⟩ | ⟨_, ⟨⟩, _⟩
      rfl
  obtain ⟨hs', owner, hf⟩ := h.filed hs hfiled
  have htells := h.tells hs hfiled (fun {stored b call} hf hbare => ?_) htold
  · refine ⟨fun env factory repair hc hr hopen => ?_, _, rfl, ?_, fun name => ?_, fun id => ?_⟩
    · obtain ⟨b, hb, -, hfollows⟩ := htells.loaded hf ⟨factory, none⟩
      obtain ⟨-, -, -, hanswer⟩ := World.load_found hc hs' factory repair hb
      exact ⟨b, hanswer hr ((World.isOpen_scope factory none).mpr hopen), hfollows trivial⟩
    · exact (hf.listed ⟨0, none⟩).injective
    · exact (htells.scope ⟨0, none⟩).isSome name
    · refine ⟨fun hid => ?_, (htells.scope ⟨0, none⟩).present⟩
      exact (htells.scope ⟨0, none⟩).exact trivial (Option.isSome_iff_ne_none.mp hid)
  · exact ⟨hf.founded (hbare trivial), fun _ => hf⟩

/-- Two views of an empty session. -/
theorem paired (never : Prop) (fits : Option Names → Bundle Bool → ViewCall Bool → Prop) :
    Writes .bits "s" .counting never fits ⟨World.single Bool, [], [], fun _ => none⟩
      ⟨World.paired, [1, 0], [], fun _ => none⟩ :=
  (Writes.start.openView (.inl rfl) World.viewed_open).openView (.inl rfl) World.paired_open

/-- Both views write one name, the second without knowing of the first. -/
theorem last_wins_rebound :
    ∃ c : Chronicle Bool Unit, Writes .bits "s" .counting True ViewCall.Informed
        ⟨World.single Bool, [], [], fun _ => none⟩ c ∧ c.latest "a" = some false ∧
      ∃ b, (c.world.carryOut (.quiet .bits AttributeId.ofNat) ⟨0, none⟩
        (Session.load "s" true).run).1 = .ok (some b) ∧ b.Follows c.latest := by
  let env : Surroundings Bool Unit := .quiet .bits AttributeId.ofNat
  let turns : List (Nat × ViewCall Bool) := [(0, .set "a" true), (1, .set "a" false)]
  let c₁ : Chronicle Bool Unit := ⟨World.paired, [1, 0], [], fun _ => none⟩
  have hfollows : c₁.Follows env "s" .counting True ViewCall.Informed turns := by decide +kernel
  have hrun := (paired True ViewCall.Informed).follow (Surroundings.quiet_calm _ _)
    (Surroundings.quiet_reliable _ _) rfl bits_faithful hfollows
  have hnames : (World.single Bool).names.store.find? "s" = none :=
    congrFun (congrArg PlainWorld.names (World.single_plain Bool)) "s"
  have hentries : ∀ id, (World.single Bool).attributes.store.find? ⟨"s", id⟩ = none :=
    fun id => congrFun (congrArg PlainWorld.attributes (World.single_plain Bool)) ⟨"s", id⟩
  obtain ⟨hload, -⟩ := last_wins (World.single_sound Bool) hnames hentries hrun
  exact ⟨_, hrun, by decide +kernel, hload env 0 true (Surroundings.quiet_calm _ _)
    (Surroundings.quiet_reliable _ _) (by decide +kernel)⟩

/-- A view that goes on to write the attribute that another one has replaced: its value is lost, and
its entry is left behind. -/
theorem last_write_lost :
    ∃ c : Chronicle Bool Unit, Writes .bits "s" .counting True (fun _ _ _ => True)
        ⟨World.single Bool, [], [], fun _ => none⟩ c ∧ c.latest "a" = some true ∧
      ((c.world.carryOut (.quiet .bits AttributeId.ofNat) ⟨0, none⟩
        (Session.load "s" true).run).1.toOption.join.map (·.get? "a")) = some (some false) ∧
      c.world.names.store.find? "s" = some (Dict.empty.insert "a" (AttributeId.ofNat 1)) ∧
      (c.world.attributes.store.find? ⟨"s", AttributeId.ofNat 0⟩).isSome := by
  let env : Surroundings Bool Unit := .quiet .bits AttributeId.ofNat
  let turns : List (Nat × ViewCall Bool) :=
    [(0, .set "a" true), (1, .set "a" false), (0, .set "a" true)]
  let c₁ : Chronicle Bool Unit := ⟨World.paired, [1, 0], [], fun _ => none⟩
  have hfollows : c₁.Follows env "s" .counting True (fun _ _ _ => True) turns := by
    decide +kernel
  have hrun := (paired True fun _ _ _ => True).follow (Surroundings.quiet_calm _ _)
    (Surroundings.quiet_reliable _ _) rfl bits_faithful hfollows
  exact ⟨_, hrun, by decide +kernel, by decide +kernel, by decide +kernel, by decide +kernel⟩

end Writes
end SessionAttributes
