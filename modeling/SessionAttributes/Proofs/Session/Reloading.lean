import SessionAttributes.Proofs.Json.RoundTrip
import SessionAttributes.Proofs.Session.Chronicle
import SessionAttributes.Proofs.Session.Verdict

namespace SessionAttributes

variable {V σ : Type} {m : Marshaller V} {session : SessionId}

def Marshaller.decoded (m : Marshaller V) (entry : Option Bytes) : Option V := do
  let bytes ← entry
  (m.read bytes).toOption

theorem Marshaller.decoded_eq_some {entry : Option Bytes} {value : V} :
    m.decoded entry = some value ↔ Readable m entry value := by
  constructor
  · intro h
    obtain ⟨bytes, he, hr⟩ := Option.bind_eq_some_iff.mp h
    refine ⟨bytes, he, ?_⟩
    cases hb : m.read bytes with
    | error fault =>
      rw [hb] at hr
      cases hr
    | ok value' =>
      rw [hb] at hr
      cases hr
      rfl
  · rintro ⟨bytes, rfl, hr⟩
    change (m.read bytes).toOption = some value
    rw [hr]
    rfl

namespace Scope

/-- What the stored names and entries tell about a name. -/
def reads (m : Marshaller V) (s : Scope V) (name : String) : Option V := do
  let id ← s.listed.get? name
  m.decoded (s.entries id)

theorem reads_of_listed {s : Scope V} {name : String} {id : AttributeId}
    (h : s.listed.get? name = some id) : s.reads m name = m.decoded (s.entries id) := by
  simp [reads, h]

/-- A load answers name by name. -/
theorem loaded_get? {s : Scope V} {b : Bundle V} (hl : s.loaded m session = some b)
    (name : String) : b.attributeId? name = s.listed.get? name ∧ b.get? name = s.reads m name := by
  have hnames : b.attributeId? name = s.listed.get? name :=
    congrArg (·.get? name) (loaded_names hl)
  refine ⟨hnames, ?_⟩
  rw [Bundle.get?_eq, hnames]
  cases hid : s.listed.get? name with
  | none => simp [reads, hid]
  | some id =>
    rw [reads_of_listed hid]
    cases hs : s.stored with
    | none => simp [listed, hs] at hid
    | some names =>
      have hm : id ∈ names.values := by
        rw [listed, hs, Option.getD_some] at hid
        exact Dict.mem_values.mpr ⟨name, hid⟩
      refine Option.ext fun value => ?_
      refine ((loaded_verdict s m session).values names b hs hl id value).trans ?_
      rw [Marshaller.decoded_eq_some, and_iff_right hm]

/-- A load finds a bundle if each identifier has one name and each name can be read. -/
theorem loaded_isSome_iff (s : Scope V) (m : Marshaller V) (session : SessionId) :
    (s.loaded m session).isSome ↔ s.listed.values.Nodup ∧
      ∀ name, (s.listed.get? name).isSome → (s.reads m name).isSome := by
  cases hs : s.stored with
  | none =>
    rw [(loaded_verdict s m session).absent hs]
    simp [listed, hs, Dict.empty, Dict.values, Dict.get?]
  | some names =>
    have hlisted : s.listed = names := by rw [listed, hs, Option.getD_some]
    rw [(loaded_verdict s m session).present names hs, hlisted]
    refine and_congr_right fun _ => ⟨fun h name hn => ?_, fun h id hm => ?_⟩
    · obtain ⟨id, hid⟩ := Option.isSome_iff_exists.mp hn
      obtain ⟨value, hr⟩ := h id (Dict.mem_values.mpr ⟨name, hid⟩)
      rw [reads_of_listed (hlisted ▸ hid), Marshaller.decoded_eq_some.mpr hr]
      rfl
    · obtain ⟨name, hid⟩ := Dict.mem_values.mp hm
      have hsome := h name (by rw [hid]; rfl)
      rw [reads_of_listed (hlisted ▸ hid)] at hsome
      obtain ⟨value, hr⟩ := Option.isSome_iff_exists.mp hsome
      exact ⟨value, Marshaller.decoded_eq_some.mp hr⟩

/-- A name refers to an attribute with an entry. No other name and no other entry has changed. -/
structure Binds (s s' : Scope V) (name : String) (id : AttributeId) (entry : Bytes) : Prop where
  listed : ∀ k, s'.listed.get? k = if k = name then some id else s.listed.get? k
  distinct : s'.listed.values.Nodup
  entry : s'.entries id = some entry
  others : ∀ k, k ≠ id → s'.entries k = s.entries k

section Binds
variable {s s' : Scope V} {name : String} {id : AttributeId} {entry : Bytes}

/-- No other name shares the identifier, so only the bound name may read something else. -/
theorem Binds.reads_eq (h : Binds s s' name id entry) (k : String) :
    s'.reads m k = if k = name then m.decoded (some entry) else s.reads m k := by
  have hname : s'.listed.get? name = some id := by rw [h.listed, if_pos rfl]
  by_cases hk : k = name
  · rw [if_pos hk, hk, reads_of_listed hname, h.entry]
  · have hsame : s'.listed.get? k = s.listed.get? k := by rw [h.listed, if_neg hk]
    rw [if_neg hk]
    cases hj : s.listed.get? k with
    | none => simp [reads, hsame, hj]
    | some j =>
      have hne : j ≠ id := by
        rintro rfl
        exact hk (Dict.injective_of_nodup h.distinct (hsame.trans hj) hname)
      rw [reads_of_listed (hsame.trans hj), reads_of_listed hj, h.others j hne]

/-- Of a session that was loadable before, the next load finds the new value and all the others. -/
theorem Binds.loaded (h : Binds s s' name id entry) {b : Bundle V}
    (hl : s.loaded m session = some b) {value : V} (hr : m.read entry = .ok value) :
    ∃ b', s'.loaded m session = some b' ∧ b'.get? name = some value ∧
      ∀ k, k ≠ name → b'.attributeId? k = b.attributeId? k ∧ b'.get? k = b.get? k := by
  have hvalue : m.decoded (some entry) = some value :=
    Marshaller.decoded_eq_some.mpr ⟨entry, rfl, hr⟩
  have hbefore : (s.loaded m session).isSome := by rw [hl]; rfl
  have hreads := ((loaded_isSome_iff s m session).mp hbefore).2
  have hafter : (s'.loaded m session).isSome := by
    refine (loaded_isSome_iff s' m session).mpr ⟨h.distinct, fun k hk => ?_⟩
    rw [h.reads_eq]
    by_cases hkn : k = name
    · rw [if_pos hkn, hvalue]
      rfl
    · rw [h.listed, if_neg hkn] at hk
      rw [if_neg hkn]
      exact hreads k hk
  obtain ⟨b', hl'⟩ := Option.isSome_iff_exists.mp hafter
  refine ⟨b', hl', ?_, fun k hk => ⟨?_, ?_⟩⟩
  · rw [(loaded_get? hl' name).2, h.reads_eq, if_pos rfl, hvalue]
  · rw [(loaded_get? hl' k).1, (loaded_get? hl k).1, h.listed, if_neg hk]
  · rw [(loaded_get? hl' k).2, (loaded_get? hl k).2, h.reads_eq, if_neg hk]

/-- One entry that cannot be read makes the whole load fail. -/
theorem Binds.lost (h : Binds s s' name id entry) {fault : SessionError}
    (hr : m.read entry = .error fault) (session : SessionId) : s'.loaded m session = none := by
  rw [← Option.not_isSome_iff_eq_none, loaded_isSome_iff]
  intro hall
  have hname := hall.2 name (by rw [h.listed, if_pos rfl]; rfl)
  rw [h.reads_eq, if_pos rfl] at hname
  obtain ⟨value, hv⟩ := Option.isSome_iff_exists.mp hname
  obtain ⟨bytes, hb, hok⟩ := Marshaller.decoded_eq_some.mp hv
  cases hb
  cases hr.symm.trans hok

end Binds

section Set
variable [BEq V] {s : Scope V} {name : String} {value : V} {id : AttributeId} {bytes : Bytes}

theorem Mirrors.listed (h : s.Mirrors m) : s.listed = s.bundle.names := by
  rcases h.stored with hs | ⟨hs, hb⟩
  · rw [Scope.listed, hs, Option.getD_some]
  · rw [Scope.listed, hs, hb]
    rfl

theorem Mirrors.loads (h : s.Mirrors m) (session : SessionId) :
    ∃ b, s.loaded m session = some b := by
  cases hs : s.stored with
  | none => exact ⟨Bundle.empty, (loaded_verdict s m session).absent hs⟩
  | some names =>
    obtain ⟨b, hl, -⟩ := (h.healthy hs).loaded hs session
    exact ⟨b, hl⟩

theorem Mirrors.binds_same (h : s.Mirrors m) (hb : s.bundle.attributeId? name = some id)
    {entry : Bytes} (he : s.entries id = some entry) : Binds s s name id entry := by
  refine ⟨fun k => ?_, h.listed ▸ h.tidy.distinct.values_nodup, he, fun _ _ => rfl⟩
  by_cases hk : k = name
  · rw [if_pos hk, hk, h.listed]
    exact hb
  · rw [if_neg hk]

theorem Mirrors.binds_overwrite (h : s.Mirrors m) (hb : s.bundle.attributeId? name = some id)
    (value : V) (bytes : Bytes) : Binds s (s.overwrite value id bytes) name id bytes := by
  obtain ⟨held, -, hv⟩ := h.tidy.get?_some hb
  obtain ⟨-, ⟨entry, he, -⟩, -⟩ := h.read hv
  have hsame := h.binds_same hb he
  exact ⟨hsame.listed, hsame.distinct, Function.update_self .., fun k hk =>
    Function.update_of_ne hk ..⟩

theorem Mirrors.binds_create (h : s.Mirrors m) (hb : s.bundle.attributeId? name = none)
    (hid : id ∉ s.bundle.names.values) (value : V) (bytes : Bytes) :
    Binds s (s.create name value id bytes) name id bytes := by
  have hlisted : (s.create name value id bytes).listed = s.bundle.names.insert name id := by
    rw [Scope.listed, create_stored, Option.getD_some, h.known]
  have hfree : s.known.get? name = none := by
    rw [h.known]
    exact hb
  refine ⟨fun k => ?_, ?_, ?_, fun k hk => ?_⟩
  · rw [hlisted, Dict.get?_insert, h.listed]
  · rw [hlisted]
    exact (h.tidy.distinct.insert hid).values_nodup
  · rw [create_entries, hfree]
    simp
  · rw [create_entries, hfree]
    simp [hk]

/-- A write of a view that mirrors its session, also one that is skipped, leaves the name with an
entry that is what the value encodes to or at least decodes to it. -/
theorem Mirrors.set_binds (h : s.Mirrors m) (hw : m.write value = .ok bytes)
    (he : ∀ x, (x == value) = true → x = value) {draw : Nat → AttributeId}
    (hd : draw s.drawn ∉ s.bundle.names.values) (immutability : Immutability V) (name : String) :
    ∃ previous id entry, (s.set m draw immutability name value).1 = .ok previous ∧
      Binds s (s.set m draw immutability name value).2 name id entry ∧
      (entry = bytes ∨ m.read entry = .ok value) := by
  unfold Scope.set
  rw [hw]
  dsimp only
  split
  · -- No store call is made: the view holds an equal value, and what is stored decodes to one.
    rename_i hskip
    obtain ⟨hg, -⟩ := Bool.and_eq_true_iff.mp hskip
    cases hb : s.bundle.attributeId? name with
    | none =>
      rw [Bundle.Tidy.get?_none hb] at hg
      cases hg
    | some id =>
      obtain ⟨held, hget, hv⟩ := h.tidy.get?_some hb
      rw [hget] at hg
      cases he held hg
      obtain ⟨stored, ⟨entry, hentry, hr⟩, hsame⟩ := h.read hv
      cases he stored hsame
      exact ⟨_, id, entry, rfl, h.binds_same hb hentry, .inr hr⟩
  · cases hb : s.bundle.attributeId? name with
    | some id => exact ⟨_, id, bytes, rfl, h.binds_overwrite hb value bytes, .inl rfl⟩
    | none =>
      have hdrawn : Scope.Mirrors m { s with drawn := s.drawn + 1 } :=
        ⟨h.tidy, h.stored, h.read⟩
      obtain ⟨hlisted, hdistinct, hentry, hothers⟩ := hdrawn.binds_create hb hd value bytes
      exact ⟨_, draw s.drawn, bytes, rfl, ⟨hlisted, hdistinct, hentry, hothers⟩, .inl rfl⟩

end Set
end Scope

/-- What is stored for a value is read back as that value, unless it is nested too deep. -/
theorem Frame.read_stored {v : Json} (h : v.Canonical) {frame : Bytes}
    (hf : frame = write v ∨ read frame = .ok v) :
    if v.depth ≤ Json.depthLimit then read frame = .ok v
      else ∃ fault, read frame = .error fault := by
  split
  · rename_i hd
    rcases hf with rfl | hr
    · exact read_write h hd
    · exact hr
  · rename_i hd
    rcases hf with rfl | hr
    · obtain ⟨column, hrefused⟩ := read_deep h (Nat.lt_of_not_le hd)
      exact ⟨_, hrefused⟩
    · exact absurd (read_depth hr) hd

namespace World

variable {w : World V σ} {env env' : Surroundings V σ} {number factory : Nat} {live : LiveView V}

/-- The load after a write of a view finds what the write has left in the scope of the view. -/
theorem find_after_set [BEq V] (hc : env.Calm m) (hr : env.Reliable) (hc' : env'.Calm m)
    (hr' : env'.Reliable) (hs : w.Sound) (hl : w.view? number = some live)
    (ho : (w.factory? factory).map Factory.isOpen = some true) (name : String) (value : V) :
    let session := live.view.session
    let s := w.plain.scope session ⟨live.factory, some number⟩
    let s' := s.set m env.draw live.view.immutability name value
    let written := w.carryOut env ⟨live.factory, some number⟩ (live.view.set name value).run
    let found := written.2.carryOut env' ⟨factory, none⟩ (Session.find session).run
    written.1 = s'.1 ∧ found.1 = .ok (s'.2.loaded m session) ∧
      ((s'.2.loaded m session).isSome → written.2.Unchanged found.2) ∧
      (s'.2.loaded m session = none → ∃ names,
        written.2.names.store.find? session = some names ∧
          Purged session names written.2 found.2) := by
  intro session s s' written found
  have hv : w.plain.views[number]? = some live.plain := plain_live hl
  obtain ⟨hs', hanswer, activated, hplain, hscope⟩ := call_effect hc hr hs hv (.set name value)
  have hopen : (written.2.factory? factory).map Factory.isOpen = some true :=
    isOpen_of_factories ((congrArg PlainWorld.factories hplain).trans rfl) ho
  have hloaded : (written.2.plain.scope session ⟨factory, none⟩).loaded m session =
      s'.2.loaded m session := congrArg (·.loaded m session) hscope
  obtain ⟨hfound, -, -, hkept, hpurged⟩ := find_settles hc' hr' hs' hopen session
  rw [← hloaded]
  exact ⟨hanswer, hfound, hkept, hpurged⟩

section Framed
variable {w : World Json σ} {env env' : Surroundings Json σ} {number factory : Nat}
  {live : LiveView Json} {v : Json}
  (hc : env.Calm Frame.marshaller) (hr : env.Reliable) (hc' : env'.Calm Frame.marshaller)
  (hr' : env'.Reliable) (hs : w.Sound) (hl : w.view? number = some live)
  (hm : (w.plain.scope live.view.session ⟨live.factory, some number⟩).Mirrors Frame.marshaller)
  (hd : env.draw w.drawn ∉ live.state.bundle.names.values)
  (ho : (w.factory? factory).map Factory.isOpen = some true) (name : String) (hv : v.Canonical)

include hl hm hd hv in
/-- Whatever its depth, a value is stored under its name. -/
theorem set_frame :
    let s := w.plain.scope live.view.session ⟨live.factory, some number⟩
    let s' := s.set Frame.marshaller env.draw live.view.immutability name v
    ∃ previous id entry, s'.1 = .ok previous ∧ Scope.Binds s s'.2 name id entry ∧
      if v.depth ≤ Json.depthLimit then Frame.read entry = .ok v
        else ∃ fault, Frame.read entry = .error fault := by
  intro s s'
  have hbundle : s.bundle = live.state.bundle :=
    PlainWorld.scope_bundle (plain_live hl) _ _
  rw [← hbundle] at hd
  obtain ⟨previous, id, entry, ha, hbinds, hentry⟩ := hm.set_binds rfl
    (fun x => (Json.equal_iff v hv x).mp) hd live.view.immutability name
  exact ⟨previous, id, entry, ha, hbinds, Frame.read_stored hv hentry⟩

include hc hr hc' hr' hs hl hm hd ho hv in
/-- After a view that mirrors its session has written a value that is not nested too deep, the next
load finds the session with this value, and all else as before. -/
theorem set_survives (hdepth : v.depth ≤ Json.depthLimit) :
    let session := live.view.session
    let peeked := w.carryOut env ⟨factory, none⟩ (Session.peek session).run
    let written := w.carryOut env ⟨live.factory, some number⟩ (live.view.set name v).run
    let found := written.2.carryOut env' ⟨factory, none⟩ (Session.find session).run
    ∃ before previous after, peeked.1 = .ok (some before) ∧ written.1 = .ok previous ∧
      found.1 = .ok (some after) ∧ after.get? name = some v ∧
      (∀ k, k ≠ name →
        after.attributeId? k = before.attributeId? k ∧ after.get? k = before.get? k) ∧
      written.2.Unchanged found.2 := by
  intro session peeked written found
  obtain ⟨previous, id, entry, hset, hbinds, hread⟩ := set_frame hl hm hd name hv
  rw [if_pos hdepth] at hread
  obtain ⟨-, hpeeked, -⟩ := load_plain hc hr hs ho session false
  obtain ⟨before, hbefore⟩ := hm.loads session
  obtain ⟨after, hafter, hvalue, hothers⟩ := hbinds.loaded hbefore hread
  obtain ⟨hwritten, hfound, hkept, -⟩ := find_after_set hc hr hc' hr' hs hl ho name v
  rw [hafter] at hfound hkept
  exact ⟨before, previous, after, hpeeked.trans (congrArg Except.ok hbefore), hwritten.trans hset,
    hfound, hvalue, hothers, hkept rfl⟩

include hc hr hc' hr' hs hl hm hd ho hv in
/-- A value that is nested too deep is written all the same, and the next load purges the
session. -/
theorem set_lost (hdepth : Json.depthLimit < v.depth) :
    let session := live.view.session
    let written := w.carryOut env ⟨live.factory, some number⟩ (live.view.set name v).run
    let found := written.2.carryOut env' ⟨factory, none⟩ (Session.find session).run
    ∃ previous names, written.1 = .ok previous ∧ found.1 = .ok none ∧
      written.2.names.store.find? session = some names ∧
      Purged session names written.2 found.2 := by
  intro session written found
  obtain ⟨previous, id, entry, hset, hbinds, hread⟩ := set_frame hl hm hd name hv
  rw [if_neg (Nat.not_le.mpr hdepth)] at hread
  obtain ⟨fault, hread⟩ := hread
  obtain ⟨hwritten, hfound, -, hpurged⟩ := find_after_set hc hr hc' hr' hs hl ho name v
  have hlost := hbinds.lost (m := Frame.marshaller) hread session
  rw [hlost] at hfound
  obtain ⟨names, hnames, hall⟩ := hpurged hlost
  exact ⟨previous, names, hwritten.trans hset, hfound, hnames, hall⟩

end Framed

def note : LiveView Json :=
  ⟨⟨"s", false, Immutability.never⟩, 0, ⟨Bundle.empty, []⟩, false, none⟩

def noted : World Json Unit := { single Json with views := [note] }

theorem noted_sound : noted.Sound := by
  have hopen : (single Json).openView 0 "s" Bundle.empty ⟨0, 0, 0⟩ "" = .ok (0, noted) := rfl
  exact openView_sound hopen (single_sound Json)

theorem noted_mirrors : (noted.plain.scope "s" ⟨0, some 0⟩).Mirrors Frame.marshaller := by
  have hp : noted.plain = { (single Json).plain with views := [note.plain] } := rfl
  refine Scope.mirrors_empty ?_ rfl
  change noted.plain.names "s" = none
  rw [hp, single_plain]
  rfl

def noting : Surroundings Json Unit := .quiet Frame.marshaller AttributeId.ofNat

theorem noting_calm : noting.Calm Frame.marshaller := Surroundings.quiet_calm _ _

theorem noting_reliable : noting.Reliable := Surroundings.quiet_reliable _ _

/-- Arrays inside one another, as deep as may be. -/
theorem set_survives_deepest :
    noting.Calm Frame.marshaller ∧ noting.Reliable ∧ noted.Sound ∧ noted.view? 0 = some note ∧
      (noted.plain.scope note.view.session ⟨note.factory, some 0⟩).Mirrors Frame.marshaller ∧
      noting.draw noted.drawn ∉ note.state.bundle.names.values ∧
      (noted.factory? 0).map Factory.isOpen = some true ∧ (Json.nest .null 127).Canonical ∧
      (Json.nest .null 127).depth ≤ Json.depthLimit ∧
      ∃ w₁ w₂ previous after,
        noted.carryOut noting ⟨note.factory, some 0⟩
          (note.view.set "a" (.nest .null 127)).run = (.ok previous, w₁) ∧
        w₁.carryOut noting ⟨0, none⟩ (Session.find note.view.session).run =
          (.ok (some after), w₂) ∧
        after.get? "a" = some (.nest .null 127) ∧ w₁.Unchanged w₂ := by
  have hd : noting.draw noted.drawn ∉ note.state.bundle.names.values := List.not_mem_nil
  have ho : (noted.factory? 0).map Factory.isOpen = some true := rfl
  have hv : (Json.nest .null 127).Canonical := Json.canonical_nest (v := .null) trivial 127
  have hdepth : (Json.nest .null 127).depth ≤ Json.depthLimit := (Json.depth_nest .null 127).le
  obtain ⟨-, previous, after, -, hwritten, hfound, hvalue, -, hkept⟩ := set_survives noting_calm
    noting_reliable noting_calm noting_reliable noted_sound rfl noted_mirrors hd ho "a" hv hdepth
  exact ⟨noting_calm, noting_reliable, noted_sound, rfl, noted_mirrors, hd, ho, hv, hdepth, _, _,
    previous, after, Prod.fst_eq_iff.mp hwritten, Prod.fst_eq_iff.mp hfound, hvalue, hkept⟩

/-- One array more, and the session is purged by its next load. -/
theorem set_lost_deeper :
    noted.Sound ∧ noted.view? 0 = some note ∧
      (noted.plain.scope note.view.session ⟨note.factory, some 0⟩).Mirrors Frame.marshaller ∧
      (Json.nest .null 128).Canonical ∧
      ∃ w₁ w₂ previous names,
        noted.carryOut noting ⟨note.factory, some 0⟩
          (note.view.set "a" (.nest .null 128)).run = (.ok previous, w₁) ∧
        w₁.carryOut noting ⟨0, none⟩ (Session.find note.view.session).run = (.ok none, w₂) ∧
        Purged note.view.session names w₁ w₂ := by
  have hd : noting.draw noted.drawn ∉ note.state.bundle.names.values := List.not_mem_nil
  have ho : (noted.factory? 0).map Factory.isOpen = some true := rfl
  have hv : (Json.nest .null 128).Canonical := Json.canonical_nest (v := .null) trivial 128
  have hdepth : Json.depthLimit < (Json.nest .null 128).depth := (Json.depth_nest .null 128).ge
  obtain ⟨previous, names, hwritten, hfound, -, hall⟩ := set_lost noting_calm noting_reliable
    noting_calm noting_reliable noted_sound rfl noted_mirrors hd ho "a" hv hdepth
  exact ⟨noted_sound, rfl, noted_mirrors, hv, _, _, previous, names,
    Prod.fst_eq_iff.mp hwritten, Prod.fst_eq_iff.mp hfound, hall⟩

end World
end SessionAttributes
