import SessionAttributes.Proofs.Session.Contention
import SessionAttributes.Proofs.Session.Handover

namespace SessionAttributes

variable {V σ : Type} [BEq V] {m : Marshaller V} {session : SessionId} {x : Supply} {number : Nat}

/-- An entry that is stored decodes to a value equal to this one. -/
def Bears (m : Marshaller V) (entry : Option Bytes) (value : V) : Prop :=
  entry ≠ none → Scope.Keeps m entry value

/-- The values of a view and the stored entries while operations are on their way. An attribute
whose entry is another one than the view knows is about to be handed over by the one that stored
it last. -/
structure Agreed (m : Marshaller V) (g : Writers) (holder : Option Nat) (draft : Nat → Draft V)
    (s : Scope V) : Prop where
  own : ∀ i, g.own i = (draft i).stored.map Prod.fst
  seen : ∀ {i b}, (draft i).seen = some b → holder = some i ∧ s.bundle = b
  newest : ∀ {i id value}, g.last id = some i → (draft i).stored = some (id, value) →
    Bears m (s.entries id) value
  values : ∀ id ∈ s.bundle.names.values, ∃ value, s.bundle.value? id = some value ∧
    (Bears m (s.entries id) value ∨ (g.last id).bind g.own = some id)

namespace Agreed

variable {g : Writers} {holder : Option Nat} {draft : Nat → Draft V} {s : Scope V} {i : Nat}
  {id : AttributeId}

/-- Whoever has stored an entry owns its attribute. -/
theorem own_of_stored (h : Agreed m g holder draft s) {value : V}
    (hi : (draft i).stored = some (id, value)) : g.own i = some id := by
  rw [h.own, hi]
  rfl

/-- The part of one operation changes, and what it owns with it. -/
theorem own_update (h : Agreed m g holder draft s) {d : Draft V} {owned : Option AttributeId}
    (hd : owned = d.stored.map Prod.fst) (j : Nat) :
    Function.update g.own i owned j = (Function.update draft i d j).stored.map Prod.fst := by
  by_cases hj : j = i
  · rw [hj, Function.update_self, Function.update_self, hd]
  · rw [Function.update_of_ne hj, Function.update_of_ne hj, h.own]

omit [BEq V] in
/-- What an operation has seen is not changed by what it stores. -/
theorem seen_update {stored : Option (AttributeId × V)} {j : Nat} {b : Bundle V}
    (hb : (Function.update draft i { draft i with stored } j).seen = some b) :
    (draft j).seen = some b := by
  by_cases hj : j = i
  · rw [hj, Function.update_self] at hb
    rw [hj]
    exact hb
  · rw [Function.update_of_ne hj] at hb
    exact hb

/-- An operation that has stored nothing stores an entry. -/
theorem put (h : Agreed m g holder draft s) (hi : (draft i).stored = none) {bytes : Bytes}
    {value : V} (hk : Scope.Keeps m (some bytes) value) :
    Agreed m ⟨Function.update g.own i (some id), Function.update g.last id (some i)⟩ holder
      (Function.update draft i { draft i with stored := some (id, value) })
      (s.setEntry id (some bytes)) := by
  have hentry : ∀ {k}, k ≠ id → (s.setEntry id (some bytes)).entries k = s.entries k :=
    fun hne => Function.update_of_ne hne _ _
  have hnew : (s.setEntry id (some bytes)).entries id = some bytes := Function.update_self ..
  have hfree : ∀ {j k}, g.own j = some k → j ≠ i := by
    rintro j k hj rfl
    rw [h.own, hi] at hj
    cases hj
  refine ⟨h.own_update rfl, fun hb => h.seen (seen_update hb),
    fun {j k v} hlast hstored => ?_, fun k hk' => ?_⟩
  · dsimp only at hlast
    by_cases hkid : k = id
    · subst hkid
      rw [Function.update_self] at hlast
      obtain rfl := Option.some.inj hlast
      rw [Function.update_self] at hstored
      obtain ⟨-, rfl⟩ := Prod.mk.inj (Option.some.inj hstored)
      rw [Bears, hnew]
      exact fun _ => hk
    · rw [Function.update_of_ne hkid] at hlast
      rw [hentry hkid]
      refine h.newest hlast ?_
      by_cases hj : j = i
      · rw [hj, Function.update_self] at hstored
        exact absurd (Prod.mk.inj (Option.some.inj hstored)).1.symm hkid
      · rw [Function.update_of_ne hj] at hstored
        exact hstored
  · obtain ⟨v, hv, hshown⟩ := h.values k hk'
    refine ⟨v, hv, ?_⟩
    dsimp only
    by_cases hkid : k = id
    · subst hkid
      exact .inr (by simp)
    · rw [hentry hkid, Function.update_of_ne hkid]
      refine hshown.imp_right fun hlast => ?_
      obtain ⟨j, hj, hown⟩ := Option.bind_eq_some_iff.mp hlast
      rw [hj, Option.bind_some, Function.update_of_ne (hfree hown)]
      exact hown

/-- An entry is taken back, or another one that is not referred to any more is deleted. -/
theorem remove (h : Agreed m g holder draft s) :
    Agreed m { g with own := Function.update g.own i ((g.own i).filter (· != id)) } holder
      (Function.update draft i { draft i with stored := (draft i).stored.filter (·.1 != id) })
      (s.setEntry id none) := by
  have hentry : ∀ {k}, k ≠ id → (s.setEntry id none).entries k = s.entries k :=
    fun hne => Function.update_of_ne hne _ _
  have hgone : (s.setEntry id none).entries id = none := Function.update_self ..
  have howned : (g.own i).filter (· != id) =
      ((draft i).stored.filter (·.1 != id)).map Prod.fst := by
    rw [h.own, Option.filter_map]
    rfl
  refine ⟨h.own_update howned, fun hb => h.seen (seen_update hb),
    fun {j k v} hlast hstored => ?_, fun k hk => ?_⟩
  · by_cases hkid : k = id
    · rw [hkid, Bears, hgone]
      exact fun hne => absurd rfl hne
    · rw [hentry hkid]
      refine h.newest hlast ?_
      by_cases hj : j = i
      · rw [hj, Function.update_self] at hstored
        rw [hj]
        exact (Option.filter_eq_some_iff.mp hstored).1
      · rw [Function.update_of_ne hj] at hstored
        exact hstored
  · obtain ⟨v, hv, hshown⟩ := h.values k hk
    refine ⟨v, hv, ?_⟩
    by_cases hkid : k = id
    · rw [hkid, Bears, hgone]
      exact .inl fun hne => absurd rfl hne
    · rw [hentry hkid]
      refine hshown.imp_right fun hlast => ?_
      obtain ⟨j, hj, hown⟩ := Option.bind_eq_some_iff.mp hlast
      dsimp only
      rw [hj, Option.bind_some]
      by_cases hji : j = i
      · rw [hji] at hown
        rw [hji, Function.update_self, Option.filter_eq_some_iff]
        exact ⟨hown, by simpa using hkid⟩
      · rw [Function.update_of_ne hji]
        exact hown

/-- An operation takes the lock and reads the bundle. -/
theorem lock (h : Agreed m g none draft s) (i : Nat) :
    Agreed m g (some i) (Function.update draft i { draft i with seen := some s.bundle }) s := by
  have hstored : ∀ j, (Function.update draft i { draft i with seen := some s.bundle } j).stored =
      (draft j).stored := by
    intro j
    by_cases hj : j = i
    · rw [hj, Function.update_self]
    · rw [Function.update_of_ne hj]
  refine ⟨fun j => ?_, fun {j b} hb => ?_, fun hlast hs => h.newest hlast (hstored _ ▸ hs),
    h.values⟩
  · rw [hstored, h.own]
  · by_cases hj : j = i
    · rw [hj, Function.update_self] at hb
      exact ⟨congrArg some hj.symm, Option.some.inj hb⟩
    · rw [Function.update_of_ne hj] at hb
      cases (h.seen hb).1

/-- Under the lock an operation hands over what it has stored. If others have stored the same
attribute after it, the last of them is still to come. -/
theorem unlock (h : Agreed m g holder draft s) {state : ViewState V} {b : Bundle V}
    (hb : (draft i).seen = some b) (hands : (draft i).Hands b state.bundle)
    (hg : ∀ id ∈ state.bundle.names.values, g.own i = some id →
      (g.last id).bind g.own = some id) :
    Agreed m { g with own := Function.update g.own i none } none
      (Function.update draft i Draft.empty) { s with state } := by
  obtain ⟨hholder, rfl⟩ := h.seen hb
  have hstored : ∀ {j k v}, (Function.update draft i Draft.empty j).stored = some (k, v) →
      (draft j).stored = some (k, v) := by
    intro j k v hj
    by_cases hji : j = i
    · rw [hji, Function.update_self] at hj
      cases hj
    · rw [Function.update_of_ne hji] at hj
      exact hj
  -- The last one to store an attribute is still to come if it is another one.
  have hlater : ∀ {k}, (g.last k).bind g.own = some k → g.last k ≠ some i →
      (g.last k).bind (Function.update g.own i none) = some k := by
    intro k hlast hne
    obtain ⟨j, hj, hown⟩ := Option.bind_eq_some_iff.mp hlast
    have hji : j ≠ i := fun he => hne (he ▸ hj)
    rw [hj, Option.bind_some, Function.update_of_ne hji]
    exact hown
  refine ⟨h.own_update rfl, fun {j c} hc => ?_, fun hlast hs => h.newest hlast (hstored hs),
    fun k hk => ?_⟩
  · by_cases hji : j = i
    · rw [hji, Function.update_self] at hc
      cases hc
    · rw [Function.update_of_ne hji] at hc
      have hother := (h.seen hc).1
      rw [hholder] at hother
      exact absurd (Option.some.inj hother).symm hji
  · have hvalue := hands.values k hk
    by_cases hown : g.own i = some k
    · -- The operation hands over what it has stored.
      rw [h.own] at hown
      obtain ⟨⟨id, value⟩, hd, hid⟩ := Option.map_eq_some_iff.mp hown
      obtain rfl : id = k := hid
      refine ⟨value, hvalue.trans (Draft.value?_stored hd _), ?_⟩
      by_cases hlast : g.last id = some i
      · exact .inl (h.newest hlast hd)
      · exact .inr (hlater (hg id hk (h.own_of_stored hd)) hlast)
    · -- The attribute has the value that it had before.
      have hother : ∀ value, (draft i).stored ≠ some (k, value) :=
        fun value hd => hown (h.own_of_stored hd)
      obtain ⟨v, hv, hshown⟩ := h.values k ((hands.bound k hk).resolve_right fun ⟨value, hd⟩ =>
        hother value hd)
      refine ⟨v, (hvalue.trans (Draft.value?_other hother _)).trans hv, ?_⟩
      refine hshown.imp_right fun hlast => hlater hlast fun he => hown ?_
      rw [he, Option.bind_some] at hlast
      exact hlast

/-- What an operation does by its rule keeps view and store agreed. -/
theorem act {l : Locks} (h : Agreed m g (l.holder number) draft s)
    (hd : s.bundle.names.Injective) {action : Action V} {post : action.Answer → Draft V → Prop}
    (hon : action.On session true) (ha : l.Admits x True s.drawn i number action)
    (hv : ∀ value, action = .encode value → Faithful m value) (hg : g.Admits i action)
    (hrule : Draft.rule m action (draft i) post) :
    ∃ d, post (s.perform m x.draw session action).1 d ∧
      Agreed m (g.after i action) ((l.after i number action).holder number)
        (Function.update draft i d) (s.perform m x.draw session action).2 := by
  have hsame : Agreed m g (l.holder number) (Function.update draft i (draft i)) s := by
    rw [Function.update_eq_self]
    exact h
  cases action with
  | isOpen => exact hrule.elim
  | decode bytes => exact hrule.elim
  | encode value => exact ⟨draft i, hrule (hv value rfl), hsame⟩
  | record measure => exact ⟨draft i, hrule, hsame⟩
  | notify direction value => exact ⟨draft i, hrule, hsame⟩
  | draw =>
    refine ⟨draft i, hrule _, ?_⟩
    exact ⟨hsame.own, hsame.seen, hsame.newest, hsame.values⟩
  | lock =>
    change l.holder number = none at ha
    rw [ha] at h
    refine ⟨_, hrule s.state hd, ?_⟩
    change Agreed m g (Function.update l.holder number (some i) number) _ s
    rw [Function.update_self]
    exact h.lock i
  | unlock state =>
    obtain ⟨b, hb, hands, hpost⟩ := hrule
    refine ⟨_, hpost, ?_⟩
    change Agreed m _ (Function.update l.holder number none number) _ { s with state }
    rw [Function.update_self]
    exact h.unlock hb hands hg
  | names call =>
    cases call with
    | get key => exact ⟨draft i, hrule _, hsame⟩
    | put key names mode =>
      obtain rfl : key = session := hon.1 key rfl
      refine ⟨draft i, hrule _, ?_⟩
      simp only [Scope.perform, Scope.callNames_put]
      exact ⟨hsame.own, hsame.seen, hsame.newest, hsame.values⟩
    | getAll keys => exact hrule.elim
    | remove key mode => exact hrule.elim
    | evict key => exact hrule.elim
  | attributes call =>
    cases call with
    | put key bytes mode =>
      obtain ⟨owner, id⟩ := key
      obtain rfl : owner = session := hon ⟨owner, id⟩ rfl
      obtain ⟨hnone, value, hk, hpost⟩ := hrule
      refine ⟨_, hpost _, ?_⟩
      simp only [Scope.perform, Scope.callAttributes_put]
      exact h.put hnone hk
    | remove key mode =>
      obtain ⟨owner, id⟩ := key
      obtain rfl : owner = session := hon ⟨owner, id⟩ rfl
      refine ⟨_, hrule _, ?_⟩
      simp only [Scope.perform, Scope.callAttributes_remove]
      exact h.remove
    | get key => exact hrule.elim
    | getAll keys => exact hrule.elim
    | evict key => exact hrule.elim

end Agreed

namespace World

/-- What is stored of a session is what its view refers to, and each entry decodes to a value equal
to the one that the view holds. -/
structure Agrees (m : Marshaller V) (session : SessionId) (w : World V σ) (live : LiveView V) :
    Prop extends w.Settled session live where
  values : ∀ id ∈ live.state.bundle.names.values, ∃ value,
    live.state.bundle.value? id = some value ∧
      Scope.Keeps m (w.attributes.store.find? ⟨session, id⟩) value

variable {w : World V σ} {live : LiveView V}

/-- A view agrees when it is opened, if the session has no entry that its names do not refer to. -/
theorem Opened.agrees {w₀ : World V σ} (h : Opened m session w₀ number w) (hs : w₀.Sound)
    (he : ∀ id, w₀.attributes.store.find? ⟨session, id⟩ ≠ none →
      ∃ names, w₀.names.store.find? session = some names ∧ id ∈ names.values) :
    ∃ live, w.view? number = some live ∧ w.Agrees m session live := by
  obtain ⟨live, hl, hsettled⟩ := h.settled hs he
  obtain ⟨-, v, hv, -, -, hm, -⟩ := h.mirrors hs
  have hbundle := PlainWorld.scope_bundle hv session v.factory
  rw [plain_view, hl] at hv
  obtain rfl := Option.some.inj hv
  refine ⟨live, hl, hsettled, fun id hid => ?_⟩
  obtain ⟨name, hname⟩ := Dict.mem_values.mp hid
  have hbound : (w.plain.scope session ⟨live.plain.factory, some number⟩).bundle.attributeId?
      name = some id := by
    rw [hbundle]
    exact hname
  obtain ⟨value, -, hvalue⟩ := hm.tidy.get?_some hbound
  exact ⟨value, hbundle ▸ hvalue, hm.read hvalue⟩

/-- A view is asked for the value of a name. -/
theorem get_answer {env : Surroundings V σ} (hc : env.Calm m) (hr : env.Reliable)
    (hs : w.Sound) (hl : w.view? number = some live) (name : String) :
    (w.carryOut env ⟨live.factory, some number⟩ (live.view.get name)).1 =
      live.state.bundle.get? name := by
  have hv : w.plain.views[number]? = some live.plain := plain_live hl
  obtain ⟨-, hanswer, -⟩ := call_effect hc hr hs hv (.get name)
  refine hanswer.trans ?_
  exact congrArg (Bundle.get? · name) (PlainWorld.scope_bundle hv live.view.session live.factory)

/-- A load finds the names of the view with equal values. -/
theorem Agrees.loaded (h : w.Agrees m session live) (hs : w.Sound) :
    ∃ b, w.Finds m session b ∧ b.names = live.state.bundle.names ∧
      ∀ name, (b.get? name == live.state.bundle.get? name) = true := by
  have hlisted : (w.plain.scope session ⟨0, none⟩).listed = live.state.bundle.names := by
    unfold Scope.listed
    rcases h.stored with hstored | ⟨hstored, hempty⟩
    · rw [show (w.plain.scope session ⟨0, none⟩).stored = some live.state.bundle.names
        from hstored]
      rfl
    · rw [show (w.plain.scope session ⟨0, none⟩).stored = none from hstored, hempty]
      rfl
  obtain ⟨b, hb, hnames, hget⟩ := Scope.loaded_listed (m := m)
    (s := w.plain.scope session ⟨0, none⟩) (hlisted ▸ h.distinct) (fun id hid => by
      obtain ⟨value, -, value', hread, -⟩ := h.values id (hlisted ▸ hid)
      exact ⟨value', hread⟩) session
  rw [hlisted] at hnames hget
  refine ⟨b, finds_of_loaded hs hb, hnames, fun name => ?_⟩
  cases hid : live.state.bundle.attributeId? name with
  | none =>
    have hfree : b.attributeId? name = none := by
      rw [Bundle.attributeId?, hnames]
      exact hid
    rw [Bundle.Tidy.get?_none hid, Bundle.Tidy.get?_none hfree]
    rfl
  | some id =>
    obtain ⟨value, hvalue, value', hread, he⟩ :=
      h.values id (Dict.mem_values.mpr ⟨name, hid⟩)
    have hheld : live.state.bundle.get? name = some value := by
      rw [Bundle.get?_eq, hid, Option.bind_some, hvalue]
    rw [hget hid hread, hheld]
    exact he

/-- Whatever name the view is asked for, a load finds an equal value under it. -/
theorem Agrees.finds (h : w.Agrees m session live) (hs : w.Sound)
    (hl : w.view? number = some live) :
    ∃ b, w.Finds m session b ∧ b.names = live.state.bundle.names ∧
      ∀ (env : Surroundings V σ) (name : String), env.Calm m → env.Reliable →
        (b.get? name ==
          (w.carryOut env ⟨live.factory, some number⟩ (live.view.get name)).1) = true := by
  obtain ⟨b, hb, hnames, hget⟩ := h.loaded hs
  refine ⟨b, hb, hnames, fun env name hc hr => ?_⟩
  rw [get_answer hc hr hs hl]
  exact hget name

end World

namespace Orderly

variable {w : World V σ} {live : LiveView V} {calls : List (Pending V)} {probes : List (Probe V)}
  {c : Interleaving V σ} {g : Writers}

structure Holds (m : Marshaller V) (session : SessionId) (number factory : Nat) (g : Writers)
    (locks : Locks) (draft : Nat → Draft V) (p : PlainWorld V) : Prop where
  view : ∃ v, p.views[number]? = some v ∧ v.view.session = session ∧ v.factory = factory
  agreed : Agreed m g (locks.holder number) draft (p.scope session ⟨factory, some number⟩)

/-- A view that agrees with its session does so before anything has begun. -/
theorem holds_start (hl : w.view? number = some live) (h : w.Agrees m session live) :
    Holds m session number live.factory .idle Locks.free (fun _ => Draft.empty) w.plain := by
  have hv : w.plain.views[number]? = some live.plain := World.plain_live hl
  have hbundle : (w.plain.scope session ⟨live.factory, some number⟩).bundle = live.state.bundle :=
    PlainWorld.scope_bundle hv _ _
  refine ⟨⟨live.plain, hv, h.owner, rfl⟩, fun _ => rfl, nofun, nofun, ?_⟩
  rw [hbundle]
  intro id hid
  obtain ⟨value, hvalue, hkeeps⟩ := h.values id hid
  exact ⟨value, hvalue, .inl fun _ => hkeeps⟩

/-- What one action keeps agreed, a whole run does. -/
theorem led (hs : w.Sound) (hl : w.view? number = some live) (h₀ : w.Agrees m session live)
    (hfresh : ∀ id ∈ live.state.bundle.names.values, ∀ k, w.drawn ≤ k → k < x.limit →
      x.draw k ≠ id)
    (hcalls : ∀ q ∈ calls, q.view = number ∧ q.Begins w) (hprobes : ∀ q ∈ probes, q.Begins)
    (h : Orderly m x (.start w calls probes) g c) :
    ∃ draft, c.Led session (Draft.rule m) (fun _ => Draft.Ends)
      (Holds m session number live.factory g) calls (fun _ => Draft.empty) draft := by
  induction h with
  | start =>
    exact ⟨_, Interleaving.led_single hs hl h₀.owner hcalls hprobes (holds_start hl h₀)
      fun {_ q} _ => View.procedure_hands live.view q.call⟩
  | passive _ hp ih =>
    obtain ⟨draft, hled⟩ := ih
    exact ⟨draft, hled.passive hp⟩
  | probe _ hc hq ih =>
    obtain ⟨draft, hled⟩ := ih
    exact ⟨draft, hled.probe hc hq⟩
  | @act g c env i view factory call action next hrun hc hr hx hq ha hv hg ih =>
    obtain ⟨draft, hled⟩ := ih
    obtain ⟨part, hupkeep⟩ :=
      hrun.interleaves.overlaps hs hl h₀.toSettled hfresh hcalls hprobes
    obtain ⟨-, care, change, -, hbalanced⟩ := hupkeep.holds
    obtain ⟨rest, hq₀⟩ := hled.same hq
    obtain ⟨rfl, rfl⟩ := Pending.seats_single hl hcalls _ (List.mem_of_getElem? hq₀)
    refine hled.act hc hr hx hq fun hon post hrule => ?_
    obtain ⟨d, hpost, hagreed⟩ := hled.holds.agreed.act hbalanced.distinct hon ha hv hg hrule
    obtain ⟨p', hstep, hview, hscope⟩ := PlainWorld.perform_view hon m x.draw hled.holds.view
    rw [hstep]
    refine ⟨d, hpost, hview, ?_⟩
    rw [hscope]
    exact hagreed

/-- However the operations of the only view of a session overlap: if no value comes to the view
after one that was stored later, then in the end view and session agree, and a load finds under each
name what the view answers. -/
theorem values_agree (hs : w.Sound) (hl : w.view? number = some live) (h₀ : w.Agrees m session live)
    (hfresh : ∀ id ∈ live.state.bundle.names.values, ∀ k, w.drawn ≤ k → k < x.limit →
      x.draw k ≠ id)
    (hcalls : ∀ q ∈ calls, q.view = number ∧ q.Begins w) (hprobes : ∀ q ∈ probes, q.Begins)
    (h : Orderly m x (.start w calls probes) g c) (hover : c.Over) :
    ∃ live', c.world.view? number = some live' ∧ c.world.Agrees m session live' ∧
      ∃ b, c.world.Finds m session b ∧ b.names = live'.state.bundle.names ∧
        ∀ (env : Surroundings V σ) (name : String), env.Calm m → env.Reliable →
          (b.get? name ==
            (c.world.carryOut env ⟨live'.factory, some number⟩
              (live'.view.get name)).1) = true := by
  obtain ⟨part, hupkeep⟩ := h.interleaves.overlaps hs hl h₀.toSettled hfresh hcalls hprobes
  obtain ⟨live', hl', hsettled⟩ := hupkeep.holds.settled (hupkeep.rested hover)
  obtain ⟨draft, hled⟩ := h.led hs hl h₀ hfresh hcalls hprobes
  have hdone : ∀ i, g.own i = none := by
    intro i
    rw [hled.holds.agreed.own, hled.rested hover i]
    rfl
  obtain ⟨v, hv, -, hseat⟩ := hled.holds.view
  have hbundle := PlainWorld.scope_bundle hv session live.factory
  rw [World.plain_view, hl'] at hv
  obtain rfl := Option.some.inj hv
  have hagrees : c.world.Agrees m session live' := by
    refine ⟨hsettled, fun id hid => ?_⟩
    obtain ⟨value, hvalue, hbears | hlast⟩ := hled.holds.agreed.values id (hbundle ▸ hid)
    · refine ⟨value, hbundle ▸ hvalue, hbears ?_⟩
      exact Option.isSome_iff_ne_none.mp ((hsettled.entries id).mpr hid)
    · obtain ⟨i, -, howned⟩ := Option.bind_eq_some_iff.mp hlast
      cases (hdone i).symm.trans howned
  exact ⟨live', hl', hagrees, hagrees.finds hled.sound hl'⟩

def threeWrites (live : LiveView Bool) : List (Pending Bool) :=
  [live.begin 0 (.set "a" true), live.begin 0 (.set "a" false), live.begin 0 (.set "a" true)]

/-- The third write stores its entry before the second one has handed over its value, and hands over
after it. -/
theorem values_agree_crossing :
    ∃ (live live' : LiveView Bool) (g : Writers) (c : Interleaving Bool Unit),
      World.viewed.view? 0 = some live ∧
      Orderly .bits .counting (.start World.viewed (threeWrites live) []) g c ∧ c.Over ∧
      c.world.view? 0 = some live' ∧ live'.state.bundle.get? "a" = some true ∧
      c.world.Agrees .bits "s" live' := by
  let env : Surroundings Bool Unit := .quiet .bits AttributeId.ofNat
  let live : LiveView Bool :=
    ⟨⟨"s", false, Immutability.never⟩, 0, ⟨Bundle.empty, []⟩, false, none⟩
  let order : List Nat :=
    [0, 0, 0, 0, 0, 0, 0, 0, 0, 0, 1, 1, 1, 1, 2, 2, 2, 2, 1, 1, 1, 2, 2, 2]
  have hordered : Interleaving.Ordered env .counting order .idle
      (.start World.viewed (threeWrites live) []) := by decide +kernel
  have hstart : Orderly .bits .counting (.start World.viewed (threeWrites live) []) .idle
      (.start World.viewed (threeWrites live) []) := .start
  obtain ⟨g, hrun⟩ := hstart.follow (Surroundings.quiet_calm _ _) (Surroundings.quiet_reliable _ _)
    rfl bits_faithful hordered
  have hover : ∀ q ∈ (order.foldl (Interleaving.advance env)
      (Interleaving.start World.viewed (threeWrites live) [])).calls, q.rest.isDone = true := by
    decide +kernel
  have hempty : (World.single Bool).attributes.store.find? = fun _ => none :=
    congrArg PlainWorld.attributes (World.single_plain Bool)
  obtain ⟨_, ⟨⟩, hagrees⟩ := World.viewed_opened.agrees (World.single_sound Bool)
    fun id hid => absurd (congrFun hempty ⟨"s", id⟩) hid
  have hcalls : ∀ q ∈ threeWrites live, q.view = 0 ∧ q.Begins World.viewed := by
    intro q hq
    rcases List.mem_cons.mp hq with rfl | hq
    · exact ⟨rfl, live, rfl, rfl, rfl⟩
    · rcases List.mem_pair.mp hq with rfl | rfl
      · exact ⟨rfl, live, rfl, rfl, rfl⟩
      · exact ⟨rfl, live, rfl, rfl, rfl⟩
  have hprobes : ∀ q ∈ ([] : List (Probe Bool)), q.Begins := fun _ hq => nomatch hq
  obtain ⟨live', hl', hagrees', -⟩ :=
    values_agree World.viewed_sound rfl hagrees nofun hcalls hprobes hrun hover
  have hvalue : ((order.foldl (Interleaving.advance env) (Interleaving.start World.viewed
      (threeWrites live) [])).world.view? 0).map (·.state.bundle.get? "a") = some (some true) := by
    decide +kernel
  rw [hl'] at hvalue
  exact ⟨live, live', g, _, rfl, hrun, hover, hl', Option.some.inj hvalue, hagrees'⟩

/-- The third write stores its entry after the second one and hands over before it. All succeed, and
the view answers with the value of the second, a load with that of the third. -/
theorem handover_crossed :
    ∃ (live : LiveView Bool) (c : Interleaving Bool Unit), World.viewed.view? 0 = some live ∧
      Interleaves .bits .counting True (.start World.viewed (threeWrites live) []) c ∧
      (∀ q ∈ c.calls, q.call.succeeded q.rest = true) ∧
      (c.world.carryOut (.quiet .bits AttributeId.ofNat) ⟨0, some 0⟩ (live.view.get "a")).1 =
        some false ∧
      ((c.world.carryOut (.quiet .bits AttributeId.ofNat) ⟨0, none⟩
        (Session.load "s" true).run).1.toOption.join.map (·.get? "a")) = some (some true) := by
  let live : LiveView Bool :=
    ⟨⟨"s", false, Immutability.never⟩, 0, ⟨Bundle.empty, []⟩, false, none⟩
  let order : List Nat :=
    [0, 0, 0, 0, 0, 0, 0, 0, 0, 0, 1, 1, 1, 1, 2, 2, 2, 2, 2, 2, 2, 1, 1, 1]
  have hfollows : Interleaving.Follows (.quiet .bits AttributeId.ofNat) .counting True order
      (.start World.viewed (threeWrites live) []) := by decide +kernel
  exact ⟨live, _, rfl, Interleaves.start.follow (Surroundings.quiet_calm _ _)
    (Surroundings.quiet_reliable _ _) rfl hfollows, by decide +kernel, by decide +kernel,
    by decide +kernel⟩

end Orderly
end SessionAttributes
