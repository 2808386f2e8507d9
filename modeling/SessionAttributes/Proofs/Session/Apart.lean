import SessionAttributes.Proofs.Session.Portion

namespace SessionAttributes

variable {V σ : Type} [BEq V] {m : Marshaller V} {session : SessionId} {x : Supply} {number : Nat}

namespace Scope

/-- The entry of a name decodes to a value equal to the one that the view has under it. -/
def BearsOn (m : Marshaller V) (s : Scope V) (name : String) : Prop :=
  ∀ id value, s.bundle.attributeId? name = some id → s.bundle.get? name = some value →
    Bears m (s.entries id) value

/-- What concerns a name is as it was: the view, and the entries and identifiers of the name. -/
structure Spares (x : Supply) (owner owner' : AttributeId → String) (s s' : Scope V)
    (name : String) : Prop where
  bundle : s'.bundle.AgreesOn s.bundle name
  entries : ∀ {id}, owner id = name → s'.entries id = s.entries id
  given : ∀ {id}, x.Given owner s.drawn name id → x.Given owner' s'.drawn name id

section Spares
variable {owner : AttributeId → String} {s : Scope V} {name : String}

theorem BearsOn.spares {owner' : AttributeId → String} {s' : Scope V} (h : s.BearsOn m name)
    (hheld : Issued x owner s.drawn s.bundle.names) (hs : s.Spares x owner owner' s' name) :
    s'.BearsOn m name := by
  intro id value hid hvalue
  rw [hs.bundle.id] at hid
  rw [hs.bundle.value] at hvalue
  rw [hs.entries (hheld.owned hid)]
  exact h id value hid hvalue

omit [BEq V] in
theorem spares_draw (x : Supply) (owner : AttributeId → String) (s : Scope V) (other name : String)
    (hlt : s.drawn < x.limit) :
    s.Spares x owner (Function.update owner (x.draw s.drawn) other)
      { s with drawn := s.drawn + 1 } name :=
  ⟨.refl _ _, fun _ => rfl, fun hid => (hid.claim hlt other).mono (Nat.le_succ _)⟩

omit [BEq V] in
/-- An entry of another name does not matter. -/
theorem spares_setEntry (x : Supply) (s : Scope V) {id : AttributeId} (hid : owner id ≠ name)
    (entry : Option Bytes) : s.Spares x owner owner (s.setEntry id entry) name := by
  refine ⟨.refl _ _, fun {k} hk => Function.update_of_ne ?_ _ _, fun hk => hk⟩
  rintro rfl
  exact hid hk

omit [BEq V] in
theorem spares_hold (x : Supply) (owner : AttributeId → String) {state : ViewState V}
    (hstate : state.bundle.AgreesOn s.bundle name) : s.Spares x owner owner { s with state } name :=
  ⟨hstate, fun _ => rfl, fun hid => hid⟩

end Spares
end Scope

/-- What is known of a name at a phase of its operation. -/
def Phase.Stands (m : Marshaller V) (x : Supply) (owner : AttributeId → String) (b₀ : Bundle V)
    (s : Scope V) (name : String) (value : Option V) : Phase → Prop
  | .begun => s.bundle.AgreesOn b₀ name ∧ s.BearsOn m name
  | .drawn id => s.bundle.AgreesOn b₀ name ∧ s.BearsOn m name ∧ b₀.attributeId? name = none ∧
    x.Given owner s.drawn name id
  | .written id => s.bundle.AgreesOn b₀ name ∧
    (∃ written, value = some written ∧ Scope.Keeps m (s.entries id) written) ∧
      (b₀.attributeId? name = some id ∨
        b₀.attributeId? name = none ∧ x.Given owner s.drawn name id)
  | .handed => s.bundle.get? name = value ∧ s.BearsOn m name ∧
    (value = none → s.bundle.attributeId? name = none) ∧
      (value ≠ none → ∀ id, b₀.attributeId? name = some id →
        s.bundle.attributeId? name = some id)

namespace Phase.Stands

variable {owner owner' : AttributeId → String} {b₀ : Bundle V} {s s' : Scope V} {name : String}
  {value : Option V} {phase : Phase}

/-- What happens under other names does not touch a phase. -/
theorem spares (h : phase.Stands m x owner b₀ s name value)
    (hheld : Issued x owner s.drawn s.bundle.names) (hs : s.Spares x owner owner' s' name) :
    phase.Stands m x owner' b₀ s' name value := by
  cases phase with
  | begun =>
    obtain ⟨hsame, hbears⟩ := h
    exact ⟨hs.bundle.trans hsame, hbears.spares hheld hs⟩
  | drawn id =>
    obtain ⟨hsame, hbears, hfree, hid⟩ := h
    exact ⟨hs.bundle.trans hsame, hbears.spares hheld hs, hfree, hs.given hid⟩
  | written id =>
    obtain ⟨hsame, ⟨written, hvalue, hkeeps⟩, hid⟩ := h
    have howner : owner id = name := by
      rcases hid with hid | ⟨-, hid⟩
      · exact hheld.owned (hsame.id.trans hid)
      · exact hid.1
    refine ⟨hs.bundle.trans hsame, ⟨written, hvalue, ?_⟩, hid.imp_right fun ⟨hfree, hid⟩ =>
      ⟨hfree, hs.given hid⟩⟩
    rw [hs.entries howner]
    exact hkeeps
  | handed =>
    obtain ⟨hget, hbears, hgone, hkept⟩ := h
    refine ⟨hs.bundle.value.trans hget, hbears.spares hheld hs, fun hv => ?_, fun hv id hid => ?_⟩
    · exact hs.bundle.id.trans (hgone hv)
    · exact hs.bundle.id.trans (hkept hv id hid)

/-- Until the view holds what the operation leaves, it has the name as it was. -/
theorem same (h : phase.Stands m x owner b₀ s name value) (hp : phase ≠ .handed) :
    s.bundle.AgreesOn b₀ name := by
  cases phase with
  | begun => exact h.1
  | drawn id => exact h.1
  | written id => exact h.1
  | handed => exact absurd rfl hp

/-- The view has the value whose entry was stored, under the attribute of the name if it had one. -/
theorem handed_written {id : AttributeId} {written : V}
    (hid : s.bundle.attributeId? name = some id) (hget : s.bundle.get? name = some written)
    (hkeeps : Scope.Keeps m (s.entries id) written)
    (hb : ∀ k, b₀.attributeId? name = some k → k = id) :
    Phase.handed.Stands m x owner b₀ s name (some written) := by
  have hbears : s.BearsOn m name := by
    intro k v hk hv _
    obtain rfl := Option.some.inj (hid.symm.trans hk)
    obtain rfl := Option.some.inj (hget.symm.trans hv)
    exact hkeeps
  exact ⟨hget, hbears, nofun, fun _ k hk => hb k hk ▸ hid⟩

/-- The view does not have the name. -/
theorem handed_dropped (hid : s.bundle.attributeId? name = none) :
    Phase.handed.Stands m x owner b₀ s name none := by
  have hbears : s.BearsOn m name := by
    intro k v hk
    cases hid.symm.trans hk
  exact ⟨Bundle.Tidy.get?_none hid, hbears, fun _ => hid, fun hne => absurd rfl hne⟩

end Phase.Stands

/-- An identifier that was given out for a free name is not bound. -/
theorem Supply.Given.unbound {owner : AttributeId → String} {drawn : Nat} {name : String}
    {id : AttributeId} (h : x.Given owner drawn name id) {names : Names}
    (hheld : Issued x owner drawn names) (hfree : names.get? name = none) : id ∉ names.values := by
  intro hm
  obtain ⟨other, hother⟩ := Dict.mem_values.mp hm
  obtain rfl : other = name := (hheld.owned hother).symm.trans h.1
  cases hfree.symm.trans hother

structure Apart (m : Marshaller V) (x : Supply) (b₀ : Bundle V) (count : Nat)
    (portions : Nat → Portion V) (owner : AttributeId → String) (holder : Option Nat)
    (part : Nat → Portion V) (s : Scope V) : Prop where
  fixed : ∀ i, (part i).name = (portions i).name ∧ (part i).value = (portions i).value
  tidy : s.bundle.Tidy
  held : Issued x owner s.drawn s.bundle.names
  earlier : Issued x owner s.drawn b₀.names
  seen : ∀ {i b}, (part i).seen = some b → holder = some i ∧ s.bundle = b
  stands : ∀ i < count, (part i).phase.Stands m x owner b₀ s (part i).name (part i).value
  others : ∀ name, (∀ i < count, (portions i).name ≠ name) →
    Phase.begun.Stands m x owner b₀ s name none

namespace Apart

variable {b₀ : Bundle V} {count : Nat} {portions : Nat → Portion V}
  {owner owner' : AttributeId → String} {holder holder' : Option Nat} {part : Nat → Portion V}
  {s s' : Scope V} {i : Nat} (h : Apart m x b₀ count portions owner holder part s)
include h

/-- Nobody but the one that has the lock has seen the bundle. -/
theorem seen_update {phase : Phase} {seen : Option (Bundle V)} {b : Bundle V}
    (hseen : seen = some b → holder = some i ∧ s.bundle = b) {j : Nat}
    (hb : (Function.update part i { part i with phase, seen } j).seen = some b) :
    holder = some j ∧ s.bundle = b := by
  by_cases he : j = i
  · subst he
    rw [Function.update_self] at hb
    exact hseen hb
  · rw [Function.update_of_ne he] at hb
    exact h.seen hb

variable (hi : i < count)
  (hapart : ∀ j < count, j ≠ i → (portions j).name ≠ (portions i).name)
include hi hapart

/-- One operation has acted, and has spared all names but its own. -/
theorem step {phase : Phase} {seen : Option (Bundle V)} (htidy : s'.bundle.Tidy)
    (hheld : Issued x owner' s'.drawn s'.bundle.names)
    (hearlier : Issued x owner' s'.drawn b₀.names)
    (hseen : ∀ {j b}, (Function.update part i { part i with phase, seen } j).seen = some b →
      holder' = some j ∧ s'.bundle = b)
    (hstands : phase.Stands m x owner' b₀ s' (part i).name (part i).value)
    (hspares : ∀ name, name ≠ (part i).name → s.Spares x owner owner' s' name) :
    Apart m x b₀ count portions owner' holder'
      (Function.update part i { part i with phase, seen }) s' := by
  refine ⟨fun j => ?_, htidy, hheld, hearlier, hseen, fun j hj => ?_, fun name hname => ?_⟩
  · by_cases he : j = i
    · rw [he, Function.update_self]
      exact h.fixed i
    · rw [Function.update_of_ne he]
      exact h.fixed j
  · by_cases he : j = i
    · rw [he, Function.update_self]
      exact hstands
    · rw [Function.update_of_ne he]
      refine (h.stands j hj).spares h.held (hspares _ ?_)
      rw [(h.fixed i).1, (h.fixed j).1]
      exact hapart j hj he
  · refine (h.others name hname).spares h.held (hspares name ?_)
    rw [(h.fixed i).1]
    exact (hname i hi).symm

theorem draw (hlt : s.drawn < x.limit) (hp : (part i).phase = .begun)
    (hfree : b₀.attributeId? (part i).name = none) :
    Apart m x b₀ count portions (Function.update owner (x.draw s.drawn) (part i).name) holder
      (Function.update part i { part i with phase := .drawn (x.draw s.drawn) })
      { s with drawn := s.drawn + 1 } := by
  have hspares : ∀ name, s.Spares x owner (Function.update owner (x.draw s.drawn) (part i).name)
      { s with drawn := s.drawn + 1 } name :=
    fun name => Scope.spares_draw x owner s _ name hlt
  have hstands := (h.stands i hi).spares h.held (hspares _)
  rw [hp] at hstands
  refine h.step hi hapart h.tidy ((h.held.claim hlt _).mono (Nat.le_succ _))
    ((h.earlier.claim hlt _).mono (Nat.le_succ _))
    (h.seen_update fun hb => h.seen hb) ?_ fun name _ => hspares name
  exact ⟨hstands.1, hstands.2, hfree, .fresh x (Function.update_self ..)⟩

theorem lock (hfree : holder = none) :
    Apart m x b₀ count portions owner (some i)
      (Function.update part i { part i with seen := some s.bundle }) s := by
  subst hfree
  refine h.step hi hapart h.tidy h.held h.earlier (fun {j b} hb => ?_) (h.stands i hi)
    fun name _ => ⟨.refl _ _, fun _ => rfl, fun hid => hid⟩
  by_cases he : j = i
  · subst he
    rw [Function.update_self] at hb
    exact ⟨rfl, Option.some.inj hb⟩
  · rw [Function.update_of_ne he] at hb
    cases (h.seen hb).1

/-- The entry of an operation is stored. -/
theorem put {id : AttributeId} {bytes : Bytes} {value : V}
    (hstores : (part i).Stores b₀ id) (hvalue : (part i).value = some value)
    (hkeeps : Scope.Keeps m (some bytes) value) :
    Apart m x b₀ count portions owner holder
      (Function.update part i { part i with phase := .written id })
      (s.setEntry id (some bytes)) := by
  have hstands := h.stands i hi
  obtain ⟨howner, hsame, hid⟩ : owner id = (part i).name ∧
      s.bundle.AgreesOn b₀ (part i).name ∧ (b₀.attributeId? (part i).name = some id ∨
        b₀.attributeId? (part i).name = none ∧ x.Given owner s.drawn (part i).name id) := by
    rcases hstores with hp | ⟨hp, hid⟩
    · rw [hp] at hstands
      obtain ⟨hsame, -, hfree, hid⟩ := hstands
      exact ⟨hid.1, hsame, .inr ⟨hfree, hid⟩⟩
    · rw [hp] at hstands
      exact ⟨h.earlier.owned hid, hstands.1, .inl hid⟩
  have hentry : (s.setEntry id (some bytes)).entries id = some bytes := Function.update_self ..
  refine h.step hi hapart h.tidy h.held h.earlier (h.seen_update fun hb => h.seen hb)
    ⟨hsame, ⟨value, hvalue, ?_⟩, hid⟩ fun name hname => Scope.spares_setEntry x s ?_ _
  · rw [hentry]
    exact hkeeps
  · rw [howner]
    exact hname.symm

/-- The entry of a name that was dropped is deleted. -/
theorem remove {id : AttributeId} (hp : (part i).phase = .handed) (hvalue : (part i).value = none)
    (hid : b₀.attributeId? (part i).name = some id) :
    Apart m x b₀ count portions owner holder part (s.setEntry id none) := by
  have hstands := h.stands i hi
  rw [hp] at hstands
  obtain ⟨hget, -, hgone, hkept⟩ := hstands
  have hbears : (s.setEntry id none).BearsOn m (part i).name := by
    intro k value hk
    cases (hgone hvalue).symm.trans hk
  rw [← Function.update_eq_self i part]
  refine h.step hi hapart h.tidy h.held h.earlier (h.seen_update fun hb => h.seen hb) ?_
    fun name hname => Scope.spares_setEntry x s ?_ _
  · rw [hp]
    exact ⟨hget, hbears, hgone, hkept⟩
  · rw [h.earlier.owned hid]
    exact hname.symm

/-- The lock is given back with the bundle changed under the name of the operation at most. -/
theorem release {phase : Phase} {state : ViewState V} {b : Bundle V}
    (hseen : (part i).seen = some b) (htidy : state.bundle.Tidy)
    (hheld : Issued x owner s.drawn state.bundle.names)
    (hstands : phase.Stands m x owner b₀ { s with state } (part i).name (part i).value)
    (hothers : ∀ k, k ≠ (part i).name → state.bundle.AgreesOn s.bundle k) :
    Apart m x b₀ count portions owner none
      (Function.update part i { part i with phase, seen := none }) { s with state } := by
  refine h.step hi hapart htidy hheld h.earlier (fun {j c} hc => ?_) hstands
    fun k hk => Scope.spares_hold x owner (hothers k hk)
  by_cases he : j = i
  · subst he
    rw [Function.update_self] at hc
    cases hc
  · rw [Function.update_of_ne he] at hc
    exact absurd (Option.some.inj ((h.seen hseen).1.symm.trans (h.seen hc).1)).symm he

/-- The lock is given back with what the operation makes of its name. -/
theorem unlock {b : Bundle V} {phase : Phase} {state : ViewState V}
    (hseen : (part i).seen = some b) (hands : (part i).Hands b₀ b state.bundle phase) :
    Apart m x b₀ count portions owner none
      (Function.update part i { part i with phase, seen := none }) { s with state } := by
  obtain ⟨-, rfl⟩ := h.seen hseen
  have hstands := h.stands i hi
  have hheld := h.held
  generalize hbundle : state.bundle = after at hands
  cases hands with
  | same =>
    have hsame : ∀ k, state.bundle.AgreesOn s.bundle k := fun k => hbundle ▸ .refl _ k
    exact h.release hi hapart hseen (hbundle ▸ h.tidy) (hbundle ▸ hheld)
      (hstands.spares hheld (Scope.spares_hold x owner (hsame _))) fun k _ => hsame k
  | @overwrite id value hp hv hb =>
    rw [hp, hv] at hstands
    obtain ⟨hsame, ⟨_, ⟨⟩, hkeeps⟩, -⟩ := hstands
    obtain ⟨htidy, hid, hget, hothers⟩ := h.tidy.turns_setValue (hsame.id.trans hb) value
    rw [← hbundle] at htidy hid hget hothers
    refine h.release hi hapart hseen htidy (hbundle ▸ hheld) ?_ hothers
    rw [hv]
    exact .handed_written hid hget hkeeps fun k hk => Option.some.inj (hk.symm.trans hb)
  | @create id value hp hv hb =>
    rw [hp, hv] at hstands
    obtain ⟨hsame, ⟨_, ⟨⟩, hkeeps⟩, hid⟩ := hstands
    have hgiven := (hid.resolve_left fun he => nomatch he.symm.trans hb).2
    have hfree : s.bundle.attributeId? (part i).name = none := hsame.id.trans hb
    obtain ⟨htidy, hid, hget, hothers⟩ :=
      h.tidy.turns_create hfree (hgiven.unbound hheld hfree) value
    rw [← hbundle] at htidy hid hget hothers
    refine h.release hi hapart hseen htidy (hbundle ▸ hheld.bind hgiven) ?_ hothers
    rw [hv]
    exact .handed_written hid hget hkeeps fun k hk => nomatch hk.symm.trans hb
  | @drop id hp hv hb =>
    rw [hp] at hstands
    obtain ⟨htidy, hid, -, hothers⟩ := h.tidy.turns_drop (hstands.1.id.trans hb)
    rw [← hbundle] at htidy hid hothers
    refine h.release hi hapart hseen htidy (hbundle ▸ hheld.erase _) ?_ hothers
    rw [hv]
    exact .handed_dropped hid

omit hapart in
/-- An identifier that was drawn for a name has no value in the view before it is bound. -/
theorem unvalued {id : AttributeId} (hp : (part i).phase = .written id)
    (hb : b₀.attributeId? (part i).name = none) : s.bundle.value? id = none := by
  have hstands := h.stands i hi
  rw [hp] at hstands
  obtain ⟨hsame, -, hid⟩ := hstands
  have hgiven := (hid.resolve_left fun he => nomatch he.symm.trans hb).2
  refine (lookup_none_iff _ _).mpr fun hm => ?_
  exact hgiven.unbound h.held (hsame.id.trans hb) ((h.tidy.bound _).mp hm)

end Apart

/-- What an operation does by its rule keeps the operations apart. -/
theorem Apart.act {b₀ : Bundle V} {count : Nat} {portions : Nat → Portion V}
    {owner : AttributeId → String} {part : Nat → Portion V} {s : Scope V} {i : Nat} {l : Locks}
    (h : Apart m x b₀ count portions owner (l.holder number) part s) (hi : i < count)
    (hapart : ∀ j < count, j ≠ i → (portions j).name ≠ (portions i).name) {action : Action V}
    {post : action.Answer → Portion V → Prop} (hon : action.On session true)
    (ha : l.Admits x True s.drawn i number action)
    (hstored : ∀ key, action = .names (.get key) →
      s.stored.getD s.bundle.names = s.bundle.names)
    (hrule : Portion.rule m b₀ action (part i) post) :
    ∃ owner r, post (s.perform m x.draw session action).1 r ∧
      Apart m x b₀ count portions owner ((l.after i number action).holder number)
        (Function.update part i r) (s.perform m x.draw session action).2 := by
  have hsame : Apart m x b₀ count portions owner (l.holder number)
      (Function.update part i (part i)) s := by
    rw [Function.update_eq_self]
    exact h
  cases action with
  | isOpen => exact hrule.elim
  | decode bytes => exact hrule.elim
  | encode value => exact ⟨owner, part i, hrule, hsame⟩
  | record measure => exact ⟨owner, part i, hrule, hsame⟩
  | notify direction value => exact ⟨owner, part i, hrule, hsame⟩
  | draw =>
    obtain ⟨hp, hfree, hpost⟩ := hrule
    exact ⟨_, _, hpost _, h.draw hi hapart ha hp hfree⟩
  | lock =>
    obtain ⟨hp, hpost⟩ := hrule
    refine ⟨owner, _, hpost s.state ((h.stands i hi).same hp) fun id => h.unvalued hi, ?_⟩
    change Apart m x b₀ count portions owner (Function.update l.holder number (some i) number) _ s
    rw [Function.update_self]
    exact h.lock hi hapart ha
  | unlock state =>
    obtain ⟨b, phase, hseen, hands, hpost⟩ := hrule
    refine ⟨owner, _, hpost, ?_⟩
    change Apart m x b₀ count portions owner (Function.update l.holder number none number) _
      { s with state }
    rw [Function.update_self]
    exact h.unlock hi hapart hseen hands
  | names call =>
    cases call with
    | get key =>
      obtain ⟨b, hseen, hpost⟩ := hrule
      obtain ⟨-, rfl⟩ := h.seen hseen
      exact ⟨owner, part i, hpost _ (hstored key rfl), hsame⟩
    | put key names mode =>
      obtain rfl : key = session := hon.1 key rfl
      refine ⟨owner, part i, hrule _, ?_⟩
      simp only [Scope.perform, Scope.callNames_put]
      exact { hsame with }
    | getAll keys => exact hrule.elim
    | remove key mode => exact hrule.elim
    | evict key => exact hrule.elim
  | attributes call =>
    cases call with
    | put key bytes mode =>
      obtain ⟨session', id⟩ := key
      obtain rfl : session' = session := hon ⟨session', id⟩ rfl
      obtain ⟨hstores, ⟨value, hvalue, hkeeps⟩, hpost⟩ := hrule
      refine ⟨owner, _, hpost _, ?_⟩
      simp only [Scope.perform, Scope.callAttributes_put]
      exact h.put hi hapart hstores hvalue hkeeps
    | remove key mode =>
      obtain ⟨session', id⟩ := key
      obtain rfl : session' = session := hon ⟨session', id⟩ rfl
      obtain ⟨hp, hvalue, hid, hpost⟩ := hrule
      refine ⟨owner, part i, hpost _, ?_⟩
      simp only [Scope.perform, Scope.callAttributes_remove]
      rw [Function.update_eq_self]
      exact h.remove hi hapart hp hvalue hid
    | get key => exact hrule.elim
    | getAll keys => exact hrule.elim
    | evict key => exact hrule.elim

end SessionAttributes
