import SessionAttributes.Proofs.Session.Interleaving
import SessionAttributes.Proofs.Session.Opened
import SessionAttributes.Proofs.View.Conduct
import SessionAttributes.Proofs.World.Lasting

namespace SessionAttributes

variable {V σ : Type}

/-- What makes up a view, apart from the callbacks that it raises. -/
def LiveView.core (live : LiveView V) : View V × ViewState V × Bool :=
  (live.view, live.state, live.locked)

/-- An action that concerns neither the lock of a view nor an identifier. -/
def Action.Aside : Action V → Prop
  | .lock | .unlock _ | .draw => False
  | _ => True

namespace World

/-- Whatever has happened, the views hold what they held and no identifier is drawn again. -/
structure Bystands (w w' : World V σ) : Prop where
  views : w'.views.map LiveView.core = w.views.map LiveView.core
  drawn : w.drawn ≤ w'.drawn

theorem Bystands.refl (w : World V σ) : w.Bystands w := ⟨rfl, Nat.le_refl _⟩

theorem Bystands.trans {w w' w'' : World V σ} (h : w.Bystands w') (h' : w'.Bystands w'') :
    w.Bystands w'' := ⟨h'.views.trans h.views, h.drawn.trans h'.drawn⟩

theorem Bystands.view? {w w' : World V σ} (h : w.Bystands w') (number : Nat) :
    (w'.view? number).map LiveView.core = (w.view? number).map LiveView.core := by
  unfold World.view?
  rw [← List.getElem?_map, h.views, List.getElem?_map]

/-- A view that is there afterwards was there before, and it holds what it held. -/
theorem Bystands.before {w w' : World V σ} (h : w.Bystands w') {number : Nat} {live' : LiveView V}
    (hl : w'.view? number = some live') : ∃ live, w.view? number = some live ∧
      live'.state = live.state ∧ live'.locked = live.locked := by
  have hcore := h.view? number
  rw [hl] at hcore
  obtain ⟨live, hlive, heq⟩ := Option.map_eq_some_iff.mp hcore.symm
  obtain ⟨-, hstate, hlocked⟩ : live.view = live'.view ∧ live.state = live'.state ∧
      live.locked = live'.locked := by simpa [LiveView.core] using heq
  exact ⟨live, hlive, hstate.symm, hlocked.symm⟩

/-- A view that was there before is there afterwards, and it holds what it held. -/
theorem Bystands.after {w w' : World V σ} (h : w.Bystands w') {number : Nat} {live : LiveView V}
    (hl : w.view? number = some live) : ∃ live', w'.view? number = some live' ∧
      live'.state = live.state ∧ live'.locked = live.locked := by
  have hcore := h.view? number
  rw [hl] at hcore
  obtain ⟨live', hlive', -⟩ := Option.map_eq_some_iff.mp hcore
  obtain ⟨old, hold, hstate, hlocked⟩ := h.before hlive'
  cases hl.symm.trans hold
  exact ⟨live', hlive', hstate, hlocked⟩

/-- How an action of a view comes out. The lock is given to one operation at a time, and no
identifier is drawn twice. Anything else may be answered in any way and may do whatever it likes
that leaves the views alone. -/
inductive Responds (ids : Supply) (w : World V σ) (number : Nat) :
    (action : Action V) → action.Answer → World V σ → Prop
  | lock {live : LiveView V} (hl : w.view? number = some live) (hfree : live.locked = false) :
      Responds ids w number .lock live.state
        (w.changeView number fun v => { v with locked := true })
  | unlock (state : ViewState V) :
      Responds ids w number (.unlock state) ()
        (w.changeView number fun v => { v with state, locked := false })
  | draw (hlt : w.drawn < ids.limit) :
      Responds ids w number .draw (ids.draw w.drawn) { w with drawn := w.drawn + 1 }
  | aside {action : Action V} (ha : action.Aside) (answer : action.Answer) {w' : World V σ}
      (h : w.Bystands w') : Responds ids w number action answer w'

theorem openView_appends {w w' : World V σ} {factory number : Nat} {session : SessionId}
    {b : Bundle V} {metadata : Metadata} {context : String}
    (ho : w.openView factory session b metadata context = .ok (number, w')) :
    ∃ live : LiveView V, live.state = ⟨b, []⟩ ∧ w' = { w with views := w.views ++ [live] } := by
  unfold openView at ho
  split at ho
  · cases ho
  · split at ho
    · cases ho
    · cases ho
      exact ⟨_, rfl, rfl⟩

end World

/-- A world with the operations and the loads that are on their way in it. What is done stays, with
its answer. -/
structure Traffic (V σ : Type) where
  world : World V σ
  calls : List (Pending V)
  loads : List (Probe V)

namespace Traffic

/-- What may come about in a world that has no views at first, whatever its stores hold. Views are
opened over nothing or over what a load has returned. Operations of the views and loads begin at any
time and act in any order. Later identifiers are new to a bundle that a view is opened over. -/
inductive Flows [BEq V] (ids : Supply) : Traffic V σ → Prop
  | start {w : World V σ} (hv : w.views = []) : Flows ids ⟨w, [], []⟩
  | load {c : Traffic V σ} (h : Flows ids c) (factory : Nat) (session : SessionId)
      (repair : Bool) :
      Flows ids { c with loads := c.loads ++ [⟨factory, (Session.load session repair).run⟩] }
  | read {c : Traffic V σ} {i factory : Nat} {action : Action V}
      {next : action.Answer → Procedure V (Except SessionError (Option (Bundle V)))}
      {w : World V σ} (h : Flows ids c) (hq : c.loads[i]? = some ⟨factory, .act action next⟩)
      (answer : action.Answer) (hw : c.world.Bystands w) :
      Flows ids { c with world := w, loads := c.loads.set i ⟨factory, next answer⟩ }
  | openView {c : Traffic V σ} {factory number : Nat} {session : SessionId} {b : Bundle V}
      {metadata : Metadata} {context : String} {w : World V σ} (h : Flows ids c)
      (hb : b = Bundle.empty ∨ ∃ q ∈ c.loads, q.rest = .done (.ok (some b)))
      (hf : ∀ n, c.world.drawn ≤ n → n < ids.limit → ids.draw n ∉ b.names.values)
      (ho : c.world.openView factory session b metadata context = .ok (number, w)) :
      Flows ids { c with world := w }
  | call {c : Traffic V σ} {number : Nat} {live : LiveView V} (h : Flows ids c)
      (hl : c.world.view? number = some live) (call : ViewCall V) :
      Flows ids { c with calls := c.calls ++ [live.begin number call] }
  | act {c : Traffic V σ} {i view factory : Nat} {call : ViewCall V} {action : Action V}
      {next : action.Answer → Procedure V call.Answer} {answer : action.Answer} {w : World V σ}
      (h : Flows ids c) (hq : c.calls[i]? = some ⟨view, factory, call, .act action next⟩)
      (ha : c.world.Responds ids view action answer w) :
      Flows ids { c with
        world := w
        calls := c.calls.set i ⟨view, factory, call, next answer⟩ }
  | meanwhile {c : Traffic V σ} {w : World V σ} (h : Flows ids c) (hw : c.world.Bystands w) :
      Flows ids { c with world := w }

structure Minds (ids : Supply) (w : World V σ) (q : Pending V) (g : Grip V) : Prop where
  rest : q.rest.Secures Rule.guarding View.Leaves g
  live : ∃ live, w.view? q.view = some live ∧ g.New live.state ∧
    ∀ state, g.held = some state → live.locked = true ∧ live.state = state
  past : ∀ {id}, g.fresh = some id → ∀ n, w.drawn ≤ n → n < ids.limit → ids.draw n ≠ id

/-- What a view holds is sound, and identifiers that are still to be drawn are new to it. -/
structure Holds (ids : Supply) (drawn : Nat) (live : LiveView V) : Prop where
  sound : live.state.Sound
  later : ∀ n, drawn ≤ n → n < ids.limit → ids.draw n ∉ live.state.bundle.names.values

/-- Every view and every operation on its way is as it should be; a lock has one holder, and no
identifier is in two hands. -/
structure Orderly (ids : Supply) (c : Traffic V σ) (grips : Nat → Grip V) : Prop where
  views : ∀ {number live}, c.world.view? number = some live → Holds ids c.world.drawn live
  calls : ∀ {i q}, c.calls[i]? = some q → Minds ids c.world q (grips i)
  sole : ∀ {i j q q'}, c.calls[i]? = some q → c.calls[j]? = some q' → q.view = q'.view →
    (grips i).held ≠ none → (grips j).held ≠ none → i = j
  apart : ∀ {i j q q' id}, c.calls[i]? = some q → c.calls[j]? = some q' →
    (grips i).fresh = some id → (grips j).fresh = some id → i = j
  loads : ∀ q ∈ c.loads, q.rest.Secures (Rule.only fun _ => True)
    (fun answer _ => ∀ b, answer = .ok (some b) → b.Tidy) ()

section Steps
variable {ids : Supply} {c : Traffic V σ} {grips : Nat → Grip V} {w : World V σ} {i : Nat}
  {q : Pending V} {g : Grip V}

theorem Holds.mono {drawn drawn' : Nat} {live live' : LiveView V} (h : Holds ids drawn live)
    (hle : drawn ≤ drawn') (hs : live'.state = live.state) : Holds ids drawn' live' := by
  refine ⟨hs ▸ h.sound, fun n hn hlt => ?_⟩
  rw [hs]
  exact h.later n (Nat.le_trans hle hn) hlt

/-- An operation minds what others do if its view still holds the same. -/
theorem Minds.mono (h : Minds ids c.world q g) (hle : c.world.drawn ≤ w.drawn)
    (hv : ∀ live, c.world.view? q.view = some live → ∃ live', w.view? q.view = some live' ∧
      live'.state = live.state ∧ (live.locked = true → live'.locked = true)) :
    Minds ids w q g := by
  obtain ⟨live, hlive, hnew, hheld⟩ := h.live
  obtain ⟨live', hlive', hstate, hlocked⟩ := hv live hlive
  refine ⟨h.rest, ⟨live', hlive', ?_, fun state hs => ?_⟩, fun hid n hn => ?_⟩
  · rw [hstate]
    exact hnew
  · obtain ⟨hlock, rfl⟩ := hheld state hs
    exact ⟨hlocked hlock, hstate⟩
  · exact h.past hid n (Nat.le_trans hle hn)

/-- No two operations are in each other's way if none was, and the one that goes on is in nobody's
way. -/
theorem exclusive_set (clash : Pending V × Grip V → Pending V × Grip V → Prop)
    (hsymm : ∀ {a b}, clash a b → clash b a) {calls : List (Pending V)} {q' : Pending V}
    (hold : ∀ {i j q q'}, calls[i]? = some q → calls[j]? = some q' →
      clash (q, grips i) (q', grips j) → i = j)
    (hnew : ∀ {j q₂}, j ≠ i → calls[j]? = some q₂ → ¬ clash (q', g) (q₂, grips j))
    {j k : Nat} {q₂ q₃ : Pending V} (hj : (calls.set i q')[j]? = some q₂)
    (hk : (calls.set i q')[k]? = some q₃)
    (hc : clash (q₂, Function.update grips i g j) (q₃, Function.update grips i g k)) : j = k := by
  rcases set_shape hj with ⟨rfl, rfl⟩ | ⟨hne, hthere⟩
  · rcases set_shape hk with ⟨rfl, rfl⟩ | ⟨hne', hthere'⟩
    · rfl
    · rw [Function.update_self, Function.update_of_ne hne'] at hc
      exact absurd hc (hnew hne' hthere')
  · rcases set_shape hk with ⟨rfl, rfl⟩ | ⟨hne', hthere'⟩
    · rw [Function.update_self, Function.update_of_ne hne] at hc
      exact absurd (hsymm hc) (hnew hne hthere)
    · rw [Function.update_of_ne hne, Function.update_of_ne hne'] at hc
      exact hold hthere hthere' hc

/-- An operation goes on, and the others may do so too. -/
theorem Orderly.step (h : c.Orderly ids grips) {q' : Pending V} (hview : q'.view = q.view)
    (hviews : ∀ {number live}, w.view? number = some live → Holds ids w.drawn live)
    (hself : Minds ids w q' g)
    (hothers : ∀ {j q₂}, j ≠ i → c.calls[j]? = some q₂ → Minds ids w q₂ (grips j))
    (hsole : g.held ≠ none → ∀ {j q₂}, j ≠ i → c.calls[j]? = some q₂ → q₂.view = q.view →
      (grips j).held = none)
    (hapart : ∀ {id}, g.fresh = some id → ∀ {j q₂}, j ≠ i → c.calls[j]? = some q₂ →
      (grips j).fresh ≠ some id) :
    Orderly ids { c with world := w, calls := c.calls.set i q' } (Function.update grips i g) := by
  refine ⟨hviews, fun {j q₂} hj => ?_, fun {j k q₂ q₃} hj hk hsame hheld hheld' => ?_,
    fun {j k q₂ q₃ id} hj hk hfresh hfresh' => ?_, h.loads⟩
  · rcases set_shape hj with ⟨rfl, rfl⟩ | ⟨hne, hj⟩
    · rw [Function.update_self]
      exact hself
    · rw [Function.update_of_ne hne]
      exact hothers hne hj
  · refine exclusive_set (fun a b => a.1.view = b.1.view ∧ a.2.held ≠ none ∧ b.2.held ≠ none)
      ?_ ?_ ?_ hj hk ⟨hsame, hheld, hheld'⟩
    · exact fun ⟨hv, ha, hb⟩ => ⟨hv.symm, hb, ha⟩
    · exact fun hi hj ⟨hv, ha, hb⟩ => h.sole hi hj hv ha hb
    · exact fun hne hj ⟨hv, ha, hb⟩ => hb (hsole ha hne hj (hv.symm.trans hview))
  · refine exclusive_set (fun a b => ∃ id, a.2.fresh = some id ∧ b.2.fresh = some id)
      ?_ ?_ ?_ hj hk ⟨id, hfresh, hfresh'⟩
    · exact fun ⟨id, ha, hb⟩ => ⟨id, hb, ha⟩
    · exact fun hi hj ⟨id, ha, hb⟩ => h.apart hi hj ha hb
    · exact fun hne hj ⟨id, ha, hb⟩ => hapart ha hne hj hb

/-- What is done aside leaves a lock alone. -/
theorem secures_aside {α : Type} {action : Action V} (ha : action.Aside)
    {next : action.Answer → Procedure V α} {post : α → Grip V → Prop}
    (h : (Procedure.act action next).Secures Rule.guarding post g) (answer : action.Answer) :
    (next answer).Secures Rule.guarding post g := by
  cases action with
  | lock => exact ha.elim
  | unlock state => exact ha.elim
  | draw => exact ha.elim
  | record measure => exact h
  | notify direction value => exact h
  | _ => exact h answer

theorem Minds.bystands (h : Minds ids c.world q g) (hw : c.world.Bystands w) :
    Minds ids w q g := by
  refine h.mono hw.drawn fun live hl => ?_
  obtain ⟨live', hlive', hstate, hlocked⟩ := hw.after hl
  exact ⟨live', hlive', hstate, fun hlock => hlocked.trans hlock⟩

theorem Orderly.views_bystands (h : c.Orderly ids grips) (hw : c.world.Bystands w) {number : Nat}
    {live : LiveView V} (hl : w.view? number = some live) : Holds ids w.drawn live := by
  obtain ⟨old, hold, hstate, -⟩ := hw.before hl
  exact (h.views hold).mono hw.drawn hstate

section Act
variable {view factory : Nat} {call : ViewCall V}

theorem Orderly.act_aside (h : c.Orderly ids grips) {action : Action V}
    {next : action.Answer → Procedure V call.Answer}
    (hq : c.calls[i]? = some ⟨view, factory, call, .act action next⟩) (ha : action.Aside)
    (answer : action.Answer) (hw : c.world.Bystands w) :
    Orderly ids { c with
      world := w
      calls := c.calls.set i ⟨view, factory, call, next answer⟩ }
      (Function.update grips i (grips i)) := by
  have hself := (h.calls hq).bystands hw
  refine h.step (q := ⟨view, factory, call, .act action next⟩) rfl (h.views_bystands hw)
    ⟨secures_aside ha hself.rest answer, hself.live, hself.past⟩
    (fun _ hj => (h.calls hj).bystands hw) ?_ ?_
  · intro hheld j q₂ hne hj hsame
    by_contra hheld'
    exact hne (h.sole hj hq hsame hheld' hheld)
  · intro id hfresh j q₂ hne hj hfresh'
    exact hne (h.apart hj hq hfresh' hfresh)

/-- The lock was free, so nobody else holds it. -/
theorem Orderly.act_lock (h : c.Orderly ids grips) {live : LiveView V}
    {next : ViewState V → Procedure V call.Answer}
    (hq : c.calls[i]? = some ⟨view, factory, call, .act .lock next⟩)
    (hl : c.world.view? view = some live) (hfree : live.locked = false) :
    Orderly ids { c with
      world := c.world.changeView view fun v => { v with locked := true }
      calls := c.calls.set i ⟨view, factory, call, next live.state⟩ }
      (Function.update grips i { grips i with held := some live.state }) := by
  obtain ⟨hrest, ⟨live', hlive, hnew, -⟩, hpast⟩ := h.calls hq
  cases hl.symm.trans hlive
  have hview : ∀ {number v}, (c.world.changeView view fun v => { v with locked := true }).view?
      number = some v → ∃ old, c.world.view? number = some old ∧ v.state = old.state := by
    intro number v hv
    rw [World.view?_changeView] at hv
    split at hv
    · obtain ⟨old, hold, rfl⟩ := Option.map_eq_some_iff.mp hv
      exact ⟨old, hold, rfl⟩
    · exact ⟨v, hv, rfl⟩
  refine h.step (q := ⟨view, factory, call, .act .lock next⟩) rfl ?_
    ⟨?_, ⟨{ live with locked := true }, ?_, hnew, ?_⟩, hpast⟩ ?_ ?_ ?_
  · intro number v hv
    obtain ⟨old, hold, hstate⟩ := hview hv
    exact (h.views hold).mono (Nat.le_refl _) hstate
  · exact hrest.2 live.state (h.views hl).sound hnew
  · rw [World.view?_changeView, if_pos rfl, hl]
    rfl
  · intro state hs
    exact ⟨rfl, Option.some.inj hs⟩
  · intro j q₂ _ hj
    refine (h.calls hj).mono (Nat.le_refl _) fun v hv => ?_
    rw [World.view?_changeView, hv]
    split
    · exact ⟨_, rfl, rfl, fun _ => rfl⟩
    · exact ⟨_, rfl, rfl, fun hlock => hlock⟩
  · intro _ j q₂ hne hj hsame
    by_contra hheld
    obtain ⟨state, hstate⟩ := Option.ne_none_iff_exists'.mp hheld
    obtain ⟨live', hlive', -, hlocked⟩ := (h.calls hj).live
    rw [hsame] at hlive'
    cases hl.symm.trans hlive'
    rw [(hlocked state hstate).1] at hfree
    cases hfree
  · intro id hfresh j q₂ hne hj hfresh'
    exact hne (h.apart hj hq hfresh' hfresh)

/-- What is given back is new to nobody but the operation that gives it back. -/
theorem Orderly.act_unlock (h : c.Orderly ids grips) {state : ViewState V}
    {next : Unit → Procedure V call.Answer}
    (hq : c.calls[i]? = some ⟨view, factory, call, .act (.unlock state) next⟩) :
    Orderly ids { c with
      world := c.world.changeView view fun v => { v with state, locked := false }
      calls := c.calls.set i ⟨view, factory, call, next ()⟩ }
      (Function.update grips i .blank) := by
  obtain ⟨⟨⟨before, hheld, hallows⟩, hrest⟩, ⟨live, hl, -, hlocked⟩, hpast⟩ := h.calls hq
  obtain ⟨hlock, rfl⟩ := hlocked before hheld
  have hholder : ∀ {j q₂}, j ≠ i → c.calls[j]? = some q₂ → q₂.view = view →
      (grips j).held = none := by
    intro j q₂ hne hj hsame
    by_contra hheld'
    refine hne (h.sole hj hq hsame hheld' ?_)
    rw [hheld]
    exact Option.some_ne_none _
  refine h.step (q := ⟨view, factory, call, .act (.unlock state) next⟩) rfl ?_
    ⟨hrest, ⟨{ live with state, locked := false }, ?_, nofun, nofun⟩, nofun⟩ ?_
    (fun hno => absurd rfl hno) nofun
  · intro number v hv
    rw [World.view?_changeView] at hv
    split at hv
    · rename_i hnumber
      subst hnumber
      rw [hl] at hv
      obtain rfl := Option.some.inj hv
      refine ⟨hallows.sound, fun n hn hlt hm => ?_⟩
      rcases hallows.known _ hm with hknown | hfresh
      · exact (h.views hl).later n hn hlt hknown
      · exact hpast hfresh n hn hlt rfl
    · exact h.views hv
  · rw [World.view?_changeView, if_pos rfl, hl]
    rfl
  · intro j q₂ hne hj
    by_cases hsame : q₂.view = view
    · obtain ⟨hrest', ⟨live', hlive', hnew', -⟩, hpast'⟩ := h.calls hj
      rw [hsame] at hlive'
      cases hl.symm.trans hlive'
      refine ⟨hrest', ⟨{ live with state, locked := false }, ?_, fun id hid hm => ?_, ?_⟩, hpast'⟩
      · rw [World.view?_changeView, if_pos hsame.symm, hsame, hl]
        rfl
      · rcases hallows.known id hm with hknown | hfresh
        · exact hnew' id hid hknown
        · exact hne (h.apart hj hq hid hfresh)
      · intro state' hs
        rw [hholder hne hj hsame] at hs
        cases hs
    · refine (h.calls hj).mono (Nat.le_refl _) fun v hv => ⟨v, ?_, rfl, fun hlock => hlock⟩
      rw [World.view?_changeView, if_neg (Ne.symm hsame)]
      exact hv

/-- What is drawn is in no other hand and in no view. -/
theorem Orderly.act_draw (h : c.Orderly ids grips) {next : AttributeId → Procedure V call.Answer}
    (hq : c.calls[i]? = some ⟨view, factory, call, .act .draw next⟩)
    (hlt : c.world.drawn < ids.limit) :
    Orderly ids { c with
      world := { c.world with drawn := c.world.drawn + 1 }
      calls := c.calls.set i ⟨view, factory, call, next (ids.draw c.world.drawn)⟩ }
      (Function.update grips i { grips i with fresh := some (ids.draw c.world.drawn) }) := by
  obtain ⟨hrest, ⟨live, hl, -, hlocked⟩, -⟩ := h.calls hq
  have hle : c.world.drawn ≤ c.world.drawn + 1 := Nat.le_succ _
  refine h.step (q := ⟨view, factory, call, .act .draw next⟩) rfl
    (fun hv => (h.views hv).mono hle rfl)
    ⟨hrest _, ⟨live, hl, ?_, hlocked⟩, ?_⟩ (fun _ hj => (h.calls hj).mono hle fun v hv =>
      ⟨v, hv, rfl, fun hlock => hlock⟩) ?_ ?_
  · intro id hid
    obtain rfl := Option.some.inj hid
    exact (h.views hl).later _ (Nat.le_refl _) hlt
  · intro id hid n hn hlt'
    obtain rfl := Option.some.inj hid
    exact (ids.distinct _ n hn hlt').symm
  · intro hheld j q₂ hne hj hsame
    by_contra hheld'
    exact hne (h.sole hj hq hsame hheld' hheld)
  · intro id hid j q₂ hne hj hfresh
    obtain rfl := Option.some.inj hid
    exact (h.calls hj).past hfresh _ (Nat.le_refl _) hlt rfl

end Act

/-- Whatever happens by the way. -/
theorem Orderly.bystands (h : c.Orderly ids grips) (hw : c.world.Bystands w) :
    Orderly ids { c with world := w } grips :=
  ⟨h.views_bystands hw, fun hq => (h.calls hq).bystands hw, h.sole, h.apart, h.loads⟩

/-- A view is opened over a bundle that is well formed and knows no identifier of the future. -/
theorem Orderly.openView (h : c.Orderly ids grips) {factory number : Nat} {session : SessionId}
    {b : Bundle V} {metadata : Metadata} {context : String} (ht : b.Tidy)
    (hf : ∀ n, c.world.drawn ≤ n → n < ids.limit → ids.draw n ∉ b.names.values)
    (ho : c.world.openView factory session b metadata context = .ok (number, w)) :
    Orderly ids { c with world := w } grips := by
  obtain ⟨live, hstate, rfl⟩ := World.openView_appends ho
  have hold : ∀ {k v}, c.world.view? k = some v → (c.world.views ++ [live])[k]? = some v := by
    intro k v hv
    exact List.getElem?_append_left (List.getElem?_eq_some_iff.mp hv).1 ▸ hv
  refine ⟨fun {k v} hv => ?_, fun hq => (h.calls hq).mono (Nat.le_refl _) fun v hv =>
    ⟨v, hold hv, rfl, fun hlock => hlock⟩, h.sole, h.apart, h.loads⟩
  by_cases hk : k < c.world.views.length
  · exact h.views ((List.getElem?_append_left hk).symm.trans hv)
  · have hlast : [live][k - c.world.views.length]? = some v :=
      (List.getElem?_append_right (Nat.le_of_not_lt hk)).symm.trans hv
    obtain rfl := List.mem_singleton.mp (List.mem_of_getElem? hlast)
    refine ⟨?_, fun n hn hlt => ?_⟩
    · rw [hstate]
      exact .opened ht
    · rw [hstate]
      exact hf n hn hlt

/-- An operation begins with nothing in hand. -/
theorem Orderly.begin [BEq V] (h : c.Orderly ids grips) {number : Nat} {live : LiveView V}
    (hl : c.world.view? number = some live) (call : ViewCall V) :
    Orderly ids { c with calls := c.calls ++ [live.begin number call] }
      (Function.update grips c.calls.length .blank) := by
  have hlast : ∀ {j q}, (c.calls ++ [live.begin number call])[j]? = some q →
      j ≠ c.calls.length ∧ c.calls[j]? = some q ∨
        j = c.calls.length ∧ q = live.begin number call := by
    intro j q hj
    rcases Nat.lt_trichotomy j c.calls.length with hlt | rfl | hgt
    · exact .inl ⟨Nat.ne_of_lt hlt, (List.getElem?_append_left hlt).symm.trans hj⟩
    · rw [List.getElem?_concat_length] at hj
      exact .inr ⟨rfl, (Option.some.inj hj).symm⟩
    · rw [List.getElem?_eq_none (by rw [List.length_append, List.length_singleton]; omega)] at hj
      cases hj
  -- Whoever has something in hand was there before.
  have hbusy : ∀ {j q}, (c.calls ++ [live.begin number call])[j]? = some q →
      Function.update grips c.calls.length .blank j ≠ .blank →
      c.calls[j]? = some q ∧ Function.update grips c.calls.length .blank j = grips j := by
    intro j q hj hg
    rcases hlast hj with ⟨hne, hold⟩ | ⟨rfl, -⟩
    · exact ⟨hold, Function.update_of_ne hne _ _⟩
    · exact absurd (Function.update_self _ _ _) hg
  refine ⟨h.views, fun {j q} hj => ?_, fun {j k q q'} hj hk hsame hheld hheld' => ?_,
    fun {j k q q' id} hj hk hfresh hfresh' => ?_, h.loads⟩
  · rcases hlast hj with ⟨hne, hold⟩ | ⟨rfl, rfl⟩
    · rw [Function.update_of_ne hne]
      exact h.calls hold
    · rw [Function.update_self]
      exact ⟨View.procedure_guarding live.view call, ⟨live, hl, nofun, nofun⟩, nofun⟩
  · obtain ⟨hold, hgrip⟩ := hbusy hj fun hb => hheld (congrArg Grip.held hb)
    obtain ⟨hold', hgrip'⟩ := hbusy hk fun hb => hheld' (congrArg Grip.held hb)
    rw [hgrip] at hheld
    rw [hgrip'] at hheld'
    exact h.sole hold hold' hsame hheld hheld'
  · obtain ⟨hold, hgrip⟩ := hbusy hj fun hb => nomatch hfresh.symm.trans (congrArg Grip.fresh hb)
    obtain ⟨hold', hgrip'⟩ := hbusy hk fun hb => nomatch hfresh'.symm.trans (congrArg Grip.fresh hb)
    rw [hgrip] at hfresh
    rw [hgrip'] at hfresh'
    exact h.apart hold hold' hfresh hfresh'

end Steps

/-- Whatever has come about, every view and every operation is as it should be. -/
theorem Flows.orderly [BEq V] {ids : Supply} {c : Traffic V σ} (h : Flows ids c) :
    ∃ grips, c.Orderly ids grips := by
  induction h with
  | @start w hv =>
    refine ⟨fun _ => .blank, fun {number live} hl => ?_, nofun, nofun, nofun, nofun⟩
    simp [World.view?, hv] at hl
  | @load c h factory session repair ih =>
    obtain ⟨grips, ih⟩ := ih
    refine ⟨grips, ih.views, ih.calls, ih.sole, ih.apart, fun q hq => ?_⟩
    rcases List.mem_append.mp hq with hq | hq
    · exact ih.loads q hq
    · rw [List.mem_singleton.mp hq]
      exact World.load_run_tidy session repair
  | @read c i factory action next w h hq answer hw ih =>
    obtain ⟨grips, ih⟩ := ih
    have hnext := (ih.loads _ (List.mem_of_getElem? hq)).2 answer
    have hstep := ih.bystands hw
    refine ⟨grips, hstep.views, hstep.calls, hstep.sole, hstep.apart, fun q hq => ?_⟩
    rcases List.mem_or_eq_of_mem_set hq with hq | rfl
    · exact ih.loads q hq
    · exact hnext
  | @openView c factory number session b metadata context w h hb hf ho ih =>
    obtain ⟨grips, ih⟩ := ih
    refine ⟨grips, ih.openView ?_ hf ho⟩
    rcases hb with rfl | ⟨q, hq, hdone⟩
    · exact Bundle.empty_tidy
    · have hloaded := ih.loads q hq
      rw [hdone] at hloaded
      exact hloaded b rfl
  | call h hl call ih =>
    obtain ⟨grips, ih⟩ := ih
    exact ⟨_, ih.begin hl call⟩
  | act h hq ha ih =>
    obtain ⟨grips, ih⟩ := ih
    cases ha with
    | lock hl hfree => exact ⟨_, ih.act_lock hq hl hfree⟩
    | unlock state => exact ⟨_, ih.act_unlock hq⟩
    | draw hlt => exact ⟨_, ih.act_draw hq hlt⟩
    | aside ha _ hw => exact ⟨_, ih.act_aside hq ha _ hw⟩
  | meanwhile h hw ih =>
    obtain ⟨grips, ih⟩ := ih
    exact ⟨grips, ih.bystands hw⟩

end Traffic
end SessionAttributes
