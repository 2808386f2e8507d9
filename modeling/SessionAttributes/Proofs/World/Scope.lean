import SessionAttributes.Proofs.Procedure
import SessionAttributes.Proofs.World.Simulation

namespace SessionAttributes

variable {K T V α : Type}

namespace StoreCall

def Touches : StoreCall K T → K → Prop
  | .get key, k | .put key _ _, k | .remove key _, k | .evict key, k => k = key
  | .getAll keys, k => k ∈ keys

theorem collect_congr [DecidableEq K] {f g : K → Option T} {keys : List K}
    (h : ∀ k ∈ keys, f k = g k) (found : List (K × T)) :
    collect f keys found = collect g keys found := by
  induction keys generalizing found with
  | nil => rfl
  | cons key keys ih =>
    have ht := ih fun k hk => h k (List.mem_cons_of_mem _ hk)
    simp only [collect, h key List.mem_cons_self]
    cases g key <;> simp [ht]

/-- A call sees only the keys that it asks for. -/
theorem onMap_congr [DecidableEq K] (call : StoreCall K T) {f g : K → Option T}
    (h : ∀ k, call.Touches k → f k = g k) :
    (call.onMap f).1 = (call.onMap g).1 ∧
      ∀ k, f k = g k → (call.onMap f).2 k = (call.onMap g).2 k := by
  cases call with
  | get key => exact ⟨h key rfl, fun _ hk => hk⟩
  | getAll keys => exact ⟨collect_congr h [], fun _ hk => hk⟩
  | evict key => exact ⟨rfl, fun _ hk => hk⟩
  | put key value mode =>
    refine ⟨congrArg mode.reveal (h key rfl), fun k hk => ?_⟩
    by_cases he : k = key
    · simp [onMap, he]
    · simp [onMap, he, hk]
  | remove key mode =>
    refine ⟨congrArg mode.reveal (h key rfl), fun k hk => ?_⟩
    by_cases he : k = key
    · simp [onMap, he]
    · simp [onMap, he, hk]

theorem onMap_untouched [DecidableEq K] (call : StoreCall K T) (f : K → Option T) {k : K}
    (h : ¬ call.Touches k) : (call.onMap f).2 k = f k := by
  cases call with
  | get key => rfl
  | getAll keys => rfl
  | evict key => rfl
  | put key value mode => exact Function.update_of_ne h _ _
  | remove key mode => exact Function.update_of_ne h _ _

/-- A call that asks for one key at most. -/
theorem onMap_key [DecidableEq K] (call : StoreCall K T) (f : K → Option T) {key : K}
    (h : ∀ k, call.Touches k → k = key) :
    (call.onMap f).1 = (call.onMap fun _ => f key).1 ∧
      (call.onMap f).2 = Function.update f key ((call.onMap fun _ => f key).2 key) := by
  obtain ⟨hanswer, hmap⟩ := call.onMap_congr (f := f) (g := fun _ => f key)
    fun k hk => congrArg f (h k hk)
  refine ⟨hanswer, funext fun k => ?_⟩
  by_cases hk : k = key
  · subst hk
    rw [Function.update_self, hmap k rfl]
  · rw [Function.update_of_ne hk, call.onMap_untouched _ fun ht => hk (h k ht)]

/-- A call that asks for entries of one session only. -/
theorem onMap_session (call : StoreCall AttributeKey T) (f : AttributeKey → Option T)
    {session : SessionId} (h : ∀ key, call.Touches key → key.session = session) :
    (call.onMap f).1 = (call.onMap fun key => f ⟨session, key.id⟩).1 ∧
      (call.onMap f).2 = fun key => if key.session = session then
        (call.onMap fun key => f ⟨session, key.id⟩).2 ⟨session, key.id⟩ else f key := by
  obtain ⟨hanswer, hmap⟩ := call.onMap_congr (f := f) (g := fun key => f ⟨session, key.id⟩)
    fun k hk => by rw [← h k hk]
  refine ⟨hanswer, funext fun ⟨owner, id⟩ => ?_⟩
  by_cases ho : owner = session
  · subst ho
    rw [hmap _ rfl, if_pos rfl]
  · rw [call.onMap_untouched _ fun ht => ho (h _ ht), if_neg ho]

end StoreCall

/-- Whether an action asks for nothing beyond one session. Only a procedure that works for a view
asks for its lock, and it never takes the names out. -/
def Action.On (session : SessionId) (locks : Bool) : Action V → Prop
  | .names call =>
    (∀ s, call.Touches s → s = session) ∧ (locks → ∀ mode, call ≠ .remove session mode)
  | .attributes call => ∀ key, call.Touches key → key.session = session
  | .lock | .unlock _ => locks
  | _ => True

structure Scope (V : Type) where
  isOpen : Bool
  stored : Option Names
  entries : AttributeId → Option Bytes
  state : ViewState V
  drawn : Nat

namespace Scope

variable (s : Scope V) (session : SessionId)

def callNames (call : StoreCall SessionId Names) : call.Answer × Scope V :=
  ((call.onMap fun _ => s.stored).1,
    { s with stored := (call.onMap fun _ => s.stored).2 session })

def callAttributes (call : StoreCall AttributeKey Bytes) : call.Answer × Scope V :=
  ((call.onMap fun key => s.entries key.id).1,
    { s with entries := fun id => (call.onMap fun key => s.entries key.id).2 ⟨session, id⟩ })

/-- What an action answers and does within its scope if its calls do not fail. -/
def perform (m : Marshaller V) (draw : Nat → AttributeId) (session : SessionId) :
    (action : Action V) → Scope V → action.Answer × Scope V
  | .isOpen, s => (s.isOpen, s)
  | .encode value, s => (m.write value, s)
  | .decode bytes, s => (m.read bytes, s)
  | .names call, s => (.ok (s.callNames session call).1, (s.callNames session call).2)
  | .attributes call, s =>
    (.ok (s.callAttributes session call).1, (s.callAttributes session call).2)
  | .draw, s => (draw s.drawn, { s with drawn := s.drawn + 1 })
  | .lock, s => (s.state, s)
  | .unlock state, s => ((), { s with state })
  | .record _, s | .notify _ _, s => ((), s)

@[simp] theorem callNames_put (names : Names) (mode : AccessMode) :
    s.callNames session (.put session names mode) =
      (mode.reveal s.stored, { s with stored := some names }) := by
  refine Prod.ext rfl ?_
  simp [callNames, StoreCall.onMap]

@[simp] theorem callNames_remove (mode : AccessMode) :
    s.callNames session (.remove session mode) =
      (mode.reveal s.stored, { s with stored := none }) := by
  refine Prod.ext rfl ?_
  simp [callNames, StoreCall.onMap]

@[simp] theorem callAttributes_put (id : AttributeId) (bytes : Bytes) (mode : AccessMode) :
    s.callAttributes session (.put ⟨session, id⟩ bytes mode) =
      (mode.reveal (s.entries id),
        { s with entries := Function.update s.entries id (some bytes) }) := by
  refine Prod.ext rfl (congrArg (fun f => { s with entries := f }) (funext fun k => ?_))
  by_cases hk : k = id <;> simp [StoreCall.onMap, hk]

@[simp] theorem callAttributes_remove (id : AttributeId) (mode : AccessMode) :
    s.callAttributes session (.remove ⟨session, id⟩ mode) =
      (mode.reveal (s.entries id), { s with entries := Function.update s.entries id none }) := by
  refine Prod.ext rfl (congrArg (fun f => { s with entries := f }) (funext fun k => ?_))
  by_cases hk : k = id <;> simp [StoreCall.onMap, hk]

end Scope

namespace PlainWorld

variable (p : PlainWorld V) (session : SessionId) (actor : World.Actor)

def stateOf : ViewState V :=
  ((actor.view.bind (p.views[·]?)).map PlainView.state).getD ⟨Bundle.empty, []⟩

def scope : Scope V where
  isOpen := (p.factories[actor.factory]?.map PlainFactory.isOpen).getD false
  stored := p.names session
  entries id := p.attributes ⟨session, id⟩
  state := p.stateOf actor
  drawn := p.drawn

def withScope (s : Scope V) : PlainWorld V :=
  { p with
    names := Function.update p.names session s.stored
    attributes := fun key => if key.session = session then s.entries key.id else p.attributes key
    views := match actor.view with
      | none => p.views
      | some number => p.views.modify number fun v => { v with state := s.state }
    drawn := s.drawn }

def Seats : Prop := ∃ number, actor.view = some number ∧ number < p.views.length

theorem attributes_scope : (fun key : AttributeKey =>
    if key.session = session then (p.scope session actor).entries key.id else p.attributes key) =
      p.attributes := by
  funext key
  obtain ⟨owner, id⟩ := key
  by_cases ho : owner = session <;> simp [scope, ho]

@[simp] theorem withScope_scope : p.withScope session actor (p.scope session actor) = p := by
  have hn : Function.update p.names session (p.names session) = p.names :=
    Function.update_eq_self ..
  have hv : (match actor.view with
      | none => p.views
      | some number => p.views.modify number fun v => { v with state := p.stateOf actor }) =
        p.views := by
    cases hv : actor.view with
    | none => rfl
    | some number =>
      apply List.ext_getElem?
      intro i
      simp only [List.getElem?_modify]
      by_cases hi : number = i
      · subst i
        cases hp : p.views[number]? <;> simp [stateOf, hv, hp]
      · simp [hi]
  simp only [withScope, attributes_scope]
  simp only [scope, hn, hv]

@[simp] theorem withScope_withScope (s s' : Scope V) :
    (p.withScope session actor s).withScope session actor s' = p.withScope session actor s' := by
  have ha : (fun key : AttributeKey => if key.session = session then s'.entries key.id
      else if key.session = session then s.entries key.id else p.attributes key) =
        fun key => if key.session = session then s'.entries key.id else p.attributes key := by
    funext key
    by_cases hk : key.session = session <;> simp [hk]
  have hv : (match actor.view with
      | none => (p.withScope session actor s).views
      | some number =>
        (p.withScope session actor s).views.modify number fun v => { v with state := s'.state }) =
        (p.withScope session actor s').views := by
    unfold withScope
    cases actor.view with
    | none => rfl
    | some number =>
      simp only [List.modify_modify_eq]
      rfl
  unfold withScope at hv ⊢
  simp only [Function.update_idem, ha, hv]

theorem names_withScope (s : Scope V) :
    (p.withScope session actor s).names session = s.stored := Function.update_self ..

theorem attributes_withScope (s : Scope V) (id : AttributeId) :
    (p.withScope session actor s).attributes ⟨session, id⟩ = s.entries id := if_pos rfl

/-- What was put back is found again. -/
theorem scope_withScope {s : Scope V} (ho : s.isOpen = (p.scope session actor).isOpen)
    (hs : p.Seats actor ∨ s.state = p.stateOf actor) :
    (p.withScope session actor s).scope session actor = s := by
  have hv : (p.withScope session actor s).stateOf actor = s.state := by
    rcases hs with ⟨number, hn, hlt⟩ | hs
    · simp [withScope, stateOf, hn, hlt]
    · rw [hs]
      unfold withScope stateOf
      cases hv : actor.view with
      | none => rfl
      | some number =>
        simp only [Option.bind_some, List.getElem?_modify_eq]
        cases hp : p.views[number]? <;> simp [hs, stateOf, hv, hp]
  have hn : (p.withScope session actor s).names session = s.stored := Function.update_self ..
  cases s
  simp only [scope] at ho
  simp only [scope, hv, hn]
  simp [withScope, ho]

end PlainWorld

/-- An action on a session answers from its scope and changes nothing else. -/
theorem Action.On.perform {session : SessionId} {locks : Bool} {action : Action V}
    (h : action.On session locks) (m : Marshaller V) (draw : Nat → AttributeId)
    {actor : World.Actor} {p : PlainWorld V} (hl : locks → p.Seats actor) :
    p.perform m draw actor action =
        (((p.scope session actor).perform m draw session action).1,
          p.withScope session actor ((p.scope session actor).perform m draw session action).2) ∧
      (p.withScope session actor ((p.scope session actor).perform m draw session action).2).scope
        session actor = ((p.scope session actor).perform m draw session action).2 := by
  have hsame : p = p.withScope session actor (p.scope session actor) :=
    (p.withScope_scope session actor).symm
  cases action with
  | isOpen => exact ⟨Prod.ext rfl hsame, p.scope_withScope session actor rfl (Or.inr rfl)⟩
  | encode value => exact ⟨Prod.ext rfl hsame, p.scope_withScope session actor rfl (Or.inr rfl)⟩
  | decode bytes => exact ⟨Prod.ext rfl hsame, p.scope_withScope session actor rfl (Or.inr rfl)⟩
  | record measure =>
    exact ⟨Prod.ext rfl hsame, p.scope_withScope session actor rfl (Or.inr rfl)⟩
  | notify direction value =>
    exact ⟨Prod.ext rfl hsame, p.scope_withScope session actor rfl (Or.inr rfl)⟩
  | lock => exact ⟨Prod.ext rfl hsame, p.scope_withScope session actor rfl (Or.inr rfl)⟩
  | draw =>
    refine ⟨Prod.ext rfl ?_, p.scope_withScope session actor rfl (Or.inr rfl)⟩
    exact congrArg (fun q : PlainWorld V => { q with drawn := p.drawn + 1 }) hsame
  | unlock state =>
    refine ⟨Prod.ext rfl ?_, p.scope_withScope session actor rfl (Or.inl (hl h))⟩
    obtain ⟨number, hn, _⟩ := hl h
    have ha := p.attributes_scope session actor
    have he : Function.update p.names session (p.names session) = p.names :=
      Function.update_eq_self ..
    simp only [PlainWorld.perform, Scope.perform, PlainWorld.withScope, hn, ha]
    simp only [PlainWorld.scope, he]
  | names call =>
    refine ⟨?_, p.scope_withScope session actor rfl (Or.inr rfl)⟩
    obtain ⟨hanswer, hnames⟩ := call.onMap_key p.names h.1
    refine Prod.ext (congrArg Except.ok hanswer) ?_
    have hother := congrArg (fun q : PlainWorld V =>
      { q with names := (call.onMap p.names).2 }) hsame
    refine hother.trans ?_
    simp only [hnames]
    simp [PlainWorld.withScope, PlainWorld.scope, Scope.perform, Scope.callNames]
  | attributes call =>
    refine ⟨?_, p.scope_withScope session actor rfl (Or.inr rfl)⟩
    obtain ⟨hanswer, hentries⟩ := call.onMap_session p.attributes h
    refine Prod.ext (congrArg Except.ok hanswer) ?_
    have hother := congrArg (fun q : PlainWorld V =>
      { q with attributes := (call.onMap p.attributes).2 }) hsame
    refine hother.trans ?_
    simp only [hentries]
    simp [PlainWorld.withScope, PlainWorld.scope, Scope.perform, Scope.callAttributes]

/-- A procedure that works for a view leaves names where there are some. -/
theorem Action.On.keeps_stored {session : SessionId} {action : Action V}
    (h : action.On session true) (m : Marshaller V) (draw : Nat → AttributeId) {s : Scope V}
    (hs : s.stored ≠ none) : (s.perform m draw session action).2.stored ≠ none := by
  cases action with
  | names call =>
    cases call with
    | get key => exact hs
    | getAll keys => exact hs
    | evict key => exact hs
    | put key names mode =>
      obtain rfl : key = session := h.1 key rfl
      simp [Scope.perform]
    | remove key mode =>
      obtain rfl : key = session := h.1 key rfl
      exact absurd rfl (h.2 rfl mode)
  | _ => exact hs

namespace PlainWorld

theorem Seats.withScope {p : PlainWorld V} {actor : World.Actor} (h : p.Seats actor)
    (session : SessionId) (s : Scope V) : (p.withScope session actor s).Seats actor := by
  obtain ⟨number, hn, hlt⟩ := h
  exact ⟨number, hn, by simpa [PlainWorld.withScope, hn] using hlt⟩

/-- The view that a scope belongs to holds what the scope says. -/
theorem withScope_view {p : PlainWorld V} {number : Nat} {v : PlainView V}
    (hv : p.views[number]? = some v) (session : SessionId) (factory : Nat) (s : Scope V) :
    (p.withScope session ⟨factory, some number⟩ s).views[number]? =
      some { v with state := s.state } := by
  simp [withScope, hv]

/-- An action for a view of a session acts on the scope of the view, which stays one of the
session. -/
theorem perform_view {session : SessionId} {action : Action V} (h : action.On session true)
    (m : Marshaller V) (draw : Nat → AttributeId) {p : PlainWorld V} {number factory : Nat}
    (hview : ∃ v, p.views[number]? = some v ∧ v.view.session = session ∧ v.factory = factory) :
    ∃ p', p.perform m draw ⟨factory, some number⟩ action =
        (((p.scope session ⟨factory, some number⟩).perform m draw session action).1, p') ∧
      (∃ v, p'.views[number]? = some v ∧ v.view.session = session ∧ v.factory = factory) ∧
      p'.scope session ⟨factory, some number⟩ =
        ((p.scope session ⟨factory, some number⟩).perform m draw session action).2 := by
  obtain ⟨v, hv, howner, hseat⟩ := hview
  have hseats : p.Seats ⟨factory, some number⟩ :=
    ⟨number, rfl, (List.getElem?_eq_some_iff.mp hv).1⟩
  obtain ⟨hstep, hscope⟩ := h.perform m draw fun _ => hseats
  exact ⟨_, hstep, ⟨_, withScope_view hv session factory _, howner, hseat⟩, hscope⟩

/-- A procedure on a session runs on its scope, which it leaves behind. -/
theorem runWith_scope {session : SessionId} {locks : Bool} {q : Procedure V α}
    (hq : q.Asks (Action.On session locks)) (m : Marshaller V) (draw : Nat → AttributeId)
    {actor : World.Actor} {p : PlainWorld V} (hl : locks → p.Seats actor) :
    q.runWith (PlainWorld.perform m draw actor) p =
        ((q.runWith (Scope.perform m draw session) (p.scope session actor)).1,
          p.withScope session actor
            (q.runWith (Scope.perform m draw session) (p.scope session actor)).2) ∧
      (p.withScope session actor
          (q.runWith (Scope.perform m draw session) (p.scope session actor)).2).scope session
          actor =
        (q.runWith (Scope.perform m draw session) (p.scope session actor)).2 := by
  induction q generalizing p with
  | done result => simp [Procedure.runWith]
  | act action next ih =>
    obtain ⟨hon, hnext⟩ := hq
    obtain ⟨hstep, hscope⟩ := hon.perform m draw hl
    have hl' : locks → (p.withScope session actor
        ((p.scope session actor).perform m draw session action).2).Seats actor :=
      fun h => (hl h).withScope session _
    obtain ⟨hrun, hend⟩ := ih _ (hnext _) hl'
    rw [hscope] at hrun hend
    simp only [Procedure.runWith, hstep]
    rw [hrun]
    simpa using hend

end PlainWorld

/-- Without failing calls a procedure on a session runs on its scope in any world. -/
theorem World.carryOut_scope {σ : Type} {env : Surroundings V σ} {m : Marshaller V} {w : World V σ}
    (hc : env.Calm m) (hr : env.Reliable) (hs : w.Sound) {session : SessionId} {locks : Bool}
    (actor : World.Actor) {q : Procedure V α} (hq : q.Asks (Action.On session locks))
    (hl : locks → w.plain.Seats actor) :
    (w.carryOut env actor q).2.Sound ∧
      (w.carryOut env actor q).1 =
        (q.runWith (Scope.perform m env.draw session) (w.plain.scope session actor)).1 ∧
      (w.carryOut env actor q).2.plain = w.plain.withScope session actor
        (q.runWith (Scope.perform m env.draw session) (w.plain.scope session actor)).2 ∧
      (w.carryOut env actor q).2.plain.scope session actor =
        (q.runWith (Scope.perform m env.draw session) (w.plain.scope session actor)).2 := by
  obtain ⟨hs', he⟩ := carryOut_plain hc hr hs actor q
  obtain ⟨hrun, hscope⟩ := PlainWorld.runWith_scope hq m env.draw hl
  rw [hrun] at he
  refine ⟨hs', congrArg Prod.fst he, congrArg Prod.snd he, ?_⟩
  rw [← hscope]
  exact congrArg (fun r => r.2.scope session actor) he

structure Terms (V : Type) where
  /-- Whether calls may fail. -/
  failing : Prop
  draws : Scope V → AttributeId → Prop
  /-- The calls of the attribute store that may be asked for. -/
  permits : Scope V → StoreCall AttributeKey Bytes → Prop
  /-- What holds before and after every action. -/
  keeps : Scope V → Prop

namespace Terms

variable (t : Terms V) (m : Marshaller V) (session : SessionId)

def rule : Rule V (Scope V)
  | .isOpen, s, post => post s.isOpen s
  | .encode value, s, post => post (m.write value) s
  | .decode bytes, s, post => post (m.read bytes) s
  | .names call, s, post =>
    (t.failing → ∀ fault, post (.error fault) s) ∧ t.keeps (s.callNames session call).2 ∧
      post (.ok (s.callNames session call).1) (s.callNames session call).2
  | .attributes call, s, post =>
    t.permits s call ∧ (t.failing → ∀ fault, post (.error fault) s) ∧
      t.keeps (s.callAttributes session call).2 ∧
        post (.ok (s.callAttributes session call).1) (s.callAttributes session call).2
  | .draw, s, post =>
    ∀ id, t.draws s id →
      t.keeps { s with drawn := s.drawn + 1 } ∧ post id { s with drawn := s.drawn + 1 }
  | .lock, s, post => post s.state s
  | .unlock state, s, post => t.keeps { s with state } ∧ post () { s with state }
  | .record _, s, post | .notify _ _, s, post => post () s

theorem rule_monotone : (t.rule m session).Monotone := by
  intro action s post post' h hp
  cases action with
  | names call => exact ⟨fun hf fault => h _ _ (hp.1 hf fault), hp.2.1, h _ _ hp.2.2⟩
  | attributes call =>
    exact ⟨hp.1, fun hf fault => h _ _ (hp.2.1 hf fault), hp.2.2.1, h _ _ hp.2.2.2⟩
  | draw => exact fun id hd => ⟨(hp id hd).1, h _ _ (hp id hd).2⟩
  | unlock state => exact ⟨hp.1, h _ _ hp.2⟩
  | _ => exact h _ _ hp

variable {t m session}

theorem rule_failed {action : Action V} {s : Scope V} {post : action.Answer → Scope V → Prop}
    (h : t.rule m session action s post) (hf : t.failing) {answer : action.Answer}
    (ha : action.Failed answer) : post answer s := by
  cases action with
  | names call =>
    obtain ⟨fault, rfl⟩ := ha
    exact h.1 hf fault
  | attributes call =>
    obtain ⟨fault, rfl⟩ := ha
    exact h.2.1 hf fault
  | _ => exact ha.elim

theorem rule_perform {action : Action V} {s : Scope V} {post : action.Answer → Scope V → Prop}
    (h : t.rule m session action s post) (hk : t.keeps s) (draw : Nat → AttributeId)
    (hd : action = .draw → t.draws s (draw s.drawn)) :
    t.keeps (s.perform m draw session action).2 ∧
      post (s.perform m draw session action).1 (s.perform m draw session action).2 := by
  cases action with
  | names call => exact h.2
  | attributes call => exact h.2.2
  | draw => exact h _ (hd rfl)
  | unlock state => exact h
  | _ => exact ⟨hk, h⟩

/-- What a procedure secures on its terms holds after its run without failing calls. -/
theorem secures_runWith {post : α → Scope V → Prop} {q : Procedure V α} {s : Scope V}
    (h : q.Secures (t.rule m session) post s) (hk : t.keeps s) {draw : Nat → AttributeId}
    (hd : ∀ s, t.draws s (draw s.drawn)) :
    post (q.runWith (Scope.perform m draw session) s).1
      (q.runWith (Scope.perform m draw session) s).2 := by
  induction q generalizing s with
  | done result => exact h
  | act action next ih =>
    obtain ⟨hk', hnext⟩ := rule_perform h hk draw fun _ => hd s
    exact ih _ hnext hk'

/-- Terms that ask for nothing are observed by every procedure. -/
theorem secures_trivial (hp : ∀ s call, t.permits s call) (hk : ∀ s, t.keeps s)
    (q : Procedure V α) (s : Scope V) : q.Secures (t.rule m session) (fun _ _ => True) s := by
  induction q generalizing s with
  | done result => trivial
  | act action next ih =>
    cases action with
    | names call => exact ⟨fun _ _ => ih _ _, hk _, ih _ _⟩
    | attributes call => exact ⟨hp _ _, fun _ _ => ih _ _, hk _, ih _ _⟩
    | draw => exact fun id _ => ⟨hk _, ih id _⟩
    | unlock state => exact ⟨hk _, ih _ _⟩
    | _ => exact ih _ _

def plain (draw : Nat → AttributeId) : Terms V where
  failing := False
  draws s id := id = draw s.drawn
  permits _ _ := True
  keeps _ := True

end Terms

namespace World

variable {σ : Type} {env : Surroundings V σ} {m : Marshaller V} {w : World V σ} {t : Terms V}
  {session : SessionId} {locks : Bool} {actor : Actor}

/-- A single action of a procedure on its terms, in any world. It fails, or acts on its scope. -/
theorem perform_secures (hc : env.Calm m) (hf : t.failing ∨ env.Reliable) (hs : w.Sound)
    {action : Action V} (hon : action.On session locks) (hl : locks → w.plain.Seats actor)
    {post : action.Answer → Scope V → Prop}
    (h : t.rule m session action (w.plain.scope session actor) post)
    (hk : t.keeps (w.plain.scope session actor))
    (hd : action = .draw → t.draws (w.plain.scope session actor) (env.draw w.drawn)) :
    (w.perform env actor action).2.Sound ∧ ∃ s, t.keeps s ∧
      (s = w.plain.scope session actor ∨
        s = ((w.plain.scope session actor).perform m env.draw session action).2) ∧
      (w.perform env actor action).2.plain = w.plain.withScope session actor s ∧
      (w.perform env actor action).2.plain.scope session actor = s ∧
      post (w.perform env actor action).1 s := by
  obtain ⟨hs', ⟨hfail, hp⟩ | ⟨ha, hp⟩⟩ := perform_plain hc hs actor action
  · have hf : t.failing := hf.resolve_right fun hr => perform_reliable hr w actor action hfail
    refine ⟨hs', w.plain.scope session actor, hk, .inl rfl, ?_, congrArg (·.scope session actor) hp,
      Terms.rule_failed h hf hfail⟩
    rw [hp, PlainWorld.withScope_scope]
  · obtain ⟨hstep, hscope⟩ := hon.perform m env.draw hl
    rw [hstep] at ha hp
    obtain ⟨hk', hpost⟩ := Terms.rule_perform h hk env.draw hd
    refine ⟨hs', _, hk', .inr rfl, hp, ?_, ha ▸ hpost⟩
    rw [hp, hscope]

/-- A whole procedure on its terms. -/
theorem carryOut_secures {q : Procedure V α} (hc : env.Calm m) (hf : t.failing ∨ env.Reliable)
    (hs : w.Sound) (hq : q.Asks (Action.On session locks)) (hl : locks → w.plain.Seats actor)
    {post : α → Scope V → Prop}
    (h : q.Secures (t.rule m session) post (w.plain.scope session actor))
    (hk : t.keeps (w.plain.scope session actor)) (hd : ∀ s, t.draws s (env.draw s.drawn)) :
    (w.carryOut env actor q).2.Sound ∧ ∃ s, t.keeps s ∧
      (w.carryOut env actor q).2.plain = w.plain.withScope session actor s ∧
      post (w.carryOut env actor q).1 s := by
  induction q generalizing w with
  | done result => exact ⟨hs, _, hk, (w.plain.withScope_scope session actor).symm, h⟩
  | act action next ih =>
    obtain ⟨hs', s, hk', -, hp, hscope, hnext⟩ :=
      perform_secures hc hf hs hq.1 hl h hk fun _ => hd _
    have hl' : locks → (w.perform env actor action).2.plain.Seats actor := fun hlocks => by
      rw [hp]
      exact (hl hlocks).withScope session s
    obtain ⟨hs'', s', hk'', hp', hpost⟩ :=
      ih _ hs' (hq.2 _) hl' (hscope.symm ▸ hnext) (hscope.symm ▸ hk')
    refine ⟨hs'', s', hk'', hp'.trans ?_, hpost⟩
    rw [hp, PlainWorld.withScope_withScope]

end World
end SessionAttributes
