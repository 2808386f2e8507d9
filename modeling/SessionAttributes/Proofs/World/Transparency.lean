import SessionAttributes.Proofs.Session.Mirror
import SessionAttributes.Proofs.View.Effects
import SessionAttributes.Proofs.World.Background
import SessionAttributes.Proofs.World.Opening

namespace SessionAttributes

variable {V σ : Type}

inductive Operation (V : Type) where
  | openFactory (options : FactoryOptions) (immutability : Immutability V) (context : String)
      (counts : Bool)
  | closeFactory (factory : Nat)
  | openView (factory : Nat) (session : SessionId) (bundle : Bundle V) (metadata : Metadata)
      (context : String)
  | closeView (view : Nat)
  | load (factory : Nat) (session : SessionId) (repair : Bool)
  | delete (factory : Nat) (session : SessionId) (deletion : Deletion)
  | view (view : Nat) (call : ViewCall V)
  | metadata (call : StoreCall SessionId Metadata)
  | names (call : StoreCall SessionId Names)
  | attributes (call : StoreCall AttributeKey Bytes)

/-- The type of an operation's answer. There is none from a view that was never handed out. -/
def Operation.Answer : Operation V → Type
  | .openFactory .. | .openView .. => Except SessionError Nat
  | .closeFactory _ | .closeView _ => Unit
  | .load .. => Except SessionError (Option (Bundle V))
  | .delete .. => Except SessionError Bool
  | .view _ call => Option call.Answer
  | .metadata call => Except SessionError call.Answer
  | .names call => Except SessionError call.Answer
  | .attributes call => Except SessionError call.Answer

namespace World

/-- A procedure is carried out, with passive steps before, between and after its actions. -/
inductive Carried (m : Marshaller V) (env : Surroundings V σ) (actor : Actor) {α : Type} :
    Procedure V α → World V σ → α → World V σ → Prop
  | done (a : α) (w : World V σ) : Carried m env actor (.done a) w a w
  | passive {p : Procedure V α} {w w' w'' : World V σ} {a : α} (h : Passive m w w')
      (hp : Carried m env actor p w' a w'') : Carried m env actor p w a w''
  | act {action : Action V} {next : action.Answer → Procedure V α} {w w' : World V σ} {a : α}
      (h : Carried m env actor (next (w.perform env actor action).1)
        (w.perform env actor action).2 a w') :
      Carried m env actor (.act action next) w a w'

/-- What opening something answers, and the world after it. -/
def taken (w : World V σ) :
    Except SessionError (Nat × World V σ) → Except SessionError Nat × World V σ
  | .ok (number, w') => (.ok number, w')
  | .error fault => (.error fault, w)

variable [BEq V]

def Runs (m : Marshaller V) (env : Surroundings V σ) (w : World V σ) :
    (op : Operation V) → op.Answer → World V σ → Prop
  | .openFactory options immutability context counts, answer, w' =>
    (answer, w') = w.taken (w.openFactory options immutability context counts)
  | .closeFactory factory, _, w' => w' = w.closeFactory env factory
  | .openView factory session bundle metadata context, answer, w' =>
    (answer, w') = w.taken (w.openView factory session bundle metadata context)
  | .closeView view, _, w' => w' = w.closeView view
  | .load factory session repair, answer, w' =>
    Carried m env ⟨factory, none⟩ (Session.load session repair).run w answer w'
  | .delete factory session deletion, answer, w' =>
    Carried m env ⟨factory, none⟩ (Session.delete session deletion).run w answer w'
  | .view view call, answer, w' =>
    match w.view? view with
    | none => answer = none ∧ w' = w
    | some live => ∃ a, answer = some a ∧
        Carried m env ⟨live.factory, some view⟩ (call.procedure live.view) w a w'
  | .metadata call, answer, w' => (answer, w') = w.callMetadata env call
  | .names call, answer, w' => (answer, w') = w.callNames env call
  | .attributes call, answer, w' => (answer, w') = w.callAttributes env call

end World

structure Exchange (V : Type) where
  op : Operation V
  answer : op.Answer

/-- A client, which decides from what it was answered so far, works on a world, and passive steps
are made in between. -/
inductive History [BEq V] (m : Marshaller V) (env : Surroundings V σ)
    (client : List (Exchange V) → Operation V) (w₀ : World V σ) :
    List (Exchange V) → World V σ → Prop
  | start : History m env client w₀ [] w₀
  | passive {past : List (Exchange V)} {w w' : World V σ} (h : History m env client w₀ past w)
      (hp : World.Passive m w w') : History m env client w₀ past w'
  | operate {past : List (Exchange V)} {w w' : World V σ} {answer : (client past).Answer}
      (h : History m env client w₀ past w) (hr : w.Runs m env (client past) answer w') :
      History m env client w₀ (past ++ [⟨client past, answer⟩]) w'

namespace PlainWorld

def hushView (v : PlainView V) : PlainView V :=
  { v with
    view := { v.view with notifies := false }
    state := ⟨v.state.bundle, []⟩ }

def hush (p : PlainWorld V) : PlainWorld V := { p with views := p.views.map hushView }

def carryOut {α : Type} (m : Marshaller V) (draw : Nat → AttributeId) (session : SessionId)
    (factory : Nat) (q : Procedure V α) (p : PlainWorld V) : α × PlainWorld V :=
  let r := q.runWith (Scope.perform m draw session) (p.scope session ⟨factory, none⟩)
  (r.1, p.withScope session ⟨factory, none⟩ r.2)

def taken (p : PlainWorld V) : Except SessionError (Nat × PlainWorld V) →
    Except SessionError Nat × PlainWorld V
  | .ok (number, p') => (.ok number, p')
  | .error fault => (.error fault, p)

def callView [BEq V] (m : Marshaller V) (draw : Nat → AttributeId) (view : Nat) (call : ViewCall V)
    (p : PlainWorld V) : Option call.Answer × PlainWorld V :=
  match p.views[view]? with
  | none => (none, p)
  | some v =>
    let r := (p.scope v.view.session ⟨v.factory, some view⟩).carryOut m draw v.view.immutability
      call
    (some r.1, p.withScope v.view.session ⟨v.factory, some view⟩ r.2)

/-- What an operation answers and does in a plain world whose views announce nothing. -/
def operate [BEq V] (m : Marshaller V) (draw : Nat → AttributeId) :
    (op : Operation V) → PlainWorld V → op.Answer × PlainWorld V
  | .openFactory options immutability _ _, p => p.taken (p.openFactory options immutability)
  | .closeFactory factory, p => ((), p.closeFactory factory)
  | .openView factory session bundle _ _, p => p.taken (p.openView false factory session bundle)
  | .closeView _, p => ((), p)
  | .load factory session repair, p =>
    p.carryOut m draw session factory (Session.load session repair).run
  | .delete factory session deletion, p =>
    p.carryOut m draw session factory (Session.delete session deletion).run
  | .view view call, p => p.callView m draw view call
  | .metadata call, p =>
    (.ok (call.onMap p.metadata).1, { p with metadata := (call.onMap p.metadata).2 })
  | .names call, p => (.ok (call.onMap p.names).1, { p with names := (call.onMap p.names).2 })
  | .attributes call, p =>
    (.ok (call.onMap p.attributes).1, { p with attributes := (call.onMap p.attributes).2 })

/-- The history of a client in a plain world, by its length. -/
def follow [BEq V] (m : Marshaller V) (draw : Nat → AttributeId)
    (client : List (Exchange V) → Operation V) :
    Nat → PlainWorld V → List (Exchange V) × PlainWorld V
  | 0, p => ([], p)
  | n + 1, p =>
    let past := (p.follow m draw client n).1
    let r := (p.follow m draw client n).2.operate m draw (client past)
    (past ++ [⟨client past, r.1⟩], r.2)

theorem callView_some [BEq V] {p : PlainWorld V} {view : Nat} {v : PlainView V}
    (h : p.views[view]? = some v) (m : Marshaller V) (draw : Nat → AttributeId)
    (call : ViewCall V) :
    p.callView m draw view call =
      let r := (p.scope v.view.session ⟨v.factory, some view⟩).carryOut m draw
        v.view.immutability call
      (some r.1, p.withScope v.view.session ⟨v.factory, some view⟩ r.2) := by
  simp only [callView, h]

theorem callView_none [BEq V] {p : PlainWorld V} {view : Nat} (h : p.views[view]? = none)
    (m : Marshaller V) (draw : Nat → AttributeId) (call : ViewCall V) :
    p.callView m draw view call = (none, p) := by
  simp only [callView, h]

theorem hush_withScope (p : PlainWorld V) (session : SessionId) (factory view : Nat) (s : Scope V) :
    (p.withScope session ⟨factory, some view⟩ s).hush =
      p.hush.withScope session ⟨factory, some view⟩ (s.announcing []) := by
  have hv : (p.views.modify view fun v => { v with state := s.state }).map hushView =
      (p.views.map hushView).modify view fun v => { v with state := (s.announcing []).state } := by
    refine map_modify _ (fun v => ?_) p.views view
    rfl
  simp only [hush, withScope, hv]
  rfl

theorem hush_scope {p : PlainWorld V} {view : Nat} {v : PlainView V} (h : p.views[view]? = some v)
    (session : SessionId) (factory : Nat) :
    p.hush.scope session ⟨factory, some view⟩ =
      (p.scope session ⟨factory, some view⟩).announcing [] := by
  simp [scope, stateOf, hush, Scope.announcing, h, hushView]

theorem hush_openFactory (p : PlainWorld V) (options : FactoryOptions)
    (immutability : Immutability V) :
    (p.openFactory options immutability).map (fun x => (x.1, x.2.hush)) =
      p.hush.openFactory options immutability := by
  unfold openFactory
  cases options.validate with
  | error fault => rfl
  | ok _ => cases Executor.spawn (T := AttributeKey) options.workers <;> rfl

theorem hush_openView (p : PlainWorld V) (notifies : Bool) (factory : Nat) (session : SessionId)
    (bundle : Bundle V) :
    (p.openView notifies factory session bundle).map (fun x => (x.1, x.2.hush)) =
      p.hush.openView false factory session bundle := by
  unfold openView
  cases hf : p.factories[factory]? with
  | none => simp [hush, hf, Except.map]
  | some f => cases ho : f.isOpen <;> simp [hush, hf, ho, Except.map, hushView]

end PlainWorld

namespace Scope

theorem create_announcing (s : Scope V) (activated : List AttributeId) (name : String) (value : V)
    (id : AttributeId) (bytes : Bytes) :
    (s.announcing activated).create name value id bytes =
      (s.create name value id bytes).announcing activated := by
  have hk : (s.announcing activated).known = s.known := rfl
  unfold create
  rw [hk]
  cases (s.known.get? name).filter (· != id) <;> rfl

variable [BEq V] (m : Marshaller V) (draw : Nat → AttributeId) (immutability : Immutability V)

theorem set_announcing (name : String) (value : V) (s : Scope V) (activated : List AttributeId) :
    (s.announcing activated).set m draw immutability name value =
      ((s.set m draw immutability name value).1,
        (s.set m draw immutability name value).2.announcing activated) := by
  have hb : (s.announcing activated).bundle = s.bundle := rfl
  unfold set
  cases m.write value with
  | error fault => rfl
  | ok bytes =>
    simp only [hb]
    split
    · rfl
    · cases s.bundle.attributeId? name with
      | some id => rfl
      | none =>
        exact Prod.ext rfl (create_announcing { s with drawn := s.drawn + 1 } activated _ _ _ _)

theorem update_announcing (name : String) (change : V → V) (s : Scope V)
    (activated : List AttributeId) :
    (s.announcing activated).update m draw immutability name change =
      ((s.update m draw immutability name change).1,
        (s.update m draw immutability name change).2.announcing activated) := by
  have hb : (s.announcing activated).bundle = s.bundle := rfl
  simp only [update, hb]
  cases s.bundle.get? name with
  | none => rfl
  | some value => simp only [set_announcing]

/-- What a view remembers of its announcements does not matter to an operation. -/
theorem carryOut_announcing (call : ViewCall V) (s : Scope V) (activated : List AttributeId) :
    (s.announcing activated).carryOut m draw immutability call =
      ((s.carryOut m draw immutability call).1,
        (s.carryOut m draw immutability call).2.announcing activated) := by
  cases call with
  | get name => rfl
  | names => rfl
  | snapshot => rfl
  | set name value => exact set_announcing m draw immutability name value s activated
  | update name change => exact update_announcing m draw immutability name change s activated
  | remove name =>
    have hb : (s.announcing activated).bundle = s.bundle := rfl
    simp only [carryOut, remove, hb]
    cases s.bundle.attributeId? name <;> rfl

end Scope

namespace World

variable {m : Marshaller V} {env : Surroundings V σ} {w w' : World V σ}

/-- Passive steps do not show in how a procedure ends. -/
theorem Carried.plain {actor : Actor} {α : Type} {p : Procedure V α} {a : α}
    (h : Carried m env actor p w a w') (hc : env.Calm m) (hr : env.Reliable) (hs : w.Sound) :
    w'.Sound ∧ (a, w'.plain) = p.runWith (PlainWorld.perform m env.draw actor) w.plain := by
  induction h with
  | done a w => exact ⟨hs, rfl⟩
  | passive hp _ ih =>
    obtain ⟨hs', hk⟩ := hp.keeps hs
    rw [← hk]
    exact ih hs'
  | @act action next w w' a _ ih =>
    obtain ⟨hs', hfail | ⟨ha, hp⟩⟩ := perform_plain hc hs actor action
    · exact absurd hfail.1 (perform_reliable hr w actor action)
    · obtain ⟨hs'', he⟩ := ih hs'
      refine ⟨hs'', ?_⟩
      rw [he, hp]
      simp only [Procedure.runWith]
      rw [ha]

/-- A procedure of a session ends as in the plain world. -/
theorem Carried.session {session : SessionId} {factory : Nat} {α : Type} {q : Procedure V α} {a : α}
    (h : Carried m env ⟨factory, none⟩ q w a w') (hq : q.Asks (Action.On session false))
    (hc : env.Calm m) (hr : env.Reliable) (hs : w.Sound) :
    w'.Sound ∧ (a, w'.plain.hush) = w.plain.hush.carryOut m env.draw session factory q := by
  obtain ⟨hs', he⟩ := h.plain hc hr hs
  rw [(PlainWorld.runWith_scope hq m env.draw nofun).1] at he
  obtain ⟨ha, hp⟩ := Prod.mk.inj he
  refine ⟨hs', Prod.ext ha ?_⟩
  rw [hp]
  rfl

/-- A call of a store answers without a failure, and acts as on a map. -/
theorem Answers.reliable {A : Type} {r : Except SessionError A × World V σ} {a : A}
    {answer : Except SessionError A} {p p' : PlainWorld V} (ha : (answer, w') = r)
    (h : Answers r p a p') (hr : ∀ fault, r.1 ≠ .error fault) :
    w'.Sound ∧ (answer, w'.plain.hush) = (.ok a, p'.hush) := by
  subst ha
  obtain ⟨hs, ha, hp⟩ := h.ok hr
  exact ⟨hs, Prod.ext ha (congrArg PlainWorld.hush hp)⟩

theorem taken_sound {r : Except SessionError (Nat × World V σ)}
    {answer : Except SessionError Nat} (h : (answer, w') = w.taken r) (hs : w.Sound)
    (hr : ∀ {number w''}, r = .ok (number, w'') → w''.Sound) : w'.Sound := by
  cases r with
  | error fault =>
    cases h
    exact hs
  | ok x =>
    cases h
    exact hr rfl

theorem taken_plain {r : Except SessionError (Nat × World V σ)}
    {r' : Except SessionError (Nat × PlainWorld V)} {answer : Except SessionError Nat}
    (h : (answer, w') = w.taken r) (hr : r.map (fun x => (x.1, x.2.plain)) = r') :
    (answer, w'.plain.hush) = w.plain.hush.taken (r'.map fun x => (x.1, x.2.hush)) := by
  subst hr
  cases r <;> cases h <;> rfl

variable [BEq V]

/-- An operation of a view ends as its effect in the plain world. -/
theorem Carried.view {view : Nat} {live : LiveView V} {call : ViewCall V} {a : call.Answer}
    (h : Carried m env ⟨live.factory, some view⟩ (call.procedure live.view) w a w')
    (hl : w.view? view = some live) (hc : env.Calm m) (hr : env.Reliable) (hs : w.Sound) :
    w'.Sound ∧ (some a, w'.plain.hush) = w.plain.hush.operate m env.draw (.view view call) := by
  have hv : w.plain.views[view]? = some live.plain := plain_live hl
  have hseats : w.plain.Seats ⟨live.factory, some view⟩ :=
    ⟨view, rfl, (List.getElem?_eq_some_iff.mp hv).1⟩
  have hhush : w.plain.hush.views[view]? = some (PlainWorld.hushView live.plain) := by
    change (w.plain.views.map PlainWorld.hushView)[view]? = _
    rw [List.getElem?_map, hv]
    rfl
  obtain ⟨hs', he⟩ := h.plain hc hr hs
  rw [(PlainWorld.runWith_scope (View.procedure_on live.view call) m env.draw fun _ => hseats).1]
    at he
  obtain ⟨ha, hp⟩ := Prod.mk.inj he
  obtain ⟨heffect, activated, hx⟩ := View.procedure_effect live.view m env.draw
    (w.plain.scope live.view.session ⟨live.factory, some view⟩) call
  have hcarry := Scope.carryOut_announcing m env.draw live.view.immutability call
    (w.plain.scope live.view.session ⟨live.factory, some view⟩) []
  rw [← PlainWorld.hush_scope hv] at hcarry
  refine ⟨hs', ?_⟩
  rw [ha, hp, hx, PlainWorld.hush_withScope, heffect]
  change _ = w.plain.hush.callView m env.draw view call
  rw [PlainWorld.callView_some hhush]
  exact Prod.ext (congrArg some (congrArg Prod.fst hcarry).symm)
    (congrArg (w.plain.hush.withScope live.view.session ⟨live.factory, some view⟩)
      (congrArg Prod.snd hcarry).symm)

/-- Every operation ends as in the plain world. -/
theorem Runs.plain {op : Operation V} {answer : op.Answer} (h : w.Runs m env op answer w')
    (hc : env.Calm m) (hr : env.Reliable) (hs : w.Sound) :
    w'.Sound ∧ (answer, w'.plain.hush) = w.plain.hush.operate m env.draw op := by
  cases op with
  | openFactory options immutability context counts =>
    refine ⟨taken_sound h hs fun hx => openFactory_sound hx hs, ?_⟩
    have he := taken_plain h (openFactory_plain options immutability context counts)
    rw [PlainWorld.hush_openFactory] at he
    exact he
  | closeFactory factory =>
    cases h
    obtain ⟨hs', hp⟩ := closeFactory_plain hc hs factory
    exact ⟨hs', by rw [hp]; rfl⟩
  | openView factory session bundle metadata context =>
    refine ⟨taken_sound h hs fun hx => openView_sound hx hs, ?_⟩
    have he := taken_plain h (openView_plain factory session bundle metadata context)
    rw [PlainWorld.hush_openView] at he
    exact he
  | closeView view =>
    cases h
    have hk : w.Keeps (w.closeView view) := changeView_keeps w view _ fun _ => rfl
    obtain ⟨hs', hp⟩ := hk hs
    exact ⟨hs', by rw [hp]; rfl⟩
  | load factory session repair => exact h.session (Session.load_on _ repair) hc hr hs
  | delete factory session deletion => exact h.session (Session.delete_on _ deletion) hc hr hs
  | view view call =>
    change match w.view? view with | none => _ | some live => _ at h
    cases hl : w.view? view with
    | none =>
      rw [hl] at h
      have hnone : w.plain.hush.views[view]? = none := by
        change (w.plain.views.map PlainWorld.hushView)[view]? = _
        rw [List.getElem?_map, plain_view, hl]
        rfl
      have hcall := PlainWorld.callView_none hnone m env.draw call
      obtain ⟨rfl, rfl⟩ := h
      exact ⟨hs, hcall.symm⟩
    | some live =>
      rw [hl] at h
      obtain ⟨a, rfl, hcarried⟩ := h
      exact hcarried.view hl hc hr hs
  | metadata call =>
    exact (callMetadata_answers hc hs call).reliable h (guarded_reliable hr _ _)
  | names call =>
    exact (callNames_answers hc hs call).reliable h (guarded_reliable hr _ _)
  | attributes call =>
    exact (callAttributes_answers hc hs call).reliable h (guarded_reliable hr _ _)

end World

variable [BEq V] {m : Marshaller V}

/-- A client is answered, and leaves in a world, what it would in the plain world. -/
theorem History.follows {env : Surroundings V σ} {client : List (Exchange V) → Operation V}
    {w₀ w : World V σ} {past : List (Exchange V)} (h : History m env client w₀ past w)
    (hc : env.Calm m) (hr : env.Reliable) (hs : w₀.Sound) :
    w.Sound ∧ (past, w.plain.hush) = w₀.plain.hush.follow m env.draw client past.length := by
  induction h with
  | start => exact ⟨hs, rfl⟩
  | passive _ hp ih =>
    obtain ⟨hs', he⟩ := ih
    obtain ⟨hs'', hk⟩ := hp.keeps hs'
    exact ⟨hs'', hk ▸ he⟩
  | operate _ hrun ih =>
    obtain ⟨hs', he⟩ := ih
    obtain ⟨hs'', he'⟩ := hrun.plain hc hr hs'
    refine ⟨hs'', ?_⟩
    rw [List.length_append, List.length_singleton, PlainWorld.follow, ← he]
    simp only [← he']

/-- Two worlds that were opened with whatever options answer a client alike, whatever is evicted in
between, and in the end their stores hold the same. -/
theorem passivation_transparent {σ₁ σ₂ : Type} {env₁ : Surroundings V σ₁}
    {env₂ : Surroundings V σ₂} (hc₁ : env₁.Calm m) (hr₁ : env₁.Reliable) (hc₂ : env₂.Calm m)
    (hr₂ : env₂.Reliable) (hd : env₁.draw = env₂.draw)
    {metadata₁ names₁ attributes₁ metadata₂ names₂ attributes₂ : StoreOptions} {scene₁ : σ₁}
    {scene₂ : σ₂} {v₁ w₁ : World V σ₁} {v₂ w₂ : World V σ₂}
    (ho₁ : World.openWith metadata₁ names₁ attributes₁ scene₁ = .ok v₁)
    (ho₂ : World.openWith metadata₂ names₂ attributes₂ scene₂ = .ok v₂)
    {client : List (Exchange V) → Operation V} {past₁ past₂ : List (Exchange V)}
    (h₁ : History m env₁ client v₁ past₁ w₁) (h₂ : History m env₂ client v₂ past₂ w₂)
    (hlength : past₁.length = past₂.length) :
    past₁ = past₂ ∧ w₁.metadata.store.find? = w₂.metadata.store.find? ∧
      w₁.names.store.find? = w₂.names.store.find? ∧
      w₁.attributes.store.find? = w₂.attributes.store.find? := by
  obtain ⟨hs₁, hp₁⟩ := World.openWith_plain ho₁
  obtain ⟨hs₂, hp₂⟩ := World.openWith_plain ho₂
  obtain ⟨-, he₁⟩ := h₁.follows hc₁ hr₁ hs₁
  obtain ⟨-, he₂⟩ := h₂.follows hc₂ hr₂ hs₂
  have he : (past₁, w₁.plain.hush) = (past₂, w₂.plain.hush) := by
    rw [he₁, he₂, hp₁, hp₂, hd, hlength]
  obtain ⟨hpast, hplain⟩ := Prod.mk.inj he
  exact ⟨hpast, congrArg PlainWorld.metadata hplain, congrArg PlainWorld.names hplain,
    congrArg PlainWorld.attributes hplain⟩

/-- A write of names under two choices of options, in one of which it is evicted afterwards. -/
theorem passivation_transparent_put :
    ∃ (v₁ v₂ w₁ w₂ : World Bool Unit) (past₁ past₂ : List (Exchange Bool)),
      World.openWith {} {} {} () = .ok v₁ ∧
      World.openWith {} { shards := 1, capacity := some 1 } { persistent := true } () = .ok v₂ ∧
      History .bits (.quiet .bits AttributeId.ofNat)
        (fun _ => .names (.put "s" Dict.empty .normal)) v₁ past₁ w₁ ∧
      History .bits (.quiet .bits AttributeId.ofNat)
        (fun _ => .names (.put "s" Dict.empty .normal)) v₂ past₂ w₂ ∧
      past₁ = past₂ ∧ w₁.names.store.find? = w₂.names.store.find? := by
  let env : Surroundings Bool Unit := .quiet .bits AttributeId.ofNat
  let client : List (Exchange Bool) → Operation Bool :=
    fun _ => .names (.put "s" Dict.empty .normal)
  have hc : env.Calm .bits := Surroundings.quiet_calm _ _
  have hr : env.Reliable := Surroundings.quiet_reliable _ _
  have hone : ∀ v : World Bool Unit,
      ∃ past w, History .bits env client v past w ∧ past.length = 1 :=
    fun v => ⟨_, _, .operate (.start : History .bits env client v [] v)
      (rfl : v.Runs .bits env (client []) (v.callNames env (.put "s" Dict.empty .normal)).1
        (v.callNames env (.put "s" Dict.empty .normal)).2), rfl⟩
  obtain ⟨v₁, ho₁⟩ : ∃ v : World Bool Unit, World.openWith {} {} {} () = .ok v := ⟨_, rfl⟩
  obtain ⟨v₂, ho₂⟩ : ∃ v : World Bool Unit, World.openWith {} { shards := 1, capacity := some 1 }
    { persistent := true } () = .ok v := ⟨_, rfl⟩
  obtain ⟨past₁, w₁, h₁, hl₁⟩ := hone v₁
  obtain ⟨past₂, w₂, h₂, hl₂⟩ := hone v₂
  have h₁ := h₁.passive (World.Passive.names hc "s")
  obtain ⟨hpast, -, hn, -⟩ :=
    passivation_transparent hc hr hc hr rfl ho₁ ho₂ h₁ h₂ (hl₁.trans hl₂.symm)
  exact ⟨v₁, v₂, _, w₂, past₁, past₂, ho₁, ho₂, h₁, h₂, hpast, hn⟩

end SessionAttributes
