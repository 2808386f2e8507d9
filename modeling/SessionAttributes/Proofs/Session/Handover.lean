import SessionAttributes.Proofs.Session.Overlap

namespace SessionAttributes

variable {V σ : Type}

/-- The entries that operations on their way have stored and not handed to the view yet. -/
structure Writers where
  /-- The attribute whose entry an operation has stored. -/
  own : Nat → Option AttributeId
  /-- The operation that stored the entry of an attribute last. -/
  last : AttributeId → Option Nat

namespace Writers

def idle : Writers := ⟨fun _ => none, fun _ => none⟩

def after (g : Writers) (i : Nat) : Action V → Writers
  | .attributes (.put key _ _) =>
    ⟨Function.update g.own i (some key.id), Function.update g.last key.id (some i)⟩
  | .attributes (.remove key _) =>
    { g with own := Function.update g.own i ((g.own i).filter (· != key.id)) }
  | .unlock _ => { g with own := Function.update g.own i none }
  | _ => g

/-- An attribute may be handed over as long as the one that stored its entry last has not done
so. -/
def Admits (g : Writers) (i : Nat) : Action V → Prop
  | .unlock state => ∀ id ∈ state.bundle.names.values, g.own i = some id →
    (g.last id).bind g.own = some id
  | _ => True

instance (g : Writers) (i : Nat) (action : Action V) : Decidable (g.Admits i action) :=
  match action with
  | .unlock state => inferInstanceAs (Decidable (∀ id ∈ state.bundle.names.values,
      g.own i = some id → (g.last id).bind g.own = some id))
  | .isOpen | .encode _ | .decode _ | .names _ | .attributes _ | .draw | .lock | .record _
  | .notify _ _ => isTrue trivial

end Writers

/-- A run of operations in which no value comes to a view after one that was stored later. What is
encoded reads back as an equal value. -/
inductive Orderly [BEq V] (m : Marshaller V) (x : Supply) (c₀ : Interleaving V σ) :
    Writers → Interleaving V σ → Prop
  | start : Orderly m x c₀ .idle c₀
  | passive {g : Writers} {c : Interleaving V σ} {w : World V σ} (h : Orderly m x c₀ g c)
      (hp : World.Passive m c.world w) : Orderly m x c₀ g { c with world := w }
  | probe {g : Writers} {c : Interleaving V σ} {env : Surroundings V σ} {i factory : Nat}
      {action : Action V}
      {next : action.Answer → Procedure V (Except SessionError (Option (Bundle V)))}
      (h : Orderly m x c₀ g c) (hc : env.Calm m)
      (hq : c.probes[i]? = some ⟨factory, .act action next⟩) :
      Orderly m x c₀ g { c with
        world := (c.world.perform env ⟨factory, none⟩ action).2
        probes := c.probes.set i
          ⟨factory, next (c.world.perform env ⟨factory, none⟩ action).1⟩ }
  | act {g : Writers} {c : Interleaving V σ} {env : Surroundings V σ} {i view factory : Nat}
      {call : ViewCall V} {action : Action V} {next : action.Answer → Procedure V call.Answer}
      (h : Orderly m x c₀ g c) (hc : env.Calm m) (hr : env.Reliable) (hx : env.draw = x.draw)
      (hq : c.calls[i]? = some ⟨view, factory, call, .act action next⟩)
      (ha : c.locks.Admits x True c.world.drawn i view action)
      (hv : ∀ value, action = .encode value → Faithful m value) (hg : g.Admits i action) :
      Orderly m x c₀ (g.after i action) { c with
        world := (c.world.perform env ⟨factory, some view⟩ action).2
        calls := c.calls.set i
          ⟨view, factory, call, next (c.world.perform env ⟨factory, some view⟩ action).1⟩
        locks := c.locks.after i view action }

theorem Orderly.interleaves [BEq V] {m : Marshaller V} {x : Supply} {c₀ c : Interleaving V σ}
    {g : Writers} (h : Orderly m x c₀ g c) : Interleaves m x True c₀ c := by
  induction h with
  | start => exact .start
  | passive _ hp ih => exact ih.passive hp
  | probe _ hc hq ih => exact ih.probe hc hq
  | act _ hc hr hx hq ha _ _ ih => exact ih.act hc hr hx hq ha

namespace Interleaving

def next? (c : Interleaving V σ) (i : Nat) : Option (Action V) :=
  match c.calls[i]? with
  | some ⟨_, _, _, .act action _⟩ => some action
  | _ => none

/-- Whether operations may act in this order and hand over as they have stored. -/
def Ordered (env : Surroundings V σ) (x : Supply) :
    List Nat → Writers → Interleaving V σ → Prop
  | [], _, _ => True
  | i :: order, g, c => c.Goes x True i ∧ (∀ action ∈ c.next? i, g.Admits i action) ∧
    Ordered env x order ((c.next? i).elim g (g.after i)) (c.advance env i)

instance decidableOrdered (env : Surroundings V σ) (x : Supply) :
    (order : List Nat) → (g : Writers) → (c : Interleaving V σ) →
      Decidable (Ordered env x order g c)
  | [], _, _ => isTrue trivial
  | i :: order, g, c =>
    have := decidableOrdered env x order ((c.next? i).elim g (g.after i)) (c.advance env i)
    inferInstanceAs (Decidable (c.Goes x True i ∧ (∀ action ∈ c.next? i, g.Admits i action) ∧
      Ordered env x order ((c.next? i).elim g (g.after i)) (c.advance env i)))

end Interleaving

namespace Orderly

variable [BEq V] {m : Marshaller V} {x : Supply} {c₀ c : Interleaving V σ} {g : Writers}
  {env : Surroundings V σ}

theorem advance (h : Orderly m x c₀ g c) (hc : env.Calm m) (hr : env.Reliable)
    (hx : env.draw = x.draw) (hv : ∀ value, Faithful m value) {i : Nat} (hgo : c.Goes x True i)
    (hg : ∀ action ∈ c.next? i, g.Admits i action) :
    Orderly m x c₀ ((c.next? i).elim g (g.after i)) (c.advance env i) := by
  unfold Interleaving.Goes at hgo
  unfold Interleaving.next? at hg ⊢
  unfold Interleaving.advance
  split
  · rename_i hq
    rw [hq] at hgo hg
    simp only [hq]
    exact h.act hc hr hx hq hgo (fun value _ => hv value) (hg _ rfl)
  · rename_i hq
    split
    · rename_i hq'
      exact absurd hq' (hq _ _ _ _ _)
    · exact h

/-- Where everything reads back, operations may act in any order that hands over as it stores. -/
theorem follow (h : Orderly m x c₀ g c) (hc : env.Calm m) (hr : env.Reliable)
    (hx : env.draw = x.draw) (hv : ∀ value, Faithful m value) {order : List Nat}
    (ho : Interleaving.Ordered env x order g c) :
    ∃ g, Orderly m x c₀ g (order.foldl (Interleaving.advance env) c) := by
  induction order generalizing g c with
  | nil => exact ⟨g, h⟩
  | cons i order ih => exact ih (h.advance hc hr hx hv ho.1 ho.2.1) ho.2.2

end Orderly

/-- What an operation has stored and not handed over yet and, while it has the lock, the bundle of
the view. -/
structure Draft (V : Type) where
  stored : Option (AttributeId × V)
  seen : Option (Bundle V)

namespace Draft

def empty : Draft V := ⟨none, none⟩

/-- The value of an attribute once what was stored is handed over. -/
def value? (d : Draft V) (b : Bundle V) (id : AttributeId) : Option V :=
  match d.stored with
  | none => b.value? id
  | some (k, value) => if id = k then some value else b.value? id

theorem value?_stored {d : Draft V} {id : AttributeId} {value : V}
    (h : d.stored = some (id, value)) (b : Bundle V) : d.value? b id = some value := by
  rw [value?, h]
  exact if_pos rfl

theorem value?_other {d : Draft V} {id : AttributeId}
    (h : ∀ value, d.stored ≠ some (id, value)) (b : Bundle V) : d.value? b id = b.value? id := by
  unfold value?
  cases hd : d.stored with
  | none => rfl
  | some e =>
    refine if_neg ?_
    rintro rfl
    exact h e.2 hd

/-- A bundle is given back with what was stored, and with no other new attribute. -/
structure Hands (d : Draft V) (b b' : Bundle V) : Prop where
  values : ∀ id ∈ b'.names.values, b'.value? id = d.value? b id
  bound : ∀ id ∈ b'.names.values, id ∈ b.names.values ∨ ∃ value, d.stored = some (id, value)

/-- A view that is given back as it was, with nothing to hand over. -/
theorem hands_same {d : Draft V} (hd : d.stored = none) {b b' : Bundle V}
    (hnames : ∀ id ∈ b'.names.values, id ∈ b.names.values ∧ b'.value? id = b.value? id) :
    d.Hands b b' := by
  refine ⟨fun id hid => ?_, fun id hid => .inl (hnames id hid).1⟩
  rw [value?, hd]
  exact (hnames id hid).2

theorem hands_stored {id : AttributeId} {value : V} {seen : Option (Bundle V)} {b b' : Bundle V}
    (hb : b'.values = b.values)
    (hnames : ∀ k ∈ b'.names.values, k = id ∨ k ∈ b.names.values) :
    Hands ⟨some (id, value), seen⟩ b (b'.setValue id value) := by
  refine ⟨fun k _ => ?_, fun k hk => ?_⟩
  · rw [Bundle.value?_setValue, value?]
    unfold Bundle.value?
    rw [hb]
  · rcases hnames k hk with rfl | hk
    · exact .inr ⟨value, rfl⟩
    · exact .inl hk

/-- What an operation may ask for and rely on. It stores one entry at most before it gives the lock
back the next time. -/
def rule [BEq V] (m : Marshaller V) : Rule V (Draft V)
  | .encode value, d, post => Faithful m value → post (m.write value) d
  | .record _, d, post | .notify _ _, d, post => post () d
  | .draw, d, post => ∀ id, post id d
  | .lock, d, post =>
    ∀ state, state.bundle.names.Injective → post state { d with seen := some state.bundle }
  | .unlock state, d, post => ∃ b, d.seen = some b ∧ d.Hands b state.bundle ∧ post () empty
  | .names (.get _), d, post => ∀ stored, post (.ok stored) d
  | .names (.put _ _ _), d, post => ∀ answer, post (.ok answer) d
  | .attributes (.put key bytes _), d, post => d.stored = none ∧ ∃ value,
    Scope.Keeps m (some bytes) value ∧
      ∀ answer, post (.ok answer) { d with stored := some (key.id, value) }
  | .attributes (.remove key _), d, post =>
    ∀ answer, post (.ok answer) { d with stored := d.stored.filter (·.1 != key.id) }
  | _, _, _ => False

/-- An operation that is done has handed over what it has stored. -/
def Ends {α : Type} (_ : α) (d : Draft V) : Prop := d = empty

end Draft

section Following
variable [BEq V] {m : Marshaller V} {d : Draft V} {session : SessionId}
  {fails : SessionError → Draft V → Prop}

namespace Index

theorem removeEntry_hands {id : AttributeId} {post : Unit → Draft V → Prop}
    (hp : post () { d with stored := d.stored.filter (·.1 != id) }) :
    (removeEntry session id : Attempt V Unit).Secures (Draft.rule m) post fails d := fun _ => hp

theorem discardEntry_hands {id : AttributeId} {post : Unit → Draft V → Prop}
    (hp : post () { d with stored := d.stored.filter (·.1 != id) }) :
    (discardEntry session id : Attempt V Unit).Secures (Draft.rule m) post fails d := by
  rw [secures_discardEntry]
  exact removeEntry_hands hp

/-- Whatever is stored, a name is never found bound to the attribute itself. -/
theorem bind_hands {known : Names} {name : String} {id : AttributeId}
    {post : Option AttributeId → Draft V → Prop}
    (hp : ∀ replaced, replaced ≠ some id → post replaced d) :
    (bind session known name id : Attempt V _).Secures (Draft.rule m) post fails d := by
  unfold bind
  rw [Attempt.secures_bind]
  intro stored
  change Attempt.Secures (Draft.rule m) post fails (do
    save session ((stored.getD known).insert name id)
    return ((stored.getD known).get? name).filter (· != id)) d
  rw [Attempt.secures_bind]
  refine fun _ => hp _ fun he => ?_
  have hne := Option.filter_eq_some_iff.mp he
  simp at hne

theorem unbind_hands {known : Names} {name : String} {post : Unit → Draft V → Prop}
    (hp : post () d) :
    (unbind session known name : Attempt V _).Secures (Draft.rule m) post fails d := by
  unfold unbind
  rw [Attempt.secures_bind]
  exact fun _ _ => hp

end Index

namespace View

variable {w : View V} {name : String} {value : V}

/-- A commit hands over what was stored, or takes it back. -/
theorem commit_hands {before : Option AttributeId} {previous : Option V} {id : AttributeId} :
    (w.commit name value before previous id).Secures (Draft.rule m) Draft.Ends Draft.Ends
      ⟨some (id, value), none⟩ := by
  unfold commit
  simp only [Attempt.secures_bind, Attempt.secures_ask]
  intro (state : ViewState V) _
  dsimp only
  have hdropped : (some (id, value)).filter (fun e => e.1 != id) = none := by simp
  rcases standing_shape before (state.bundle.attributeId? name) id with
    ⟨hstanding, -⟩ | ⟨hstanding, -, -⟩ | ⟨hstanding, -⟩
  · rw [hstanding]
    exact ⟨state.bundle, rfl, Draft.hands_stored rfl fun _ hk => .inr hk, rfl⟩
  · rw [hstanding]
    have hfinish : Draft.Hands ⟨some (id, value), some state.bundle⟩ state.bundle
        ((state.bundle.bindName name id).setValue id value) :=
      Draft.hands_stored rfl fun _ hk => Dict.mem_values_insert hk
    simp only [Attempt.secures_bind, Attempt.secures_tryCatch]
    refine Index.bind_hands fun replaced hne => ?_
    cases replaced with
    | none => exact ⟨state.bundle, rfl, hfinish, rfl⟩
    | some other =>
      have hother : id ≠ other := fun he => hne (he ▸ rfl)
      refine Index.discardEntry_hands ?_
      have hkept : (some (id, value)).filter (fun e => e.1 != other) = some (id, value) := by
        simp [hother]
      rw [hkept]
      exact ⟨state.bundle, rfl, hfinish, rfl⟩
  · rw [hstanding]
    simp only [Attempt.secures_bind]
    refine Index.discardEntry_hands ⟨state.bundle, rfl, ?_, rfl⟩
    exact Draft.hands_same hdropped fun _ hid => ⟨hid, rfl⟩

theorem write_hands {bytes : Bytes} {before : Option AttributeId} {previous : Option V}
    {id : AttributeId} (hk : Scope.Keeps m (some bytes) value) :
    Attempt.Secures (Draft.rule m) Draft.Ends Draft.Ends
      (if w.notifies = true then do
        Attempt.ask (.notify .passivate value)
        Index.saveEntry w.session id bytes
        Attempt.record .attributeWritten
        w.commit name value before previous id
      else do
        Index.saveEntry w.session id bytes
        Attempt.record .attributeWritten
        w.commit name value before previous id) Draft.empty := by
  have hstored : Attempt.Secures (Draft.rule m) Draft.Ends Draft.Ends
      (do
        Index.saveEntry w.session id bytes
        Attempt.record .attributeWritten
        w.commit name value before previous id) Draft.empty := by
    simp only [Attempt.secures_bind]
    exact ⟨rfl, value, hk, fun _ => commit_hands⟩
  cases w.notifies with
  | false => exact hstored
  | true => exact hstored

/-- Nothing is handed over before anything is stored. -/
theorem unlock_hands (m : Marshaller V) (state : ViewState V) (activated : List AttributeId) :
    Draft.rule m (.unlock { state with activated }) ⟨none, some state.bundle⟩
      fun _ d => d = Draft.empty :=
  ⟨state.bundle, rfl, Draft.hands_same rfl fun _ hid => ⟨hid, rfl⟩, rfl⟩

theorem set_hands :
    (w.set name value).Secures (Draft.rule m) Draft.Ends Draft.Ends Draft.empty := by
  unfold View.set
  simp only [Attempt.secures_bind, Attempt.secures_encode, Attempt.secures_lift, secures_inspect]
  intro hfaithful
  cases hw : m.write value with
  | error fault => exact rfl
  | ok bytes =>
    have hkeeps := hfaithful.keeps hw
    refine fun (state : ViewState V) _ => ⟨state.bundle, rfl,
      Draft.hands_same rfl fun _ hid => ⟨hid, rfl⟩, ?_⟩
    by_cases hskip : (state.bundle.get? name == some value && w.immutability value) = true
    · simp only [hskip, if_true, Attempt.secures_bind]
      exact rfl
    · simp only [if_neg hskip]
      cases state.bundle.attributeId? name with
      | some id =>
        simp only [Attempt.secures_bind, Attempt.secures_pure]
        exact write_hands hkeeps
      | none => exact fun id => write_hands hkeeps

theorem update_hands {change : V → V} :
    (w.update name change).Secures (Draft.rule m) Draft.Ends Draft.Ends Draft.empty := by
  unfold View.update
  simp only [Attempt.secures_bind, Attempt.secures_lift, secures_inspect]
  refine fun (state : ViewState V) _ => ⟨state.bundle, rfl,
    Draft.hands_same rfl fun _ hid => ⟨hid, rfl⟩, ?_⟩
  cases state.bundle.get? name with
  | none => exact rfl
  | some current =>
    simp only [Attempt.secures_bind]
    exact set_hands

/-- No other name of a view shares the attribute that a removal drops. -/
theorem remove_hands :
    (w.remove name).Secures (Draft.rule m) Draft.Ends Draft.Ends Draft.empty := by
  unfold View.remove
  simp only [Attempt.secures_bind, Attempt.secures_ask]
  intro (state : ViewState V) hinjective
  cases hb : state.bundle.attributeId? name with
  | none => exact unlock_hands m state state.activated
  | some id =>
    dsimp only
    rw [Attempt.secures_bind, Attempt.secures_tryCatch]
    refine Index.unbind_hands ⟨state.bundle, rfl, Draft.hands_same rfl fun k hk => ?_, ?_⟩
    · obtain ⟨hk, hne⟩ := (hinjective.mem_values_erase_bound hb).mp hk
      refine ⟨hk, ?_⟩
      rw [Bundle.value?_dropValue, if_neg hne]
      rfl
    · change Attempt.Secures (Draft.rule m) Draft.Ends Draft.Ends
        (do Index.removeEntry w.session id; return state.bundle.value? id) Draft.empty
      rw [Attempt.secures_bind]
      exact Index.removeEntry_hands rfl

theorem get_hands : (w.get name).Secures (Draft.rule m) Draft.Ends Draft.empty := by
  unfold View.get
  rw [Procedure.secures_bind, Procedure.secures_ask]
  intro (state : ViewState V) _
  cases state.bundle.attributeId? name with
  | none => exact unlock_hands m state state.activated
  | some id =>
    cases state.bundle.get? name with
    | none => exact unlock_hands m state state.activated
    | some value =>
      dsimp only
      split
      · exact unlock_hands m state (id :: state.activated)
      · exact unlock_hands m state state.activated

/-- Every operation of a view goes by the rule. -/
theorem procedure_hands (w : View V) (call : ViewCall V) :
    (call.procedure w).Secures (Draft.rule m) Draft.Ends Draft.empty := by
  cases call with
  | get name => exact get_hands
  | names => exact fun (state : ViewState V) _ => unlock_hands m state state.activated
  | snapshot => exact fun (state : ViewState V) _ => unlock_hands m state state.activated
  | set name value => exact Attempt.Secures.run set_hands
  | update name change => exact Attempt.Secures.run update_hands
  | remove name => exact Attempt.Secures.run remove_hands

end View
end Following
end SessionAttributes
