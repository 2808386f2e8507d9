import SessionAttributes.Proofs.View.Touches

namespace SessionAttributes

variable {V α : Type}

/-- Each name stands for an attribute of its own, exactly the attributes that stand under a name
have a value, and no other attribute is marked as announced. -/
structure ViewState.Sound (s : ViewState V) : Prop where
  tidy : s.bundle.Tidy
  marked : ∀ id ∈ s.activated, id ∈ s.bundle.names.values

namespace ViewState.Sound

variable {s : ViewState V} {name : String} {id : AttributeId}

/-- A view that was just opened has announced nothing. -/
theorem opened {b : Bundle V} (h : b.Tidy) : (⟨b, []⟩ : ViewState V).Sound := ⟨h, nofun⟩

theorem mark (h : s.Sound) (hb : s.bundle.attributeId? name = some id) :
    ViewState.Sound { s with activated := id :: s.activated } := by
  refine ⟨h.tidy, List.forall_mem_cons.mpr ⟨?_, h.marked⟩⟩
  exact Dict.mem_values.mpr ⟨name, hb⟩

/-- An attribute is written that is bound by then, and perhaps marked. -/
theorem write (h : s.Sound) {b : Bundle V} (ht : b.Tidy) (hid : id ∈ b.names.values)
    (hkept : ∀ k ∈ s.bundle.names.values, k ∈ b.names.values) (marks : Bool) :
    ViewState.Sound ⟨b, if marks then id :: s.activated.filter (· != id) else s.activated⟩ := by
  refine ⟨ht, ?_⟩
  cases marks with
  | false =>
    intro k hk
    exact hkept k (h.marked k hk)
  | true =>
    intro k hk
    rcases List.mem_cons.mp hk with rfl | hk
    · exact hid
    · exact hkept k (h.marked k (List.mem_of_mem_filter hk))

theorem drop (h : s.Sound) (hb : s.bundle.attributeId? name = some id) :
    ViewState.Sound ⟨(s.bundle.dropName name).dropValue id, s.activated.filter (· != id)⟩ := by
  refine ⟨h.tidy.drop hb, ?_⟩
  intro k hk
  obtain ⟨hk, hne⟩ := List.mem_filter.mp hk
  apply (h.tidy.mem_dropName hb).mpr
  exact ⟨h.marked k hk, bne_iff_ne.mp hne⟩

end ViewState.Sound

structure Grip (V : Type) where
  /-- The identifier that it has drawn and not used yet. -/
  fresh : Option AttributeId
  /-- What it has read under the lock that it holds. -/
  held : Option (ViewState V)

namespace Grip

def blank : Grip V := ⟨none, none⟩

/-- A state does not know the identifier that was drawn. -/
def New (g : Grip V) (s : ViewState V) : Prop :=
  ∀ id, g.fresh = some id → id ∉ s.bundle.names.values

/-- A state may be given back for another one: it is sound, and only what was drawn is new. -/
structure Allows (g : Grip V) (before after : ViewState V) : Prop where
  sound : after.Sound
  known : ∀ id ∈ after.bundle.names.values, id ∈ before.bundle.names.values ∨ g.fresh = some id

end Grip

/-- The rule of a lock that guards a sound state. What does not concern the lock may be answered in
any way. -/
def Rule.guarding : Rule V (Grip V)
  | .lock, g, post => g.held = none ∧
    ∀ state : ViewState V, state.Sound → g.New state → post state { g with held := some state }
  | .unlock after, g, post =>
    (∃ before, g.held = some before ∧ g.Allows before after) ∧ post () .blank
  | .draw, g, post => ∀ id, post id { g with fresh := some id }
  | .isOpen, g, post => ∀ answer, post answer g
  | .encode _, g, post => ∀ answer, post answer g
  | .decode _, g, post => ∀ answer, post answer g
  | .names _, g, post => ∀ answer, post answer g
  | .attributes _, g, post => ∀ answer, post answer g
  | .record _, g, post => post () g
  | .notify _ _, g, post => post () g

theorem Rule.guarding_monotone : (Rule.guarding (V := V)).Monotone := by
  intro action g post post' h hp
  cases action with
  | lock => exact ⟨hp.1, fun state hs hn => h _ _ (hp.2 state hs hn)⟩
  | unlock after => exact ⟨hp.1, h _ _ hp.2⟩
  | record measure => exact h _ _ hp
  | notify direction value => exact h _ _ hp
  | _ => exact fun answer => h _ _ (hp answer)

/-- Store calls do not touch what is in hand. -/
theorem Attempt.guarding_mild {x : Attempt V α} (hx : x.Asks Action.Mild)
    {post : α → Grip V → Prop} {fails : SessionError → Grip V → Prop} {g : Grip V}
    (hp : ∀ a, post a g) (hf : ∀ fault, fails fault g) : x.Secures Rule.guarding post fails g := by
  have hall : ∀ q : Procedure V (Except SessionError α), q.Asks Action.Mild →
      q.Secures Rule.guarding (Ends post fails) g := by
    intro q hq
    induction q with
    | done result =>
      cases result with
      | error fault => exact hf fault
      | ok a => exact hp a
    | act action next ih =>
      cases action with
      | names call => exact fun answer => ih answer (hq.2 answer)
      | attributes call => exact fun answer => ih answer (hq.2 answer)
      | record measure => exact ih () (hq.2 ())
      | _ => exact hq.1.elim
  exact hall x.run hx

namespace View

def Leaves (_ : α) (g : Grip V) : Prop := g.held = none

/-- The state that was read may be given back as it was. -/
theorem allows_same {g : Grip V} {state : ViewState V} (h : state.Sound) :
    g.Allows state state := ⟨h, fun _ => .inl⟩

theorem inspect_guarding {g : Grip V} {post : ViewState V → Grip V → Prop} (hd : g.held = none)
    (hp : ∀ state : ViewState V, state.Sound → post state .blank) :
    (inspect (V := V)).Secures Rule.guarding post g :=
  ⟨hd, fun state hs _ => ⟨⟨state, rfl, allows_same hs⟩, hp state hs⟩⟩

theorem get_guarding (v : View V) (name : String) :
    (v.get name).Secures Rule.guarding Leaves .blank := by
  unfold View.get
  rw [Procedure.secures_bind, Procedure.secures_ask]
  refine ⟨rfl, fun state hs _ => ?_⟩
  dsimp only
  split
  · rename_i id value hb _
    split
    · exact ⟨⟨state, rfl, hs.mark hb, fun _ => .inl⟩, rfl⟩
    · exact ⟨⟨state, rfl, allows_same hs⟩, rfl⟩
  · exact ⟨⟨state, rfl, allows_same hs⟩, rfl⟩

/-- Whether or not an entry can be discarded, the operation goes on. -/
theorem discard_guarding {β : Type} {session : SessionId} {id : AttributeId} {x : Attempt V β}
    {post : β → Grip V → Prop} {fails : SessionError → Grip V → Prop} {g : Grip V}
    (h : x.Secures Rule.guarding post fails g) :
    (do Index.discardEntry session id; x).Secures Rule.guarding post fails g := by
  refine Attempt.Secures.bind ?_
  rw [Index.secures_discardEntry]
  exact Attempt.guarding_mild (Index.removeEntry_mild id) (fun _ => h) fun _ => h

section Write
variable [BEq V] {v : View V} {name : String} {value : V} {before : Option AttributeId}
  {previous : Option V} {id : AttributeId} {g : Grip V}

theorem standing_current {now : Option AttributeId} (h : standing before now id = .current) :
    now = some id := by
  unfold standing at h
  by_cases hnow : now = some id
  · exact hnow
  · rw [if_neg hnow] at h
    split at h <;> cases h

theorem standing_free {now : Option AttributeId} (h : standing before now id = .free) :
    before = none ∧ now = none := by
  unfold standing at h
  split at h
  · cases h
  · split at h
    · assumption
    · cases h

/-- A name that was free is bound to what was drawn, and a bound one keeps its attribute. -/
theorem commit_guarding (hd : g.held = none) (hf : before = none → g.fresh = some id) :
    (v.commit name value before previous id).Secures Rule.guarding Leaves Leaves g := by
  unfold View.commit
  rw [Attempt.secures_bind, Attempt.secures_ask]
  refine ⟨hd, fun state hs hnew => ?_⟩
  dsimp only
  cases hstanding : standing before (state.bundle.attributeId? name) id with
  | current =>
    have hb := standing_current hstanding
    have hbound : id ∈ state.bundle.names.values := Dict.mem_values.mpr ⟨name, hb⟩
    have hwritten := hs.write (hs.tidy.setValue hb value) hbound (fun _ h => h) v.notifies
    exact ⟨⟨state, rfl, hwritten, fun _ => .inl⟩, rfl⟩
  | superseded =>
    apply discard_guarding
    exact ⟨⟨state, rfl, allows_same hs⟩, rfl⟩
  | free =>
    obtain ⟨hbefore, hb⟩ := standing_free hstanding
    have hid := hnew id (hf hbefore)
    refine Attempt.Secures.bind ?_
    rw [Attempt.secures_tryCatch]
    apply Attempt.guarding_mild
    · refine Attempt.asks_bind (Index.bind_mild _ name id) fun replaced => ?_
      cases replaced with
      | none => exact Attempt.asks_pure ()
      | some replaced => exact Index.discardEntry_mild replaced
    · intro _
      have hvalues : ∀ k, k ∈ (state.bundle.bindName name id).names.values ↔
          k = id ∨ k ∈ state.bundle.names.values := fun _ => Bundle.mem_bindName hb
      have hwritten := hs.write (hs.tidy.create hb hid value) ((hvalues id).mpr (.inl rfl))
        (fun k hk => (hvalues k).mpr (.inr hk)) v.notifies
      refine ⟨⟨state, rfl, hwritten, fun k hk => ?_⟩, rfl⟩
      rcases (hvalues k).mp hk with rfl | hk
      · exact .inr (hf hbefore)
      · exact .inl hk
    · intro fault
      apply discard_guarding
      exact ⟨⟨state, rfl, allows_same hs⟩, rfl⟩

/-- A write draws an identifier only for a name that was free. -/
theorem set_guarding : (v.set name value).Secures Rule.guarding Leaves Leaves .blank := by
  have hwrite : ∀ {g : Grip V} {before previous id bytes}, g.held = none →
      (before = none → g.fresh = some id) →
      Attempt.Secures Rule.guarding Leaves Leaves (do
        if v.notifies then
          Attempt.ask (.notify .passivate value)
        Index.saveEntry v.session id bytes
        Attempt.record .attributeWritten
        v.commit name value before previous id) g := by
    intro g before previous id bytes hd hf
    have hrest : Attempt.Secures Rule.guarding Leaves Leaves (do
        Index.saveEntry v.session id bytes
        Attempt.record .attributeWritten
        v.commit name value before previous id) g := by
      refine Attempt.Secures.bind fun stored => ?_
      cases stored with
      | error fault => exact hd
      | ok stored => exact commit_guarding hd hf
    cases hn : v.notifies with
    | false => exact hrest
    | true => exact hrest
  unfold View.set
  refine Attempt.Secures.bind fun bytes => ?_
  cases bytes with
  | error fault => rfl
  | ok bytes =>
    refine Attempt.Secures.bind ?_
    rw [Attempt.secures_lift]
    refine inspect_guarding rfl fun state _ => ?_
    dsimp only
    split
    · rfl
    · cases state.bundle.attributeId? name with
      | none =>
        refine Attempt.Secures.bind fun id => ?_
        exact hwrite rfl fun _ => rfl
      | some id => exact hwrite rfl nofun

theorem update_guarding {change : V → V} :
    (v.update name change).Secures Rule.guarding Leaves Leaves .blank := by
  unfold View.update
  refine Attempt.Secures.bind ?_
  rw [Attempt.secures_lift]
  refine inspect_guarding rfl fun state _ => ?_
  split
  · rfl
  · exact Attempt.Secures.bind (Attempt.Secures.mono Rule.guarding_monotone (fun _ _ h => h)
      (fun _ _ h => h) set_guarding)

end Write

/-- A removal takes the name out together with its value and its mark. -/
theorem remove_guarding (v : View V) (name : String) :
    (v.remove name).Secures Rule.guarding Leaves Leaves .blank := by
  unfold View.remove
  rw [Attempt.secures_bind, Attempt.secures_ask]
  refine ⟨rfl, fun state hs _ => ?_⟩
  dsimp only
  cases hb : state.bundle.attributeId? name with
  | none => exact ⟨⟨state, rfl, allows_same hs⟩, rfl⟩
  | some id =>
    refine Attempt.Secures.bind ?_
    rw [Attempt.secures_tryCatch]
    apply Attempt.guarding_mild (Index.unbind_mild _ name)
    · intro _
      have hknown : ∀ k ∈ (state.bundle.dropName name).names.values,
          k ∈ state.bundle.names.values := fun k hk => ((hs.tidy.mem_dropName hb).mp hk).1
      refine ⟨⟨state, rfl, hs.drop hb, fun k hk => .inl (hknown k hk)⟩, ?_⟩
      change Attempt.Secures Rule.guarding Leaves Leaves (do
        Index.removeEntry v.session id
        return state.bundle.value? id) .blank
      refine Attempt.Secures.bind ?_
      exact Attempt.guarding_mild (Index.removeEntry_mild id) (fun _ => rfl) fun _ => rfl
    · intro fault
      exact ⟨⟨state, rfl, allows_same hs⟩, rfl⟩

/-- An operation of a view, whatever it asks for is answered. -/
theorem procedure_guarding [BEq V] (v : View V) (call : ViewCall V) :
    (call.procedure v).Secures Rule.guarding Leaves .blank := by
  have hended : ∀ {α : Type} {x : Attempt V α}, x.Secures Rule.guarding Leaves Leaves .blank →
      x.run.Secures Rule.guarding Leaves .blank := by
    intro α x hx
    rw [Attempt.secures_run]
    exact hx
  cases call with
  | get name => exact get_guarding v name
  | names => exact inspect_guarding rfl fun _ _ => rfl
  | snapshot => exact inspect_guarding rfl fun _ _ => rfl
  | set name value => exact hended set_guarding
  | update name change => exact hended update_guarding
  | remove name => exact hended (remove_guarding v name)

end View
end SessionAttributes
