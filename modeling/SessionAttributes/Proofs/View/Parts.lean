import SessionAttributes.Proofs.World.Scope
import SessionAttributes.View

namespace SessionAttributes

variable {V σ : Type}

namespace Scope

def bundle (s : Scope V) : Bundle V := s.state.bundle

def hold (s : Scope V) (b : Bundle V) : Scope V := { s with state := { s.state with bundle := b } }

def setEntry (s : Scope V) (id : AttributeId) (bytes : Option Bytes) : Scope V :=
  { s with entries := Function.update s.entries id bytes }

def known (s : Scope V) : Names := s.stored.getD s.bundle.names

def save (s : Scope V) (names : Names) : Scope V := { s with stored := some names }

def discard (s : Scope V) : Option AttributeId → Scope V
  | none => s
  | some replaced => s.setEntry replaced none

def announcing (s : Scope V) (activated : List AttributeId) : Scope V :=
  { s with state := { s.state with activated } }

end Scope

theorem PlainWorld.scope_bundle {p : PlainWorld V} {number : Nat} {v : PlainView V}
    (hv : p.views[number]? = some v) (session : SessionId) (factory : Nat) :
    (p.scope session ⟨factory, some number⟩).bundle = v.state.bundle := by
  simp [PlainWorld.scope, PlainWorld.stateOf, Scope.bundle, hv]

namespace Index

variable {t : Terms V} {m : Marshaller V} {session : SessionId}
  {fails : SessionError → Scope V → Prop} {s : Scope V}

theorem secures_saveEntry (id : AttributeId) (bytes : Bytes) (post : Unit → Scope V → Prop) :
    (saveEntry session id bytes : Attempt V Unit).Secures (t.rule m session) post fails s ↔
      t.permits s (.put ⟨session, id⟩ bytes .writeOnly) ∧ (t.failing → ∀ fault, fails fault s) ∧
        t.keeps (s.setEntry id (some bytes)) ∧ post () (s.setEntry id (some bytes)) := by
  simp only [saveEntry, Attempt.secures_bind, Attempt.secures_attributes, Terms.rule,
    Scope.callAttributes_put]
  rfl

theorem secures_removeEntry (id : AttributeId) (post : Unit → Scope V → Prop) :
    (removeEntry session id : Attempt V Unit).Secures (t.rule m session) post fails s ↔
      t.permits s (.remove ⟨session, id⟩ .writeOnly) ∧ (t.failing → ∀ fault, fails fault s) ∧
        t.keeps (s.setEntry id none) ∧ post () (s.setEntry id none) := by
  simp only [removeEntry, Attempt.secures_bind, Attempt.secures_attributes, Terms.rule,
    Scope.callAttributes_remove]
  rfl

theorem secures_load (post : Option Names → Scope V → Prop) :
    (load session : Attempt V _).Secures (t.rule m session) post fails s ↔
      (t.failing → ∀ fault, fails fault s) ∧ t.keeps s ∧ post s.stored s := Iff.rfl

theorem secures_take (post : Option Names → Scope V → Prop) :
    (take session : Attempt V _).Secures (t.rule m session) post fails s ↔
      (t.failing → ∀ fault, fails fault s) ∧ t.keeps { s with stored := none } ∧
        post s.stored { s with stored := none } := by
  have hcall := s.callNames_remove session .normal
  change (_ → _) ∧ t.keeps (s.callNames session (.remove session .normal)).2 ∧
    post (s.callNames session (.remove session .normal)).1
      (s.callNames session (.remove session .normal)).2 ↔ _
  rw [hcall]
  rfl

theorem secures_save (names : Names) (post : Unit → Scope V → Prop) :
    (save session names : Attempt V Unit).Secures (t.rule m session) post fails s ↔
      (t.failing → ∀ fault, fails fault s) ∧ t.keeps (s.save names) ∧ post () (s.save names) := by
  simp only [save, Attempt.secures_bind, Attempt.secures_names, Terms.rule, Scope.callNames_put]
  rfl

theorem secures_bind (known : Names) (name : String) (id : AttributeId)
    (post : Option AttributeId → Scope V → Prop) :
    (bind session known name id : Attempt V _).Secures (t.rule m session) post fails s ↔
      (t.failing → ∀ fault, fails fault s) ∧ t.keeps s ∧
        t.keeps (s.save ((s.stored.getD known).insert name id)) ∧
          post (((s.stored.getD known).get? name).filter (· != id))
            (s.save ((s.stored.getD known).insert name id)) := by
  simp only [bind, Attempt.secures_bind, secures_load, secures_save, Attempt.secures_pure]
  grind

theorem secures_unbind (known : Names) (name : String) (post : Unit → Scope V → Prop) :
    (unbind session known name : Attempt V _).Secures (t.rule m session) post fails s ↔
      (t.failing → ∀ fault, fails fault s) ∧ t.keeps s ∧
        t.keeps (s.save ((s.stored.getD known).erase name)) ∧
          post () (s.save ((s.stored.getD known).erase name)) := by
  simp only [unbind, Attempt.secures_bind, secures_load, secures_save]
  grind

end Index

namespace View

variable {rule : Rule V σ} {fails : SessionError → σ → Prop}

@[simp] theorem secures_inspect (post : ViewState V → σ → Prop) (s : σ) :
    (inspect (V := V)).Secures rule post s =
      rule .lock s fun state s => rule (.unlock state) s fun _ s => post state s := rfl

section
variable [BEq V] {t : Terms V} {m : Marshaller V}

/-- What has to hold before a commit gives the lock back and is done. -/
def Finishes (t : Terms V) (post : Option V → Scope V → Prop) (value : V) (id : AttributeId)
    (b : Bundle V) (s : Scope V) : Prop :=
  ∀ activated, t.keeps ((s.hold (b.setValue id value)).announcing activated) ∧
    post (b.value? id) ((s.hold (b.setValue id value)).announcing activated)

theorem commit_current {w : View V} {name : String} {value : V} {before : Option AttributeId}
    {previous : Option V} {id : AttributeId} {s : Scope V} {post : Option V → Scope V → Prop}
    {fails : SessionError → Scope V → Prop} (hb : s.bundle.attributeId? name = some id)
    (hf : Finishes t post value id s.bundle s) :
    (w.commit name value before previous id).Secures (t.rule m w.session) post fails s := by
  have hstand : standing before (s.state.bundle.attributeId? name) id = .current := by
    simp [standing, show s.state.bundle.attributeId? name = some id from hb]
  unfold commit
  simp only [Attempt.secures_bind, Attempt.secures_ask, Terms.rule]
  split
  · exact hf _
  · rename_i hother
    cases hstand.symm.trans hother
  · rename_i hother
    cases hstand.symm.trans hother

/-- A commit of a free name binds it, discards the entry it was bound to in the store, and takes
its own entry back if it cannot bind the name. -/
theorem commit_free {w : View V} {name : String} {value : V} {previous : Option V}
    {id : AttributeId} {s : Scope V} {post : Option V → Scope V → Prop}
    {fails : SessionError → Scope V → Prop} (hb : s.bundle.attributeId? name = none)
    (hk : t.keeps s) (hks : t.keeps (s.save (s.known.insert name id)))
    (hundo : t.failing → ∀ fault, t.permits s (.remove ⟨w.session, id⟩ .writeOnly) ∧
      fails fault s ∧ t.keeps (s.setEntry id none) ∧ fails fault (s.setEntry id none))
    (hdiscard : ∀ replaced, (s.known.get? name).filter (· != id) = some replaced →
      t.permits (s.save (s.known.insert name id)) (.remove ⟨w.session, replaced⟩ .writeOnly) ∧
        t.keeps ((s.save (s.known.insert name id)).setEntry replaced none) ∧
        (t.failing → Finishes t post value id (s.bundle.bindName name id)
          (s.save (s.known.insert name id))))
    (hf : Finishes t post value id (s.bundle.bindName name id)
      ((s.save (s.known.insert name id)).discard ((s.known.get? name).filter (· != id)))) :
    (w.commit name value none previous id).Secures (t.rule m w.session) post fails s := by
  have hstand : standing none (s.state.bundle.attributeId? name) id = .free := by
    simp [standing, show s.state.bundle.attributeId? name = none from hb]
  unfold commit
  simp only [Attempt.secures_bind, Attempt.secures_ask, Terms.rule]
  split
  · rename_i hother
    cases hstand.symm.trans hother
  · rename_i hother
    cases hstand.symm.trans hother
  simp only [Attempt.secures_bind, Attempt.secures_tryCatch, Index.secures_bind,
    Index.secures_discardEntry, Index.secures_removeEntry]
  refine ⟨fun hfail fault => ?_, hk, hks, ?_⟩
  · obtain ⟨hp, hfl, hke, hfl'⟩ := hundo hfail fault
    exact ⟨hp, fun _ _ => ⟨hk, hfl⟩, hke, ⟨hke, hfl'⟩⟩
  · cases hr : (s.known.get? name).filter (· != id) with
    | none =>
      rw [hr] at hf
      rw [show ((s.stored.getD s.state.bundle.names).get? name).filter (· != id) = none from hr]
      exact hf _
    | some replaced =>
      rw [hr] at hf
      obtain ⟨hp, hke, hfail⟩ := hdiscard replaced hr
      rw [show ((s.stored.getD s.state.bundle.names).get? name).filter (· != id) = some replaced
        from hr]
      simp only [Index.secures_discardEntry, Index.secures_removeEntry]
      exact ⟨hp, fun h _ => hfail h _, hke, hf _⟩

/-- What has to hold before the entry of a write is stored. -/
def Writes (t : Terms V) (m : Marshaller V) (w : View V) (name : String) (value : V)
    (post : Option V → Scope V → Prop) (fails : SessionError → Scope V → Prop)
    (before : Option AttributeId) (previous : Option V) (id : AttributeId) (bytes : Bytes) :
    Scope V → Prop :=
  (Index.saveEntry w.session id bytes : Attempt V Unit).Secures (t.rule m w.session)
    (fun _ => (w.commit name value before previous id).Secures (t.rule m w.session) post fails)
    fails

/-- Announcements and counters do not matter to a write. -/
theorem Writes.announced {w : View V} {name : String} {value : V} {before : Option AttributeId}
    {previous : Option V} {id : AttributeId} {bytes : Bytes} {s : Scope V}
    {post : Option V → Scope V → Prop} {fails : SessionError → Scope V → Prop}
    (h : Writes t m w name value post fails before previous id bytes s) :
    Attempt.Secures (t.rule m w.session) post fails
      (if w.notifies = true then do
        Attempt.ask (.notify .passivate value)
        Index.saveEntry w.session id bytes
        Attempt.record .attributeWritten
        w.commit name value before previous id
      else do
        Index.saveEntry w.session id bytes
        Attempt.record .attributeWritten
        w.commit name value before previous id) s := by
  cases w.notifies with
  | false => exact h
  | true => exact h

/-- The parts of a write: its value may not be encoded, it may be skipped, and otherwise it stores
its entry and commits, under an identifier that is drawn if the name is not bound. -/
theorem set_secures {w : View V} {name : String} {value : V} {s : Scope V}
    {post : Option V → Scope V → Prop} {fails : SessionError → Scope V → Prop} (hk : t.keeps s)
    (hencode : ∀ fault, m.write value = .error fault → fails fault s)
    (hskip : ∀ bytes, m.write value = .ok bytes →
      s.bundle.get? name == some value && w.immutability value → post (s.bundle.get? name) s)
    (hbound : ∀ bytes id, m.write value = .ok bytes →
      ¬ (s.bundle.get? name == some value && w.immutability value) →
      s.bundle.attributeId? name = some id →
      Writes t m w name value post fails (some id) (s.bundle.get? name) id bytes s)
    (hfree : ∀ bytes id, m.write value = .ok bytes →
      ¬ (s.bundle.get? name == some value && w.immutability value) →
      s.bundle.attributeId? name = none → t.draws s id →
      t.keeps { s with drawn := s.drawn + 1 } ∧
        Writes t m w name value post fails none (s.bundle.get? name) id bytes
          { s with drawn := s.drawn + 1 }) :
    (w.set name value).Secures (t.rule m w.session) post fails s := by
  simp only [View.set, Attempt.secures_bind, Attempt.secures_encode, Attempt.secures_lift,
    secures_inspect, Terms.rule]
  cases hw : m.write value with
  | error fault => exact hencode fault hw
  | ok bytes =>
    refine ⟨hk, ?_⟩
    change Attempt.Secures (t.rule m w.session) post fails (if
      (s.bundle.get? name == some value && w.immutability value) = true then _ else _) s
    split
    · exact hskip bytes hw ‹_›
    · rename_i hn
      cases hb : s.bundle.attributeId? name with
      | some id =>
        rw [show s.state.bundle.attributeId? name = some id from hb]
        simp only [Attempt.secures_bind, Attempt.secures_pure]
        exact (hbound bytes id hw hn hb).announced
      | none =>
        rw [show s.state.bundle.attributeId? name = none from hb]
        intro id hd
        obtain ⟨hk', hwrite⟩ := hfree bytes id hw hn hb hd
        exact ⟨hk', hwrite.announced⟩

theorem update_secures {w : View V} {name : String} {change : V → V} {s : Scope V}
    {post : Bool → Scope V → Prop} {fails : SessionError → Scope V → Prop} (hk : t.keeps s)
    (hnone : s.bundle.get? name = none → post false s)
    (hsome : ∀ value, s.bundle.get? name = some value →
      (w.set name (change value)).Secures (t.rule m w.session) (fun _ => post true) fails s) :
    (w.update name change).Secures (t.rule m w.session) post fails s := by
  simp only [View.update, Attempt.secures_bind, Attempt.secures_lift, secures_inspect, Terms.rule]
  refine ⟨hk, ?_⟩
  cases hg : s.bundle.get? name with
  | none =>
    rw [show s.state.bundle.get? name = none from hg]
    exact hnone hg
  | some value =>
    rw [show s.state.bundle.get? name = some value from hg]
    simp only [Attempt.secures_bind, Attempt.secures_pure]
    exact hsome value hg

end

section
variable {t : Terms V} {m : Marshaller V}

theorem names_secures {session : SessionId} {s : Scope V} {post : List String → Scope V → Prop}
    (hk : t.keeps s) (hp : post s.bundle.names.keys s) :
    (names : Procedure V _).Secures (t.rule m session) post s := ⟨hk, hp⟩

theorem snapshot_secures {session : SessionId} {s : Scope V} {post : Bundle V → Scope V → Prop}
    (hk : t.keeps s) (hp : post s.bundle s) :
    (snapshot : Procedure V _).Secures (t.rule m session) post s := ⟨hk, hp⟩

/-- A read changes nothing but what was announced. -/
theorem get_secures {w : View V} {name : String} {s : Scope V} {post : Option V → Scope V → Prop}
    (hf : ∀ activated, t.keeps (s.announcing activated) ∧
      post (s.bundle.get? name) (s.announcing activated)) :
    (w.get name).Secures (t.rule m w.session) post s := by
  unfold View.get
  rw [Procedure.secures_bind, Procedure.secures_ask]
  simp only [Terms.rule]
  cases hg : s.bundle.get? name with
  | none =>
    rw [hg] at hf
    rw [show s.state.bundle.get? name = none from hg]
    cases s.state.bundle.attributeId? name with
    | none => exact hf s.state.activated
    | some id => exact hf s.state.activated
  | some value =>
    rw [hg] at hf
    rw [show s.state.bundle.get? name = some value from hg]
    cases hb : s.state.bundle.attributeId? name with
    | none =>
      have hnone : s.bundle.attributeId? name = none := hb
      simp [Bundle.get?, hnone] at hg
    | some id =>
      dsimp only
      split
      · exact hf (id :: s.state.activated)
      · exact hf s.state.activated

/-- What has to hold before a removal deletes the entry that it has unbound. -/
def Deletes (t : Terms V) (w : View V) (post : Option V → Scope V → Prop)
    (fails : SessionError → Scope V → Prop) (id : AttributeId) (s s' : Scope V) : Prop :=
  t.keeps s' ∧ t.permits s' (.remove ⟨w.session, id⟩ .writeOnly) ∧
    (t.failing → ∀ fault, fails fault s') ∧ t.keeps (s'.setEntry id none) ∧
    post (s.bundle.value? id) (s'.setEntry id none)

/-- The parts of a removal: it unbinds the name in the store, then in the view, and then deletes
the entry. -/
theorem remove_secures {w : View V} {name : String} {s : Scope V}
    {post : Option V → Scope V → Prop} {fails : SessionError → Scope V → Prop} (hk : t.keeps s)
    (hnone : s.bundle.attributeId? name = none → post none s)
    (hsome : ∀ id, s.bundle.attributeId? name = some id → (t.failing → ∀ fault, fails fault s) ∧
      t.keeps (s.save (s.known.erase name)) ∧ ∀ activated,
        Deletes t w post fails id s
          (((s.save (s.known.erase name)).hold
            ((s.bundle.dropName name).dropValue id)).announcing activated)) :
    (w.remove name).Secures (t.rule m w.session) post fails s := by
  simp only [View.remove, Attempt.secures_bind, Attempt.secures_ask, Terms.rule]
  cases hb : s.bundle.attributeId? name with
  | none =>
    rw [show s.state.bundle.attributeId? name = none from hb]
    exact ⟨hk, hnone hb⟩
  | some id =>
    rw [show s.state.bundle.attributeId? name = some id from hb]
    obtain ⟨hfail, hsave, hdelete⟩ := hsome id hb
    simp only [Attempt.secures_bind, Attempt.secures_tryCatch, Index.secures_unbind]
    refine ⟨fun h fault => ⟨hk, hfail h fault⟩, hk, hsave, ?_⟩
    obtain ⟨hk', hdelete⟩ := hdelete (s.state.activated.filter (· != id))
    refine ⟨hk', ?_⟩
    change Attempt.Secures (t.rule m w.session) post fails
      (do Index.removeEntry w.session id; pure (s.bundle.value? id)) _
    simp only [Attempt.secures_bind, Attempt.secures_pure, Index.secures_removeEntry]
    exact hdelete

end
end View
end SessionAttributes
