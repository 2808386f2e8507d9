import SessionAttributes.Proofs.View.Parts

namespace SessionAttributes

variable {V σ : Type}

inductive ViewCall (V : Type) where
  | get (name : String)
  | names
  | snapshot
  | set (name : String) (value : V)
  | update (name : String) (change : V → V)
  | remove (name : String)

namespace ViewCall

def Answer : ViewCall V → Type
  | .get _ => Option V
  | .names => List String
  | .snapshot => Bundle V
  | .set _ _ | .remove _ => Except SessionError (Option V)
  | .update _ _ => Except SessionError Bool

def procedure [BEq V] (w : View V) : (call : ViewCall V) → Procedure V call.Answer
  | .get name => w.get name
  | .names => View.names
  | .snapshot => View.snapshot
  | .set name value => (w.set name value).run
  | .update name change => (w.update name change).run
  | .remove name => (w.remove name).run

end ViewCall

namespace Scope

/-- Writes the entry of a name that the view has not bound, and binds the name to it. -/
def create (s : Scope V) (name : String) (value : V) (id : AttributeId) (bytes : Bytes) : Scope V :=
  ((((s.setEntry id (some bytes)).save (s.known.insert name id)).discard
      ((s.known.get? name).filter (· != id))).hold
    ((s.bundle.bindName name id).setValue id value))

/-- Writes the entry of a name that the view has bound. -/
def overwrite (s : Scope V) (value : V) (id : AttributeId) (bytes : Bytes) : Scope V :=
  (s.setEntry id (some bytes)).hold (s.bundle.setValue id value)

def set [BEq V] (m : Marshaller V) (draw : Nat → AttributeId) (immutability : Immutability V)
    (name : String) (value : V) (s : Scope V) : Except SessionError (Option V) × Scope V :=
  match m.write value with
  | .error fault => (.error fault, s)
  | .ok bytes =>
    if s.bundle.get? name == some value && immutability value then (.ok (s.bundle.get? name), s)
    else
      match s.bundle.attributeId? name with
      | some id => (.ok (s.bundle.value? id), s.overwrite value id bytes)
      | none =>
        let id := draw s.drawn
        (.ok (s.bundle.value? id), { s with drawn := s.drawn + 1 }.create name value id bytes)

theorem set_free [BEq V] {m : Marshaller V} {draw : Nat → AttributeId}
    {immutability : Immutability V} {name : String} {value : V} {bytes : Bytes} {s : Scope V}
    (hb : s.bundle.attributeId? name = none) (hw : m.write value = .ok bytes) :
    s.set m draw immutability name value = (.ok (s.bundle.value? (draw s.drawn)),
      { s with drawn := s.drawn + 1 }.create name value (draw s.drawn) bytes) := by
  have hg : s.bundle.get? name = none := by
    simp [Bundle.get?, hb]
  simp [set, hw, hg, hb]

def update [BEq V] (m : Marshaller V) (draw : Nat → AttributeId) (immutability : Immutability V)
    (name : String) (change : V → V) (s : Scope V) : Except SessionError Bool × Scope V :=
  match s.bundle.get? name with
  | none => (.ok false, s)
  | some value =>
    let r := s.set m draw immutability name (change value)
    (r.1.map fun _ => true, r.2)

def remove (name : String) (s : Scope V) : Except SessionError (Option V) × Scope V :=
  match s.bundle.attributeId? name with
  | none => (.ok none, s)
  | some id =>
    (.ok (s.bundle.value? id),
      ((s.save (s.known.erase name)).setEntry id none).hold
        ((s.bundle.dropName name).dropValue id))

def carryOut [BEq V] (m : Marshaller V) (draw : Nat → AttributeId) (immutability : Immutability V) :
    (call : ViewCall V) → Scope V → call.Answer × Scope V
  | .get name, s => (s.bundle.get? name, s)
  | .names, s => (s.bundle.names.keys, s)
  | .snapshot, s => (s.bundle, s)
  | .set name value, s => s.set m draw immutability name value
  | .update name change, s => s.update m draw immutability name change
  | .remove name, s => s.remove name

def Alike (s s' : Scope V) : Prop := ∃ activated, s' = s.announcing activated

theorem Alike.refl (s : Scope V) : s.Alike s := ⟨s.state.activated, rfl⟩

theorem Alike.announcing {s s' : Scope V} (h : s.Alike s') (activated : List AttributeId) :
    s.Alike (s'.announcing activated) := by
  obtain ⟨_, rfl⟩ := h
  exact ⟨activated, rfl⟩

end Scope

namespace View

variable {w : View V} {m : Marshaller V} {draw : Nat → AttributeId} {s : Scope V}

theorem writes_bound [BEq V] {name : String} {value : V} {previous : Option V} {id : AttributeId}
    {bytes : Bytes} {post : Option V → Scope V → Prop} {fails : SessionError → Scope V → Prop}
    (hb : s.bundle.attributeId? name = some id)
    (hp : ∀ s', (s.overwrite value id bytes).Alike s' → post (s.bundle.value? id) s') :
    Writes (Terms.plain draw) m w name value post fails (some id) previous id bytes s := by
  refine (Index.secures_saveEntry id bytes _).mpr ⟨trivial, False.elim, trivial, ?_⟩
  refine commit_current hb fun activated => ⟨trivial, hp _ ?_⟩
  exact (Scope.Alike.refl _).announcing activated

theorem writes_free [BEq V] {name : String} {value : V} {previous : Option V} {id : AttributeId}
    {bytes : Bytes} {post : Option V → Scope V → Prop} {fails : SessionError → Scope V → Prop}
    (hb : s.bundle.attributeId? name = none)
    (hp : ∀ s', (s.create name value id bytes).Alike s' → post (s.bundle.value? id) s') :
    Writes (Terms.plain draw) m w name value post fails none previous id bytes s := by
  refine (Index.secures_saveEntry id bytes _).mpr ⟨trivial, False.elim, trivial, ?_⟩
  refine commit_free hb trivial trivial False.elim
    (fun _ _ => ⟨trivial, trivial, False.elim⟩) fun activated => ⟨trivial, hp _ ?_⟩
  exact (Scope.Alike.refl _).announcing activated

theorem set_effect [BEq V] {name : String} {value : V} {post : Option V → Scope V → Prop}
    {fails : SessionError → Scope V → Prop}
    (hp : ∀ s', (s.set m draw w.immutability name value).2.Alike s' →
      Attempt.Ends post fails (s.set m draw w.immutability name value).1 s') :
    (w.set name value).Secures ((Terms.plain draw).rule m w.session) post fails s := by
  apply set_secures trivial
  · intro fault hw
    have he : s.set m draw w.immutability name value = (.error fault, s) := by
      simp only [Scope.set, hw]
    rw [he] at hp
    exact hp s (Scope.Alike.refl s)
  · intro bytes hw hskip
    have he : s.set m draw w.immutability name value = (.ok (s.bundle.get? name), s) := by
      simp only [Scope.set, hw, if_pos hskip]
    rw [he] at hp
    exact hp s (Scope.Alike.refl s)
  · intro bytes id hw hskip hb
    have he : s.set m draw w.immutability name value =
        (.ok (s.bundle.value? id), s.overwrite value id bytes) := by
      simp only [Scope.set, hw, if_neg hskip, hb]
    rw [he] at hp
    exact writes_bound hb hp
  · rintro bytes id hw hskip hb rfl
    have he : s.set m draw w.immutability name value = (.ok (s.bundle.value? (draw s.drawn)),
        { s with drawn := s.drawn + 1 }.create name value (draw s.drawn) bytes) := by
      simp only [Scope.set, hw, if_neg hskip, hb]
    rw [he] at hp
    exact ⟨trivial, writes_free hb hp⟩

theorem update_effect [BEq V] {name : String} {change : V → V} {post : Bool → Scope V → Prop}
    {fails : SessionError → Scope V → Prop}
    (hp : ∀ s', (s.update m draw w.immutability name change).2.Alike s' →
      Attempt.Ends post fails (s.update m draw w.immutability name change).1 s') :
    (w.update name change).Secures ((Terms.plain draw).rule m w.session) post fails s := by
  apply update_secures trivial
  · intro hg
    simp only [Scope.update, hg] at hp
    exact hp s (Scope.Alike.refl s)
  · intro value hg
    simp only [Scope.update, hg] at hp
    refine set_effect fun s' hs' => ?_
    have hend := hp s' hs'
    revert hend
    cases (s.set m draw w.immutability name (change value)).1 <;> exact id

theorem remove_effect {name : String} {post : Option V → Scope V → Prop}
    {fails : SessionError → Scope V → Prop}
    (hp : ∀ s', (s.remove name).2.Alike s' → Attempt.Ends post fails (s.remove name).1 s') :
    (w.remove name).Secures ((Terms.plain draw).rule m w.session) post fails s := by
  apply remove_secures trivial
  · intro hb
    simp only [Scope.remove, hb] at hp
    exact hp s (Scope.Alike.refl s)
  · intro id hb
    simp only [Scope.remove, hb] at hp
    refine ⟨False.elim, trivial, fun activated => ?_⟩
    exact ⟨trivial, trivial, False.elim, trivial,
      hp _ ((Scope.Alike.refl _).announcing activated)⟩

/-- An attempt that ends with whatever its effect ends with has that effect. -/
theorem alike_of_ends {α : Type} {x : Attempt V α} {session : SessionId}
    {r : Except SessionError α × Scope V}
    (h : ∀ {post fails}, (∀ s', r.2.Alike s' → Attempt.Ends post fails r.1 s') →
      x.Secures ((Terms.plain draw).rule m session) post fails s) :
    x.run.Secures ((Terms.plain draw).rule m session) (fun a s' => a = r.1 ∧ r.2.Alike s') s := by
  rw [Attempt.secures_run]
  apply h
  intro s' hs'
  obtain ⟨answer, s₁⟩ := r
  cases answer <;> exact ⟨rfl, hs'⟩

/-- An operation of a view answers and acts as the function of its scope. -/
theorem procedure_effect [BEq V] (w : View V) (m : Marshaller V) (draw : Nat → AttributeId)
    (s : Scope V) (call : ViewCall V) :
    ((call.procedure w).runWith (Scope.perform m draw w.session) s).1 =
        (s.carryOut m draw w.immutability call).1 ∧
      (s.carryOut m draw w.immutability call).2.Alike
        ((call.procedure w).runWith (Scope.perform m draw w.session) s).2 := by
  have h : (call.procedure w).Secures ((Terms.plain draw).rule m w.session)
      (fun a s' => a = (s.carryOut m draw w.immutability call).1 ∧
        (s.carryOut m draw w.immutability call).2.Alike s') s := by
    cases call with
    | get name =>
      exact get_secures fun activated =>
        ⟨trivial, rfl, (Scope.Alike.refl s).announcing activated⟩
    | names => exact names_secures trivial ⟨rfl, Scope.Alike.refl s⟩
    | snapshot => exact snapshot_secures trivial ⟨rfl, Scope.Alike.refl s⟩
    | set name value => exact alike_of_ends fun hp => set_effect hp
    | update name change => exact alike_of_ends fun hp => update_effect hp
    | remove name => exact alike_of_ends fun hp => remove_effect hp
  exact Terms.secures_runWith h trivial fun _ => rfl

end View
end SessionAttributes
