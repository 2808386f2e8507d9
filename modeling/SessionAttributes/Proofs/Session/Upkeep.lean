import SessionAttributes.Proofs.Session.Interleaving

namespace SessionAttributes

variable {V : Type}

inductive Care where
  | nothing
  /-- An identifier that it drew, and whether the entry is stored. -/
  | fresh (id : AttributeId) (stored : Bool)
  /-- An attribute that it found bound to a name. -/
  | bound (name : String) (id : AttributeId)
  /-- An attribute that it has unbound. -/
  | loose (id : AttributeId)
deriving DecidableEq

inductive Change where
  | keep
  | bind (name : String) (id : AttributeId)
  | unbind (name : String) (id : AttributeId)
deriving DecidableEq

namespace Change

def apply : Change → Names → Names
  | .keep, names => names
  | .bind name id, names => names.insert name id
  | .unbind name _, names => names.erase name

/-- Who may make a change of names: one that has stored the entry of a new attribute, or one that
looks after nothing yet. -/
def Fits (names : Names) (care : Care) : Change → Prop
  | .keep => True
  | .bind name id => names.get? name = none ∧ care = .fresh id true
  | .unbind name id => names.get? name = some id ∧ care = .nothing

end Change

namespace Care

def id? : Care → Option AttributeId
  | .nothing => none
  | .fresh id _ | .bound _ id | .loose id => some id

/-- What is known of the names of the view. Only an attribute that was found bound can be there, and
if so, under the same name. -/
def Fits (names : Names) : Care → Prop
  | .nothing => True
  | .fresh id _ | .loose id => id ∉ names.values
  | .bound name id => names.get? name = some id ∨ id ∉ names.values

inductive Leaves (names : Names) : Care → Change → Care → Prop
  | same (care : Care) : Leaves names care .keep care
  | learn {name : String} {id : AttributeId} (h : names.get? name = some id) :
      Leaves names .nothing .keep (.bound name id)
  | settle {name : String} {id : AttributeId} (h : names.get? name = some id) :
      Leaves names (.bound name id) .keep .nothing
  | bind (name : String) (id : AttributeId) :
      Leaves names (.fresh id true) (.bind name id) .nothing
  | unbind (name : String) (id : AttributeId) :
      Leaves names .nothing (.unbind name id) (.loose id)

inductive Stores (id : AttributeId) : Care → Care → Prop
  | fresh (stored : Bool) : Stores id (.fresh id stored) (.fresh id true)
  | bound (name : String) : Stores id (.bound name id) (.bound name id)

end Care

/-- The part of an operation: what it looks after and, while it has the lock, the names of the view
and what it has changed of them in the store. -/
structure Upkeep where
  care : Care
  grip : Option (Names × Change)

namespace Upkeep

def rest : Upkeep := ⟨.nothing, none⟩

/-- The entry of what is looked after may be deleted if the view does not bind it: it was unbound,
or this is seen under the lock. -/
def Drops (part : Upkeep) (id : AttributeId) : Prop :=
  part.care = .loose id ∨
    part.care.id? = some id ∧ ∃ names, part.grip = some (names, .keep) ∧ id ∉ names.values

/-- What an operation may ask for in its part, and what it may rely on. -/
def rule : Rule V Upkeep
  | .encode _, part, post => ∀ answer, post answer part
  | .record _, part, post | .notify _ _, part, post => post () part
  | .draw, part, post => part = rest ∧ ∀ id, post id { part with care := .fresh id false }
  | .lock, part, post =>
    part.grip = none ∧ ∀ state, part.care.Fits state.bundle.names →
      post state { part with grip := some (state.bundle.names, .keep) }
  | .unlock state, part, post =>
    ∃ names change care, part.grip = some (names, change) ∧
      state.bundle.names = change.apply names ∧ part.care.Leaves names change care ∧
      post () ⟨care, none⟩
  | .names (.get _), part, post =>
    ∃ names, part.grip = some (names, .keep) ∧
      ∀ stored, stored.getD names = names → post (.ok stored) part
  | .names (.put _ names' _), part, post =>
    ∃ names change, part.grip = some (names, .keep) ∧ change.Fits names part.care ∧
      names' = change.apply names ∧
      ∀ answer, post (.ok answer) { part with grip := some (names, change) }
  | .attributes (.put key _ _), part, post =>
    ∃ care, part.care.Stores key.id care ∧ ∀ answer, post (.ok answer) { part with care }
  | .attributes (.remove key _), part, post =>
    part.Drops key.id ∧ ∀ answer, post (.ok answer) { part with care := .nothing }
  | _, _, _ => False

def Ends {α : Type} (_ : α) (part : Upkeep) : Prop := part = rest

end Upkeep

section Following
variable {part : Upkeep} {names : Names} {care : Care} {session : SessionId}
  {fails : SessionError → Upkeep → Prop}

namespace Index

theorem saveEntry_keeps {id : AttributeId} {bytes : Bytes} {post : Unit → Upkeep → Prop}
    (hs : part.care.Stores id care) (hp : post () { part with care }) :
    (saveEntry session id bytes : Attempt V Unit).Secures Upkeep.rule post fails part :=
  ⟨care, hs, fun _ => hp⟩

theorem removeEntry_keeps {id : AttributeId} {post : Unit → Upkeep → Prop} (hd : part.Drops id)
    (hp : post () { part with care := .nothing }) :
    (removeEntry session id : Attempt V Unit).Secures Upkeep.rule post fails part :=
  ⟨hd, fun _ => hp⟩

theorem discardEntry_keeps {id : AttributeId} {post : Unit → Upkeep → Prop} (hd : part.Drops id)
    (hp : post () { part with care := .nothing }) :
    (discardEntry session id : Attempt V Unit).Secures Upkeep.rule post fails part := by
  rw [secures_discardEntry]
  exact removeEntry_keeps hd hp

/-- A name that is free in the view is free in the store, so nothing is replaced. -/
theorem bind_keeps {name : String} {id : AttributeId} {post : Option AttributeId → Upkeep → Prop}
    (hg : part.grip = some (names, .keep)) (hc : part.care = .fresh id true)
    (hn : names.get? name = none)
    (hp : post none { part with grip := some (names, .bind name id) }) :
    (bind session names name id : Attempt V _).Secures Upkeep.rule post fails part := by
  unfold bind
  rw [Attempt.secures_bind]
  refine ⟨names, hg, fun stored hs => ?_⟩
  change Attempt.Secures Upkeep.rule post fails (do
    save session ((stored.getD names).insert name id)
    return ((stored.getD names).get? name).filter (· != id)) part
  rw [hs, hn, Attempt.secures_bind]
  exact ⟨names, .bind name id, hg, ⟨hn, hc⟩, rfl, fun _ => hp⟩

theorem unbind_keeps {name : String} {id : AttributeId} {post : Unit → Upkeep → Prop}
    (hg : part.grip = some (names, .keep)) (hc : part.care = .nothing)
    (hn : names.get? name = some id)
    (hp : post () { part with grip := some (names, .unbind name id) }) :
    (unbind session names name : Attempt V _).Secures Upkeep.rule post fails part := by
  unfold unbind
  rw [Attempt.secures_bind]
  refine ⟨names, hg, fun stored hs => ?_⟩
  change Attempt.Secures Upkeep.rule post fails (save session ((stored.getD names).erase name)) part
  rw [hs]
  exact ⟨names, .unbind name id, hg, ⟨hn, hc⟩, rfl, fun _ => hp⟩

end Index

namespace View

theorem standing_shape (before now : Option AttributeId) (id : AttributeId) :
    standing before now id = .current ∧ now = some id ∨
      standing before now id = .free ∧ before = none ∧ now = none ∨
      standing before now id = .superseded ∧ now ≠ some id := by
  unfold standing
  by_cases hcurrent : now = some id
  · simp [hcurrent]
  · by_cases hfree : before = none ∧ now = none
    · simp [hfree]
    · simp [hcurrent, hfree]

variable [BEq V] {w : View V} {name : String} {value : V}

/-- A commit binds a new attribute, or finds the one that it has written still bound, or deletes
its entry. -/
theorem commit_keeps {before : Option AttributeId} {previous : Option V} {id : AttributeId}
    (hc : care = .fresh id true ∧ before = none ∨ care = .bound name id ∧ before = some id) :
    (w.commit name value before previous id).Secures Upkeep.rule Upkeep.Ends Upkeep.Ends
      ⟨care, none⟩ := by
  unfold commit
  simp only [Attempt.secures_bind, Attempt.secures_ask]
  refine ⟨rfl, fun (state : ViewState V) hfits => ?_⟩
  dsimp only at hfits ⊢
  rcases standing_shape before (state.bundle.attributeId? name) id with
    ⟨hstanding, hb⟩ | ⟨hstanding, hbefore, hb⟩ | ⟨hstanding, hb⟩
  · rw [hstanding]
    rcases hc with ⟨rfl, -⟩ | ⟨rfl, -⟩
    · exact absurd (Dict.mem_values.mpr ⟨name, hb⟩) hfits
    · exact ⟨state.bundle.names, .keep, .nothing, rfl, rfl, .settle hb, rfl⟩
  · rw [hstanding]
    rcases hc with ⟨rfl, -⟩ | ⟨-, hother⟩
    · simp only [Attempt.secures_bind, Attempt.secures_tryCatch]
      refine Index.bind_keeps rfl rfl hb ?_
      exact ⟨state.bundle.names, .bind name id, .nothing, rfl, rfl, .bind name id, rfl⟩
    · cases hbefore.symm.trans hother
  · rw [hstanding]
    have hgone : id ∉ state.bundle.names.values := by
      rcases hc with ⟨rfl, -⟩ | ⟨rfl, -⟩
      · exact hfits
      · exact hfits.resolve_left hb
    have hid : care.id? = some id := by
      rcases hc with ⟨rfl, -⟩ | ⟨rfl, -⟩ <;> rfl
    simp only [Attempt.secures_bind]
    refine Index.discardEntry_keeps (.inr ⟨hid, state.bundle.names, rfl, hgone⟩) ?_
    exact ⟨state.bundle.names, .keep, .nothing, rfl, rfl, .same .nothing, rfl⟩

/-- A write stores its entry before it asks what became of the name. -/
theorem write_keeps {bytes : Bytes} {before : Option AttributeId} {previous : Option V}
    {id : AttributeId}
    (hc : care = .fresh id false ∧ before = none ∨ care = .bound name id ∧ before = some id) :
    Attempt.Secures Upkeep.rule Upkeep.Ends Upkeep.Ends
      (if w.notifies = true then do
        Attempt.ask (.notify .passivate value)
        Index.saveEntry w.session id bytes
        Attempt.record .attributeWritten
        w.commit name value before previous id
      else do
        Index.saveEntry w.session id bytes
        Attempt.record .attributeWritten
        w.commit name value before previous id) ⟨care, none⟩ := by
  have hstored : Attempt.Secures Upkeep.rule Upkeep.Ends Upkeep.Ends
      (do
        Index.saveEntry w.session id bytes
        Attempt.record .attributeWritten
        w.commit name value before previous id) ⟨care, none⟩ := by
    simp only [Attempt.secures_bind]
    rcases hc with ⟨rfl, hbefore⟩ | ⟨rfl, hbefore⟩
    · exact Index.saveEntry_keeps (.fresh false) (commit_keeps (.inl ⟨rfl, hbefore⟩))
    · exact Index.saveEntry_keeps (.bound name) (commit_keeps (.inr ⟨rfl, hbefore⟩))
  cases w.notifies with
  | false => exact hstored
  | true => exact hstored

theorem set_keeps :
    (w.set name value).Secures Upkeep.rule Upkeep.Ends Upkeep.Ends Upkeep.rest := by
  unfold View.set
  simp only [Attempt.secures_bind, Attempt.secures_encode, Attempt.secures_lift, secures_inspect]
  intro answer
  cases answer with
  | error fault => exact rfl
  | ok bytes =>
    refine ⟨rfl, fun (state : ViewState V) _ => ?_⟩
    by_cases hskip : (state.bundle.get? name == some value && w.immutability value) = true
    · refine ⟨state.bundle.names, .keep, .nothing, rfl, rfl, .same .nothing, ?_⟩
      simp only [hskip, if_true, Attempt.secures_bind]
      exact rfl
    · cases hb : state.bundle.attributeId? name with
      | some id =>
        refine ⟨state.bundle.names, .keep, .bound name id, rfl, rfl, .learn hb, ?_⟩
        simp only [if_neg hskip, hb, Attempt.secures_bind, Attempt.secures_pure]
        exact write_keeps (.inr ⟨rfl, rfl⟩)
      | none =>
        refine ⟨state.bundle.names, .keep, .nothing, rfl, rfl, .same .nothing, ?_⟩
        simp only [if_neg hskip, hb]
        exact ⟨rfl, fun id => write_keeps (.inl ⟨rfl, rfl⟩)⟩

theorem update_keeps {change : V → V} :
    (w.update name change).Secures Upkeep.rule Upkeep.Ends Upkeep.Ends Upkeep.rest := by
  unfold View.update
  simp only [Attempt.secures_bind, Attempt.secures_lift, secures_inspect]
  refine ⟨rfl, fun (state : ViewState V) _ => ?_⟩
  refine ⟨state.bundle.names, .keep, .nothing, rfl, rfl, .same .nothing, ?_⟩
  cases state.bundle.get? name with
  | none => exact rfl
  | some current =>
    simp only [Attempt.secures_bind]
    exact set_keeps

omit [BEq V] in
/-- A removal unbinds the name before it deletes the entry. -/
theorem remove_keeps :
    (w.remove name).Secures Upkeep.rule Upkeep.Ends Upkeep.Ends Upkeep.rest := by
  unfold View.remove
  simp only [Attempt.secures_bind, Attempt.secures_ask]
  refine ⟨rfl, fun (state : ViewState V) _ => ?_⟩
  have hunlock : Upkeep.rule (.unlock state) ⟨.nothing, some (state.bundle.names, .keep)⟩
      fun _ part => part = Upkeep.rest :=
    ⟨state.bundle.names, .keep, .nothing, rfl, rfl, .same .nothing, rfl⟩
  dsimp only
  cases hb : state.bundle.attributeId? name with
  | none => exact hunlock
  | some id =>
    dsimp only
    rw [Attempt.secures_bind, Attempt.secures_tryCatch]
    refine Index.unbind_keeps rfl rfl hb ?_
    refine ⟨state.bundle.names, .unbind name id, .loose id, rfl, rfl, .unbind name id, ?_⟩
    change Attempt.Secures Upkeep.rule Upkeep.Ends Upkeep.Ends
      (do Index.removeEntry w.session id; return state.bundle.value? id) ⟨.loose id, none⟩
    rw [Attempt.secures_bind]
    exact Index.removeEntry_keeps (.inl rfl) rfl

omit [BEq V] in
theorem get_keeps : (w.get name).Secures Upkeep.rule Upkeep.Ends Upkeep.rest := by
  unfold View.get
  rw [Procedure.secures_bind, Procedure.secures_ask]
  refine ⟨rfl, fun (state : ViewState V) _ => ?_⟩
  have hunlock : ∀ activated, Upkeep.rule (.unlock { state with activated })
      ⟨.nothing, some (state.bundle.names, .keep)⟩ fun _ part => part = Upkeep.rest :=
    fun activated => ⟨state.bundle.names, .keep, .nothing, rfl, rfl, .same .nothing, rfl⟩
  dsimp only
  cases state.bundle.attributeId? name with
  | none => exact hunlock state.activated
  | some id =>
    cases state.bundle.get? name with
    | none => exact hunlock state.activated
    | some value =>
      dsimp only
      split
      · exact hunlock (id :: state.activated)
      · exact hunlock state.activated

/-- Every operation of a view goes by the rule. -/
theorem procedure_keeps (w : View V) (call : ViewCall V) :
    (call.procedure w).Secures Upkeep.rule Upkeep.Ends Upkeep.rest := by
  have hinspect : ∀ (state : ViewState V),
      Upkeep.rule (.unlock state) ⟨.nothing, some (state.bundle.names, .keep)⟩
        fun _ part => part = Upkeep.rest :=
    fun state => ⟨state.bundle.names, .keep, .nothing, rfl, rfl, .same .nothing, rfl⟩
  cases call with
  | get name => exact get_keeps
  | names => exact ⟨rfl, fun (state : ViewState V) _ => hinspect state⟩
  | snapshot => exact ⟨rfl, fun (state : ViewState V) _ => hinspect state⟩
  | set name value => exact Attempt.Secures.run set_keeps
  | update name change => exact Attempt.Secures.run update_keeps
  | remove name => exact Attempt.Secures.run remove_keeps

end View

end Following
end SessionAttributes
