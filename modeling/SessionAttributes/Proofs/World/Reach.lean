import SessionAttributes.Proofs.View.Effects
import SessionAttributes.Session

namespace SessionAttributes

variable {V : Type} {session : SessionId} {locks : Bool}

def Action.Due (session : SessionId) (locks : Bool) (action : Action V) : Prop :=
  action.On session locks ∧ ∀ direction, action ≠ .record (.activationNotified direction)

/-- An attempt that is due on a session reaches nothing beyond it. -/
theorem Attempt.Asks.on {α : Type} {x : Attempt V α} (h : x.Asks (Action.Due session locks)) :
    x.Asks (Action.On session locks) := Procedure.Asks.mono (fun _ ha => ha.1) h

namespace Index

theorem load_due : (load session : Attempt V _).Asks (Action.Due session locks) :=
  Attempt.asks_names ⟨⟨fun _ h => h, fun _ _ => nofun⟩, nofun⟩

theorem save_due (names : Names) :
    (save session names : Attempt V _).Asks (Action.Due session locks) :=
  Attempt.asks_bind (Attempt.asks_names ⟨⟨fun _ h => h, fun _ _ => nofun⟩, nofun⟩)
    fun _ => Attempt.asks_pure ()

theorem take_due : (take session : Attempt V _).Asks (Action.Due session false) :=
  Attempt.asks_names ⟨⟨fun _ h => h, nofun⟩, nofun⟩

theorem bind_due (known : Names) (name : String) (id : AttributeId) :
    (bind session known name id : Attempt V _).Asks (Action.Due session locks) :=
  Attempt.asks_bind load_due fun _ => Attempt.asks_bind (save_due _) fun _ => Attempt.asks_pure _

theorem unbind_due (known : Names) (name : String) :
    (unbind session known name : Attempt V _).Asks (Action.Due session locks) :=
  Attempt.asks_bind load_due fun _ => save_due _

theorem saveEntry_due (id : AttributeId) (bytes : Bytes) :
    (saveEntry session id bytes : Attempt V _).Asks (Action.Due session locks) :=
  Attempt.asks_bind (Attempt.asks_attributes ⟨fun _ h => congrArg AttributeKey.session h, nofun⟩)
    fun _ => Attempt.asks_pure ()

theorem removeEntry_due (id : AttributeId) :
    (removeEntry session id : Attempt V _).Asks (Action.Due session locks) :=
  Attempt.asks_bind (Attempt.asks_attributes ⟨fun _ h => congrArg AttributeKey.session h, nofun⟩)
    fun _ => Attempt.asks_pure ()

theorem discardEntry_due (id : AttributeId) :
    (discardEntry session id : Attempt V _).Asks (Action.Due session locks) := by
  refine Attempt.asks_bind (Attempt.asks_tryCatch ?_ fun _ => Attempt.asks_pure _) fun _ => ?_
  · exact Attempt.asks_bind (removeEntry_due id) fun _ => Attempt.asks_pure _
  · rename_i e
    cases e <;> exact Attempt.asks_pure ()

theorem loadEntries_due (names : Names) :
    (loadEntries session names : Attempt V _).Asks (Action.Due session locks) := by
  refine Attempt.asks_attributes ⟨fun key h => ?_, nofun⟩
  obtain ⟨id, _, rfl⟩ := List.mem_map.mp h
  rfl

theorem removeEntries_due (mode : AccessMode) (ids : List AttributeId) :
    (removeEntries session mode ids : Attempt V _).Asks (Action.Due session locks) := by
  induction ids with
  | nil => exact Attempt.asks_pure ()
  | cons id rest ih =>
    exact Attempt.asks_bind
      (Attempt.asks_attributes ⟨fun _ h => congrArg AttributeKey.session h, nofun⟩) fun _ => ih

end Index

namespace View

theorem lift_inspect_due :
    (ExceptT.lift inspect : Attempt V _).Asks (Action.Due session true) :=
  ⟨⟨rfl, nofun⟩, fun _ => ⟨⟨rfl, nofun⟩, fun _ => trivial⟩⟩

theorem unlock_due (state : ViewState V) :
    (Attempt.ask (.unlock state) : Attempt V _).Asks (Action.Due session true) :=
  Attempt.asks_ask ⟨rfl, nofun⟩

theorem get_due (w : View V) (name : String) : (w.get name).Asks (Action.Due session true) := by
  have hlast : ∀ (state : ViewState V) (answer : Option V), Procedure.Asks (V := V)
      (Action.Due session true) (do Procedure.ask (.unlock state); return answer) :=
    fun _ _ => ⟨⟨rfl, nofun⟩, fun _ => trivial⟩
  unfold View.get Procedure.Asks
  rw [Procedure.secures_bind]
  refine ⟨⟨rfl, nofun⟩, fun state => ?_⟩
  change Procedure.Asks (Action.Due session true) _
  split
  · split
    · exact ⟨⟨rfl, nofun⟩, fun _ => ⟨⟨trivial, nofun⟩, fun _ => trivial⟩⟩
    · exact hlast _ _
  · exact hlast _ _

theorem commit_due [BEq V] (w : View V) (name : String) (value : V) (before : Option AttributeId)
    (previous : Option V) (id : AttributeId) :
    (w.commit name value before previous id).Asks (Action.Due w.session true) := by
  refine Attempt.asks_bind (Attempt.asks_ask ⟨rfl, nofun⟩) fun state => ?_
  dsimp only
  split
  · exact Attempt.asks_bind (unlock_due _) fun _ => Attempt.asks_pure _
  · refine Attempt.asks_bind (Index.discardEntry_due id) fun _ => ?_
    exact Attempt.asks_bind (unlock_due _) fun _ => Attempt.asks_pure _
  · refine Attempt.asks_bind (Attempt.asks_tryCatch ?_ fun fault => ?_) fun _ => ?_
    · refine Attempt.asks_bind (Index.bind_due _ name id) fun replaced => ?_
      cases replaced with
      | none => exact Attempt.asks_pure ()
      | some replaced => exact Index.discardEntry_due replaced
    · refine Attempt.asks_bind (Index.discardEntry_due id) fun _ => ?_
      exact Attempt.asks_bind (unlock_due _) fun _ => Attempt.asks_throw fault
    · exact Attempt.asks_bind (unlock_due _) fun _ => Attempt.asks_pure _

theorem set_due [BEq V] (w : View V) (name : String) (value : V) :
    (w.set name value).Asks (Action.Due w.session true) := by
  have hwrite : ∀ before previous id bytes, Attempt.Asks (Action.Due w.session true) (do
      Index.saveEntry w.session id bytes
      Attempt.record .attributeWritten
      w.commit name value before previous id) := fun before previous id bytes =>
    Attempt.asks_bind (Index.saveEntry_due id bytes) fun _ =>
      Attempt.asks_bind (Attempt.asks_ask ⟨trivial, nofun⟩)
        fun _ => commit_due w name value before previous id
  refine Attempt.asks_bind (Attempt.asks_encode ⟨trivial, nofun⟩) fun bytes => ?_
  refine Attempt.asks_bind lift_inspect_due fun state => ?_
  dsimp only
  split
  · exact Attempt.asks_bind (Attempt.asks_ask ⟨trivial, nofun⟩) fun _ => Attempt.asks_pure _
  · split
    · refine Attempt.asks_bind (Attempt.asks_pure _) fun id => ?_
      split
      · exact Attempt.asks_bind (Attempt.asks_ask ⟨trivial, nofun⟩) fun _ => hwrite _ _ id bytes
      · exact hwrite _ _ id bytes
    · refine Attempt.asks_bind (Attempt.asks_ask ⟨trivial, nofun⟩) fun id => ?_
      split
      · exact Attempt.asks_bind (Attempt.asks_ask ⟨trivial, nofun⟩) fun _ => hwrite _ _ id bytes
      · exact hwrite _ _ id bytes

theorem update_due [BEq V] (w : View V) (name : String) (change : V → V) :
    (w.update name change).Asks (Action.Due w.session true) := by
  refine Attempt.asks_bind lift_inspect_due fun state => ?_
  split
  · exact Attempt.asks_pure _
  · exact Attempt.asks_bind (set_due w name _) fun _ => Attempt.asks_pure _

theorem remove_due (w : View V) (name : String) :
    (w.remove name).Asks (Action.Due w.session true) := by
  refine Attempt.asks_bind (Attempt.asks_ask ⟨rfl, nofun⟩) fun state => ?_
  split
  · exact Attempt.asks_bind (unlock_due _) fun _ => Attempt.asks_pure _
  · refine Attempt.asks_bind (Attempt.asks_tryCatch (Index.unbind_due _ name) fun fault => ?_)
      fun _ => ?_
    · exact Attempt.asks_bind (unlock_due _) fun _ => Attempt.asks_throw fault
    · refine Attempt.asks_bind (unlock_due _) fun _ => ?_
      exact Attempt.asks_bind (Index.removeEntry_due _) fun _ => Attempt.asks_pure _

theorem procedure_due [BEq V] (w : View V) (call : ViewCall V) :
    (call.procedure w).Asks (Action.Due w.session true) := by
  cases call with
  | get name => exact get_due w name
  | names => exact ⟨⟨rfl, nofun⟩, fun _ => ⟨⟨rfl, nofun⟩, fun _ => trivial⟩⟩
  | snapshot => exact ⟨⟨rfl, nofun⟩, fun _ => ⟨⟨rfl, nofun⟩, fun _ => trivial⟩⟩
  | set name value => exact set_due w name value
  | update name change => exact update_due w name change
  | remove name => exact remove_due w name

/-- An operation of a view reaches its own session only. -/
theorem procedure_on [BEq V] (w : View V) (call : ViewCall V) :
    (call.procedure w).Asks (Action.On w.session true) :=
  Procedure.Asks.mono (fun _ ha => ha.1) (procedure_due w call)

theorem set_on [BEq V] (w : View V) (name : String) (value : V) :
    (w.set name value).Asks (Action.On w.session true) := (set_due w name value).on

theorem update_on [BEq V] (w : View V) (name : String) (change : V → V) :
    (w.update name change).Asks (Action.On w.session true) := (update_due w name change).on

end View

namespace Session

theorem delete_due (session : SessionId) (deletion : Deletion) :
    (delete session deletion : Attempt V _).Asks (Action.Due session false) := by
  refine Attempt.asks_bind (Attempt.asks_ensureOpen ⟨trivial, nofun⟩) fun _ => ?_
  refine Attempt.asks_bind Index.take_due fun names => ?_
  have hend : ∀ _ : Unit, Attempt.Asks (V := V) (Action.Due session false) (do
      Attempt.record (.sessionDeleted deletion.isSilent)
      return true) := fun _ =>
    Attempt.asks_bind (Attempt.asks_ask ⟨trivial, nofun⟩) fun _ => Attempt.asks_pure _
  split
  · exact hend ()
  · exact Attempt.asks_bind (Index.removeEntries_due _ _) hend

theorem load_due (session : SessionId) (repair : Bool) :
    (load session repair : Attempt V _).Asks (Action.Due session false) := by
  refine Attempt.asks_bind (Attempt.asks_ensureOpen ⟨trivial, nofun⟩) fun _ => ?_
  refine Attempt.asks_bind Index.load_due fun names => ?_
  split
  · exact Attempt.asks_bind (Attempt.asks_ask ⟨trivial, nofun⟩) fun _ => Attempt.asks_pure _
  · refine Attempt.asks_bind (Index.loadEntries_due _) fun entries => ?_
    refine Attempt.asks_bind (Attempt.asks_decodeEntries (fun _ => ⟨trivial, nofun⟩) ..)
      fun values => ?_
    split
    · exact Attempt.asks_bind (Attempt.asks_ask ⟨trivial, nofun⟩) fun _ => Attempt.asks_pure _
    · refine Attempt.asks_bind (Attempt.asks_ask ⟨trivial, nofun⟩) fun _ => ?_
      dsimp only
      split
      · exact Attempt.asks_bind (delete_due session .purge) fun _ => Attempt.asks_pure _
      · exact Attempt.asks_pure _

theorem delete_on (session : SessionId) (deletion : Deletion) :
    (delete session deletion : Attempt V _).Asks (Action.On session false) :=
  (delete_due session deletion).on

theorem load_on (session : SessionId) (repair : Bool) :
    (load session repair : Attempt V _).Asks (Action.On session false) :=
  (load_due session repair).on

end Session

/-- An operation of a view in any world. Without failing calls it answers and acts as the function
of its scope. -/
theorem World.call_effect [BEq V] {σ : Type} {env : Surroundings V σ} {m : Marshaller V}
    {w : World V σ} (hc : env.Calm m) (hr : env.Reliable) (hs : w.Sound) {number : Nat}
    {v : PlainView V} (hv : w.plain.views[number]? = some v) (call : ViewCall V) :
    let actor : World.Actor := ⟨v.factory, some number⟩
    let r := w.carryOut env actor (call.procedure v.view)
    let s := (w.plain.scope v.view.session actor).carryOut m env.draw v.view.immutability call
    r.2.Sound ∧ r.1 = s.1 ∧ ∃ activated,
      r.2.plain = w.plain.withScope v.view.session actor (s.2.announcing activated) ∧
      r.2.plain.scope v.view.session actor = s.2.announcing activated := by
  obtain ⟨hs', ha, hp, hscope⟩ := carryOut_scope hc hr hs ⟨v.factory, some number⟩
    (View.procedure_on v.view call) fun _ => ⟨number, rfl, (List.getElem?_eq_some_iff.mp hv).1⟩
  obtain ⟨he, activated, hx⟩ := View.procedure_effect v.view m env.draw
    (w.plain.scope v.view.session ⟨v.factory, some number⟩) call
  rw [hx] at hp hscope
  exact ⟨hs', ha.trans he, activated, hp, hscope⟩

end SessionAttributes
