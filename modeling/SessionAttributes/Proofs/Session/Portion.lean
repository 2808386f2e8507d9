import SessionAttributes.Proofs.Session.Agreement

namespace SessionAttributes

variable {V : Type}

namespace ViewCall

/-- Whether an operation writes a value that reads back, or drops a name. -/
def Alters [BEq V] (m : Marshaller V) : ViewCall V → Prop
  | .set _ value => Faithful m value
  | .remove _ => True
  | _ => False

/-- What the name of an operation stands for after it, given what it stood for before. -/
def outcome [BEq V] (immutability : Immutability V) (earlier : Option V) : ViewCall V → Option V
  | .set _ value => if earlier == some value && immutability value then earlier else some value
  | .remove _ => none
  | _ => earlier

/-- A write or a removal answers with what its name stood for before. -/
def Returns (b₀ : Bundle V) : (call : ViewCall V) → call.Answer → Prop
  | .set name _, (answer : Except SessionError (Option V)) => answer = .ok (b₀.get? name)
  | .remove name, (answer : Except SessionError (Option V)) => answer = .ok (b₀.get? name)
  | _, _ => True

end ViewCall

inductive Phase where
  | begun
  | drawn (id : AttributeId)
  /-- The entry is stored. -/
  | written (id : AttributeId)
  /-- The view holds what the operation leaves. -/
  | handed

structure Portion (V : Type) where
  name : String
  /-- What the operation writes, or none if it drops the name. -/
  value : Option V
  phase : Phase
  /-- The bundle of the view, while the operation has its lock. -/
  seen : Option (Bundle V)

def ViewCall.portion : ViewCall V → Portion V
  | .set name value => ⟨name, some value, .begun, none⟩
  | .remove name => ⟨name, none, .begun, none⟩
  | _ => ⟨"", none, .begun, none⟩

namespace Portion

/-- What an operation makes of the bundle of the view under its lock. An attribute that the view had
at the beginning is written again, and any other name is bound to a new one. -/
inductive Hands (b₀ : Bundle V) (c : Portion V) (b : Bundle V) : Bundle V → Phase → Prop
  | same : Hands b₀ c b b c.phase
  | overwrite {id : AttributeId} {value : V} (hp : c.phase = .written id)
      (hv : c.value = some value) (hb : b₀.attributeId? c.name = some id) :
      Hands b₀ c b (b.setValue id value) .handed
  | create {id : AttributeId} {value : V} (hp : c.phase = .written id)
      (hv : c.value = some value) (hb : b₀.attributeId? c.name = none) :
      Hands b₀ c b ((b.bindName c.name id).setValue id value) .handed
  | drop {id : AttributeId} (hp : c.phase = .begun) (hv : c.value = none)
      (hb : b₀.attributeId? c.name = some id) :
      Hands b₀ c b ((b.dropName c.name).dropValue id) .handed

/-- Which entry an operation may write: one that it drew, or that of its name at the beginning. -/
def Stores (b₀ : Bundle V) (c : Portion V) (id : AttributeId) : Prop :=
  c.phase = .drawn id ∨ c.phase = .begun ∧ b₀.attributeId? c.name = some id

/-- What an operation may ask for and rely on. The bundle of the view at the beginning is `b₀`. An
identifier that it drew has no value in the view yet, and the stored names are those of the view. -/
def rule [BEq V] (m : Marshaller V) (b₀ : Bundle V) : Rule V (Portion V)
  | .encode value, c, post => post (m.write value) c
  | .record _, c, post | .notify _ _, c, post => post () c
  | .draw, c, post => c.phase = .begun ∧ b₀.attributeId? c.name = none ∧
    ∀ id, post id { c with phase := .drawn id }
  | .lock, c, post => c.phase ≠ .handed ∧ ∀ state : ViewState V,
    state.bundle.AgreesOn b₀ c.name →
      (∀ id, c.phase = .written id → b₀.attributeId? c.name = none →
        state.bundle.value? id = none) →
        post state { c with seen := some state.bundle }
  | .unlock state, c, post => ∃ b phase, c.seen = some b ∧ c.Hands b₀ b state.bundle phase ∧
    post () { c with phase, seen := none }
  | .names (.get _), c, post => ∃ b, c.seen = some b ∧
    ∀ stored : Option Names, stored.getD b.names = b.names → post (.ok stored) c
  | .names (.put _ _ _), c, post => ∀ answer, post (.ok answer) c
  | .attributes (.put key bytes _), c, post => c.Stores b₀ key.id ∧
    (∃ value, c.value = some value ∧ Scope.Keeps m (some bytes) value) ∧
      ∀ answer, post (.ok answer) { c with phase := .written key.id }
  | .attributes (.remove key _), c, post =>
    c.phase = .handed ∧ c.value = none ∧ b₀.attributeId? c.name = some key.id ∧
      ∀ answer, post (.ok answer) c
  | _, _, _ => False

/-- How an operation ends. It leaves the view as it was if there was nothing to do. -/
def last [BEq V] (immutability : Immutability V) (b₀ : Bundle V) : ViewCall V → Phase
  | .set name value =>
    if b₀.get? name == some value && immutability value then .begun else .handed
  | .remove name => if (b₀.attributeId? name).isSome then .handed else .begun
  | _ => .begun

/-- An operation that is done has answered, and the view holds what it leaves. -/
def Ends [BEq V] (immutability : Immutability V) (b₀ : Bundle V) (call : ViewCall V)
    (answer : call.Answer) (c : Portion V) : Prop :=
  call.Returns b₀ answer ∧ c.phase = last immutability b₀ call

end Portion

section Following
variable [BEq V] {m : Marshaller V} {b₀ : Bundle V} {c : Portion V} {session : SessionId}
  {fails : SessionError → Portion V → Prop}

namespace Index

/-- A name that the view does not have is not in the store, so nothing is replaced. -/
theorem bind_moves {b : Bundle V} {name : String} {id : AttributeId}
    {post : Option AttributeId → Portion V → Prop} (hseen : c.seen = some b)
    (hb : b.attributeId? name = none) (hp : post none c) :
    (bind session b.names name id : Attempt V _).Secures (Portion.rule m b₀) post fails c := by
  unfold bind
  rw [Attempt.secures_bind]
  refine ⟨b, hseen, fun stored hstored => ?_⟩
  change Attempt.Secures (Portion.rule m b₀) post fails (do
    save session ((stored.getD b.names).insert name id)
    return ((stored.getD b.names).get? name).filter (· != id)) c
  rw [hstored, show b.names.get? name = none from hb, Attempt.secures_bind]
  exact fun _ => hp

theorem unbind_moves {b : Bundle V} {name : String} {post : Unit → Portion V → Prop}
    (hseen : c.seen = some b) (hp : post () c) :
    (unbind session b.names name : Attempt V _).Secures (Portion.rule m b₀) post fails c := by
  unfold unbind
  rw [Attempt.secures_bind]
  exact ⟨b, hseen, fun _ _ _ => hp⟩

end Index

namespace View

variable {w : View V} {name : String} {value : V} {id : AttributeId}
  {post : Option V → Portion V → Prop}

/-- A commit finds the name as it was at the beginning, so it is not superseded. -/
theorem commit_moves (hid : ∀ k, b₀.attributeId? name = some k → k = id)
    (hp : post (b₀.get? name) ⟨name, some value, .handed, none⟩) :
    (w.commit name value (b₀.attributeId? name) (b₀.get? name) id).Secures (Portion.rule m b₀)
      post fails ⟨name, some value, .written id, none⟩ := by
  unfold commit
  simp only [Attempt.secures_bind, Attempt.secures_ask]
  refine ⟨nofun, fun (state : ViewState V) hsame hfresh => ?_⟩
  have hnow : state.bundle.attributeId? name = b₀.attributeId? name := hsame.id
  dsimp only
  cases hb : b₀.attributeId? name with
  | some k =>
    obtain rfl := hid k hb
    rw [hb] at hnow
    rw [hnow, show standing (some k) (some k) k = .current from if_pos rfl]
    have hvalue : state.bundle.value? k = b₀.get? name := by
      rw [← hsame.value, Bundle.get?_eq, hnow, Option.bind_some]
    exact ⟨state.bundle, .handed, rfl, .overwrite rfl rfl hb, hvalue.symm ▸ hp⟩
  | none =>
    rw [hb] at hnow
    rw [hnow, show standing none none id = .free from rfl]
    simp only [Attempt.secures_bind, Attempt.secures_tryCatch]
    refine Index.bind_moves rfl hnow ?_
    have hvalue : (state.bundle.bindName name id).value? id = b₀.get? name := by
      rw [Bundle.Tidy.get?_none hb]
      exact hfresh id rfl hb
    exact ⟨state.bundle, .handed, rfl, .create rfl rfl hb, hvalue.symm ▸ hp⟩

/-- A write stores its entry and commits. -/
theorem write_moves {bytes : Bytes} {phase : Phase}
    (hstores : Portion.Stores b₀ ⟨name, some value, phase, none⟩ id)
    (hid : ∀ k, b₀.attributeId? name = some k → k = id)
    (hk : Scope.Keeps m (some bytes) value)
    (hp : post (b₀.get? name) ⟨name, some value, .handed, none⟩) :
    Attempt.Secures (Portion.rule m b₀) post fails
      (if w.notifies = true then do
        Attempt.ask (.notify .passivate value)
        Index.saveEntry w.session id bytes
        Attempt.record .attributeWritten
        w.commit name value (b₀.attributeId? name) (b₀.get? name) id
      else do
        Index.saveEntry w.session id bytes
        Attempt.record .attributeWritten
        w.commit name value (b₀.attributeId? name) (b₀.get? name) id)
      ⟨name, some value, phase, none⟩ := by
  have hstored : Attempt.Secures (Portion.rule m b₀) post fails
      (do
        Index.saveEntry w.session id bytes
        Attempt.record .attributeWritten
        w.commit name value (b₀.attributeId? name) (b₀.get? name) id)
      ⟨name, some value, phase, none⟩ := by
    simp only [Attempt.secures_bind]
    exact ⟨hstores, ⟨value, rfl, hk⟩, fun _ => commit_moves hid hp⟩
  cases w.notifies with
  | false => exact hstored
  | true => exact hstored

/-- A write is skipped if there is nothing to write, and goes through otherwise. -/
theorem set_moves (hv : Faithful m value) :
    (w.set name value).Secures (Portion.rule m b₀)
      (fun answer => Portion.Ends w.immutability b₀ (.set name value) (.ok answer)) fails
      (ViewCall.set name value).portion := by
  obtain ⟨bytes, -, hw, -⟩ := id hv
  unfold View.set
  simp only [Attempt.secures_bind, Attempt.secures_encode, Attempt.secures_lift, secures_inspect]
  change Attempt.Ends _ _ (m.write value) _
  rw [hw]
  refine ⟨nofun, fun (state : ViewState V) hsame _ => ⟨state.bundle, .begun, rfl, .same, ?_⟩⟩
  have hvalue : state.bundle.get? name = b₀.get? name := hsame.value
  have hbound : state.bundle.attributeId? name = b₀.attributeId? name := hsame.id
  dsimp only
  rw [hvalue, hbound]
  by_cases hskip : (b₀.get? name == some value && w.immutability value) = true
  · simp only [hskip, if_true, Attempt.secures_bind]
    exact ⟨rfl, (if_pos hskip).symm⟩
  · have hends : Portion.Ends w.immutability b₀ (.set name value) (.ok (b₀.get? name))
        ⟨name, some value, .handed, none⟩ := ⟨rfl, (if_neg hskip).symm⟩
    simp only [if_neg hskip]
    cases hb : b₀.attributeId? name with
    | some k =>
      simp only [Attempt.secures_bind, Attempt.secures_pure]
      rw [← hb]
      exact write_moves (.inr ⟨rfl, hb⟩) (fun k' hk' => Option.some.inj (hk'.symm.trans hb))
        (hv.keeps hw) hends
    | none =>
      refine ⟨rfl, hb, fun id => ?_⟩
      rw [← hb]
      exact write_moves (.inl rfl) (fun k' hk' => nomatch hk'.symm.trans hb) (hv.keeps hw) hends

/-- A removal drops the name, if there is one, and deletes its entry. -/
theorem remove_moves :
    (w.remove name).Secures (Portion.rule m b₀)
      (fun answer => Portion.Ends w.immutability b₀ (.remove name) (.ok answer)) fails
      (ViewCall.remove name : ViewCall V).portion := by
  unfold View.remove
  simp only [Attempt.secures_bind, Attempt.secures_ask]
  refine ⟨nofun, fun (state : ViewState V) hsame _ => ?_⟩
  have hvalue : state.bundle.get? name = b₀.get? name := hsame.value
  have hbound : state.bundle.attributeId? name = b₀.attributeId? name := hsame.id
  dsimp only
  rw [hbound]
  cases hb : b₀.attributeId? name with
  | none =>
    have hends : Portion.Ends w.immutability b₀ (.remove name) (.ok none)
        ⟨name, none, .begun, none⟩ := by
      refine ⟨congrArg Except.ok (Bundle.Tidy.get?_none hb).symm, ?_⟩
      rw [Portion.last, hb]
      rfl
    exact ⟨state.bundle, .begun, rfl, .same, hends⟩
  | some id =>
    dsimp only
    rw [Attempt.secures_bind, Attempt.secures_tryCatch]
    refine Index.unbind_moves rfl ⟨state.bundle, .handed, rfl, .drop rfl rfl hb, ?_⟩
    have hends : Portion.Ends w.immutability b₀ (.remove name) (.ok (state.bundle.value? id))
        ⟨name, none, .handed, none⟩ := by
      refine ⟨congrArg Except.ok ?_, ?_⟩
      · rw [← hvalue, Bundle.get?_eq, hbound, hb, Option.bind_some]
      · rw [Portion.last, hb]
        rfl
    change Attempt.Secures (Portion.rule m b₀) _ _
      (do Index.removeEntry w.session id; return state.bundle.value? id) _
    rw [Attempt.secures_bind]
    exact ⟨rfl, rfl, hb, fun _ => hends⟩

/-- A write or a removal goes by the rule to its end. -/
theorem procedure_moves {call : ViewCall V} (h : call.Alters m) :
    (call.procedure w).Secures (Portion.rule m b₀) (Portion.Ends w.immutability b₀ call)
      call.portion := by
  cases call with
  | get name => exact h.elim
  | names => exact h.elim
  | snapshot => exact h.elim
  | update name change => exact h.elim
  | set name value =>
    exact (congrFun (Attempt.secures_run (Portion.Ends w.immutability b₀ (.set name value))
      (w.set name value)) _).mpr (set_moves h)
  | remove name =>
    exact (congrFun (Attempt.secures_run (Portion.Ends w.immutability b₀ (.remove name))
      (w.remove name)) _).mpr remove_moves

end View
end Following
end SessionAttributes
