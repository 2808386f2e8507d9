import SessionAttributes.Proofs.Session.Interleaving
import SessionAttributes.Proofs.Session.Mirror

namespace SessionAttributes

variable {V : Type}

structure Errand (V : Type) where
  view : Nat
  name : String
  /-- The attribute that the view has bound to the name. -/
  held : Option AttributeId
  /-- The value that is stored under the name, or none if the name is dropped. -/
  value : Option V

def Errand.Kept [BEq V] (m : Marshaller V) (e : Errand V) (entry : Option Bytes) : Prop :=
  ∃ value, e.value = some value ∧ Scope.Keeps m entry value

/-- What an operation of a view with these names is to do. -/
def ViewCall.errand (view : Nat) (names : Names) : ViewCall V → Errand V
  | .set name value => ⟨view, name, names.get? name, some value⟩
  | .remove name => ⟨view, name, names.get? name, none⟩
  | _ => ⟨view, "", none, none⟩

inductive Stage where
  | begun
  | drawn (id : AttributeId)
  /-- The entry is stored. -/
  | written (id : AttributeId)
  /-- The stored names have the new attribute. They may have had an old one. -/
  | bound (id : AttributeId) (old : Option AttributeId)
  /-- The stored names do not have the name any more. -/
  | dropped

namespace Stage

def Open : Stage → Prop
  | .begun | .drawn _ | .written _ => True
  | .bound _ _ | .dropped => False

def edit (name : String) : Stage → Names → Names
  | .bound id _, names => names.insert name id
  | .dropped, names => names.erase name
  | .begun, names | .drawn _, names | .written _, names => names

theorem edit_other (stage : Stage) {name k : String} (hk : k ≠ name) (names : Names) :
    (stage.edit name names).get? k = names.get? k := by
  cases stage with
  | bound id old => rw [edit, Dict.get?_insert, if_neg hk]
  | dropped => rw [edit, Dict.get?_erase, if_neg hk]
  | begun => rfl
  | drawn id => rfl
  | written id => rfl

end Stage

structure Course (V : Type) where
  errand : Errand V
  stage : Stage
  /-- The names of the view, while the operation has its lock. -/
  grip : Option Names
  /-- The names that were stored, until the operation writes them back. -/
  seen : Option Names

namespace Course

def start (errand : Errand V) : Course V := ⟨errand, .begun, none, none⟩

inductive Turns (c : Course V) (seen : Names) : Stage → Prop
  | bind {id : AttributeId} (h : c.stage = .written id) :
      Turns c seen (.bound id (seen.get? c.errand.name))
  | drop {id : AttributeId} (h : c.stage = .begun) (hid : c.errand.held = some id) :
      Turns c seen .dropped

inductive Discards (c : Course V) (old : AttributeId) : Prop
  | replaced {id : AttributeId} (h : c.stage = .bound id (some old)) (hne : old ≠ id)
  | dropped (h : c.stage = .dropped) (hold : c.errand.held = some old)

/-- What an operation may ask for in its part, and what it may rely on. -/
def rule [BEq V] (m : Marshaller V) : Rule V (Course V)
  | .encode value, c, post => post (m.write value) c
  | .record _, c, post | .notify _ _, c, post => post () c
  | .draw, c, post => c.stage = .begun ∧ ∀ id, post id { c with stage := .drawn id }
  | .lock, c, post =>
    c.grip = none ∧ c.stage.Open ∧ ∀ state : ViewState V,
      state.bundle.names.get? c.errand.name = c.errand.held →
        post state { c with grip := some state.bundle.names }
  | .unlock state, c, post =>
    ∃ names, c.grip = some names ∧ state.bundle.names = c.stage.edit c.errand.name names ∧
      post () { c with grip := none }
  | .names (.get _), c, post =>
    ∃ names, c.grip = some names ∧
      ∀ stored, post (.ok stored) { c with seen := some (stored.getD names) }
  | .names (.put _ names _), c, post =>
    ∃ seen stage, c.seen = some seen ∧ c.Turns seen stage ∧
      names = stage.edit c.errand.name seen ∧
        ∀ answer, post (.ok answer) { c with stage, seen := none }
  | .attributes (.put key bytes _), c, post =>
    c.stage = .drawn key.id ∧ c.errand.Kept m (some bytes) ∧
      ∀ answer, post (.ok answer) { c with stage := .written key.id }
  | .attributes (.remove key _), c, post =>
    c.Discards key.id ∧ ∀ answer, post (.ok answer) c
  | _, _, _ => False

theorem rule_monotone [BEq V] (m : Marshaller V) : (rule m).Monotone := by
  intro action c post post' h hp
  cases action with
  | encode value => exact h _ _ hp
  | record measure => exact h _ _ hp
  | notify direction value => exact h _ _ hp
  | isOpen => exact hp.elim
  | decode bytes => exact hp.elim
  | draw => exact ⟨hp.1, fun id => h _ _ (hp.2 id)⟩
  | lock => exact ⟨hp.1, hp.2.1, fun state hs => h _ _ (hp.2.2 state hs)⟩
  | unlock state =>
    obtain ⟨names, hg, hs, hp⟩ := hp
    exact ⟨names, hg, hs, h _ _ hp⟩
  | names call =>
    cases call with
    | get key =>
      obtain ⟨names, hg, hp⟩ := hp
      exact ⟨names, hg, fun stored => h _ _ (hp stored)⟩
    | put key names mode =>
      obtain ⟨seen, stage, hs, ht, hn, hp⟩ := hp
      exact ⟨seen, stage, hs, ht, hn, fun answer => h _ _ (hp answer)⟩
    | getAll keys => exact hp.elim
    | remove key mode => exact hp.elim
    | evict key => exact hp.elim
  | attributes call =>
    cases call with
    | put key bytes mode => exact ⟨hp.1, hp.2.1, fun answer => h _ _ (hp.2.2 answer)⟩
    | remove key mode => exact ⟨hp.1, fun answer => h _ _ (hp.2 answer)⟩
    | get key => exact hp.elim
    | getAll keys => exact hp.elim
    | evict key => exact hp.elim

/-- An operation that is done has not failed, and has changed the stored names. A name that its view
did not know need not be dropped. -/
def Ends : (call : ViewCall V) → call.Answer → Course V → Prop
  | .set _ _, (answer : Except SessionError (Option V)), c =>
    (∃ previous, answer = .ok previous) ∧ ∃ id old, c.stage = .bound id old
  | .remove _, (answer : Except SessionError (Option V)), c =>
    (∃ previous, answer = .ok previous) ∧ (c.errand.held ≠ none → c.stage = .dropped)
  | _, _, _ => True

end Course

section Following
variable [BEq V] {m : Marshaller V} {c : Course V} {session : SessionId} {name : String}
  {names : Names} {id : AttributeId} {fails : SessionError → Course V → Prop}

namespace Index

theorem bind_turns {post : Option AttributeId → Course V → Prop} (hn : c.errand.name = name)
    (hg : c.grip = some names) (hs : c.stage = .written id)
    (hp : ∀ old, post (old.filter (· != id)) { c with stage := .bound id old, seen := none }) :
    (bind session names name id : Attempt V _).Secures (Course.rule m) post fails c := by
  subst hn
  unfold bind
  rw [Attempt.secures_bind]
  exact ⟨names, hg, fun stored => ⟨stored.getD names, _, rfl, .bind hs, rfl, fun _ => hp _⟩⟩

theorem unbind_turns {post : Unit → Course V → Prop} (hn : c.errand.name = name)
    (hg : c.grip = some names) (hs : c.stage = .begun) (hid : c.errand.held = some id)
    (hp : post () { c with stage := .dropped, seen := none }) :
    (unbind session names name : Attempt V _).Secures (Course.rule m) post fails c := by
  subst hn
  unfold unbind
  rw [Attempt.secures_bind]
  exact ⟨names, hg, fun stored => ⟨stored.getD names, _, rfl, .drop hs hid, rfl, fun _ => hp⟩⟩

theorem discardEntry_turns {post : Unit → Course V → Prop} (hd : c.Discards id) (hp : post () c) :
    (discardEntry session id : Attempt V Unit).Secures (Course.rule m) post fails c := by
  rw [secures_discardEntry]
  exact ⟨hd, fun _ => hp⟩

end Index

/-- Whether an operation adds a name that its view does not know, or drops one. What is added reads
back. -/
def ViewCall.Edits (m : Marshaller V) (known : Names) : ViewCall V → Prop
  | .set name value => known.get? name = none ∧ Faithful m value
  | .remove _ => True
  | _ => False

namespace View

variable {w : View V} {value : V} {e : Errand V}

/-- A commit binds the name in the stored names, and deletes what it was bound to there. -/
theorem commit_turns (hn : e.name = name) (hheld : e.held = none) {previous : Option V} :
    (w.commit name value none previous id).Secures (Course.rule m)
      (fun _ c => ∃ id old, c.stage = .bound id old) (fun _ _ => False)
      ⟨e, .written id, none, none⟩ := by
  unfold commit
  simp only [Attempt.secures_bind, Attempt.secures_ask]
  refine ⟨rfl, trivial, fun (state : ViewState V) hbound => ?_⟩
  have hfree : state.bundle.attributeId? name = none := hn ▸ hbound.trans hheld
  have hstanding : standing none (state.bundle.attributeId? name) id = .free := by
    rw [hfree]
    rfl
  have hfinish : ∀ old, Attempt.Secures (Course.rule m)
      (fun _ c => ∃ id old, c.stage = .bound id old) (fun _ _ => False)
      (do
        Attempt.ask (.unlock {
          bundle := (state.bundle.bindName name id).setValue id value
          activated :=
            if w.notifies then id :: state.activated.filter (· != id) else state.activated })
        return (state.bundle.bindName name id).value? id)
      ⟨e, .bound id old, some state.bundle.names, none⟩ := fun old =>
    ⟨state.bundle.names, rfl, hn ▸ rfl, id, old, rfl⟩
  dsimp only
  rw [hstanding]
  simp only [Attempt.secures_bind, Attempt.secures_tryCatch]
  refine Index.bind_turns hn rfl rfl fun old => ?_
  cases hr : old.filter (· != id) with
  | none => exact hfinish old
  | some replaced =>
    obtain ⟨rfl, hne⟩ := Option.filter_eq_some_iff.mp hr
    exact Index.discardEntry_turns (.replaced rfl (by simpa using hne)) (hfinish _)

/-- An operation that adds a name which its view does not know stores the entry first. -/
theorem set_turns (hn : e.name = name) (hheld : e.held = none) (hvalue : e.value = some value)
    (hv : Faithful m value) :
    (w.set name value).Secures (Course.rule m) (fun _ c => ∃ id old, c.stage = .bound id old)
      (fun _ _ => False) (.start e) := by
  obtain ⟨bytes, -, hw, -⟩ := id hv
  have hkept : e.Kept m (some bytes) := ⟨value, hvalue, hv.keeps hw⟩
  unfold View.set
  simp only [Attempt.secures_bind, Attempt.secures_encode, Attempt.secures_lift, secures_inspect]
  change Attempt.Ends _ _ (m.write value) _
  rw [hw]
  refine ⟨rfl, trivial, fun (state : ViewState V) hbound => ?_⟩
  have hfree : state.bundle.attributeId? name = none := hn ▸ hbound.trans hheld
  refine ⟨state.bundle.names, rfl, rfl, ?_⟩
  simp only [Bundle.Tidy.get?_none hfree, hfree]
  refine ⟨rfl, fun id => ?_⟩
  have hstored : Attempt.Secures (Course.rule m) (fun _ c => ∃ id old, c.stage = .bound id old)
      (fun _ _ => False)
      (do
        Index.saveEntry w.session id bytes
        Attempt.record .attributeWritten
        w.commit name value none none id) ⟨e, .drawn id, none, none⟩ := by
    simp only [Attempt.secures_bind]
    exact ⟨rfl, hkept, fun _ => commit_turns hn hheld⟩
  cases w.notifies with
  | false => exact hstored
  | true => exact hstored

/-- An operation that drops a name unbinds it in the stored names before it deletes the entry. -/
theorem remove_turns (hn : e.name = name) :
    (w.remove name).Secures (Course.rule m) (fun _ c => c.errand.held ≠ none → c.stage = .dropped)
      (fun _ _ => False) (.start e) := by
  unfold View.remove
  simp only [Attempt.secures_bind, Attempt.secures_ask]
  refine ⟨rfl, trivial, fun (state : ViewState V) hbound => ?_⟩
  have hheld : state.bundle.attributeId? name = e.held := hn ▸ hbound
  dsimp only
  cases hb : state.bundle.attributeId? name with
  | none =>
    refine ⟨state.bundle.names, rfl, rfl, fun hne => ?_⟩
    exact absurd (hheld.symm.trans hb) hne
  | some id =>
    have hid : e.held = some id := hheld.symm.trans hb
    dsimp only
    rw [Attempt.secures_bind, Attempt.secures_tryCatch]
    refine Index.unbind_turns hn rfl rfl hid ?_
    refine ⟨state.bundle.names, rfl, hn ▸ rfl, ?_⟩
    exact ⟨.dropped rfl hid, fun _ _ => rfl⟩

/-- An operation that edits the stored names goes by the rule to its end. -/
theorem procedure_turns {call : ViewCall V} {view : Nat} (hcall : call.Edits m names) :
    (call.procedure w).Secures (Course.rule m) (Course.Ends call)
      (.start (call.errand view names)) := by
  cases call with
  | get name => exact hcall.elim
  | names => exact hcall.elim
  | snapshot => exact hcall.elim
  | update name change => exact hcall.elim
  | set name value =>
    have hset := set_turns (w := w) (e := (ViewCall.set name value).errand view names) rfl
      hcall.1 rfl hcall.2
    refine Procedure.Secures.mono (Course.rule_monotone m) ?_ hset
    rintro (fault | previous) c h
    · exact h.elim
    · exact ⟨⟨previous, rfl⟩, h⟩
  | remove name =>
    have hremove :=
      remove_turns (m := m) (w := w) (e := (ViewCall.remove name).errand view names) rfl
    refine Procedure.Secures.mono (Course.rule_monotone m) ?_ hremove
    rintro (fault | previous) c h
    · exact h.elim
    · exact ⟨⟨previous, rfl⟩, h⟩

end View
end Following
end SessionAttributes
