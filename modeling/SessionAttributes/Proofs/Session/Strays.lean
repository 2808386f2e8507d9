import SessionAttributes.Proofs.Session.Lapses
import SessionAttributes.Proofs.Session.Merging

namespace SessionAttributes

variable {V σ : Type}

def ViewCall.deletes : ViewCall V → Bool
  | .remove _ => true
  | _ => false

/-- Every stored entry is referred to by a stored name. -/
def Scope.Covered (s : Scope V) : Prop := ∀ id, s.entries id ≠ none → id ∈ s.listed.values

namespace Scope

variable {s : Scope V} {name : String} {id : AttributeId}

/-- The names that a view starts from are the stored ones. -/
theorem known_of_listed (h : s.listed = s.bundle.names) : s.known = s.bundle.names := by
  unfold known
  unfold listed at h
  cases hs : s.stored with
  | none => rfl
  | some names =>
    rw [hs] at h
    exact h

theorem Covered.setEntry (h : s.Covered) (hid : id ∈ s.listed.values) (entry : Option Bytes) :
    (s.setEntry id entry).Covered := by
  intro k hk
  by_cases hkid : k = id
  · rw [hkid]
    exact hid
  · refine h k ?_
    rw [← show (s.setEntry id entry).entries k = s.entries k from Function.update_of_ne hkid _ _]
    exact hk

/-- An entry that is added and removed again leaves nothing behind. -/
theorem Covered.undo (h : s.Covered) (entry : Option Bytes) :
    ((s.setEntry id entry).setEntry id none).Covered := by
  intro k hk
  have hkid : k ≠ id := by
    rintro rfl
    exact hk (Function.update_self ..)
  refine h k ?_
  rw [← show ((s.setEntry id entry).setEntry id none).entries k = s.entries k from
    (Function.update_of_ne hkid _ _).trans (Function.update_of_ne hkid _ _)]
  exact hk

/-- A free name is bound to an attribute after its entry was added. -/
theorem Covered.bind (h : s.Covered) (hl : s.listed = s.bundle.names)
    (hb : s.bundle.attributeId? name = none) (entry : Option Bytes) :
    ((s.setEntry id entry).save (s.bundle.names.insert name id)).Covered := by
  intro k hk
  change k ∈ (s.bundle.names.insert name id).values
  rw [Dict.mem_values_insert_free hb]
  by_cases hkid : k = id
  · exact .inl hkid
  · refine .inr (hl ▸ h k ?_)
    rw [← show (s.setEntry id entry).entries k = s.entries k from Function.update_of_ne hkid _ _]
    exact hk

/-- A name is dropped, and the entry of its attribute is removed. -/
theorem Covered.unbind (h : s.Covered) (hl : s.listed = s.bundle.names)
    (hb : s.bundle.attributeId? name = some id) :
    ((s.save (s.bundle.names.erase name)).setEntry id none).Covered := by
  intro k hk
  have hkid : k ≠ id := by
    rintro rfl
    exact hk (Function.update_self ..)
  have hold : s.entries k ≠ none := by
    rw [← show ((s.save (s.bundle.names.erase name)).setEntry id none).entries k = s.entries k from
      Function.update_of_ne hkid _ _]
    exact hk
  obtain ⟨other, ho⟩ := Dict.mem_values.mp (h k hold)
  rw [hl] at ho
  refine Dict.mem_values.mpr ⟨other, Dict.get?_erase_eq_some.mpr ⟨?_, ho⟩⟩
  rintro rfl
  exact hkid (Option.some.inj (ho.symm.trans hb))

/-- Where nothing is stored there is nothing to refer to. -/
theorem covered_of_bare (h : ∀ id, s.entries id = none) : s.Covered :=
  fun id hid => absurd (h id) hid

/-- When the names are gone with all that they refer to, no entry is left. -/
theorem Covered.purged (h : s.Covered) (id : AttributeId) : s.purged.entries id = none := by
  by_contra hid
  unfold Scope.purged at hid
  dsimp only at hid
  split at hid
  · exact hid rfl
  · rename_i hn
    have hm := h id hid
    unfold Scope.listed at hm
    cases hs : s.stored with
    | none =>
      rw [hs] at hm
      cases hm
    | some names =>
      rw [hs] at hm hn
      exact hn hm

end Scope

section Securing
variable {m : Marshaller V} {session : SessionId} {draw : Nat → AttributeId}
  {may : Action V → Prop} {s : Scope V} {left : Nat} {id : AttributeId}

namespace View

variable [BEq V] {w : View V} {name : String} {value : V}

abbrev Covers {α : Type} (_ : α) (s : Scope V × Nat) : Prop := s.1.Covered

/-- A write keeps every entry referred to. If it cannot bind a free name it takes its entry back. -/
theorem set_covers (hl : s.listed = s.bundle.names) (hc : s.Covered) (hleft : left ≤ 1) :
    (w.set name value).Secures (Scope.lapsing m w.session draw may) Covers Covers (s, left) := by
  refine set_lapses (fun _ _ => hc) hc (fun _ _ _ _ => hc) (fun bytes id _ hb => ?_)
    fun bytes _ hb => ?_
  · have hid : id ∈ s.listed.values := hl ▸ Dict.mem_values.mpr ⟨name, hb⟩
    exact commit_lapses_bound hb fun _ => hc.setEntry hid _
  · have hknown : s.known = s.bundle.names := Scope.known_of_listed hl
    have hnone : s.known.get? name = none := hknown ▸ hb
    refine commit_lapses_free hb (fun state _ => ?_) (fun replaced hr => ?_)
      fun fewer fault hfewer => ⟨hc.undo _, fun least hleast => ?_⟩
    · change ((s.setEntry _ _).save (s.known.insert name _)).Covered
      rw [hknown]
      exact hc.bind hl hb _
    · change (s.known.get? name).filter _ = some replaced at hr
      rw [hnone] at hr
      cases hr
    · -- The one call that may fail has failed already.
      omega

theorem update_covers {change : V → V} (hl : s.listed = s.bundle.names) (hc : s.Covered)
    (hleft : left ≤ 1) :
    (w.update name change).Secures (Scope.lapsing m w.session draw may) Covers Covers
      (s, left) :=
  update_lapses (fun _ => hc) fun _ _ => set_covers hl hc hleft

omit [BEq V] in
/-- A removal that cannot unbind the name changes nothing. -/
theorem remove_covers (hl : s.listed = s.bundle.names) (hc : s.Covered)
    (hmay : ∀ action, may action → action.removes = false) :
    (w.remove name).Secures (Scope.lapsing m w.session draw may) Covers Covers (s, left) := by
  unfold View.remove
  simp only [Attempt.secures_bind, Attempt.secures_ask, Scope.lapsing_lock]
  cases hb : s.state.bundle.attributeId? name with
  | none => exact Attempt.unlock_lapses hc
  | some id =>
    simp only [Attempt.secures_bind, Attempt.secures_tryCatch]
    refine Index.unbind_lapses ?_ fun fewer fault _ => ?_
    · have hknown : s.stored.getD s.state.bundle.names = s.bundle.names := Scope.known_of_listed hl
      rw [hknown]
      refine Attempt.unlock_lapses ?_
      rw [Attempt.secures_bind]
      exact Index.removeEntry_lapses (hc.unbind hl hb) fun _ _ _ hm =>
        absurd (hmay _ hm) Bool.false_ne_true.symm
    · exact Attempt.unlock_lapses hc

omit [BEq V] in
theorem get_covers (hc : s.Covered) :
    (w.get name).Secures (Scope.lapsing m w.session draw may) Covers (s, left) := by
  unfold View.get
  rw [Procedure.secures_bind, Procedure.secures_ask, Scope.lapsing_lock]
  have hunlock : ∀ activated, Scope.lapsing m w.session draw may
      (.unlock { s.state with activated }) (s, left) fun _ s => s.1.Covered :=
    fun activated => (Scope.lapsing_unlock _ _).mpr hc
  cases s.state.bundle.attributeId? name with
  | none => exact hunlock s.state.activated
  | some id =>
    cases s.state.bundle.get? name with
    | none => exact hunlock s.state.activated
    | some value =>
      dsimp only
      split
      · refine (Scope.lapsing_unlock _ _).mpr ?_
        exact (Scope.lapsing_notify _ _ _).mpr hc
      · exact hunlock s.state.activated

/-- An operation of a view leaves no entry that nothing refers to. One that removes nothing bears
one failing call, a removal any number of them, as long as its entry is removed. -/
theorem procedure_covers {call : ViewCall V} (hl : s.listed = s.bundle.names) (hc : s.Covered)
    (hone : call.deletes = false → left ≤ 1)
    (hmay : call.deletes = true → ∀ action, may action → action.removes = false) :
    (call.procedure w).Secures (Scope.lapsing m w.session draw may) Covers (s, left) := by
  have hinspect : ∀ {α : Type} (answer : ViewState V → α), Procedure.Secures
      (Scope.lapsing m w.session draw may) Covers
      (do return answer (← View.inspect)) (s, left) := fun answer =>
    (Scope.lapsing_lock _).mpr ((Scope.lapsing_unlock s.state _).mpr hc)
  cases call with
  | get name => exact get_covers hc
  | names => exact hinspect _
  | snapshot => exact hinspect _
  | set name value => exact Attempt.Secures.run (set_covers hl hc (hone rfl))
  | update name change => exact Attempt.Secures.run (update_covers hl hc (hone rfl))
  | remove name => exact Attempt.Secures.run (remove_covers hl hc (hmay rfl))

end View

namespace Session

open View (Covers)

/-- When all entries are among those that are removed, none is left. -/
theorem removeEntries_covers {mode : AccessMode} {ids : List AttributeId}
    {post : Unit → Scope V × Nat → Prop} {fails : SessionError → Scope V × Nat → Prop}
    (hmay : ∀ action, may action → action.removes = false)
    (h : ∀ id, s.entries id ≠ none → id ∈ ids)
    (hp : ∀ s : Scope V, s.Covered → post () (s, left)) :
    (Index.removeEntries session mode ids : Attempt V Unit).Secures
      (Scope.lapsing m session draw may) post fails (s, left) := by
  induction ids generalizing s with
  | nil =>
    refine hp s (Scope.covered_of_bare fun id => ?_)
    by_contra hid
    cases h id hid
  | cons id rest ih =>
    refine Attempt.Secures.bind (Attempt.attributes_lapse _ ?_ fun _ _ _ hm => nomatch hmay _ hm)
    rw [Scope.callAttributes_remove]
    refine ih fun k hk => ?_
    have hkid : k ≠ id := by
      rintro rfl
      exact hk (Function.update_self ..)
    refine (List.mem_cons.mp (h k ?_)).resolve_left hkid
    rw [← show (s.setEntry id none).entries k = s.entries k from Function.update_of_ne hkid _ _]
    exact hk

/-- A deletion that can remove entries leaves all of them or none. -/
theorem delete_covers (deletion : Deletion) (hc : s.Covered)
    (hmay : ∀ action, may action → action.removes = false) :
    (delete session deletion : Attempt V Bool).Secures (Scope.lapsing m session draw may)
      Covers Covers (s, left) := by
  unfold delete
  simp only [Attempt.secures_bind, Attempt.secures_ensureOpen]
  refine (Scope.lapsing_isOpen _).mpr ?_
  cases s.isOpen with
  | false => exact hc
  | true =>
    refine Index.take_lapses ?_ fun _ _ _ => hc
    unfold Scope.Covered Scope.listed at hc
    cases hs : s.stored with
    | none =>
      rw [hs] at hc
      exact (Scope.lapsing_record _ _).mpr hc
    | some names =>
      rw [hs] at hc
      refine Attempt.Secures.bind (removeEntries_covers hmay hc fun s hs => ?_)
      exact (Scope.lapsing_record _ _).mpr hs

/-- A load changes nothing unless it purges the session. -/
theorem load_covers (repair : Bool) (hc : s.Covered)
    (hmay : ∀ action, may action → action.removes = false) :
    (load session repair : Attempt V _).Secures (Scope.lapsing m session draw may)
      Covers Covers (s, left) :=
  load_lapses repair (fun _ => hc) (fun _ _ => hc) (delete_covers .purge hc hmay)

end Session
end Securing

/-- Nobody calls back, and the calls that are picked fail. -/
def Surroundings.failing (m : Marshaller V) (draw : Nat → AttributeId) (picks : Request → Bool) :
    Surroundings V σ :=
  { quiet m draw with
    before := fun request w => (if picks request then some (.store "unreachable") else none, w) }

theorem Surroundings.failing_calm (m : Marshaller V) (draw : Nat → AttributeId)
    (picks : Request → Bool) : (failing (σ := σ) m draw picks).Calm m :=
  { quiet_calm m draw with before := fun _ w => .refl w }

namespace World

/-- Every stored entry of a session is referred to by its stored names. -/
def Covered (session : SessionId) (w : World V σ) : Prop :=
  ∀ id, (w.attributes.store.find? ⟨session, id⟩).isSome →
    id ∈ ((w.names.store.find? session).getD Dict.empty).values

/-- The operations on a session: those of its views, if they have the stored names, and those of a
factory. -/
inductive Deed [BEq V] (session : SessionId) (w : World V σ) :
    Bool → (α : Type) → Actor → Procedure V α → Prop
  | view {number : Nat} {live : LiveView V} (hl : w.view? number = some live)
      (howner : live.view.session = session)
      (hnames : live.state.bundle.names = (w.names.store.find? session).getD Dict.empty)
      (call : ViewCall V) : Deed session w call.deletes call.Answer ⟨live.factory, some number⟩
        (call.procedure live.view)
  | delete (factory : Nat) (deletion : Deletion) :
      Deed session w true _ ⟨factory, none⟩ (Session.delete session deletion).run
  | load (factory : Nat) (repair : Bool) :
      Deed session w true _ ⟨factory, none⟩ (Session.load session repair).run

variable {env : Surroundings V σ} {m : Marshaller V} {w : World V σ} {session : SessionId}

theorem covered_iff (actor : Actor) :
    w.Covered session ↔ (w.plain.scope session actor).Covered :=
  forall_congr' fun _ => imp_congr Option.isSome_iff_ne_none Iff.rfl

/-- A deletion whose calls do not fail leaves nothing of a session whose entries are all referred
to. -/
theorem Covered.delete (h : w.Covered session) (hc : env.Calm m) (hr : env.Reliable) (hs : w.Sound)
    {factory : Nat} (ho : (w.factory? factory).map Factory.isOpen = some true)
    (deletion : Deletion) :
    let r := w.carryOut env ⟨factory, none⟩ (Session.delete session deletion).run
    r.2.names.store.find? session = none ∧
      ∀ id, r.2.attributes.store.find? ⟨session, id⟩ = none := by
  have hrun : (Session.delete session deletion).run.Secures ((Terms.plain env.draw).rule m session)
      (fun _ s => s.stored = none ∧ ∀ id, s.entries id = none)
      (w.plain.scope session ⟨factory, none⟩) := by
    rw [Attempt.secures_run]
    refine Session.delete_secures env.draw deletion ((isOpen_scope factory none).mpr ho) ⟨rfl, ?_⟩
    exact ((covered_iff _).mp h).purged
  obtain ⟨-, s, -, hp, hstored, hgone⟩ := carryOut_secures hc (.inr hr) hs
    (Session.delete_on session deletion) nofun hrun trivial fun _ => rfl
  refine ⟨?_, fun id => ?_⟩
  · refine (congrFun (congrArg PlainWorld.names hp) session).trans ?_
    rw [PlainWorld.names_withScope, hstored]
  · refine (congrFun (congrArg PlainWorld.attributes hp) ⟨session, id⟩).trans ?_
    rw [PlainWorld.attributes_withScope, hgone]

/-- An operation on a session leaves no entry that nothing refers to, if a deletion can remove
entries and one call at most of any other operation fails. -/
theorem Deed.covers [BEq V] {deletes : Bool} {α : Type} {actor : Actor} {q : Procedure V α}
    (hd : w.Deed session deletes α actor q) (hc : env.Calm m) (hs : w.Sound)
    (h : w.Covered session) (hone : deletes = false → (w.faults env actor q).length ≤ 1)
    (hkept : deletes = true → ∀ action ∈ w.faults env actor q, action.removes = false) :
    (w.carryOut env actor q).2.Sound ∧ (w.carryOut env actor q).2.Covered session := by
  have hcovered := (covered_iff actor).mp h
  have hrun : ∃ locks, q.Asks (Action.On session locks) ∧ (locks → w.plain.Seats actor) ∧
      q.Secures (Scope.lapsing m session env.draw fun action => deletes = true →
        action.removes = false) View.Covers
        (w.plain.scope session actor, (w.faults env actor q).length) := by
    cases hd with
    | @view number live hl howner hnames call =>
      subst howner
      have hv : w.plain.views[number]? = some live.plain := plain_live hl
      refine ⟨true, View.procedure_on live.view call,
        fun _ => ⟨number, rfl, (List.getElem?_eq_some_iff.mp hv).1⟩,
        View.procedure_covers ?_ hcovered hone fun hdel _ hmay => hmay hdel⟩
      rw [PlainWorld.scope_bundle hv]
      exact hnames.symm
    | delete factory deletion =>
      exact ⟨_, Session.delete_on session deletion, nofun,
        Attempt.Secures.run (Session.delete_covers deletion hcovered fun _ hmay => hmay rfl)⟩
    | load factory repair =>
      exact ⟨_, Session.load_on session repair, nofun,
        Attempt.Secures.run (Session.load_covers repair hcovered fun _ hmay => hmay rfl)⟩
  obtain ⟨locks, hon, hseats, hsecures⟩ := hrun
  obtain ⟨hs', s, left, -, hp, hend⟩ := carryOut_lapses hc hs hon hseats hsecures (Nat.le_refl _)
    fun action hm hdel => hkept hdel action hm
  refine ⟨hs', fun id hid => ?_⟩
  have hentry : (w.carryOut env actor q).2.attributes.store.find? ⟨session, id⟩ =
      s.entries id := by
    refine (congrFun (congrArg PlainWorld.attributes hp) ⟨session, id⟩).trans ?_
    rw [PlainWorld.attributes_withScope]
  have hstored : (w.carryOut env actor q).2.names.store.find? session = s.stored := by
    refine (congrFun (congrArg PlainWorld.names hp) session).trans ?_
    rw [PlainWorld.names_withScope]
  rw [hentry, Option.isSome_iff_ne_none] at hid
  rw [hstored]
  exact hend id hid

theorem viewed_covered : viewed.Covered "s" := by
  refine (covered_iff ⟨0, none⟩).mpr ?_
  rw [viewed_plain]
  exact Scope.covered_of_bare fun _ => rfl

theorem viewed_deed : viewed.Deed "s" false (Except SessionError (Option Bool)) ⟨0, some 0⟩
    (View.set ⟨"s", false, Immutability.never⟩ "a" true).run :=
  have hl : viewed.view? 0 = some ⟨⟨"s", false, Immutability.never⟩, 0, ⟨Bundle.empty, []⟩, false,
    none⟩ := rfl
  .view hl rfl rfl (.set "a" true)

/-- An operation on a session one of whose calls fails leaves no entry that nothing refers to, if
the call that fails is not the removal of an entry that the operation deletes. So a deletion that
comes later leaves nothing of the session. -/
theorem leaves_no_stray [BEq V] {deletes : Bool} {α : Type} {actor : Actor} {q : Procedure V α}
    (hc : env.Calm m) (hs : w.Sound) (h : w.Covered session)
    (hd : w.Deed session deletes α actor q)
    (hone : deletes = false → (w.faults env actor q).length ≤ 1)
    (hkept : deletes = true → ∀ action ∈ w.faults env actor q, action.removes = false) :
    (w.carryOut env actor q).2.Covered session ∧
      ∀ (later : Surroundings V σ) (factory : Nat) (deletion : Deletion), later.Calm m →
        later.Reliable →
        ((w.carryOut env actor q).2.factory? factory).map Factory.isOpen = some true →
        let r := (w.carryOut env actor q).2.carryOut later ⟨factory, none⟩
          (Session.delete session deletion).run
        r.2.names.store.find? session = none ∧
          ∀ id, r.2.attributes.store.find? ⟨session, id⟩ = none := by
  obtain ⟨hs', hcovered⟩ := hd.covers hc hs h hone hkept
  exact ⟨hcovered, fun _ _ deletion hc' hr' ho => hcovered.delete hc' hr' hs' ho deletion⟩

/-- The names cannot be stored, and the entry that was written for them is taken back. -/
theorem leaves_no_stray_undone :
    let env : Surroundings Bool Unit := .failing .bits AttributeId.ofNat fun
      | .names (.put ..) => true
      | _ => false
    let q := (View.set ⟨"s", false, Immutability.never⟩ "a" true).run
    (viewed.faults env ⟨0, some 0⟩ q).length = 1 ∧ ∃ w r : World Bool Unit,
      w = (viewed.carryOut env ⟨0, some 0⟩ q).2 ∧ w.Covered "s" ∧
      r = (w.carryOut (.quiet .bits AttributeId.ofNat) ⟨0, none⟩
        (Session.delete "s" .remove).run).2 ∧
      r.names.store.find? "s" = none ∧ ∀ id, r.attributes.store.find? ⟨"s", id⟩ = none := by
  intro env q
  have hone : (viewed.faults env ⟨0, some 0⟩ q).length = 1 := by decide +kernel
  have hopen : ((viewed.carryOut env ⟨0, some 0⟩ q).2.factory? 0).map Factory.isOpen = some true :=
    by decide +kernel
  obtain ⟨hcovered, hgone⟩ := leaves_no_stray (Surroundings.failing_calm _ _ _) viewed_sound
    viewed_covered viewed_deed (fun _ => Nat.le_of_eq hone) nofun
  generalize (viewed.carryOut env ⟨0, some 0⟩ q).2 = w at *
  exact ⟨hone, w, _, rfl, hcovered, rfl, hgone _ 0 .remove (Surroundings.quiet_calm _ _)
    (Surroundings.quiet_reliable _ _) hopen⟩

/-- A removal of a session takes its names and cannot remove its entry, which stays however often
the session is removed again. -/
theorem removal_strays :
    let env : Surroundings Bool Unit := .failing .bits AttributeId.ofNat fun
      | .attributes (.remove ..) => true
      | _ => false
    let removal : Procedure Bool (Except SessionError Bool) := (Session.remove "s").run
    ∃ w w₁ w₂ : World Bool Unit, env.Calm .bits ∧ w.Sound ∧ w.Covered "s" ∧
      w.Deed "s" true _ ⟨0, none⟩ removal ∧ (w.faults env ⟨0, none⟩ removal).length = 1 ∧
      w₁ = (w.carryOut env ⟨0, none⟩ removal).2 ∧
      w₂ = (w₁.carryOut (.quiet .bits AttributeId.ofNat) ⟨0, none⟩ removal).2 ∧
      ¬ w₁.Covered "s" ∧ ∃ id, (w₂.attributes.store.find? ⟨"s", id⟩).isSome := by
  intro env removal
  obtain ⟨hs, hcovered⟩ := viewed_deed.covers
    (Surroundings.quiet_calm .bits AttributeId.ofNat) viewed_sound viewed_covered
    (fun _ => by decide +kernel) nofun
  refine ⟨_, _, _, Surroundings.failing_calm _ _ _, hs, hcovered, .delete 0 .remove,
    by decide +kernel, rfl, rfl, fun h => ?_, .ofNat 0, by decide +kernel⟩
  exact absurd (h (.ofNat 0) (by decide +kernel)) (by decide +kernel)

end World
end SessionAttributes
