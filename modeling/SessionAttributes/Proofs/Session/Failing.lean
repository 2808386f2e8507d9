import SessionAttributes.Proofs.Session.Counting
import SessionAttributes.Proofs.Session.Strays
import SessionAttributes.Proofs.Session.Verdict

namespace SessionAttributes

variable {V σ : Type} {m : Marshaller V} {draw : Nat → AttributeId} {may : Action V → Prop}
  {s : Scope V} {left : Nat}

/-- Everything in reach is as before, but for the identifiers that were drawn. -/
def Scope.Restored (s s' : Scope V) : Prop := ∃ drawn, s' = { s with drawn }

theorem Scope.entries_undo {id : AttributeId} (h : s.entries id = none) (entry : Option Bytes) :
    ((s.setEntry id entry).setEntry id none).entries = s.entries := by
  unfold setEntry
  dsimp only
  rw [Function.update_idem, ← h, Function.update_eq_self]

namespace View
variable [BEq V] {w : View V} {name : String}

inductive Writing (w : View V) : {α : Type} → Attempt V α → Prop
  | set (name : String) (value : V) : Writing w (w.set name value)
  | update (name : String) (change : V → V) : Writing w (w.update name change)

/-- A write that fails leaves everything as before if it drew an unused identifier. -/
theorem set_restores {value : V} (hmay : ∀ action, may action → action.removes = false)
    (hfresh : s.entries (draw s.drawn) = none) :
    (w.set name value).Secures (Scope.lapsing m w.session draw may) (fun _ _ => True)
      (fun _ s' => s.Restored s'.1) (s, left) := by
  refine set_lapses (fun _ _ => ⟨_, rfl⟩) trivial (fun _ _ _ _ => ⟨_, rfl⟩)
    (fun bytes id _ hb => commit_lapses_bound hb fun _ => trivial) fun bytes _ hb => ?_
  refine commit_lapses_free hb (fun _ _ => trivial) (fun _ _ _ => ⟨trivial, fun _ _ _ => trivial⟩)
    fun fewer fault _ => ⟨⟨s.drawn + 1, ?_⟩, fun _ _ hm => nomatch hmay _ hm⟩
  exact congrArg (fun entries => { s with entries, drawn := s.drawn + 1 })
    (Scope.entries_undo hfresh (some bytes))

theorem update_restores {change : V → V} (hmay : ∀ action, may action → action.removes = false)
    (hfresh : s.entries (draw s.drawn) = none) :
    (w.update name change).Secures (Scope.lapsing m w.session draw may) (fun _ _ => True)
      (fun _ s' => s.Restored s'.1) (s, left) :=
  update_lapses (fun _ => trivial) fun _ _ => set_restores hmay hfresh

end View

namespace Session
variable {session : SessionId} {fails : SessionError → Scope V × Nat → Prop}

theorem removeEntries_lapses {mode : AccessMode} {post : Unit → Scope V × Nat → Prop}
    (hp : ∀ s, post () (s, left))
    (hf : ∀ s fewer fault, (∃ action, may action ∧ action.removes = true) → fails fault (s, fewer))
    (ids : List AttributeId) :
    (Index.removeEntries session mode ids : Attempt V Unit).Secures
      (Scope.lapsing m session draw may) post fails (s, left) := by
  induction ids generalizing s with
  | nil => exact hp s
  | cons id rest ih =>
    exact Attempt.Secures.bind
      (Attempt.attributes_lapse _ ih fun fewer fault _ hm => hf s fewer fault ⟨_, hm, rfl⟩)

/-- A deletion that succeeds has made all its calls, and one that fails has changed nothing if
entries can be removed. -/
theorem delete_lapses (deletion : Deletion) {post : Bool → Scope V × Nat → Prop}
    (hp : ∀ s, post true (s, left)) (hf : ∀ fewer fault, fails fault (s, fewer))
    (hf' : ∀ s fewer fault, (∃ action, may action ∧ action.removes = true) →
      fails fault (s, fewer)) :
    (delete session deletion : Attempt V Bool).Secures (Scope.lapsing m session draw may)
      post fails (s, left) := by
  have hend : ∀ s : Scope V, Attempt.Secures (Scope.lapsing m session draw may) post fails (do
      Attempt.record (.sessionDeleted deletion.isSilent)
      return true) (s, left) := fun s =>
    Attempt.Secures.bind ((Scope.lapsing_record _ _).mpr (hp s))
  unfold delete
  simp only [Attempt.secures_bind, Attempt.secures_ensureOpen]
  refine (Scope.lapsing_isOpen _).mpr ?_
  cases s.isOpen with
  | false => exact hf left _
  | true =>
    refine Index.take_lapses ?_ fun fewer fault _ => hf fewer fault
    cases s.stored with
    | none => exact hend _
    | some names => exact Attempt.Secures.bind (removeEntries_lapses hend hf' _)

def Refrains (may : Action V → Prop) (s : Scope V) (left : Nat) :
    Except SessionError (Option (Bundle V)) → Scope V × Nat → Prop
  | .ok _, s' => s'.2 = left
  | .error _, s' => (∀ action, may action → action.removes = false) → s.Restored s'.1

/-- A load that answers has made all its calls, and one that fails has changed nothing if entries
can be removed. -/
theorem load_refrains (session : SessionId) (repair : Bool) :
    (load session repair).run.Secures (Scope.lapsing m session draw may) (Refrains may s left)
      (s, left) := by
  have hsame : ∀ fewer : Nat, (∀ action : Action V, may action → action.removes = false) →
      s.Restored (s, fewer).1 := fun _ _ => ⟨_, rfl⟩
  rw [Attempt.secures_run]
  refine load_lapses repair (fun _ => rfl) (fun fewer _ => hsame fewer)
    (delete_lapses .purge (fun _ => rfl) (fun fewer _ => hsame fewer) ?_)
  rintro s' fewer fault ⟨action, hm, hremoves⟩ hmay
  cases (hmay action hm).symm.trans hremoves

end Session

def Metrics.fates (m : Metrics) : Nat × Nat × Nat × Nat :=
  (m.sessionsLoaded, m.attributesLoaded, m.sessionsRemoved, m.sessionsPurged)

namespace World

variable {env : Surroundings V σ} {w w' : World V σ}

def fates (w : World V σ) (number : Nat) : Option (Nat × Nat × Nat × Nat) :=
  ((w.factory? number).bind Factory.metrics).map Metrics.fates

theorem fates_deeds (w : World V σ) (number : Nat) :
    w.fates number = (w.deeds number).map Metrics.fates := by
  unfold deeds
  rw [Option.map_map]
  rfl

/-- A load that fails is not counted, but perhaps a corrupt session. -/
theorem Counts.fates {factory : Nat} {measures : List Measure} (h : w.Counts factory measures w')
    (hm : measures = [] ∨ measures = [.sessionCorrupt]) : w'.fates = w.fates := by
  have htally : ∀ m : Metrics, (m.tally measures).fates = m.fates := by
    rcases hm with rfl | rfl <;> exact fun _ => rfl
  funext k
  rw [fates_deeds, fates_deeds, h k]
  split
  · rw [Option.map_map]
    exact congrArg (Option.map · _) (funext htally)
  · rfl

structure Restored (w w' : World V σ) : Prop where
  stores : w.Unchanged w'
  views : ∀ number, (w'.view? number).map LiveView.state = (w.view? number).map LiveView.state

theorem restored_of_scope {session : SessionId} {actor : Actor} {s : Scope V}
    (hs : (w.plain.scope session actor).Restored s)
    (hp : w'.plain = w.plain.withScope session actor s) : w.Restored w' := by
  obtain ⟨drawn, rfl⟩ := hs
  have hplain : w'.plain = { w.plain.withScope session actor (w.plain.scope session actor) with
      drawn } := hp
  rw [PlainWorld.withScope_scope] at hplain
  refine ⟨⟨congrArg PlainWorld.metadata hplain, congrArg PlainWorld.names hplain,
    congrArg PlainWorld.attributes hplain⟩, fun number => ?_⟩
  have hviews : w'.plain.views = w.plain.views :=
    (congrArg PlainWorld.views hplain).trans rfl
  have hstates : ∀ w : World V σ,
      (w.view? number).map LiveView.state = w.plain.views[number]?.map PlainView.state := by
    intro w
    rw [plain_view, Option.map_map]
    rfl
  rw [hstates, hstates, hviews]

/-- A write of a view that leaves all in reach as before when it fails does so in a world. -/
theorem write_restores {α : Type} {q : Attempt V α} (hc : env.Calm m) (hs : w.Sound) {number : Nat}
    {live : LiveView V} (hl : w.view? number = some live)
    (hon : q.Asks (Action.On live.view.session true))
    (hq : q.Secures
      (Scope.lapsing m live.view.session env.draw fun action => action.removes = false)
      (fun _ _ => True)
      (fun _ s => (w.plain.scope live.view.session ⟨live.factory, some number⟩).Restored s.1)
      (w.plain.scope live.view.session ⟨live.factory, some number⟩,
        (w.faults env ⟨live.factory, some number⟩ q.run).length))
    (hkept : ∀ action ∈ w.faults env ⟨live.factory, some number⟩ q.run, action.removes = false)
    {fault : SessionError}
    (hfault : (w.carryOut env ⟨live.factory, some number⟩ q.run).1 = .error fault) :
    w.Restored (w.carryOut env ⟨live.factory, some number⟩ q.run).2 := by
  have hseats : w.plain.Seats ⟨live.factory, some number⟩ := by
    refine ⟨number, rfl, ?_⟩
    have hv : w.plain.views[number]? = some live.plain := plain_live hl
    exact (List.getElem?_eq_some_iff.mp hv).1
  obtain ⟨-, s, rest, -, hp, hend⟩ :=
    carryOut_lapses hc hs hon (fun _ => hseats) hq (Nat.le_refl _) hkept
  rw [hfault] at hend
  exact restored_of_scope hend hp

variable [BEq V]

/-- A write that answers with an error has changed no value of any store and no view, if entries can
be removed and the identifier that it may have drawn was unused. A load that answers with an error
has changed nothing either if entries can be removed, and has counted neither a load nor a deletion;
a load that answers otherwise has made no call that failed. -/
theorem failures_restore (hc : env.Calm m) (hd : env.Discreet) (hs : w.Sound) :
    (∀ number live, w.view? number = some live →
      w.attributes.store.find? ⟨live.view.session, env.draw w.drawn⟩ = none →
      ∀ {α : Type} (q : Attempt V α), live.view.Writing q →
        let actor : Actor := ⟨live.factory, some number⟩
        (∀ action ∈ w.faults env actor q.run, action.removes = false) →
        ∀ fault, (w.carryOut env actor q.run).1 = .error fault →
          w.Restored (w.carryOut env actor q.run).2) ∧
    ∀ factory session repair,
      let q : Procedure V _ := (Session.load session repair).run
      let r := w.carryOut env ⟨factory, none⟩ q
      (∀ answer, r.1 = .ok answer → w.faults env ⟨factory, none⟩ q = []) ∧
      ((∀ action ∈ w.faults env ⟨factory, none⟩ q, action.removes = false) →
        ∀ fault, r.1 = .error fault → w.Restored r.2 ∧ r.2.fates = w.fates) := by
  refine ⟨fun number live hl hfresh α q hq hkept fault hfault => ?_,
    fun factory session repair => ?_⟩
  · cases hq with
    | set name value =>
      exact write_restores hc hs hl (View.set_on live.view name value)
        (View.set_restores (fun _ h => h) hfresh) hkept hfault
    | update name change =>
      exact write_restores hc hs hl (View.update_on live.view name change)
        (View.update_restores (fun _ h => h) hfresh) hkept hfault
  · intro q r
    have hq : q.Asks (Action.On session false) := Session.load_on session repair
    obtain ⟨-, s, rest, hcount, hp, hpost⟩ := carryOut_lapses hc hs hq nofun
      (Session.load_refrains (m := m) session repair) (Nat.le_refl _) fun action hm => hm
    obtain ⟨measures, hcounted, hcounts⟩ := carryOut_counts hd ⟨factory, none⟩
      (Session.load_counts session repair) w
    change Session.Refrains _ _ _ r.1 _ at hpost
    change Session.Tallied repair r.1 _ at hcounted
    refine ⟨fun answer hanswer => ?_, fun hkept fault hfault => ?_⟩
    · rw [hanswer] at hpost
      have hall : rest = (w.faults env ⟨factory, none⟩ q).length := hpost
      exact List.eq_nil_of_length_eq_zero (by omega)
    · rw [hfault] at hpost hcounted
      exact ⟨restored_of_scope (hpost hkept) hp, hcounts.fates hcounted⟩

omit [BEq V] in
theorem failing_discreet (m : Marshaller V) (draw : Nat → AttributeId) (picks : Request → Bool) :
    (Surroundings.failing (σ := σ) m draw picks).Discreet :=
  { Surroundings.quiet_discreet m draw with before := fun _ _ => rfl }

/-- The names cannot be stored, and a write takes its entry back. The entries cannot be read, and a
load neither finds nor purges the session. -/
theorem failures_restore_unread :
    let env : Surroundings Bool Unit := .failing .bits AttributeId.ofNat fun
      | .names (.put ..) | .attributes (.getAll _) => true
      | _ => false
    let q := (View.set ⟨"s", false, Immutability.never⟩ "a" true).run
    ∃ w w' : World Bool Unit, w.fates 0 = some (0, 0, 0, 0) ∧
      w' = (w.carryOut (.quiet .bits AttributeId.ofNat) ⟨0, some 0⟩ q).2 ∧
      (w.carryOut env ⟨0, some 0⟩ q).1 = .error (.store "unreachable") ∧
      w.Restored (w.carryOut env ⟨0, some 0⟩ q).2 ∧
      let r := w'.carryOut env ⟨0, none⟩ (Session.find "s").run
      (∃ fault, r.1 = .error fault) ∧ w'.Restored r.2 ∧ r.2.fates = w'.fates := by
  intro env q
  let counting : Factory Bool → Factory Bool := fun f => { f with metrics := some {} }
  let w := viewed.changeFactory 0 counting
  have hplain : ∀ f, (counting f).plain = f.plain := fun _ => rfl
  have hs : w.Sound := (changeFactory_keeps viewed 0 hplain viewed_sound).1
  have hc : env.Calm .bits := Surroundings.failing_calm _ _ _
  have hd : env.Discreet := failing_discreet _ _ _
  have hl : w.view? 0 = some ⟨⟨"s", false, Immutability.never⟩, 0, ⟨Bundle.empty, []⟩, false,
    none⟩ := rfl
  have hfault : (w.carryOut env ⟨0, some 0⟩ q).1 = .error (.store "unreachable") := by
    decide +kernel
  have hwrite := (failures_restore hc hd hs).1 0 _ hl (by decide +kernel) _ (.set "a" true)
    (by decide +kernel) _ hfault
  obtain ⟨w', hw'⟩ : ∃ w', w' = (w.carryOut (.quiet .bits AttributeId.ofNat) ⟨0, some 0⟩ q).2 :=
    ⟨_, rfl⟩
  have hs' : w'.Sound := hw' ▸ (carryOut_plain (Surroundings.quiet_calm .bits AttributeId.ofNat)
    (Surroundings.quiet_reliable _ _) hs ⟨0, some 0⟩ q).1
  have hkept : ∀ action ∈ w'.faults env ⟨0, none⟩ (Session.find "s").run,
      action.removes = false := by
    rw [hw']
    decide +kernel
  have hno : (w'.carryOut env ⟨0, none⟩ (Session.find "s").run).1.toBool = false := by
    rw [hw']
    decide +kernel
  refine ⟨w, w', rfl, hw', hfault, hwrite, ?_⟩
  have hload : ∀ fault, (w'.carryOut env ⟨0, none⟩ (Session.find "s").run).1 = .error fault →
      w'.Restored (w'.carryOut env ⟨0, none⟩ (Session.find "s").run).2 ∧
        (w'.carryOut env ⟨0, none⟩ (Session.find "s").run).2.fates = w'.fates :=
    ((failures_restore hc hd hs').2 0 "s" true).2 hkept
  generalize w'.carryOut env ⟨0, none⟩ (Session.find "s").run = r at hno hload
  cases hr : r.1 with
  | error fault => exact ⟨⟨fault, hr⟩, hload fault hr⟩
  | ok answer =>
    rw [hr] at hno
    cases hno

end World
end SessionAttributes
