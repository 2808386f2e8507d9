import SessionAttributes.Proofs.Session.Steady
import SessionAttributes.Proofs.World.Scope

namespace SessionAttributes

variable {V σ : Type}

/-- The names whose entries a load still has to read, after one of its actions. -/
def Action.awaited (read : Option Names) : (action : Action V) → action.Answer → Option Names
  | .names (.get _), .ok found => found
  | .names (.get _), .error _ => none
  | .attributes (.getAll _), _ => none
  | _, _ => read

/-- An action deletes an entry that a load is about to read. -/
def Action.Overtakes (session : SessionId) (read : Option Names) : Action V → Prop
  | .attributes (.remove key _) =>
    ∃ names, read = some names ∧ key.session = session ∧ key.id ∈ names.values
  | _ => False

theorem Action.not_overtakes (session : SessionId) (action : Action V) :
    ¬ action.Overtakes session none := by
  cases action with
  | attributes call =>
    cases call with
    | remove key mode =>
      rintro ⟨_, ⟨⟩, _⟩
    | _ => exact id
  | _ => exact id

/-- What a load asks for and what it is answered while everything that it reads the names of can be
read. It deletes nothing. -/
def loading (m : Marshaller V) (session : SessionId) : Rule V (Option Names)
  | .isOpen, read, post => ∀ isOpen, post isOpen read
  | .decode bytes, read, post => post (m.read bytes) read
  | .record _, read, post => post () read
  | .names (.get key), _, post =>
    key = session ∧ (∀ fault, post (.error fault) none) ∧
      ∀ names, (∀ found, names = some found → found.values.Nodup) → post (.ok names) names
  | .attributes (.getAll keys), read, post =>
    ∃ names, read = some names ∧ keys = names.values.map (⟨session, ·⟩) ∧
      (∀ fault, post (.error fault) none) ∧
      ∀ entries, (∀ id ∈ names.values, ∃ value, Readable m (entries.lookup ⟨session, id⟩) value) →
        post (.ok entries) none
  | _, _, _ => False

def Scope.Covers (m : Marshaller V) (s : Scope V) (read : Option Names) : Prop :=
  ∀ names, read = some names → ∀ id ∈ names.values, ∃ value, Readable m (s.entries id) value

namespace Session

variable {m : Marshaller V} {session : SessionId}

def loadNamed (session : SessionId) (repair : Bool) (names : Names) :
    Attempt V (Option (Bundle V)) := do
  let entries ← Index.loadEntries session names
  match ← decodeEntries session names.values entries [] with
  | some values =>
    Attempt.record (.sessionLoaded names.size)
    return some ⟨names, values⟩
  | none =>
    Attempt.record .sessionCorrupt
    if repair then
      let _ ← purge session
    return none

/-- The rest of a load, by what it was answered for the names. -/
def loadFrom (session : SessionId) (repair : Bool) :
    Except SessionError (Option Names) → Procedure V (Except SessionError (Option (Bundle V)))
  | .error fault => .done (.error fault)
  | .ok none => .act (.record (.sessionLoaded 0)) fun _ => .done (.ok (some Bundle.empty))
  | .ok (some names) => (loadNamed session repair names).run

theorem load_run (session : SessionId) (repair : Bool) :
    (load session repair : Attempt V _).run = .act .isOpen fun isOpen =>
      bif isOpen then .act (.names (.get session)) (loadFrom session repair)
      else .done (.error .factoryClosed) := by
  refine congrArg (Procedure.act .isOpen) (funext fun isOpen => ?_)
  cases isOpen with
  | false => rfl
  | true =>
    refine congrArg (Procedure.act (.names (.get session))) (funext fun answer => ?_)
    match answer with
    | .error _ => rfl
    | .ok none => rfl
    | .ok (some _) => rfl

theorem loadNamed_waits (session : SessionId) (repair : Bool) {names : Names}
    (hn : names.values.Nodup) :
    (loadNamed session repair names).run.Secures (loading m session)
      (fun answer _ => answer ≠ .ok none) (some names) := by
  rw [Attempt.secures_run]
  unfold loadNamed
  simp only [Attempt.secures_bind]
  refine ⟨names, rfl, rfl, fun _ => nofun, fun entries hr => ?_⟩
  refine (secures_decodeEntries (fun _ _ _ => Iff.rfl) names.values entries [] _ _).mpr ?_
  obtain ⟨new, hd, -⟩ := decoded_of_readable session entries [] hn hr
  rw [hd]
  exact nofun

/-- A load ends with a bundle or an error, and never gets as far as to delete anything. -/
theorem load_waits (session : SessionId) (repair : Bool) :
    (load session repair).run.Secures (loading m session) (fun answer _ => answer ≠ .ok none)
      none := by
  rw [load_run]
  intro isOpen
  cases isOpen with
  | false => exact nofun
  | true =>
    refine ⟨rfl, fun _ => nofun, fun names hn => ?_⟩
    match names with
    | none => exact nofun
    | some names => exact loadNamed_waits session repair (hn names rfl)

/-- A load that misses an entry takes the session for corrupt, and a repair deletes the names. -/
theorem loadNamed_misses {draw : Nat → AttributeId} {fails : SessionError → Scope V → Prop}
    {s : Scope V} {names : Names} {id : AttributeId} (hm : id ∈ names.values)
    (he : s.entries id = none) (ho : s.isOpen = true) :
    (loadNamed session true names).Secures ((Terms.plain draw).rule m session)
      (fun b s' => b = none ∧ s'.stored = none) fails s := by
  unfold loadNamed
  simp only [Attempt.secures_bind]
  refine ⟨trivial, False.elim, trivial, ?_⟩
  refine (secures_decodeEntries (fun _ _ _ => Iff.rfl) names.values (s.found session names) [] _
    _).mpr ?_
  rw [decoded_of_missing [] hm ((Scope.lookup_found hm).trans he)]
  change (do let _ ← purge session; return none : Attempt V (Option (Bundle V))).Secures
    ((Terms.plain draw).rule m session) (fun b s' => b = none ∧ s'.stored = none) fails s
  simp only [Attempt.secures_bind, Attempt.secures_pure, true_and]
  have hpurge : (purge session : Attempt V Bool).Secures ((Terms.plain draw).rule m session)
      (fun _ s' => s'.stored = none ∧
        ∀ names, s.stored = some names → ∀ id ∈ names.values, s'.entries id = none) fails s :=
    delete_effect draw .purge ho
  refine Procedure.Secures.mono (Terms.rule_monotone _ m session) ?_ hpurge
  rintro (_ | _) s' h
  · exact h
  · exact h.1

end Session

/-- An action of a view that overtakes no load leaves what the load is about to read. -/
theorem Scope.Covers.perform {m : Marshaller V} {session : SessionId} {fresh : AttributeId}
    {s : Scope V} {read : Option Names} (h : s.Covers m read) {action : Action V}
    (hon : action.On session true) {post : action.Answer → Scope V → Prop}
    (hrule : (Terms.steady m fresh).rule m session action s post)
    (ho : ¬ action.Overtakes session read) (draw : Nat → AttributeId) :
    (s.perform m draw session action).2.Covers m read := by
  cases action with
  | attributes call =>
    cases call with
    | get key => exact h
    | getAll keys => exact h
    | evict key => exact h
    | put key bytes mode =>
      obtain ⟨owner, id⟩ := key
      obtain rfl : owner = session := hon ⟨owner, id⟩ rfl
      intro names hn k hk
      simp only [Scope.perform, Scope.callAttributes_put]
      by_cases he : k = id
      · subst he
        obtain ⟨value, hv⟩ := hrule.1 _ _ _ rfl
        rw [Function.update_self]
        exact ⟨value, bytes, rfl, hv⟩
      · rw [Function.update_of_ne he]
        exact h names hn k hk
    | remove key mode =>
      obtain ⟨owner, id⟩ := key
      obtain rfl : owner = session := hon ⟨owner, id⟩ rfl
      intro names hn k hk
      have he : k ≠ id := fun he => ho ⟨names, hn, rfl, he ▸ hk⟩
      simp only [Scope.perform, Scope.callAttributes_remove]
      rw [Function.update_of_ne he]
      exact h names hn k hk
  | _ => exact h

/-- An action of a load that waits for nothing else changes nothing that shows. -/
theorem World.load_step {α : Type} {env : Surroundings V σ} {m : Marshaller V} {w : World V σ}
    {session : SessionId} {actor : World.Actor} {read : Option Names} {action : Action V}
    {next : action.Answer → Procedure V α} {post : α → Option Names → Prop} (hc : env.Calm m)
    (hs : w.Sound) (hl : (w.plain.scope session actor).Loadable m)
    (hr : (w.plain.scope session actor).Covers m read) (factory : Nat)
    (h : (Procedure.act action next).Secures (loading m session) post read) :
    let r := w.perform env ⟨factory, none⟩ action
    r.2.Sound ∧ r.2.plain = w.plain ∧
      (w.plain.scope session actor).Covers m (action.awaited read r.1) ∧
      (next r.1).Secures (loading m session) post (action.awaited read r.1) := by
  obtain ⟨hs', hstep⟩ := perform_plain hc hs ⟨factory, none⟩ action
  cases action with
  | isOpen =>
    obtain ⟨hf, _⟩ | ⟨_, hp⟩ := hstep
    · exact hf.elim
    · exact ⟨hs', hp, hr, h _⟩
  | decode bytes =>
    obtain ⟨hf, _⟩ | ⟨ha, hp⟩ := hstep
    · exact hf.elim
    · refine ⟨hs', hp, hr, ?_⟩
      rw [ha]
      exact h
  | record measure =>
    obtain ⟨hf, _⟩ | ⟨_, hp⟩ := hstep
    · exact hf.elim
    · exact ⟨hs', hp, hr, h⟩
  | names call =>
    cases call with
    | get key =>
      obtain ⟨rfl, hfault, hnext⟩ := h
      obtain ⟨⟨fault, hf⟩, hp⟩ | ⟨ha, hp⟩ := hstep
      · refine ⟨hs', hp, ?_⟩
        rw [hf]
        exact ⟨nofun, hfault fault⟩
      · refine ⟨hs', hp, ?_⟩
        rw [ha]
        exact ⟨fun names hn => (hl names hn).readable,
          hnext _ fun names hn => (hl names hn).distinct⟩
    | _ => exact h.elim
  | attributes call =>
    cases call with
    | getAll keys =>
      obtain ⟨names, rfl, rfl, hfault, hnext⟩ := h
      obtain ⟨⟨fault, hf⟩, hp⟩ | ⟨ha, hp⟩ := hstep
      · refine ⟨hs', hp, nofun, ?_⟩
        rw [hf]
        exact hfault fault
      · refine ⟨hs', hp, nofun, ?_⟩
        rw [ha]
        refine hnext _ fun id hm => ?_
        have hfound : (collect w.plain.attributes (names.values.map (⟨session, ·⟩)) []).lookup
            ⟨session, id⟩ = w.plain.attributes ⟨session, id⟩ := by
          rw [lookup_collect, if_pos (List.mem_map.mpr ⟨id, hm, rfl⟩)]
          exact Option.or_none
        obtain ⟨value, hv⟩ := hr names rfl id hm
        exact ⟨value, hfound.symm ▸ hv⟩
    | _ => exact h.elim
  | _ => exact h.elim

end SessionAttributes
