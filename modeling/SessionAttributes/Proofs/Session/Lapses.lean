import SessionAttributes.Proofs.Session.Chronicle

namespace SessionAttributes

variable {V σ α β : Type}

instance Action.decidableFailed :
    (action : Action V) → (answer : action.Answer) → Decidable (action.Failed answer)
  | .names _, .error fault | .attributes _, .error fault => isTrue ⟨fault, rfl⟩
  | .names _, .ok _ | .attributes _, .ok _ => isFalse nofun
  | .isOpen, _ | .encode _, _ | .decode _, _ | .draw, _ | .lock, _ | .unlock _, _ | .record _, _
  | .notify _ _, _ => isFalse id

def Action.removes : Action V → Bool
  | .attributes (.remove _ _) => true
  | _ => false

/-- The calls that fail when a procedure is carried out. -/
def World.faults (env : Surroundings V σ) (actor : World.Actor) :
    Procedure V α → World V σ → List (Action V)
  | .done _, _ => []
  | .act action next, w =>
    let r := w.perform env actor action
    if action.Failed r.1 then action :: faults env actor (next r.1) r.2
    else faults env actor (next r.1) r.2

/-- The same surroundings, but some calls may fail, so many of them as the state counts. A call that
fails has no effect. -/
def Rule.lapsing (rule : Rule V σ) (may : Action V → Prop) : Rule V (σ × Nat) :=
  fun action s post => rule action s.1 (fun answer s' => post answer (s', s.2)) ∧
    ∀ left, s.2 = left + 1 → may action → ∀ answer, action.Failed answer → post answer (s.1, left)

/-- The surroundings of a session in which calls may fail. -/
abbrev Scope.lapsing (m : Marshaller V) (session : SessionId) (draw : Nat → AttributeId)
    (may : Action V → Prop) : Rule V (Scope V × Nat) :=
  ((Terms.plain draw).rule m session).lapsing may

section Performing
variable {env : Surroundings V σ} {m : Marshaller V} {w : World V σ} {session : SessionId}
  {locks : Bool} {actor : World.Actor} {may : Action V → Prop} {left : Nat}

theorem World.faults_failed {action : Action V} {next : action.Answer → Procedure V α}
    (h : action.Failed (w.perform env actor action).1) :
    w.faults env actor (.act action next) =
      action :: (w.perform env actor action).2.faults env actor
        (next (w.perform env actor action).1) := if_pos h

theorem Scope.perform_sure (s : Scope V) (draw : Nat → AttributeId) (action : Action V) :
    ¬ action.Failed (s.perform m draw session action).1 := by
  cases action with
  | names call => exact fun ⟨_, h⟩ => nomatch h
  | attributes call => exact fun ⟨_, h⟩ => nomatch h
  | _ => exact id

theorem World.faults_sure {action : Action V} {next : action.Answer → Procedure V α}
    (h : ¬ action.Failed (w.perform env actor action).1) :
    w.faults env actor (.act action next) =
      (w.perform env actor action).2.faults env actor (next (w.perform env actor action).1) :=
  if_neg h

/-- A procedure ends as it secures if no more calls fail than are counted, and none that may not. -/
theorem World.carryOut_lapses {q : Procedure V α} (hc : env.Calm m) (hs : w.Sound)
    (hq : q.Asks (Action.On session locks)) (hl : locks → w.plain.Seats actor)
    {post : α → Scope V × Nat → Prop}
    (h : q.Secures (Scope.lapsing m session env.draw may) post (w.plain.scope session actor, left))
    (hf : (w.faults env actor q).length ≤ left)
    (hmay : ∀ action ∈ w.faults env actor q, may action) :
    (w.carryOut env actor q).2.Sound ∧ ∃ s rest,
      rest + (w.faults env actor q).length = left ∧
      (w.carryOut env actor q).2.plain = w.plain.withScope session actor s ∧
      post (w.carryOut env actor q).1 (s, rest) := by
  induction q generalizing w left with
  | done result => exact ⟨hs, _, left, rfl, (w.plain.withScope_scope session actor).symm, h⟩
  | act action next ih =>
    obtain ⟨hon, hnext⟩ := hq
    obtain ⟨hacts, hfails⟩ := h
    obtain ⟨hs', ⟨hfail, hp⟩ | ⟨ha, hp⟩⟩ := perform_plain hc hs actor action
    · rw [faults_failed hfail] at hf hmay ⊢
      obtain ⟨left, rfl⟩ := Nat.exists_eq_add_one.mpr (Nat.lt_of_lt_of_le (Nat.succ_pos _) hf)
      have hrest := hfails left rfl (hmay _ List.mem_cons_self) _ hfail
      rw [← hp] at hrest hl
      obtain ⟨hs'', s, rest, hcount, hp', hpost⟩ := ih _ hs' (hnext _) hl hrest
        (Nat.le_of_succ_le_succ hf) fun action hm => hmay action (List.mem_cons_of_mem _ hm)
      rw [hp] at hp'
      exact ⟨hs'', s, rest, congrArg Nat.succ hcount, hp', hpost⟩
    · obtain ⟨hstep, hscope⟩ := hon.perform m env.draw hl
      rw [hstep] at ha hp
      obtain ⟨-, hpost⟩ := Terms.rule_perform hacts trivial env.draw fun _ => rfl
      have hl' : locks → (w.perform env actor action).2.plain.Seats actor := fun hlocks => by
        rw [hp]
        exact (hl hlocks).withScope session _
      rw [faults_sure (ha ▸ Scope.perform_sure _ env.draw action)] at hf hmay ⊢
      obtain ⟨hs'', s, rest, hcount, hp', hpost'⟩ := ih _ hs' (hnext _) hl'
        (by rw [hp, hscope, ha]; exact hpost) hf hmay
      refine ⟨hs'', s, rest, hcount, hp'.trans ?_, hpost'⟩
      rw [hp, PlainWorld.withScope_withScope]

end Performing

section Calls
variable {m : Marshaller V} {session : SessionId} {draw : Nat → AttributeId}
  {may : Action V → Prop} {fails : SessionError → Scope V × Nat → Prop} {s : Scope V} {left : Nat}

namespace Scope

/-- Actions that are no calls of a store do not fail. -/
theorem lapsing_sure (action : Action V) (ha : ∀ answer, ¬ action.Failed answer)
    (post : action.Answer → Scope V × Nat → Prop) :
    lapsing m session draw may action (s, left) post ↔
      (Terms.plain draw).rule m session action s fun answer s' => post answer (s', left) :=
  and_iff_left fun _ _ _ answer hf => absurd hf (ha answer)

@[simp] theorem lapsing_isOpen (post : (Action.isOpen (V := V)).Answer → Scope V × Nat → Prop) :
    lapsing m session draw may .isOpen (s, left) post ↔ post s.isOpen (s, left) :=
  lapsing_sure .isOpen (fun _ h => h) post

@[simp] theorem lapsing_encode (value : V)
    (post : (Action.encode value).Answer → Scope V × Nat → Prop) :
    lapsing m session draw may (.encode value) (s, left) post ↔ post (m.write value) (s, left) :=
  lapsing_sure (.encode value) (fun _ h => h) post

@[simp] theorem lapsing_decode (bytes : Bytes)
    (post : (Action.decode (V := V) bytes).Answer → Scope V × Nat → Prop) :
    lapsing m session draw may (.decode bytes) (s, left) post ↔ post (m.read bytes) (s, left) :=
  lapsing_sure (.decode bytes) (fun _ h => h) post

@[simp] theorem lapsing_lock (post : (Action.lock (V := V)).Answer → Scope V × Nat → Prop) :
    lapsing m session draw may .lock (s, left) post ↔ post s.state (s, left) :=
  lapsing_sure .lock (fun _ h => h) post

@[simp] theorem lapsing_unlock (state : ViewState V)
    (post : (Action.unlock state).Answer → Scope V × Nat → Prop) :
    lapsing m session draw may (.unlock state) (s, left) post ↔
      post () ({ s with state }, left) :=
  (lapsing_sure (.unlock state) (fun _ h => h) post).trans (and_iff_right trivial)

@[simp] theorem lapsing_record (measure : Measure)
    (post : (Action.record (V := V) measure).Answer → Scope V × Nat → Prop) :
    lapsing m session draw may (.record measure) (s, left) post ↔ post () (s, left) :=
  lapsing_sure (.record measure) (fun _ h => h) post

@[simp] theorem lapsing_notify (direction : Direction) (value : V)
    (post : (Action.notify direction value).Answer → Scope V × Nat → Prop) :
    lapsing m session draw may (.notify direction value) (s, left) post ↔ post () (s, left) :=
  lapsing_sure (.notify direction value) (fun _ h => h) post

@[simp] theorem lapsing_draw (post : (Action.draw (V := V)).Answer → Scope V × Nat → Prop) :
    lapsing m session draw may .draw (s, left) post ↔
      post (draw s.drawn) ({ s with drawn := s.drawn + 1 }, left) := by
  refine (lapsing_sure .draw (fun _ h => h) post).trans ⟨fun h => (h _ rfl).2, ?_⟩
  rintro h _ rfl
  exact ⟨trivial, h⟩

end Scope

namespace Attempt

theorem names_lapse (call : StoreCall SessionId Names) {post : call.Answer → Scope V × Nat → Prop}
    (hp : post (s.callNames session call).1 ((s.callNames session call).2, left))
    (hf : ∀ fewer fault, left = fewer + 1 → fails fault (s, fewer)) :
    (Attempt.names call : Attempt V _).Secures (Scope.lapsing m session draw may) post fails
      (s, left) := by
  refine ⟨⟨False.elim, trivial, hp⟩, ?_⟩
  rintro fewer hleft - _ ⟨fault, rfl⟩
  exact hf fewer fault hleft

theorem attributes_lapse (call : StoreCall AttributeKey Bytes)
    {post : call.Answer → Scope V × Nat → Prop}
    (hp : post (s.callAttributes session call).1 ((s.callAttributes session call).2, left))
    (hf : ∀ fewer fault, left = fewer + 1 → may (.attributes call) → fails fault (s, fewer)) :
    (Attempt.attributes call : Attempt V _).Secures (Scope.lapsing m session draw may) post fails
      (s, left) := by
  refine ⟨⟨trivial, False.elim, trivial, hp⟩, ?_⟩
  rintro fewer hleft hm _ ⟨fault, rfl⟩
  exact hf fewer fault hleft hm

theorem encode_lapses {value : V} {post : Bytes → Scope V × Nat → Prop}
    (hp : ∀ bytes, m.write value = .ok bytes → post bytes (s, left))
    (hf : ∀ fault, m.write value = .error fault → fails fault (s, left)) :
    (Attempt.encode value).Secures (Scope.lapsing m session draw may) post fails (s, left) := by
  refine (Scope.lapsing_encode value _).mpr ?_
  cases hw : m.write value with
  | error fault => exact hf fault hw
  | ok bytes => exact hp bytes hw

theorem inspect_lapses {post : ViewState V → Scope V × Nat → Prop} (hp : post s.state (s, left)) :
    Attempt.Secures (Scope.lapsing m session draw may) post fails (ExceptT.lift View.inspect)
      (s, left) := by
  rw [Attempt.secures_lift, View.secures_inspect]
  exact (Scope.lapsing_lock _).mpr ((Scope.lapsing_unlock s.state _).mpr hp)

/-- The lock is given back before the rest. -/
theorem unlock_lapses {state : ViewState V} {rest : Attempt V α} {post : α → Scope V × Nat → Prop}
    (h : rest.Secures (Scope.lapsing m session draw may) post fails ({ s with state }, left)) :
    Attempt.Secures (Scope.lapsing m session draw may) post fails
      (do Attempt.ask (.unlock state); rest) (s, left) :=
  Attempt.Secures.bind ((Scope.lapsing_unlock state _).mpr h)

end Attempt

namespace Index

theorem saveEntry_lapses {id : AttributeId} {bytes : Bytes} {post : Unit → Scope V × Nat → Prop}
    (hp : post () (s.setEntry id (some bytes), left))
    (hf : ∀ fewer fault, left = fewer + 1 → fails fault (s, fewer)) :
    (saveEntry session id bytes : Attempt V Unit).Secures (Scope.lapsing m session draw may) post
      fails (s, left) := by
  simp only [saveEntry, Attempt.secures_bind]
  refine Attempt.attributes_lapse _ ?_ fun fewer fault hleft _ => hf fewer fault hleft
  rw [Scope.callAttributes_put]
  exact hp

theorem removeEntry_lapses {id : AttributeId} {post : Unit → Scope V × Nat → Prop}
    (hp : post () (s.setEntry id none, left))
    (hf : ∀ fewer fault, left = fewer + 1 → may (.attributes (.remove ⟨session, id⟩ .writeOnly)) →
      fails fault (s, fewer)) :
    (removeEntry session id : Attempt V Unit).Secures (Scope.lapsing m session draw may) post
      fails (s, left) := by
  simp only [removeEntry, Attempt.secures_bind]
  refine Attempt.attributes_lapse _ ?_ hf
  rw [Scope.callAttributes_remove]
  exact hp

theorem load_lapses {post : Option Names → Scope V × Nat → Prop} (hp : post s.stored (s, left))
    (hf : ∀ fewer fault, left = fewer + 1 → fails fault (s, fewer)) :
    (load session : Attempt V _).Secures (Scope.lapsing m session draw may) post fails (s, left) :=
  Attempt.names_lapse (.get session) hp hf

theorem save_lapses {names : Names} {post : Unit → Scope V × Nat → Prop}
    (hp : post () (s.save names, left))
    (hf : ∀ fewer fault, left = fewer + 1 → fails fault (s, fewer)) :
    (save session names : Attempt V Unit).Secures (Scope.lapsing m session draw may) post fails
      (s, left) := by
  simp only [save, Attempt.secures_bind]
  refine Attempt.names_lapse _ ?_ hf
  rw [Scope.callNames_put]
  exact hp

theorem take_lapses {post : Option Names → Scope V × Nat → Prop}
    (hp : post s.stored ({ s with stored := none }, left))
    (hf : ∀ fewer fault, left = fewer + 1 → fails fault (s, fewer)) :
    (take session : Attempt V _).Secures (Scope.lapsing m session draw may) post fails
      (s, left) := by
  refine Attempt.names_lapse (.remove session .normal) ?_ hf
  rw [Scope.callNames_remove]
  exact hp

theorem bind_lapses {known : Names} {name : String} {id : AttributeId}
    {post : Option AttributeId → Scope V × Nat → Prop}
    (hp : post (((s.stored.getD known).get? name).filter (· != id))
      (s.save ((s.stored.getD known).insert name id), left))
    (hf : ∀ fewer fault, left = fewer + 1 → fails fault (s, fewer)) :
    (bind session known name id : Attempt V _).Secures (Scope.lapsing m session draw may) post fails
      (s, left) := by
  simp only [bind, Attempt.secures_bind]
  exact load_lapses (save_lapses hp hf) hf

theorem unbind_lapses {known : Names} {name : String} {post : Unit → Scope V × Nat → Prop}
    (hp : post () (s.save ((s.stored.getD known).erase name), left))
    (hf : ∀ fewer fault, left = fewer + 1 → fails fault (s, fewer)) :
    (unbind session known name : Attempt V _).Secures (Scope.lapsing m session draw may) post fails
      (s, left) := by
  simp only [unbind, Attempt.secures_bind]
  exact load_lapses (save_lapses hp hf) hf

end Index

namespace View
variable [BEq V] {w : View V} {name : String} {value : V} {previous : Option V} {id : AttributeId}
  {bytes : Bytes} {post : Option V → Scope V × Nat → Prop}

/-- A commit of a bound name calls no store. -/
theorem commit_lapses_bound {before : Option AttributeId}
    (hb : s.bundle.attributeId? name = some id)
    (hp : ∀ state, post (s.bundle.value? id) ({ s with state }, left)) :
    (w.commit name value before previous id).Secures (Scope.lapsing m w.session draw may) post
      fails (s, left) := by
  have hstand : standing before (s.state.bundle.attributeId? name) id = .current := by
    simp [standing, show s.state.bundle.attributeId? name = some id from hb]
  unfold commit
  simp only [Attempt.secures_bind, Attempt.secures_ask, Scope.lapsing_lock, hstand]
  exact Attempt.unlock_lapses (hp _)

/-- A commit of a free name binds it and discards what the stored names had bound it to. If it
cannot bind the name, it takes its own entry back. -/
theorem commit_lapses_free (hb : s.bundle.attributeId? name = none)
    (hp : ∀ state, (s.known.get? name).filter (· != id) = none →
      post ((s.bundle.bindName name id).value? id)
        ({ s.save (s.known.insert name id) with state }, left))
    (hreplaced : ∀ replaced, (s.known.get? name).filter (· != id) = some replaced → ∀ state,
      post ((s.bundle.bindName name id).value? id)
        ({ (s.save (s.known.insert name id)).setEntry replaced none with state }, left) ∧
      ∀ fewer, left = fewer + 1 →
        may (.attributes (.remove ⟨w.session, replaced⟩ .writeOnly)) →
        post ((s.bundle.bindName name id).value? id)
          ({ s.save (s.known.insert name id) with state }, fewer))
    (hundo : ∀ fewer fault, left = fewer + 1 → fails fault (s.setEntry id none, fewer) ∧
      ∀ least, fewer = least + 1 → may (.attributes (.remove ⟨w.session, id⟩ .writeOnly)) →
        fails fault (s, least)) :
    (w.commit name value none previous id).Secures (Scope.lapsing m w.session draw may) post
      fails (s, left) := by
  have hstand : standing none (s.state.bundle.attributeId? name) id = .free := by
    simp [standing, show s.state.bundle.attributeId? name = none from hb]
  unfold commit
  simp only [Attempt.secures_bind, Attempt.secures_ask, Scope.lapsing_lock, hstand]
  simp only [Attempt.secures_bind, Attempt.secures_tryCatch]
  refine Index.bind_lapses ?_ fun fewer fault hfewer => ?_
  · have hknown : s.stored.getD s.state.bundle.names = s.known := rfl
    rw [hknown]
    cases hr : (s.known.get? name).filter (· != id) with
    | none => exact Attempt.unlock_lapses (hp _ hr)
    | some replaced =>
      dsimp only
      rw [Index.secures_discardEntry]
      refine Index.removeEntry_lapses ?_ fun fewer _ hfewer hm => ?_
      · exact Attempt.unlock_lapses (hreplaced replaced hr _).1
      · exact Attempt.unlock_lapses ((hreplaced replaced hr _).2 fewer hfewer hm)
  · obtain ⟨hremoved, hleft⟩ := hundo fewer fault hfewer
    rw [Index.secures_discardEntry]
    refine Index.removeEntry_lapses ?_ fun least _ hleast hm => ?_
    · exact Attempt.unlock_lapses hremoved
    · exact Attempt.unlock_lapses (hleft least hleast hm)

/-- A write that is not skipped stores its entry and commits. -/
theorem write_lapses {before : Option AttributeId}
    (hcommit : (w.commit name value before previous id).Secures
      (Scope.lapsing m w.session draw may) post fails (s.setEntry id (some bytes), left))
    (hf : ∀ fewer fault, left = fewer + 1 → fails fault (s, fewer)) :
    Attempt.Secures (Scope.lapsing m w.session draw may) post fails
      (if w.notifies = true then do
        Attempt.ask (.notify .passivate value)
        Index.saveEntry w.session id bytes
        Attempt.record .attributeWritten
        w.commit name value before previous id
      else do
        Index.saveEntry w.session id bytes
        Attempt.record .attributeWritten
        w.commit name value before previous id) (s, left) := by
  have hstored : Attempt.Secures (Scope.lapsing m w.session draw may) post fails
      (do
        Index.saveEntry w.session id bytes
        Attempt.record .attributeWritten
        w.commit name value before previous id) (s, left) := by
    simp only [Attempt.secures_bind]
    refine Index.saveEntry_lapses ?_ hf
    exact (Scope.lapsing_record _ _).mpr hcommit
  cases w.notifies with
  | false => exact hstored
  | true => exact (Scope.lapsing_notify _ _ _).mpr hstored

/-- The parts of a write: its value may not be encoded, it may be skipped, its entry may not be
stored, and otherwise it commits. -/
theorem set_lapses (hencode : ∀ fault, m.write value = .error fault → fails fault (s, left))
    (hskip : post (s.bundle.get? name) (s, left))
    (hput : ∀ drawn fewer fault, left = fewer + 1 → fails fault ({ s with drawn }, fewer))
    (hbound : ∀ bytes id previous, s.bundle.attributeId? name = some id →
      (w.commit name value (some id) previous id).Secures (Scope.lapsing m w.session draw may)
        post fails (s.setEntry id (some bytes), left))
    (hfree : ∀ bytes previous, s.bundle.attributeId? name = none →
      (w.commit name value none previous (draw s.drawn)).Secures
        (Scope.lapsing m w.session draw may) post fails
        ({ s.setEntry (draw s.drawn) (some bytes) with drawn := s.drawn + 1 }, left)) :
    (w.set name value).Secures (Scope.lapsing m w.session draw may) post fails (s, left) := by
  unfold View.set
  simp only [Attempt.secures_bind]
  refine Attempt.encode_lapses (fun bytes _ => Attempt.inspect_lapses ?_) hencode
  by_cases hsame : (s.state.bundle.get? name == some value && w.immutability value) = true
  · simp only [hsame, if_true, Attempt.secures_bind]
    exact (Scope.lapsing_record _ _).mpr hskip
  · simp only [if_neg hsame]
    cases hb : s.state.bundle.attributeId? name with
    | some id =>
      simp only [Attempt.secures_bind, Attempt.secures_pure]
      exact write_lapses (hbound bytes id _ hb) (hput s.drawn)
    | none =>
      refine (Scope.lapsing_draw _).mpr ?_
      exact write_lapses (hfree bytes _ hb) (hput (s.drawn + 1))

theorem update_lapses {change : V → V} {post : Bool → Scope V × Nat → Prop}
    (hnone : s.bundle.get? name = none → post false (s, left))
    (hsome : ∀ value, s.bundle.get? name = some value →
      (w.set name (change value)).Secures (Scope.lapsing m w.session draw may) (fun _ => post true)
        fails (s, left)) :
    (w.update name change).Secures (Scope.lapsing m w.session draw may) post fails (s, left) := by
  unfold View.update
  simp only [Attempt.secures_bind]
  refine Attempt.inspect_lapses ?_
  cases hv : s.state.bundle.get? name with
  | none => exact hnone hv
  | some current =>
    simp only [Attempt.secures_bind]
    exact hsome current hv

end View

namespace Session

/-- Whichever of its calls fails, a load changes nothing unless it purges the session. -/
theorem load_lapses (repair : Bool) {post : Option (Bundle V) → Scope V × Nat → Prop}
    (hp : ∀ answer, post answer (s, left)) (hf : ∀ fewer fault, fails fault (s, fewer))
    (hpurge : (delete session .purge : Attempt V Bool).Secures (Scope.lapsing m session draw may)
      (fun _ => post none) fails (s, left)) :
    (load session repair : Attempt V _).Secures (Scope.lapsing m session draw may) post fails
      (s, left) := by
  unfold load
  simp only [Attempt.secures_bind, Attempt.secures_ensureOpen]
  refine (Scope.lapsing_isOpen _).mpr ?_
  cases s.isOpen with
  | false => exact hf left _
  | true =>
    refine Index.load_lapses ?_ fun fewer fault _ => hf fewer fault
    cases s.stored with
    | none => exact (Scope.lapsing_record _ _).mpr (hp _)
    | some names =>
      refine Attempt.Secures.bind
        (Attempt.attributes_lapse _ ?_ fun fewer fault _ _ => hf fewer fault)
      refine Attempt.Secures.bind ?_
      refine (secures_decodeEntries (fun _ _ _ => Scope.lapsing_decode _ _) _ _ _ _ _).mpr ?_
      split
      · exact (Scope.lapsing_record _ _).mpr (hp _)
      · refine (Scope.lapsing_record _ _).mpr ?_
        cases repair with
        | false => exact hp none
        | true => exact Attempt.Secures.bind hpurge

end Session
end Calls
end SessionAttributes
