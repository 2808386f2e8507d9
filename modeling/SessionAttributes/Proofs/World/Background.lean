import SessionAttributes.Proofs.Session.Loads
import SessionAttributes.Proofs.World.Reach

namespace SessionAttributes

variable {V σ : Type} {m : Marshaller V} {w w' : World V σ} {session : SessionId}

namespace PlainWorld

variable {p p' : PlainWorld V}

structure Spares (session : SessionId) (p p' : PlainWorld V) : Prop where
  views : p'.views = p.views
  factories : p'.factories = p.factories
  names : p'.names session = p.names session
  attributes : ∀ id, p'.attributes ⟨session, id⟩ = p.attributes ⟨session, id⟩

theorem Spares.refl (session : SessionId) (p : PlainWorld V) : Spares session p p :=
  ⟨rfl, rfl, rfl, fun _ => rfl⟩

/-- The scope is the same but for the identifiers drawn elsewhere. -/
theorem Spares.scope (h : Spares session p p') (actor : World.Actor) :
    p'.scope session actor = { p.scope session actor with drawn := p'.drawn } := by
  have hs : p'.stateOf actor = p.stateOf actor := by simp only [stateOf, h.views]
  have he : (fun id => p'.attributes ⟨session, id⟩) = fun id => p.attributes ⟨session, id⟩ :=
    funext h.attributes
  simp only [PlainWorld.scope, hs, he, h.names, h.factories]

theorem withScope_spares {other : SessionId} (hne : other ≠ session) {actor : World.Actor}
    (ha : actor.view = none) (s : Scope V) : Spares session p (p.withScope other actor s) := by
  refine ⟨?_, rfl, Function.update_of_ne hne.symm _ _, fun id => ?_⟩
  · simp [withScope, ha]
  · simp [withScope, hne.symm]

end PlainWorld

namespace World

/-- An eviction that nobody asked for, a step of a worker, or listeners that come and go. -/
inductive Passive (m : Marshaller V) : World V σ → World V σ → Prop
  | metadata {env : Surroundings V σ} {w : World V σ} (hc : env.Calm m) (session : SessionId) :
      Passive m w (w.callMetadata env (.evict session)).2
  | names {env : Surroundings V σ} {w : World V σ} (hc : env.Calm m) (session : SessionId) :
      Passive m w (w.callNames env (.evict session)).2
  | attributes {env : Surroundings V σ} {w : World V σ} (hc : env.Calm m) (key : AttributeKey) :
      Passive m w (w.callAttributes env (.evict key)).2
  | work {env : Surroundings V σ} {w : World V σ} (hc : env.Calm m) (number : Nat)
      (step : WorkerStep) : Passive m w (w.workerStep env number step)
  | listen (w : World V σ) (metadata names attributes : Listeners Subscriber) :
      Passive m w { w with
        metadata := ⟨w.metadata.store, metadata⟩
        names := ⟨w.names.store, names⟩
        attributes := ⟨w.attributes.store, attributes⟩ }

theorem Passive.keeps (h : Passive m w w') : w.Keeps w' := by
  cases h with
  | metadata hc session => exact Answers.keeps fun hs => callMetadata_answers hc hs (.evict session)
  | names hc session => exact Answers.keeps fun hs => callNames_answers hc hs (.evict session)
  | attributes hc key => exact Answers.keeps fun hs => callAttributes_answers hc hs (.evict key)
  | work hc number step => exact workerStep_keeps hc number _ step
  | listen metadata names attributes =>
    exact fun hs => ⟨⟨hs.metadata, hs.names, hs.attributes⟩, rfl⟩

/-- A step of the surroundings of a session: a passive one, or a call that concerns another
session. -/
inductive Background (m : Marshaller V) (session : SessionId) : World V σ → World V σ → Prop
  | passive {w w' : World V σ} (h : Passive m w w') : Background m session w w'
  | metadata {env : Surroundings V σ} {w : World V σ} (hc : env.Calm m)
      (call : StoreCall SessionId Metadata) : Background m session w (w.callMetadata env call).2
  | names {env : Surroundings V σ} {w : World V σ} (hc : env.Calm m)
      (call : StoreCall SessionId Names) (h : ¬ call.Writes session) :
      Background m session w (w.callNames env call).2
  | attributes {env : Surroundings V σ} {w : World V σ} (hc : env.Calm m)
      (call : StoreCall AttributeKey Bytes) (h : ∀ id, ¬ call.Writes ⟨session, id⟩) :
      Background m session w (w.callAttributes env call).2

theorem Keeps.spares (h : w.Keeps w') (hs : w.Sound) (session : SessionId) :
    w'.Sound ∧ PlainWorld.Spares session w.plain w'.plain := by
  obtain ⟨hs', hp⟩ := h hs
  rw [hp]
  exact ⟨hs', .refl session _⟩

theorem Answers.spares {A : Type} {r : Except SessionError A × World V σ} {p p' : PlainWorld V}
    {answer : A} (h : Answers r p answer p') (hp : PlainWorld.Spares session p p') :
    r.2.Sound ∧ PlainWorld.Spares session p r.2.plain := by
  obtain ⟨hs, ⟨_, he⟩ | ⟨_, he⟩⟩ := h
  · rw [he]
    exact ⟨hs, .refl session p⟩
  · rw [he]
    exact ⟨hs, hp⟩

theorem Background.spares (h : Background m session w w') (hs : w.Sound) :
    w'.Sound ∧ PlainWorld.Spares session w.plain w'.plain := by
  cases h with
  | passive h => exact h.keeps.spares hs session
  | metadata hc call =>
    exact (callMetadata_answers hc hs call).spares ⟨rfl, rfl, rfl, fun _ => rfl⟩
  | names hc call h =>
    exact (callNames_answers hc hs call).spares ⟨rfl, rfl, call.onMap_other _ h, fun _ => rfl⟩
  | attributes hc call h =>
    exact (callAttributes_answers hc hs call).spares
      ⟨rfl, rfl, rfl, fun id => call.onMap_other _ (h id)⟩

variable {env : Surroundings V σ}

/-- A load of another session is not seen in this one. -/
theorem load_other (hc : env.Calm m) (hr : env.Reliable) (hs : w.Sound) {other : SessionId}
    (hne : other ≠ session) (factory : Nat) (repair : Bool) :
    (w.carryOut env ⟨factory, none⟩ (Session.load other repair).run).2.Sound ∧
      PlainWorld.Spares session w.plain
        (w.carryOut env ⟨factory, none⟩ (Session.load other repair).run).2.plain := by
  obtain ⟨hs', _, hp, _⟩ := carryOut_scope hc hr hs ⟨factory, none⟩
    (Session.load_on other repair) nofun
  rw [hp]
  exact ⟨hs', PlainWorld.withScope_spares hne rfl _⟩

/-- A load that has a bundle to find changes nothing that shows, and finds it unless a call
fails. -/
theorem load_found (hc : env.Calm m) (hs : w.Sound) (factory : Nat) (repair : Bool) {b : Bundle V}
    (hl : (w.plain.scope session ⟨factory, none⟩).loaded m session = some b) :
    let r := w.carryOut env ⟨factory, none⟩ (Session.load session repair).run
    r.2.Sound ∧ r.2.plain = w.plain ∧ r.1 ≠ .ok none ∧
      (env.Reliable → (w.plain.scope session ⟨factory, none⟩).isOpen = true →
        r.1 = .ok (some b)) := by
  let t : Terms V := {
    failing := ¬ env.Reliable
    draws _ _ := True
    permits _ _ := True
    keeps s := s = w.plain.scope session ⟨factory, none⟩ }
  have hrun : (Session.load session repair).run.Secures (t.rule m session)
      (fun r _ => r ≠ .ok none ∧
        (env.Reliable → (w.plain.scope session ⟨factory, none⟩).isOpen = true → r = .ok (some b)))
      (w.plain.scope session ⟨factory, none⟩) := by
    rw [Attempt.secures_run]
    refine Session.load_secures rfl (fun _ => trivial) (fun hclosed => ⟨nofun, fun _ ho => ?_⟩)
      (fun hf _ => ⟨nofun, fun hr => absurd hr hf⟩) (fun b' hb' => ⟨nofun, fun _ _ => ?_⟩)
      (fun hn => ?_)
    · cases hclosed.symm.trans ho
    · rw [hl] at hb'
      rw [Option.some.inj hb']
    · cases hl.symm.trans hn
  obtain ⟨hs', s, hsame, hp, hanswer⟩ := carryOut_secures hc (Classical.em env.Reliable).symm hs
    (Session.load_on session repair) nofun hrun rfl fun _ => trivial
  refine ⟨hs', ?_, hanswer⟩
  rw [hp, hsame, PlainWorld.withScope_scope]

/-- A load that answers with a bundle has found it, and changed nothing that shows. -/
theorem found_of_load (hc : env.Calm m) (hs : w.Sound) {factory : Nat} {repair : Bool}
    {b : Bundle V} (hl : w.carryOut env ⟨factory, none⟩
      (Session.load session repair).run = (.ok (some b), w')) :
    w'.Sound ∧ w'.plain = w.plain ∧
      (w.plain.scope session ⟨factory, none⟩).loaded m session = some b := by
  let t : Terms V := ⟨True, fun _ _ => True, fun _ _ => True, fun _ => True⟩
  have hrun : (Session.load session repair).run.Secures (t.rule m session)
      (fun r _ => ∀ b', r = .ok (some b') →
        (w.plain.scope session ⟨factory, none⟩).loaded m session = some b')
      (w.plain.scope session ⟨factory, none⟩) := by
    rw [Attempt.secures_run]
    refine Session.load_secures trivial (fun _ => trivial) (fun _ _ => nofun) (fun _ _ _ => nofun)
      (fun b' hb' b'' he => ?_) (fun _ => ?_)
    · cases he
      exact hb'
    · split
      · refine Procedure.Secures.mono (Terms.rule_monotone _ m session) ?_
          (Terms.secures_trivial (fun _ _ => trivial) (fun _ => trivial)
            (Session.purge session).run _)
        intro r _ _
        cases r with
        | ok _ => exact nofun
        | error _ => exact nofun
      · exact nofun
  obtain ⟨-, -, -, -, hb⟩ := carryOut_secures hc (.inl trivial) hs (Session.load_on session repair)
    nofun hrun trivial fun _ => trivial
  have hb := hb b (congrArg Prod.fst hl)
  obtain ⟨hs', hp, -⟩ := load_found hc hs factory repair hb
  rw [hl] at hs' hp
  exact ⟨hs', hp, hb⟩

/-- Without failing calls a deletion leaves neither the names nor the entries they refer to. -/
theorem delete_gone (hc : env.Calm m) (hr : env.Reliable) (hs : w.Sound) {factory : Nat}
    (ho : (w.plain.scope session ⟨factory, none⟩).isOpen = true) (deletion : Deletion) :
    let r := w.carryOut env ⟨factory, none⟩ (Session.delete session deletion).run
    r.2.Sound ∧ ∃ s, r.2.plain = w.plain.withScope session ⟨factory, none⟩ s ∧ s.stored = none ∧
      ∀ names, w.plain.names session = some names → ∀ id ∈ names.values, s.entries id = none := by
  have hrun : (Session.delete session deletion).run.Secures ((Terms.plain env.draw).rule m session)
      (fun _ s => s.stored = none ∧
        ∀ names, w.plain.names session = some names → ∀ id ∈ names.values, s.entries id = none)
      (w.plain.scope session ⟨factory, none⟩) := by
    rw [Attempt.secures_run]
    exact Session.delete_effect env.draw deletion ho
  obtain ⟨hs', s, -, hp, hgone⟩ := carryOut_secures hc (.inr hr) hs
    (Session.delete_on session deletion) nofun hrun trivial fun _ => rfl
  exact ⟨hs', s, hp, hgone⟩

end World
end SessionAttributes
