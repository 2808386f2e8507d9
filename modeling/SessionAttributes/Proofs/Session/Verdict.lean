import SessionAttributes.Proofs.Session.Opened

namespace SessionAttributes

variable {V σ : Type} {m : Marshaller V} {session : SessionId}

structure Verdict (m : Marshaller V) (stored : Option Names) (entries : AttributeId → Option Bytes)
    (answer : Option (Bundle V)) : Prop where
  absent : stored = none → answer = some Bundle.empty
  present : ∀ names, stored = some names →
    (answer.isSome ↔ names.values.Nodup ∧
      ∀ id ∈ names.values, ∃ value, Readable m (entries id) value)
  names : ∀ names b, stored = some names → answer = some b → b.names = names
  unique : ∀ b, answer = some b → (keysOf b.values).Nodup
  values : ∀ names b, stored = some names → answer = some b → ∀ id value,
    b.value? id = some value ↔ id ∈ names.values ∧ Readable m (entries id) value

namespace Scope

theorem loaded_verdict (s : Scope V) (m : Marshaller V) (session : SessionId) :
    Verdict m s.stored s.entries (s.loaded m session) := by
  refine ⟨fun hn => ?_, fun names hs => ⟨fun h => ?_, fun ⟨hn, hr⟩ => ?_⟩, fun names b hs hl => ?_,
    fun b hl => ?_, fun names b hs hl id value => ?_⟩
  · simp only [loaded, hn]
  · obtain ⟨b, hl⟩ := Option.isSome_iff_exists.mp h
    have hh := healthy_of_loaded hs hl
    exact ⟨hh.distinct, hh.readable⟩
  · obtain ⟨b, hl, -⟩ := Healthy.loaded ⟨hr, hn⟩ hs session
    exact Option.isSome_iff_exists.mpr ⟨b, hl⟩
  · rw [loaded_names hl, hs, Option.getD_some]
  · exact (World.tidy_of_loaded hl).unique
  · have htidy := World.tidy_of_loaded hl
    obtain ⟨b', hl', rfl, -, hread⟩ := (healthy_of_loaded hs hl).loaded hs session
    cases hl.symm.trans hl'
    constructor
    · intro hv
      exact ⟨(htidy.bound id).mp (mem_keys_of_lookup hv), hread _ (mem_of_lookup hv)⟩
    · rintro ⟨hm, hr⟩
      obtain ⟨⟨k, value'⟩, he, rfl⟩ := List.mem_map.mp ((htidy.bound id).mpr hm)
      rw [hr.unique (hread _ he)]
      exact lookup_of_mem htidy.unique he

def settled (s : Scope V) (m : Marshaller V) (session : SessionId) (repair : Bool) : Scope V :=
  if repair ∧ s.loaded m session = none then s.purged else s

end Scope

namespace Session

/-- Without failing calls a load answers by its verdict. -/
theorem load_settles (draw : Nat → AttributeId) (session : SessionId) (repair : Bool) {s : Scope V}
    (ho : s.isOpen = true) :
    (load session repair).run.Secures ((Terms.plain draw).rule m session)
      (fun r s' => r = .ok (s.loaded m session) ∧ s' = s.settled m session repair) s := by
  rw [Attempt.secures_run]
  refine load_secures trivial (fun _ => trivial) (fun hc => ?_) False.elim (fun b hb => ?_)
    fun hn => ?_
  · cases ho.symm.trans hc
  · exact ⟨congrArg Except.ok hb.symm, by simp [Scope.settled, hb]⟩
  · have hanswer : (Except.ok none : Except SessionError (Option (Bundle V))) =
        .ok (s.loaded m session) := congrArg Except.ok hn.symm
    cases repair with
    | false => exact ⟨hanswer, by simp [Scope.settled]⟩
    | true => exact delete_secures draw .purge ho ⟨hanswer, by simp [Scope.settled, hn]⟩

end Session

namespace World

variable {w w' : World V σ} {env : Surroundings V σ}

structure Unchanged (w w' : World V σ) : Prop where
  metadata : w'.metadata.store.find? = w.metadata.store.find?
  names : w'.names.store.find? = w.names.store.find?
  attributes : w'.attributes.store.find? = w.attributes.store.find?

/-- The names of a session are gone, and the entries that they referred to. All else is as
before. -/
structure Purged (session : SessionId) (names : Names) (w w' : World V σ) : Prop where
  metadata : w'.metadata.store.find? = w.metadata.store.find?
  stored : w'.names.store.find? = Function.update w.names.store.find? session none
  attributes : ∀ key, w'.attributes.store.find? key =
    if key.session = session ∧ key.id ∈ names.values then none else w.attributes.store.find? key

theorem unchanged_of_plain (h : w'.plain = w.plain) : w.Unchanged w' :=
  ⟨congrArg PlainWorld.metadata h, congrArg PlainWorld.names h, congrArg PlainWorld.attributes h⟩

theorem purged_of_plain {names : Names} (hn : w.names.store.find? session = some names)
    {factory : Nat} (h : w'.plain = w.plain.withScope session ⟨factory, none⟩
      (w.plain.scope session ⟨factory, none⟩).purged) : Purged session names w w' := by
  have hstored : (w.plain.scope session ⟨factory, none⟩).stored = some names := hn
  rw [Scope.purged_stored hstored] at h
  refine ⟨congrArg PlainWorld.metadata h, congrArg PlainWorld.names h, fun key => ?_⟩
  refine (congrFun (congrArg PlainWorld.attributes h) key).trans ?_
  simp only [PlainWorld.withScope, PlainWorld.scope]
  obtain ⟨owner, id⟩ := key
  by_cases ho : owner = session
  · subst ho
    simp [plain]
  · simp [ho, plain]

theorem isOpen_of_factories (h : w'.plain.factories = w.plain.factories) {factory : Nat}
    (ho : (w.factory? factory).map Factory.isOpen = some true) :
    (w'.factory? factory).map Factory.isOpen = some true := by
  have hopen : (w.plain.scope "" ⟨factory, none⟩).isOpen = true :=
    (isOpen_scope factory none).mpr ho
  have hsame : (w'.plain.scope "" ⟨factory, none⟩).isOpen =
      (w.plain.scope "" ⟨factory, none⟩).isOpen := by simp only [PlainWorld.scope, h]
  exact (isOpen_scope factory none).mp (hsame.trans hopen)

theorem load_plain (hc : env.Calm m) (hr : env.Reliable) (hs : w.Sound) {factory : Nat}
    (ho : (w.factory? factory).map Factory.isOpen = some true) (session : SessionId)
    (repair : Bool) :
    let r := w.carryOut env ⟨factory, none⟩ (Session.load session repair).run
    let s := w.plain.scope session ⟨factory, none⟩
    r.2.Sound ∧ r.1 = .ok (s.loaded m session) ∧
      r.2.plain = w.plain.withScope session ⟨factory, none⟩ (s.settled m session repair) := by
  have hopen : (w.plain.scope session ⟨factory, none⟩).isOpen = true :=
    (isOpen_scope factory none).mpr ho
  have hrun := Session.load_settles (m := m) env.draw session repair hopen
  obtain ⟨hs', s, -, hp, ha, rfl⟩ := carryOut_secures hc (.inr hr) hs
    (Session.load_on session repair) nofun hrun trivial fun _ => rfl
  exact ⟨hs', ha, hp⟩

theorem load_unstored (hc : env.Calm m) (hr : env.Reliable) (hs : w.Sound) {factory : Nat}
    (ho : (w.factory? factory).map Factory.isOpen = some true)
    (hn : w.names.store.find? session = none) (repair : Bool) :
    (w.carryOut env ⟨factory, none⟩ (Session.load session repair).run).1 =
      .ok (some Bundle.empty) := by
  obtain ⟨-, ha, -⟩ := load_plain hc hr hs ho session repair
  rw [ha, (Scope.loaded_verdict _ m session).absent hn]

/-- A load that repairs changes no value if it finds a bundle. Otherwise it takes away the names and
what they refer to. -/
theorem find_settles (hc : env.Calm m) (hr : env.Reliable) (hs : w.Sound) {factory : Nat}
    (ho : (w.factory? factory).map Factory.isOpen = some true) (session : SessionId) :
    let found := w.carryOut env ⟨factory, none⟩ (Session.find session).run
    let answer := (w.plain.scope session ⟨factory, none⟩).loaded m session
    found.1 = .ok answer ∧ found.2.Sound ∧ found.2.plain.factories = w.plain.factories ∧
      (answer.isSome → w.Unchanged found.2) ∧
      (answer = none → ∃ names, w.names.store.find? session = some names ∧
        Purged session names w found.2) := by
  intro found answer
  obtain ⟨hsound, hfound, hplain⟩ := load_plain hc hr hs ho session true
  have hfactories : found.2.plain.factories = w.plain.factories :=
    (congrArg PlainWorld.factories hplain).trans rfl
  refine ⟨hfound, hsound, hfactories, fun hsome => unchanged_of_plain (hplain.trans ?_),
    fun hnone => ?_⟩
  · rw [Scope.settled, if_neg fun hn => by simp [answer, hn.2] at hsome, PlainWorld.withScope_scope]
  · have hstored : w.names.store.find? session ≠ none := by
      intro hn
      cases hnone.symm.trans ((Scope.loaded_verdict _ m session).absent hn)
    obtain ⟨names, hnames⟩ := Option.ne_none_iff_exists'.mp hstored
    rw [Scope.settled, if_pos ⟨rfl, hnone⟩] at hplain
    exact ⟨names, hnames, purged_of_plain hnames hplain⟩

/-- Both kinds of load answer by the same verdict. The one that does not repair changes no value,
and neither does the other one unless it finds nothing: then it takes away the names and what they
refer to, and the next load of the session finds it empty. -/
theorem load_verdict (hc : env.Calm m) (hr : env.Reliable) (hs : w.Sound) {factory : Nat}
    (ho : (w.factory? factory).map Factory.isOpen = some true) (session : SessionId) :
    let found := w.carryOut env ⟨factory, none⟩ (Session.find session).run
    let peeked := w.carryOut env ⟨factory, none⟩ (Session.peek session).run
    ∃ answer, found.1 = .ok answer ∧ peeked.1 = .ok answer ∧
      Verdict m (w.names.store.find? session)
        (fun id => w.attributes.store.find? ⟨session, id⟩) answer ∧
      w.Unchanged peeked.2 ∧ (answer.isSome → w.Unchanged found.2) ∧
      (answer = none → ∃ names, w.names.store.find? session = some names ∧
        Purged session names w found.2 ∧
        ∀ (env' : Surroundings V σ) (factory' : Nat) (repair : Bool), env'.Calm m →
          env'.Reliable → (w.factory? factory').map Factory.isOpen = some true →
          (found.2.carryOut env' ⟨factory', none⟩ (Session.load session repair).run).1 =
            .ok (some Bundle.empty)) := by
  intro found peeked
  obtain ⟨hfound, hsound, hfactories, hkept, hpurged⟩ := find_settles hc hr hs ho session
  obtain ⟨-, hpeeked, hkeep⟩ := load_plain hc hr hs ho session false
  have hverdict := Scope.loaded_verdict (w.plain.scope session ⟨factory, none⟩) m session
  refine ⟨_, hfound, hpeeked, hverdict, unchanged_of_plain ?_, hkept, fun hnone => ?_⟩
  · refine hkeep.trans ?_
    simp [Scope.settled]
  · obtain ⟨names, hnames, hall⟩ := hpurged hnone
    refine ⟨names, hnames, hall, fun env' factory' repair hc' hr' ho' => ?_⟩
    have hgone : found.2.names.store.find? session = none := by
      rw [hall.stored, Function.update_self]
    exact load_unstored hc' hr' hsound (isOpen_of_factories hfactories ho') hgone repair

/-- Two names that share one identifier: the session is corrupt, and is purged. -/
theorem load_verdict_shared :
    ∃ (w : World Bool Unit) (env : Surroundings Bool Unit) (names : Names),
      env.Calm .bits ∧ env.Reliable ∧ w.Sound ∧
        (w.factory? 0).map Factory.isOpen = some true ∧
        w.names.store.find? "s" = some names ∧ ¬ names.values.Nodup ∧
        (w.carryOut env ⟨0, none⟩ (Session.peek "s").run).1 = .ok none ∧
        (w.carryOut env ⟨0, none⟩ (Session.find "s").run).1 = .ok none ∧
        Purged "s" names w (w.carryOut env ⟨0, none⟩ (Session.find "s").run).2 := by
  let env : Surroundings Bool Unit := .quiet .bits AttributeId.ofNat
  let names : Names := (Dict.empty.insert "a" (.ofNat 1)).insert "b" (.ofNat 1)
  let w : World Bool Unit := { single Bool with
    names := ⟨((single Bool).names.store.put "s" names .silent).store, Listeners.empty⟩ }
  have hs₀ := single_sound Bool
  obtain ⟨-, hput, hsound⟩ := hs₀.names.put "s" names .silent
  have hs : w.Sound := ⟨hs₀.metadata, hsound, hs₀.attributes⟩
  have hn : w.names.store.find? "s" = some names := by
    rw [hput, Function.update_self]
  have hc : env.Calm .bits := Surroundings.quiet_calm _ _
  have hr : env.Reliable := Surroundings.quiet_reliable _ _
  have ho : (w.factory? 0).map Factory.isOpen = some true := rfl
  have hshared : ¬ names.values.Nodup := by decide
  obtain ⟨answer, hfound, hpeeked, hverdict, -, -, hnone⟩ := load_verdict hc hr hs ho "s"
  have hcorrupt : answer = none := by
    rw [← Option.not_isSome_iff_eq_none, hverdict.present names hn]
    exact fun h => hshared h.1
  subst hcorrupt
  obtain ⟨names', hn', hpurged, -⟩ := hnone rfl
  cases hn.symm.trans hn'
  exact ⟨w, env, names, hc, hr, hs, ho, hn, hshared, hpeeked, hfound, hpurged⟩

end World
end SessionAttributes
