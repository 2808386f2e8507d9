import SessionAttributes.Proofs.World.Slices

namespace SessionAttributes

variable {V σ : Type}

variable [BEq V] {m : Marshaller V}

/-- A history of operations. Passive steps are made in between. -/
inductive Log (m : Marshaller V) (env : Surroundings V σ) (w₀ : World V σ) :
    List (Entry V) → World V σ → Prop
  | start : Log m env w₀ [] w₀
  | passive {log : List (Entry V)} {w w' : World V σ} (h : Log m env w₀ log w)
      (hp : World.Passive m w w') : Log m env w₀ log w'
  | operate {log : List (Entry V)} {w w' : World V σ} {op : Operation V} {answer : op.Answer}
      (h : Log m env w₀ log w) (hr : w.Runs m env op answer w') :
      Log m env w₀ (log ++ [⟨op, answer, drawnBetween env.draw w.drawn w'.drawn⟩]) w'

namespace Log

/-- A history is the one of the plain world. -/
theorem plays {env : Surroundings V σ} {w₀ w : World V σ} {log : List (Entry V)}
    (h : Log m env w₀ log w) (hc : env.Calm m) (hr : env.Reliable) (hs : w₀.Sound) :
    w.Sound ∧ (log, w.plain.hush) = w₀.plain.hush.play m env.draw (log.map Entry.op) := by
  induction h with
  | start => exact ⟨hs, rfl⟩
  | passive _ hp ih =>
    obtain ⟨hs', he⟩ := ih
    obtain ⟨hs'', hk⟩ := hp.keeps hs'
    exact ⟨hs'', hk ▸ he⟩
  | @operate log w w' op answer _ hrun ih =>
    obtain ⟨hs', he⟩ := ih
    obtain ⟨hs'', he'⟩ := hrun.plain hc hr hs'
    refine ⟨hs'', ?_⟩
    have henter : w.plain.hush.enter m env.draw op =
        (⟨op, answer, drawnBetween env.draw w.drawn w'.drawn⟩, w'.plain.hush) := by
      unfold PlainWorld.enter
      rw [← he']
      rfl
    rw [List.map_append, List.map_cons, List.map_nil, PlainWorld.play_append, ← he]
    simp only [henter]

end Log

omit [BEq V] in
/-- A procedure can be carried out without a passive step. -/
theorem World.Carried.run {env : Surroundings V σ} {actor : World.Actor} {α : Type}
    (q : Procedure V α) (w : World V σ) :
    Carried m env actor q w (w.carryOut env actor q).1 (w.carryOut env actor q).2 := by
  induction q generalizing w with
  | done a => exact .done a w
  | act action next ih => exact .act (ih _ _)

/-- Every operation has an end. -/
theorem World.Runs.total (m : Marshaller V) (env : Surroundings V σ) (w : World V σ)
    (op : Operation V) : ∃ answer w', w.Runs m env op answer w' := by
  cases op with
  | load => exact ⟨_, _, .run _ w⟩
  | delete => exact ⟨_, _, .run _ w⟩
  | closeFactory => exact ⟨(), _, rfl⟩
  | closeView => exact ⟨(), _, rfl⟩
  | view view call =>
    cases hl : w.view? view with
    | none =>
      refine ⟨none, w, ?_⟩
      simp only [Runs, hl]
      exact ⟨rfl, trivial⟩
    | some live =>
      let r := w.carryOut env ⟨live.factory, some view⟩ (call.procedure live.view)
      refine ⟨some r.1, r.2, ?_⟩
      simp only [Runs, hl]
      exact ⟨r.1, rfl, .run _ w⟩
  | _ => exact ⟨_, _, rfl⟩

/-- A history goes on with whatever is asked next. -/
theorem Log.extends {env : Surroundings V σ} {w₀ w : World V σ} {log : List (Entry V)}
    (h : Log m env w₀ log w) (ops : List (Operation V)) :
    ∃ later w', Log m env w₀ (log ++ later) w' ∧ later.map Entry.op = ops := by
  induction ops generalizing log w with
  | nil => exact ⟨[], w, by rwa [List.append_nil], rfl⟩
  | cons op rest ih =>
    obtain ⟨answer, w', hr⟩ := World.Runs.total m env w op
    obtain ⟨later, w'', hlater, hops⟩ := ih (h.operate hr)
    rw [List.append_assoc] at hlater
    exact ⟨_, w'', hlater, congrArg (op :: ·) hops⟩

/-- Of a history on many sessions, what is left when all but one of them are left out goes on alike
by itself, in whatever stores: every operation on the session is answered alike, and every key of
the session has the same value in the end, if the session is given the same identifiers. -/
theorem sessions_isolated {σ₁ σ₂ : Type} {env₁ : Surroundings V σ₁} {env₂ : Surroundings V σ₂}
    (hc₁ : env₁.Calm m) (hr₁ : env₁.Reliable) (hc₂ : env₂.Calm m) (hr₂ : env₂.Reliable)
    {metadata₁ names₁ attributes₁ metadata₂ names₂ attributes₂ : StoreOptions} {scene₁ : σ₁}
    {scene₂ : σ₂} {v₁ w₁ : World V σ₁} {v₂ w₂ : World V σ₂}
    (ho₁ : World.openWith metadata₁ names₁ attributes₁ scene₁ = .ok v₁)
    (ho₂ : World.openWith metadata₂ names₂ attributes₂ scene₂ = .ok v₂)
    {log₁ log₂ : List (Entry V)} (h₁ : Log m env₁ v₁ log₁ w₁) (h₂ : Log m env₂ v₂ log₂ w₂)
    {session : SessionId}
    (hops : log₂.map Entry.op = (Entry.narrowedFrom session [] log₁).map Entry.op)
    {ids : List AttributeId}
    (hids₁ : (Entry.narrowedFrom session [] log₁).flatMap Entry.ids <+: ids)
    (hids₂ : log₂.flatMap Entry.ids <+: ids) :
    log₂ = Entry.narrowedFrom session [] log₁ ∧
      w₂.metadata.store.find? session = w₁.metadata.store.find? session ∧
      w₂.names.store.find? session = w₁.names.store.find? session ∧
      ∀ id, w₂.attributes.store.find? ⟨session, id⟩ = w₁.attributes.store.find? ⟨session, id⟩ := by
  obtain ⟨hs₁, hp₁⟩ := World.openWith_plain ho₁
  obtain ⟨hs₂, hp₂⟩ := World.openWith_plain ho₂
  obtain ⟨-, he₁⟩ := h₁.plays hc₁ hr₁ hs₁
  obtain ⟨-, he₂⟩ := h₂.plays hc₂ hr₂ hs₂
  rw [hp₁] at he₁
  rw [hp₂, hops] at he₂
  obtain ⟨hlog₁, hend₁⟩ := Prod.mk.inj he₁
  obtain ⟨hlog₂, hend₂⟩ := Prod.mk.inj he₂
  have hstart : PlainWorld.Slices session (PlainWorld.start : PlainWorld V).hush
      (PlainWorld.start : PlainWorld V).hush := ⟨rfl, rfl, fun _ => rfl, rfl, rfl⟩
  have hkept := congrArg (Entry.narrowedFrom session []) hlog₁
  rw [hkept] at hids₁ hlog₂ hend₂ ⊢
  obtain ⟨hlog, hs⟩ := hstart.play (log₁.map Entry.op) hids₁ (hlog₂ ▸ hids₂)
  have hends : PlainWorld.Slices session w₁.plain.hush w₂.plain.hush := by
    rw [hend₁, hend₂]
    exact hs
  exact ⟨hlog₂.trans hlog, hends.metadata, hends.names, hends.attributes⟩

/-- Two sessions whose attributes are given the same identifier, in stores that keep one entry in
primary memory. -/
theorem sessions_isolated_shared :
    let env : Surroundings Bool Unit := .quiet .bits fun _ => .ofNat 7
    let ops : List (Operation Bool) := [
      .openFactory {} Immutability.never "" true,
      .openView 0 "t" Bundle.empty ⟨0, 0, 0⟩ "", .view 0 (.set "a" true),
      .openView 0 "s" Bundle.empty ⟨0, 0, 0⟩ "", .view 1 (.set "a" false), .load 0 "s" false]
    ∃ (v₁ v₂ w₁ w₂ : World Bool Unit) (log₁ log₂ : List (Entry Bool)),
      World.openWith { capacity := some 1 } { capacity := some 1 } { capacity := some 1 } () =
        .ok v₁ ∧
      World.openWith {} {} {} () = .ok v₂ ∧
      Log .bits env v₁ log₁ w₁ ∧ log₁.map Entry.op = ops ∧ Log .bits env v₂ log₂ w₂ ∧
      log₂ = Entry.narrowedFrom "s" [] log₁ ∧ log₂.length = 4 ∧
      w₂.attributes.store.find? ⟨"s", .ofNat 7⟩ = w₁.attributes.store.find? ⟨"s", .ofNat 7⟩ ∧
      (w₁.attributes.store.find? ⟨"s", .ofNat 7⟩).isSome ∧
      (w₁.attributes.store.find? ⟨"t", .ofNat 7⟩).isSome := by
  intro env ops
  have hc : env.Calm .bits := Surroundings.quiet_calm _ _
  have hr : env.Reliable := Surroundings.quiet_reliable _ _
  obtain ⟨v₁, ho₁⟩ : ∃ v : World Bool Unit, World.openWith { capacity := some 1 }
    { capacity := some 1 } { capacity := some 1 } () = .ok v := ⟨_, rfl⟩
  obtain ⟨v₂, ho₂⟩ : ∃ v : World Bool Unit, World.openWith {} {} {} () = .ok v := ⟨_, rfl⟩
  obtain ⟨log₁, w₁, h₁, hops₁⟩ := (Log.start : Log .bits env v₁ [] v₁).extends ops
  obtain ⟨log₂, w₂, h₂, hops₂⟩ := (Log.start : Log .bits env v₂ [] v₂).extends
    ((Entry.narrowedFrom "s" [] log₁).map Entry.op)
  obtain ⟨hs₁, hp₁⟩ := World.openWith_plain ho₁
  obtain ⟨hs₂, hp₂⟩ := World.openWith_plain ho₂
  rw [List.nil_append] at h₁ h₂
  obtain ⟨-, he₁⟩ := h₁.plays hc hr hs₁
  obtain ⟨-, he₂⟩ := h₂.plays hc hr hs₂
  rw [hp₁, hops₁] at he₁
  rw [hp₂, hops₂] at he₂
  obtain ⟨hlog₁, hend₁⟩ := Prod.mk.inj he₁
  obtain ⟨hlog₂, hend₂⟩ := Prod.mk.inj he₂
  have hids₁ : (Entry.narrowedFrom "s" [] log₁).flatMap Entry.ids = [.ofNat 7] := by
    rw [hlog₁]
    decide +kernel
  have hids₂ : log₂.flatMap Entry.ids = [.ofNat 7] := by
    rw [hlog₂, hlog₁]
    decide +kernel
  have hwithin : ∀ {ids : List AttributeId}, ids = [.ofNat 7] → ids <+: [.ofNat 7] :=
    fun h => h ▸ List.prefix_rfl
  obtain ⟨hlog, -, -, hentries⟩ := sessions_isolated hc hr hc hr ho₁ ho₂ h₁ h₂ hops₂
    (hwithin hids₁) (hwithin hids₂)
  have hstored : ∀ key, w₁.attributes.store.find? key =
      ((PlainWorld.start : PlainWorld Bool).hush.play .bits env.draw ops).2.attributes key :=
    congrFun (congrArg PlainWorld.attributes hend₁)
  refine ⟨v₁, v₂, w₁, w₂, log₁, log₂, ho₁, ho₂, h₁, hops₁, h₂, hlog, ?_, hentries _, ?_, ?_⟩
  · rw [hlog, hlog₁]
    decide +kernel
  · rw [hstored]
    decide +kernel
  · rw [hstored]
    decide +kernel

end SessionAttributes
