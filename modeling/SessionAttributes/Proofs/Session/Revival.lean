import SessionAttributes.Proofs.Session.LastWrite

namespace SessionAttributes

variable {V σ : Type}

/-- A deletion that does not fail leaves no names, whichever of its calls might have failed. -/
theorem World.delete_leaves {m : Marshaller V} {session : SessionId} {w w' : World V σ}
    {env : Surroundings V σ} (hc : env.Calm m) (hs : w.Sound) {factory : Nat} {deletion : Deletion}
    {answer : Bool} (hd : w.carryOut env ⟨factory, none⟩ (Session.delete session deletion).run =
      (.ok answer, w')) :
    w'.Sound ∧ w.drawn ≤ w'.drawn ∧ ∃ s : Scope V,
      w'.plain = w.plain.withScope session ⟨factory, none⟩ s ∧ s.stored = none := by
  have hdrawn := drawn_carryOut hc hs ⟨factory, none⟩ (Session.delete session deletion).run
  obtain ⟨hs', s, -, hp, hend⟩ := carryOut_secures hc (.inl trivial) hs
    (Session.delete_on session deletion) nofun (Session.delete_takes deletion _) (.inr rfl)
    fun _ => trivial
  rw [hd] at hs' hp hdrawn hend
  exact ⟨hs', hdrawn, s, hp, hend⟩

namespace Writes

variable [BEq V] {m : Marshaller V} {session : SessionId} {x : Supply} {never : Prop}
  {c₁ c : Chronicle V σ}

/-- A session is deleted, whatever its views have done before. If they go on by starting from what
is stored, then the stored names refer to entries all the time, and every load finds the names that
were written last since. -/
theorem revives {w₀ w₁ : World V σ} (hs : w₀.Sound)
    (hstart : ∀ names, w₀.names.store.find? session = some names → names.values.Nodup ∧
      ∀ id ∈ names.values, ∀ k, w₀.drawn ≤ k → k < x.limit → x.draw k ≠ id)
    (h₁ : Writes m session x False (fun _ _ _ => True) ⟨w₀, [], [], fun _ => none⟩ c₁)
    {env : Surroundings V σ} (hc : env.Calm m) {factory : Nat} {deletion : Deletion} {answer : Bool}
    (hd : c₁.world.carryOut env ⟨factory, none⟩ (Session.delete session deletion).run =
      (.ok answer, w₁))
    (h : Writes m session x never ViewCall.Founded ⟨w₁, c₁.views, [], fun _ => none⟩ c) :
    (∀ names, c.world.names.store.find? session = some names → ∀ id ∈ names.values,
      (c.world.attributes.store.find? ⟨session, id⟩).isSome) ∧
    ∀ (env : Surroundings V σ) (factory : Nat) (repair : Bool), env.Calm m → env.Reliable →
      (c.world.factory? factory).map Factory.isOpen = some true →
      ∃ b, (c.world.carryOut env ⟨factory, none⟩ (Session.load session repair).run).1 =
          .ok (some b) ∧
        (∀ name, (b.get? name).isSome = (c.latest name).isSome) ∧ (never → b.Follows c.latest) := by
  obtain ⟨hs₁, owner, hfiled₁⟩ := h₁.filed hs (PlainWorld.Filed.start hstart)
  obtain ⟨hs₁, hdrawn, s, hp, hnone⟩ := World.delete_leaves hc hs₁ hd
  have hfiled : w₁.plain.Filed session x owner c₁.views [] := by
    have hle : c₁.world.plain.drawn ≤ s.drawn :=
      hdrawn.trans (Nat.le_of_eq (congrArg PlainWorld.drawn hp))
    rw [hp]
    exact (hfiled₁.cleared (.inl hnone) hle).forget
  have htold : w₁.plain.Tells m session never False (fun _ => none) c₁.views [] := by
    have hnames : w₁.plain.names session = none := by
      rw [hp, PlainWorld.names_withScope, hnone]
    have hempty : ∀ actor, (w₁.plain.scope session actor).listed = Dict.empty :=
      fun _ => congrArg (Option.getD · Dict.empty) hnames
    refine ⟨fun actor => ⟨fun _ => rfl, fun hb => ?_, False.elim⟩, False.elim⟩
    rw [hempty] at hb
    cases hb
  obtain ⟨hs', owner', hf⟩ := h.filed hs₁ ⟨owner, hfiled⟩
  have htells := h.tells hs₁ ⟨owner, hfiled⟩ (fun hf _ => ⟨hf, False.elim⟩) htold
  refine ⟨fun names hn id hid => ?_, fun env factory repair hc hr hopen => ?_⟩
  · refine (htells.scope ⟨0, none⟩).present ?_
    rw [Scope.listed_of_names ⟨0, none⟩ hn]
    exact hid
  · obtain ⟨b, hb, hfound⟩ := htells.loaded hf ⟨factory, none⟩
    obtain ⟨-, -, -, hanswer⟩ := World.load_found hc hs' factory repair hb
    exact ⟨b, hanswer hr ((World.isOpen_scope factory none).mpr hopen), hfound⟩

/-- A session with one attribute is deleted. A view that never held it writes first, and then the
view that still does. -/
theorem revives_beside :
    ∃ (c₁ c : Chronicle Bool Unit) (w₁ : World Bool Unit),
      Writes .bits "s" .counting False (fun _ _ _ => True)
        ⟨World.single Bool, [], [], fun _ => none⟩ c₁ ∧ c₁.latest "a" = some true ∧
      c₁.world.carryOut (.quiet .bits AttributeId.ofNat) ⟨0, none⟩
        (Session.delete "s" .remove).run = (.ok true, w₁) ∧
      Writes .bits "s" .counting True ViewCall.Founded ⟨w₁, c₁.views, [], fun _ => none⟩ c ∧
      c.latest "b" = some false ∧
      ∃ b, (c.world.carryOut (.quiet .bits AttributeId.ofNat) ⟨0, none⟩
        (Session.load "s" true).run).1 = .ok (some b) ∧ b.Follows c.latest := by
  let env : Surroundings Bool Unit := .quiet .bits AttributeId.ofNat
  have hc : env.Calm .bits := Surroundings.quiet_calm _ _
  have hr : env.Reliable := Surroundings.quiet_reliable _ _
  let c₀ : Chronicle Bool Unit := ⟨World.paired, [1, 0], [], fun _ => none⟩
  let turns : List (Nat × ViewCall Bool) := [(1, .set "b" true), (0, .set "b" false)]
  have hfollows₁ : c₀.Follows env "s" .counting False (fun _ _ _ => True)
      [(0, .set "a" true)] := by decide +kernel
  have h₁ := (paired False fun _ _ _ => True).follow hc hr rfl bits_faithful hfollows₁
  let c₁ := [(0, .set "a" true)].foldl (Chronicle.turn env) c₀
  let r := c₁.world.carryOut env ⟨0, none⟩ (Session.delete "s" .remove).run
  have hok : r.1 = .ok true := by decide +kernel
  have hd : r = (.ok true, r.2) := hok ▸ (Prod.mk.eta (p := r)).symm
  have hfollows : Chronicle.Follows env "s" .counting True ViewCall.Founded
      ⟨r.2, c₁.views, [], fun _ => none⟩ turns := by decide +kernel
  have h := Writes.start.follow hc hr rfl bits_faithful hfollows
  have hnames : (World.single Bool).names.store.find? "s" = none :=
    congrFun (congrArg PlainWorld.names (World.single_plain Bool)) "s"
  obtain ⟨-, hload⟩ := revives (World.single_sound Bool)
    (fun _ hn => nomatch hnames.symm.trans hn) h₁ hc hd h
  obtain ⟨b, hb, -, hfound⟩ := hload env 0 true hc hr (by decide +kernel)
  exact ⟨c₁, _, r.2, h₁, by decide +kernel, hd, h, by decide +kernel, b, hb, hfound trivial⟩

/-- The view that still holds an attribute of the deleted session writes first. It stores the name
of that attribute as well, and the next load takes the session for corrupt. -/
theorem revived_dangles :
    ∃ (c₁ c : Chronicle Bool Unit) (w₁ : World Bool Unit),
      Writes .bits "s" .counting True (fun _ _ _ => True)
        ⟨World.single Bool, [], [], fun _ => none⟩ c₁ ∧
      c₁.world.carryOut (.quiet .bits AttributeId.ofNat) ⟨0, none⟩
        (Session.delete "s" .remove).run = (.ok true, w₁) ∧
      Writes .bits "s" .counting True (fun _ _ _ => True)
        ⟨w₁, c₁.views, [], fun _ => none⟩ c ∧ c.latest "b" = some true ∧
      ((c.world.names.store.find? "s").bind (·.get? "a")) = some (AttributeId.ofNat 0) ∧
      c.world.attributes.store.find? ⟨"s", AttributeId.ofNat 0⟩ = none ∧
      (c.world.carryOut (.quiet .bits AttributeId.ofNat) ⟨0, none⟩
        (Session.find "s").run).1.toOption.map Option.isSome = some false := by
  let env : Surroundings Bool Unit := .quiet .bits AttributeId.ofNat
  have hc : env.Calm .bits := Surroundings.quiet_calm _ _
  have hr : env.Reliable := Surroundings.quiet_reliable _ _
  let c₀ : Chronicle Bool Unit := ⟨World.paired, [1, 0], [], fun _ => none⟩
  have hfollows₁ : c₀.Follows env "s" .counting True (fun _ _ _ => True)
      [(0, .set "a" true)] := by decide +kernel
  have h₁ := (paired True fun _ _ _ => True).follow hc hr rfl bits_faithful hfollows₁
  let c₁ := [(0, .set "a" true)].foldl (Chronicle.turn env) c₀
  let r := c₁.world.carryOut env ⟨0, none⟩ (Session.delete "s" .remove).run
  have hok : r.1 = .ok true := by decide +kernel
  have hd : r = (.ok true, r.2) := hok ▸ (Prod.mk.eta (p := r)).symm
  have hfollows : Chronicle.Follows env "s" .counting True (fun _ _ _ => True)
      ⟨r.2, c₁.views, [], fun _ => none⟩ [(0, .set "b" true)] := by decide +kernel
  have h := Writes.start.follow hc hr rfl bits_faithful hfollows
  exact ⟨c₁, _, r.2, h₁, hd, h, by decide +kernel, by decide +kernel, by decide +kernel,
    by decide +kernel⟩

end Writes
end SessionAttributes
