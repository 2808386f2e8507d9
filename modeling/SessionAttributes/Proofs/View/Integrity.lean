import SessionAttributes.Proofs.View.Schedule
import SessionAttributes.Proofs.View.Traffic

namespace SessionAttributes

variable {V σ : Type}

namespace World

variable {w : World V σ} {number : Nat} {live : LiveView V}

section Reading
variable (hl : w.view? number = some live) (env : Surroundings V σ) (factory : Nat)
include hl

/-- What an action that takes the lock reads. -/
theorem lock_reads : (w.perform env ⟨factory, some number⟩ .lock).1 = live.state := by
  change ((w.view? number).map LiveView.state).getD _ = _
  rw [hl]
  rfl

theorem names_answers :
    (w.carryOut env ⟨factory, some number⟩ View.names).1 = live.state.bundle.names.keys :=
  congrArg (fun state => state.bundle.names.keys) (lock_reads hl env factory)

theorem snapshot_answers :
    (w.carryOut env ⟨factory, some number⟩ View.snapshot).1 = live.state.bundle :=
  congrArg ViewState.bundle (lock_reads hl env factory)

theorem get_answers (v : View V) (name : String) :
    (w.carryOut env ⟨factory, some number⟩ (v.get name)).1 = live.state.bundle.get? name := by
  rw [← lock_reads hl env factory]
  unfold carryOut View.get
  simp only [Procedure.ask, Bind.bind, Procedure.bind, Procedure.runWith]
  generalize w.perform env ⟨factory, some number⟩ .lock = r
  obtain ⟨(state : ViewState V), w'⟩ := r
  dsimp only
  cases hb : state.bundle.attributeId? name with
  | none =>
    rw [Bundle.Tidy.get?_none hb]
    rfl
  | some id =>
    cases state.bundle.get? name with
    | none => rfl
    | some value =>
      dsimp only
      split <;> rfl

end Reading

/-- Inside of a call nothing is done under the lock of a view. -/
theorem bystands_enduring (w : World V σ) : Enduring w.Bystands where
  metadata _ h := ⟨h.views, h.drawn⟩
  names _ h := ⟨h.views, h.drawn⟩
  attributes _ h := ⟨h.views, h.drawn⟩
  execute _ _ h := ⟨h.views, h.drawn⟩
  passing _ _ _ h := ⟨h.views, h.drawn⟩

theorem Bystands.scene {w₀ w w' : World V σ} (h : w₀.Bystands w)
    (hs : ∃ scene, w' = { w with scene }) : w₀.Bystands w' := by
  obtain ⟨scene, rfl⟩ := hs
  exact ⟨h.views, h.drawn⟩

/-- Only the callbacks of a view end when it is closed. -/
theorem closeView_bystands (w : World V σ) (number : Nat) : w.Bystands (w.closeView number) := by
  refine ⟨?_, Nat.le_refl _⟩
  apply List.ext_getElem?
  intro k
  have hview := w.view?_changeView number k fun v =>
    { v with notifier := v.notifier.map fun n => { n with isClosed := true } }
  unfold view? at hview
  rw [List.getElem?_map, List.getElem?_map]
  unfold closeView
  rw [hview]
  split
  · rw [Option.map_map]
    rfl
  · rfl

section Performing
variable {env : Surroundings V σ} (he : ∀ w : World V σ, env.Observes w.Bystands)
include he

/-- Whatever takes no lock leaves the views alone. -/
theorem perform_bystands (actor : Actor) {session : SessionId} {action : Action V}
    (ha : action.On session false) : w.Bystands (w.perform env actor action).2 := by
  have hI := bystands_enduring w
  have hw := Bystands.refl w
  cases action with
  | isOpen => exact hw
  | encode value => exact (he w).encode value w hw
  | decode bytes => exact (he w).decode bytes w hw
  | names call => exact hI.callNames (he w) call hw
  | attributes call => exact hI.callAttributes (he w) call hw
  | draw => exact ⟨rfl, Nat.le_succ _⟩
  | lock => cases ha
  | unlock state => cases ha
  | record measure => exact ⟨rfl, Nat.le_refl _⟩
  | notify direction value =>
    obtain ⟨factory, view⟩ := actor
    cases view with
    | none => exact hw
    | some number => exact hI.notifyView (he w) number direction value hw

theorem carryOut_bystands {α : Type} (actor : Actor) {session : SessionId} {q : Procedure V α}
    (hq : q.Asks (Action.On session false)) : w.Bystands (w.carryOut env actor q).2 := by
  induction q generalizing w with
  | done result => exact .refl w
  | act action next ih => exact (perform_bystands he actor hq.1).trans (ih _ (hq.2 _))

end Performing

/-- Whether an action of a view may be carried out: the lock is free that it takes, and an identifier
is left that it draws. -/
def Ready (ids : Supply) (w : World V σ) (number : Nat) : Action V → Prop
  | .lock => (w.view? number).map LiveView.locked = some false
  | .draw => w.drawn < ids.limit
  | _ => True

instance (ids : Supply) (w : World V σ) (number : Nat) (action : Action V) :
    Decidable (w.Ready ids number action) :=
  match action with
  | .lock => inferInstanceAs (Decidable ((w.view? number).map LiveView.locked = some false))
  | .draw => inferInstanceAs (Decidable (w.drawn < ids.limit))
  | .isOpen | .encode _ | .decode _ | .names _ | .attributes _ | .unlock _ | .record _
  | .notify _ _ => isTrue trivial

/-- In surroundings that leave the views alone an action comes out as described. -/
theorem perform_responds {ids : Supply} {env : Surroundings V σ}
    (he : ∀ w : World V σ, env.Observes w.Bystands) (hd : env.draw = ids.draw) (factory : Nat)
    {action : Action V} (hr : w.Ready ids number action) :
    w.Responds ids number action (w.perform env ⟨factory, some number⟩ action).1
      (w.perform env ⟨factory, some number⟩ action).2 := by
  let r := w.perform env ⟨factory, some number⟩ action
  have haside : action.Aside → w.Bystands r.2 → w.Responds ids number action r.1 r.2 :=
    fun ha h => .aside ha _ h
  have hperform : action.On ("" : SessionId) false → w.Bystands r.2 := perform_bystands he _
  cases action with
  | lock =>
    obtain ⟨live, hl, hfree⟩ := Option.map_eq_some_iff.mp hr
    rw [lock_reads hl env factory]
    exact .lock hl hfree
  | unlock state => exact .unlock state
  | draw =>
    have hdrawn : r.1 = ids.draw w.drawn := congrFun hd w.drawn
    change w.Responds ids number .draw r.1 _
    rw [hdrawn]
    exact .draw hr
  | names call =>
    exact haside trivial ((bystands_enduring w).callNames (he w) call (.refl w))
  | attributes call =>
    exact haside trivial ((bystands_enduring w).callAttributes (he w) call (.refl w))
  | _ => exact haside trivial (hperform trivial)

end World

/-- Surroundings that keep to themselves leave the views alone. -/
theorem Surroundings.Aloof.bystands {env : Surroundings V σ} (he : env.Aloof) (w : World V σ) :
    env.Observes w.Bystands := he.mono fun hs h => h.scene hs

namespace Traffic

variable [BEq V] {ids : Supply} {c : Traffic V σ}

section Schedule
variable {env : Surroundings V σ} {i : Nat}

/-- A session is deleted by the way, or removed or purged as far as the stores let it. -/
theorem Flows.delete (h : Flows ids c) (he : ∀ w : World V σ, env.Observes w.Bystands)
    (actor : World.Actor) (session : SessionId) (deletion : Deletion) :
    Flows ids { c with
      world := (c.world.carryOut env actor (Session.delete session deletion).run).2 } :=
  h.meanwhile (World.carryOut_bystands he actor (Session.delete_on session deletion))

theorem Flows.closeView (h : Flows ids c) (number : Nat) :
    Flows ids { c with world := c.world.closeView number } :=
  h.meanwhile (c.world.closeView_bystands number)

def advance (env : Surroundings V σ) (c : Traffic V σ) (i : Nat) : Traffic V σ :=
  match c.calls[i]? with
  | some ⟨view, factory, call, .act action next⟩ =>
    let r := c.world.perform env ⟨factory, some view⟩ action
    { c with world := r.2, calls := c.calls.set i ⟨view, factory, call, next r.1⟩ }
  | _ => c

def Goes (ids : Supply) (c : Traffic V σ) (i : Nat) : Prop :=
  match c.calls[i]? with
  | some ⟨view, _, _, .act action _⟩ => c.world.Ready ids view action
  | _ => True

instance (ids : Supply) (c : Traffic V σ) (i : Nat) : Decidable (c.Goes ids i) :=
  match h : c.calls[i]? with
  | none => isTrue (by simp only [Goes, h])
  | some ⟨_, _, _, .done _⟩ => isTrue (by simp only [Goes, h])
  | some ⟨view, _, _, .act action _⟩ =>
    decidable_of_iff (c.world.Ready ids view action) (by simp only [Goes, h])

def Follows (env : Surroundings V σ) (ids : Supply) : List Nat → Traffic V σ → Prop
  | [], _ => True
  | i :: order, c => c.Goes ids i ∧ Follows env ids order (c.advance env i)

instance decidableFollows (env : Surroundings V σ) (ids : Supply) :
    (order : List Nat) → (c : Traffic V σ) → Decidable (Follows env ids order c)
  | [], _ => isTrue trivial
  | i :: order, c =>
    have := decidableFollows env ids order (c.advance env i)
    inferInstanceAs (Decidable (c.Goes ids i ∧ Follows env ids order (c.advance env i)))

theorem Flows.advance (h : Flows ids c) (he : ∀ w : World V σ, env.Observes w.Bystands)
    (hd : env.draw = ids.draw) (hg : c.Goes ids i) : Flows ids (c.advance env i) := by
  unfold Traffic.advance
  cases hq : c.calls[i]? with
  | none => exact h
  | some q =>
    obtain ⟨view, factory, call, rest⟩ := q
    cases rest with
    | done result => exact h
    | act action next =>
      unfold Goes at hg
      rw [hq] at hg
      exact h.act hq (World.perform_responds he hd factory hg)

theorem Flows.follow (h : Flows ids c) (he : ∀ w : World V σ, env.Observes w.Bystands)
    (hd : env.draw = ids.draw) {order : List Nat} (ho : Follows env ids order c) :
    Flows ids (order.foldl (Traffic.advance env) c) := by
  induction order generalizing c with
  | nil => exact h
  | cons i order ih => exact ih (h.advance he hd ho.1) ho.2

end Schedule

/-- In every run what a view holds is sound: no two of its names share an attribute, exactly the
attributes that stand under its names have values, and only such are marked as announced. So while
nobody holds its lock, it has a value for exactly the names that it lists, and it counts as many
values as names. -/
theorem Flows.bundles_intact (h : Flows ids c) {number : Nat} {live : LiveView V}
    (hl : c.world.view? number = some live) :
    live.state.bundle.names.Injective ∧ (keysOf live.state.bundle.values).Nodup ∧
      (∀ id, id ∈ keysOf live.state.bundle.values ↔ id ∈ live.state.bundle.names.values) ∧
      (∀ id ∈ live.state.activated, id ∈ live.state.bundle.names.values) ∧
      (live.locked = false → ∀ (env : Surroundings V σ) (factory : Nat),
        let actor : World.Actor := ⟨factory, some number⟩
        let shown := (c.world.carryOut env actor View.snapshot).1
        (∀ name, (c.world.carryOut env actor (live.view.get name)).1.isSome = true ↔
          name ∈ (c.world.carryOut env actor View.names).1) ∧ shown.valueCount = shown.size) := by
  obtain ⟨grips, horderly⟩ := h.orderly
  obtain ⟨⟨htidy, hmarked⟩, -⟩ := horderly.views hl
  refine ⟨htidy.distinct, htidy.unique, htidy.bound, hmarked, fun _ env factory => ⟨fun name => ?_, ?_⟩⟩
  · rw [World.get_answers hl, World.names_answers hl]
    exact htidy.mem_keys name
  · rw [World.snapshot_answers hl]
    exact htidy.valueCount_eq

/-- A view that was opened over nothing, with two writes of a new name on their way. -/
def crossing : Traffic Bool (List (Line Bool)) :=
  let world := World.lender.opened (World.lender.openView 0 "s" Bundle.empty ⟨0, 0, 0⟩ "request")
  let begun (call : ViewCall Bool) : Pending Bool :=
    ⟨0, 0, call, call.procedure ⟨"s", true, Immutability.never⟩⟩
  ⟨world, [begun (.set "a" true), begun (.set "a" false)], []⟩

theorem crossing_flows : crossing.Flows .counting := by
  have hopened : World.lender.openView 0 "s" Bundle.empty ⟨0, 0, 0⟩ "request" =
      .ok (0, crossing.world) := rfl
  have hstart : Flows .counting (⟨World.lender, [], []⟩ : Traffic Bool (List (Line Bool))) :=
    .start rfl
  have hview := hstart.openView (.inl rfl) (fun _ _ _ => List.not_mem_nil) hopened
  have hfirst := hview.call (rfl : crossing.world.view? 0 = some _) (.set "a" true)
  exact hfirst.call (rfl : crossing.world.view? 0 = some _) (.set "a" false)

/-- Both writes draw an identifier, and the one that comes second takes its entry back. -/
theorem bundles_intact_crossing :
    let env := Surroundings.journaling Marshaller.bits AttributeId.ofNat
    let order := List.replicate 4 0 ++ List.replicate 7 1 ++ List.replicate 7 0 ++ List.replicate 3 1
    let c := order.foldl (Traffic.advance env) crossing
    c.calls.map (fun q => q.rest.isDone) = [true, true] ∧ c.world.drawn = 3 ∧
      ∃ live, c.world.view? 0 = some live ∧ live.state.bundle.names.keys = ["a"] ∧
        live.state.bundle.names.Injective ∧
        let shown := (c.world.carryOut env ⟨0, some 0⟩ View.snapshot).1
        shown.valueCount = shown.size := by
  intro env order c
  have hflows : c.Flows .counting := by
    refine crossing_flows.follow ?_ rfl (by decide +kernel)
    exact (Surroundings.journaling_journals _ _).aloof.bystands
  have hnames : (c.world.view? 0).map (fun live => (live.state.bundle.names.keys, live.locked)) =
      some (["a"], false) := by decide +kernel
  refine ⟨by decide +kernel, by decide +kernel, ?_⟩
  obtain ⟨live, hl, hshown⟩ := Option.map_eq_some_iff.mp hnames
  obtain ⟨hkeys, hfree⟩ := Prod.mk.inj hshown
  obtain ⟨hdistinct, -, -, -, hreads⟩ := hflows.bundles_intact hl
  exact ⟨live, hl, hkeys, hdistinct, (hreads hfree env 0).2⟩

end Traffic
end SessionAttributes
