import SessionAttributes.Proofs.World.Parting

namespace SessionAttributes.World

variable {V σ : Type} {env : Surroundings V σ} {w w' A B : World V σ} {k n number : Nat}

theorem crowd_perennial (n : Nat) : Perennial fun w : World V σ => n ≤ w.factories.length where
  metadata _ := id
  names _ := id
  attributes _ := id
  rest _ _ _ _ := id
  execute number key h := by simpa [changeFactory] using h
  record number measure h := by simpa [World.record, changeFactory] using h
  observe shelf number h := by cases shelf <;> exact h
  unobserve shelf id h := by cases shelf <;> exact h
  openFactory {w} options immutability context counts h := by
    rcases opened_enters w options immutability context counts with hs | ⟨f, -, -, -, hs⟩
    · rw [hs]
      exact h
    · rw [hs]
      exact h.trans (List.sublist_append_left _ _).length_le

/-- No factory is ever taken off the list. -/
theorem happen_count (he : env.Stirring) (w : World V σ) (happening : Happening V) :
    w.factories.length ≤ (w.happen env happening).factories.length := by
  refine (crowd_perennial w.factories.length).ever (fun {w'} number work _ h => ?_)
    (fun {w'} number _ h => ?_) he (fun _ _ => trivial) (Nat.le_refl _)
  · simpa [changeFactory] using h
  · rcases stop_still w' number with hs | ⟨f, hf, ho⟩
    · rw [hs]
      exact h
    · rw [stop_eq hf ho]
      simpa [changeFactory, unsubscribe] using h

/-- Two runs that were one up to a moment. From then on one factory acts of its own accord in each
of them as it likes, so that it is closed in one run, for example, and works in the other. Whatever
else happens happens in both, among surroundings that keep to themselves and do not tell the runs
apart. The first `n` factories are those that were there, and those that opened while another one
of them was open. -/
inductive Twins (k : Nat) (w : World V σ) : Nat → World V σ → World V σ → Prop
  | part : Twins k w w.factories.length w w
  | left {n : Nat} {A B : World V σ} (h : Twins k w n A B) {env : Surroundings V σ}
      (he : env.Aloof) {happening : Happening V} (ho : happening.Own k) :
      Twins k w n (A.happen env happening) B
  | right {n : Nat} {A B : World V σ} (h : Twins k w n A B) {env : Surroundings V σ}
      (he : env.Aloof) {happening : Happening V} (ho : happening.Own k) :
      Twins k w n A (B.happen env happening)
  | both {n : Nat} {A B : World V σ} (h : Twins k w n A B) {env : Surroundings V σ}
      (he : env.Aloof) (hi : env.Impartial) {happening : Happening V} (hs : happening.Spares k) :
      Twins k w n (A.happen env happening) (B.happen env happening)
  | welcome {A B : World V σ} (h : Twins k w A.factories.length A B) {j : Nat} (hj : j ≠ k)
      (ho : (A.subscriptions? j).isSome) {env : Surroundings V σ} (he : env.Aloof)
      (options : FactoryOptions) (immutability : Immutability V) (context : String)
      (counts : Bool) :
      Twins k w (A.happen env (.openFactory options immutability context counts)).factories.length
        (A.happen env (.openFactory options immutability context counts))
        (B.happen env (.openFactory options immutability context counts))

/-- By induction on the runs: they come about, and each step keeps them side by side. -/
theorem Twins.beside (h : Twins k w n A B) (hw : w.Lived) :
    A.Lived ∧ B.Lived ∧ n ≤ A.factories.length ∧ Beside k n A B := by
  induction h with
  | part => exact ⟨hw, hw, Nat.le_refl _, .refl k _ w⟩
  | left _ he ho ih =>
    obtain ⟨hA, hB, hn, hbeside⟩ := ih
    obtain ⟨_, _, _, hplaced⟩ := hA.placed
    exact ⟨hA.step he.stirring _, hB, hn.trans (happen_count he.stirring _ _),
      (own_beside he hA.regular hplaced ho _).trans hbeside⟩
  | right _ he ho ih =>
    obtain ⟨hA, hB, hn, hbeside⟩ := ih
    obtain ⟨_, _, _, hplaced⟩ := hB.placed
    exact ⟨hA, hB.step he.stirring _, hn,
      hbeside.trans (own_beside he hB.regular hplaced ho _).symm⟩
  | both _ he hi hs ih =>
    obtain ⟨hA, hB, hn, hbeside⟩ := ih
    obtain ⟨_, _, _, hplaced⟩ := hA.placed
    obtain ⟨_, _, _, hplaced'⟩ := hB.placed
    exact ⟨hA.step he.stirring _, hB.step he.stirring _, hn.trans (happen_count he.stirring _ _),
      hbeside.happen he hA.regular hB.regular hplaced hplaced' hi hn hs⟩
  | welcome _ hj ho he options immutability context counts ih =>
    obtain ⟨hA, hB, -, hbeside⟩ := ih
    obtain ⟨s, hs⟩ := Option.isSome_iff_exists.mp ho
    obtain ⟨f, hf, -⟩ := subscriptions?_some hs
    have hlt := (List.getElem?_eq_some_iff.mp hf).1
    exact ⟨hA.step he.stirring _, hB.step he.stirring _, Nat.le_refl _,
      hbeside.welcome rfl hj hlt ho options immutability context counts⟩

/-- The factory may be closed in one of the runs. -/
theorem Twins.closeFactory (h : Twins k w n A B) (he : env.Aloof) :
    Twins k w n (A.closeFactory env k) B :=
  closeFactory_own (I := fun A => Twins k w n A B) (fun ho h => h.left he ho) h

structure Concord (k : Nat) (A B : World V σ) : Prop where
  results : ∀ {env : Surroundings V σ}, env.Aloof → env.Impartial → ∀ {actor : Actor},
    actor.factory ≠ k → ∀ {α : Type} (p : Procedure V α),
      (A.carryOut env actor p).1 = (B.carryOut env actor p).1
  views : ∀ {j}, j ≠ k → ∀ session bundle metadata context,
    (A.openView j session bundle metadata context).map Prod.fst =
      (B.openView j session bundle metadata context).map Prod.fst
  openings : ∀ options immutability context counts,
    (A.openFactory options immutability context counts).map Prod.fst =
      (B.openFactory options immutability context counts).map Prod.fst

theorem Beside.concord (h : Beside k n A B) (hA : A.Lived) (hB : B.Lived) : Concord k A B := by
  refine ⟨fun {env} he hi {actor} hne α p => ?_, fun hj session bundle metadata context =>
    (h.openView hj session bundle metadata context).1,
    fun options immutability context counts => ?_⟩
  · induction p generalizing A B with
    | done result => rfl
    | act action next ih =>
      obtain ⟨_, _, _, hplaced⟩ := hA.placed
      obtain ⟨_, _, _, hplaced'⟩ := hB.placed
      have hanswer := h.answer he hplaced hplaced' hi hne action
      have hnext := h.perform he hA.regular hplaced hplaced' hi actor action
      change ((A.perform env actor action).2.carryOut env actor
          (next (A.perform env actor action).1)).1 =
        ((B.perform env actor action).2.carryOut env actor
          (next (B.perform env actor action).1)).1
      rw [hanswer]
      exact ih _ hnext (hA.step he.stirring (.act actor action))
        (hB.step he.stirring (.act actor action))
  · rw [openFactory_eq, openFactory_eq, ← h.count]
    cases (do options.validate; Executor.spawn options.workers :
      Except SessionError (Executor AttributeKey)) <;> rfl

/-- A factory whose close has returned stays closed, whatever happens. -/
theorem Later.closed {finished : List AttributeKey} (h : Later number w finished w')
    (hw : w.Lived) (hc : w.HasClosed number) : w'.HasClosed number := by
  induction h with
  | start => exact hc
  | step h he happening ih =>
    obtain ⟨f, hf, hpost⟩ := ih
    have hstays := (h.lived hw).regular.stays ⟨f, hf, hpost⟩ he happening
    rw [hf, Option.map_some] at hstays
    obtain ⟨f', hf', heq⟩ := Option.map_eq_some_iff.mp hstays
    simp only [Factory.post, Prod.mk.injEq] at heq
    rw [← heq.1, ← heq.2.2] at hpost
    exact ⟨f', hf', hpost⟩

/-- Closing a factory ends its influence and only its own. In whatever world that comes about: to
close a factory that is open returns; once that has happened its influence has ended for good, also
inside of callbacks; by then the workers have finished all that they had accepted at any earlier
moment; and from any moment on all others see and are told the same, in whatever of two runs it is
closed. -/
theorem closing_ends_own (h : w.Lived) (number : Nat) :
    (∀ {env : Surroundings V σ}, env.Stirring → (w.subscriptions? number).isSome →
      (w.closeFactory env number).HasClosed number ∧
        ∃ finished, Later number w finished (w.closeFactory env number)) ∧
    (w.HasClosed number → (∀ {later w'}, Later number w later w' → w'.Ended number) ∧
      ∀ {w'}, w.Stirs w' → w'.Ended number) ∧
    (∀ {finished w'}, Later number w finished w' → w'.HasClosed number →
      ∀ {f}, w.factory? number = some f → f.executor.tasks.Subperm finished) ∧
    ∀ {n A B}, Twins number w n A B → Beside number n A B ∧ Concord number A B ∧
      ∀ {env : Surroundings V σ}, env.Aloof →
        Twins number w n (A.closeFactory env number) B := by
  refine ⟨fun he ho => ⟨?_, Later.closeFactory w he number⟩,
    fun hc => ⟨fun hlater => ?_, fun hs => ?_⟩,
    fun hlater hc _ hf => hlater.finishes_all h hc hf, fun htwins => ?_⟩
  · obtain ⟨s, hs⟩ := Option.isSome_iff_exists.mp ho
    obtain ⟨f, hf, hopen, -⟩ := subscriptions?_some hs
    exact h.regular.closes he hf hopen
  · exact (hlater.lived h).regular.ends (hlater.closed h hc)
  · exact (hs.lived h).regular.ends (closed_perennial.stirs hs hc)
  · obtain ⟨hA, hB, -, hbeside⟩ := htwins.beside h
    exact ⟨hbeside, hbeside.concord hA hB, htwins.closeFactory⟩

/-- Two factories that were both handed the eviction of an entry whose names have left. -/
def manned : World Unit Unit :=
  let happenings : List (Happening Unit) := [
    .openFactory { workers := 1 } Immutability.never "" true,
    .act ⟨0, none⟩ (.names (.evict "s"))]
  happenings.foldl (happen hushed) boarded

theorem manned_reached : manned.Reached := boarded_reached.all hushed_aloof _

theorem hushed_impartial : hushed.Impartial := Surroundings.quiet_impartial _ _

/-- One of two factories is closed while a task is waiting: the task is carried out. And whether
that happens or not before the session leaves primary memory is nothing to the other one. -/
theorem closing_ends_own_first :
    ∃ (w : World Unit Unit) (finished : List AttributeKey), w.Lived ∧
      w.factories.length = 2 ∧
      ((w.factory? 0).map fun f => f.executor.tasks) = some [⟨"s", .ofNat 0⟩] ∧
      (w.closeFactory hushed 0).HasClosed 0 ∧ (w.closeFactory hushed 0).Ended 0 ∧
      ⟨"s", .ofNat 0⟩ ∈ finished ∧ Later 0 w finished (w.closeFactory hushed 0) ∧
      let A := (w.closeFactory hushed 0).happen hushed (.metadata (.evict "s"))
      let B := w.happen hushed (.metadata (.evict "s"))
      Beside 0 2 A B ∧ Concord 0 A B := by
  obtain ⟨w, hw⟩ : ∃ w, w = manned := ⟨_, rfl⟩
  have h : w.Lived := hw ▸ manned_reached.lived
  have hcount : w.factories.length = 2 := by rw [hw]; decide +kernel
  have htasks : ((w.factory? 0).map fun f => f.executor.tasks) = some [⟨"s", .ofNat 0⟩] := by
    rw [hw]
    decide +kernel
  have hopen : (w.subscriptions? 0).isSome := by rw [hw]; decide +kernel
  obtain ⟨f, hf, hx⟩ := Option.map_eq_some_iff.mp htasks
  obtain ⟨hreturns, -, haccounts, hbeside⟩ := closing_ends_own h 0
  obtain ⟨hclosed, finished, hlater⟩ := hreturns hushed_aloof.stirring hopen
  have hall := haccounts hlater hclosed hf
  rw [hx] at hall
  have hends := ((closing_ends_own (hlater.lived h) 0).2.1 hclosed).1 .start
  obtain ⟨-, -, hcloses⟩ := hbeside .part
  obtain ⟨hsame, halike, -⟩ := hbeside ((hcloses hushed_aloof).both hushed_aloof hushed_impartial
    (show (Happening.metadata (.evict "s")).Spares 0 from trivial))
  rw [hcount] at hsame
  exact ⟨w, finished, h, hcount, htasks, hclosed, hends, hall.subset List.mem_cons_self, hlater,
    hsame, halike⟩

end SessionAttributes.World
