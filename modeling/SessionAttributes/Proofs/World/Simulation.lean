import SessionAttributes.Proofs.World.Plain

namespace SessionAttributes

variable {V σ : Type} {env : Surroundings V σ} {m : Marshaller V} {w : World V σ}

def Action.Failed : (action : Action V) → action.Answer → Prop
  | .names _, answer => ∃ fault, answer = .error fault
  | .attributes _, answer => ∃ fault, answer = .error fault
  | _, _ => False

/-- What an action answers and does if its calls do not fail. -/
def PlainWorld.perform (m : Marshaller V) (draw : Nat → AttributeId) (actor : World.Actor) :
    (action : Action V) → PlainWorld V → action.Answer × PlainWorld V
  | .isOpen, p => ((p.factories[actor.factory]?.map PlainFactory.isOpen).getD false, p)
  | .encode value, p => (m.write value, p)
  | .decode bytes, p => (m.read bytes, p)
  | .names call, p => (.ok (call.onMap p.names).1, { p with names := (call.onMap p.names).2 })
  | .attributes call, p =>
    (.ok (call.onMap p.attributes).1, { p with attributes := (call.onMap p.attributes).2 })
  | .draw, p => (draw p.drawn, { p with drawn := p.drawn + 1 })
  | .lock, p =>
    (((actor.view.bind (p.views[·]?)).map PlainView.state).getD ⟨Bundle.empty, []⟩, p)
  | .unlock state, p =>
    ((), match actor.view with
      | none => p
      | some number => { p with views := p.views.modify number fun v => { v with state } })
  | .record _, p | .notify _ _, p => ((), p)

namespace World

/-- A call answered from its map, or one that failed and changed nothing. -/
def Answers {A : Type} (r : Except SessionError A × World V σ) (p : PlainWorld V) (answer : A)
    (p' : PlainWorld V) : Prop :=
  r.2.Sound ∧ ((∃ fault, r.1 = .error fault) ∧ r.2.plain = p ∨ r.1 = .ok answer ∧ r.2.plain = p')

theorem guarded_answers {A : Type} (hc : env.Calm m) (hs : w.Sound) (request : Request)
    {serve : World V σ → A × World V σ} {answer : A} {p : PlainWorld V}
    (hserve : ∀ w', w'.Sound → w'.plain = w.plain →
      (serve w').1 = answer ∧ (serve w').2.Sound ∧ (serve w').2.plain = p) :
    Answers (w.guarded env request serve) w.plain answer p := by
  obtain ⟨hs', hp'⟩ := hc.before request w hs
  unfold guarded
  generalize env.before request w = r at hs' hp'
  obtain ⟨fault, w'⟩ := r
  cases fault with
  | some fault => exact ⟨hs', Or.inl ⟨⟨fault, rfl⟩, hp'⟩⟩
  | none =>
    obtain ⟨ha, hs'', hp''⟩ := hserve w' hs' hp'
    obtain ⟨hs₃, hp₃⟩ := hc.after request _ hs''
    exact ⟨hs₃, Or.inr ⟨congrArg Except.ok ha, hp₃.trans hp''⟩⟩

theorem guarded_reliable {A : Type} (hr : env.Reliable) (request : Request)
    (serve : World V σ → A × World V σ) (fault : SessionError) :
    (w.guarded env request serve).1 ≠ .error fault := by
  have hb := hr request w
  unfold guarded
  generalize env.before request w = r at hb
  obtain ⟨first, w'⟩ := r
  subst hb
  simp

theorem Answers.ok {A : Type} {r : Except SessionError A × World V σ} {p p' : PlainWorld V}
    {answer : A} (h : Answers r p answer p') (hr : ∀ fault, r.1 ≠ .error fault) :
    r.2.Sound ∧ r.1 = .ok answer ∧ r.2.plain = p' := by
  obtain ⟨hs, ⟨⟨fault, hf⟩, -⟩ | ⟨ha, hp⟩⟩ := h
  · exact absurd hf (hr fault)
  · exact ⟨hs, ha, hp⟩

/-- A call that writes nothing is not seen, whether it fails or not. -/
theorem Answers.keeps {A : Type} {r : Except SessionError A × World V σ} {answer : A}
    (h : w.Sound → Answers r w.plain answer w.plain) : w.Keeps r.2 := by
  intro hs
  obtain ⟨hs', ⟨_, hp⟩ | ⟨_, hp⟩⟩ := h hs
  · exact ⟨hs', hp⟩
  · exact ⟨hs', hp⟩

theorem attributesPlace_shows : (attributesPlace : Place (World V σ) AttributeKey Bytes).Shows
    PlainWorld.attributes fun p f => { p with attributes := f } :=
  ⟨fun h => h.attributes, fun _ => rfl, fun _ _ => rfl, fun _ => rfl,
    fun _ h hs => ⟨h.metadata, h.names, hs⟩⟩

theorem namesPlace_shows : (namesPlace : Place (World V σ) SessionId Names).Shows
    PlainWorld.names fun p f => { p with names := f } :=
  ⟨fun h => h.names, fun _ => rfl, fun _ _ => rfl, fun _ => rfl,
    fun _ h hs => ⟨h.metadata, hs, h.attributes⟩⟩

theorem metadataPlace_shows : (metadataPlace : Place (World V σ) SessionId Metadata).Shows
    PlainWorld.metadata fun p f => { p with metadata := f } :=
  ⟨fun h => h.metadata, fun _ => rfl, fun _ _ => rfl, fun _ => rfl,
    fun _ h hs => ⟨hs, h.names, h.attributes⟩⟩

section Telling

theorem raise_keeps (hc : env.Calm m) (w : World V σ) (callback : Callback V) :
    w.Keeps (w.raise env callback) :=
  (hc.callback callback w).trans (record_keeps _ _ _)

theorem relay_keeps (hc : env.Calm m) (number : Nat) (direction : Direction) (key : AttributeKey)
    (bytes : Bytes) (w : World V σ) : w.Keeps (w.relay env number direction key bytes) := by
  have hd := (hc.decode bytes w).2
  unfold relay
  generalize env.decode bytes w = r at hd
  obtain ⟨answer, w'⟩ := r
  cases answer with
  | error _ => exact hd
  | ok value => exact hd.trans (raise_keeps hc _ _)

theorem tellAttributes_keeps (hc : env.Calm m) (hearer : Subscriber)
    (event : Event AttributeKey Bytes) (w : World V σ) :
    w.Keeps (tellAttributes env hearer event w) := by
  cases hearer with
  | observer number => exact hc.hear number (.attributes event) w
  | factory number =>
    cases event with
    | prePassivate key bytes => exact relay_keeps hc number .passivate key bytes w
    | postActivate key bytes => exact relay_keeps hc number .activate key bytes w
    | _ => exact Keeps.refl w

theorem callAttributes_answers (hc : env.Calm m) (hs : w.Sound)
    (call : StoreCall AttributeKey Bytes) :
    Answers (w.callAttributes env call) w.plain (call.onMap w.plain.attributes).1
      { w.plain with attributes := (call.onMap w.plain.attributes).2 } := by
  apply guarded_answers hc hs
  intro w' hs' hp'
  rw [← hp']
  exact Place.serve_plain attributesPlace_shows (tellAttributes_keeps hc) hs' call

theorem schedule_keeps (number : Nat) (session : SessionId) (w : World V σ) (id : AttributeId) :
    w.Keeps (schedule number session w id) := by
  have hx : w.Keeps (w.changeFactory number fun f =>
      { f with executor := f.executor.execute ⟨session, id⟩ }) :=
    changeFactory_keeps w number fun _ => rfl
  exact hx.trans (record_keeps _ number .cascadeEviction)

theorem tellNames_keeps (hc : env.Calm m) (hearer : Subscriber) (event : Event SessionId Names)
    (w : World V σ) : w.Keeps (tellNames env hearer event w) := by
  cases hearer with
  | observer number => exact hc.hear number (.names event) w
  | factory number =>
    cases event with
    | prePassivate session names => exact Keeps.foldl (schedule_keeps number session) _ w
    | _ => exact Keeps.refl w

theorem callNames_answers (hc : env.Calm m) (hs : w.Sound) (call : StoreCall SessionId Names) :
    Answers (w.callNames env call) w.plain (call.onMap w.plain.names).1
      { w.plain with names := (call.onMap w.plain.names).2 } := by
  apply guarded_answers hc hs
  intro w' hs' hp'
  rw [← hp']
  exact Place.serve_plain namesPlace_shows (tellNames_keeps hc) hs' call

/-- The cascade of a session: its names are evicted with its metadata. -/
theorem tellMetadata_keeps (hc : env.Calm m) (hearer : Subscriber)
    (event : Event SessionId Metadata) (w : World V σ) :
    w.Keeps (tellMetadata env hearer event w) := by
  cases hearer with
  | observer number => exact hc.hear number (.metadata event) w
  | factory number =>
    cases event with
    | postPassivate session =>
      exact Answers.keeps fun hs => callNames_answers hc hs (.evict session)
    | _ => exact Keeps.refl w

theorem callMetadata_answers (hc : env.Calm m) (hs : w.Sound)
    (call : StoreCall SessionId Metadata) :
    Answers (w.callMetadata env call) w.plain (call.onMap w.plain.metadata).1
      { w.plain with metadata := (call.onMap w.plain.metadata).2 } := by
  apply guarded_answers hc hs
  intro w' hs' hp'
  rw [← hp']
  exact Place.serve_plain metadataPlace_shows (tellMetadata_keeps hc) hs' call

end Telling

section Workers

/-- A task evicts its entry, which is not seen, also if the entry was rewritten or deleted. -/
theorem workerStep_keeps (hc : env.Calm m) (number : Nat) (w : World V σ) (step : WorkerStep) :
    w.Keeps (workerStep env number w step) := by
  cases step with
  | receive =>
    unfold workerStep
    dsimp only
    split
    · exact Keeps.refl w
    · exact changeFactory_keeps w number fun _ => rfl
  | finish position =>
    unfold workerStep
    dsimp only
    split
    · exact Keeps.refl w
    · rename_i key _
      have he : w.Keeps (w.callAttributes env (.evict key)).2 :=
        Answers.keeps fun hs => callAttributes_answers hc hs (.evict key)
      exact he.trans (changeFactory_keeps _ number fun _ => rfl)

theorem runTasks_keeps (hc : env.Calm m) (number : Nat) (w : World V σ) :
    w.Keeps (w.runTasks env number) :=
  Keeps.foldl (workerStep_keeps hc number) _ w

end Workers

theorem changeView_keeps (w : World V σ) (number : Nat) (change : LiveView V → LiveView V)
    (hc : ∀ v, (change v).plain = v.plain) : w.Keeps (w.changeView number change) := by
  intro hs
  refine ⟨⟨hs.metadata, hs.names, hs.attributes⟩, ?_⟩
  rw [changeView_plain w number change id hc, List.modify_id]

theorem notifyView_keeps (hc : env.Calm m) (w : World V σ) (number : Nat) (direction : Direction)
    (value : V) : w.Keeps (w.notifyView env number direction value) := by
  unfold notifyView
  split
  · exact Keeps.refl w
  · split
    · exact Keeps.refl w
    · split
      · exact Keeps.refl w
      · exact raise_keeps hc _ _

/-- An action answers and acts as in the plain world, or it failed and is not seen there. -/
theorem perform_plain (hc : env.Calm m) (hs : w.Sound) (actor : Actor) (action : Action V) :
    (w.perform env actor action).2.Sound ∧
      (action.Failed (w.perform env actor action).1 ∧
          (w.perform env actor action).2.plain = w.plain ∨
        (w.perform env actor action).1 = (w.plain.perform m env.draw actor action).1 ∧
          (w.perform env actor action).2.plain =
            (w.plain.perform m env.draw actor action).2) := by
  cases action with
  | isOpen =>
    refine ⟨hs, Or.inr ⟨?_, rfl⟩⟩
    simp only [perform, PlainWorld.perform, factory?, plain, List.getElem?_map, Option.map_map]
    rfl
  | encode value =>
    obtain ⟨ha, hk⟩ := hc.encode value w
    exact ⟨(hk hs).1, Or.inr ⟨ha, (hk hs).2⟩⟩
  | decode bytes =>
    obtain ⟨ha, hk⟩ := hc.decode bytes w
    exact ⟨(hk hs).1, Or.inr ⟨ha, (hk hs).2⟩⟩
  | names call => exact callNames_answers hc hs call
  | attributes call => exact callAttributes_answers hc hs call
  | draw => exact ⟨⟨hs.metadata, hs.names, hs.attributes⟩, Or.inr ⟨rfl, rfl⟩⟩
  | lock =>
    obtain ⟨factory, view⟩ := actor
    cases view with
    | none => exact ⟨hs, Or.inr ⟨rfl, rfl⟩⟩
    | some number =>
      obtain ⟨hs', hp'⟩ := changeView_keeps w number
        (fun v => { v with locked := true }) (fun _ => rfl) hs
      refine ⟨hs', Or.inr ⟨?_, hp'⟩⟩
      simp only [perform, PlainWorld.perform, view?, plain, Option.bind_some, List.getElem?_map,
        Option.map_map]
      rfl
  | unlock state =>
    obtain ⟨factory, view⟩ := actor
    cases view with
    | none => exact ⟨hs, Or.inr ⟨rfl, rfl⟩⟩
    | some number =>
      exact ⟨⟨hs.metadata, hs.names, hs.attributes⟩,
        Or.inr ⟨rfl, changeView_plain w number _ _ fun _ => rfl⟩⟩
  | record measure =>
    obtain ⟨hs', hp'⟩ := record_keeps w actor.factory measure hs
    exact ⟨hs', Or.inr ⟨rfl, hp'⟩⟩
  | notify direction value =>
    obtain ⟨factory, view⟩ := actor
    cases view with
    | none => exact ⟨hs, Or.inr ⟨rfl, rfl⟩⟩
    | some number =>
      obtain ⟨hs', hp'⟩ := notifyView_keeps hc w number direction value hs
      exact ⟨hs', Or.inr ⟨rfl, hp'⟩⟩

theorem perform_reliable (hr : env.Reliable) (w : World V σ) (actor : Actor) (action : Action V) :
    ¬ action.Failed (w.perform env actor action).1 := by
  cases action with
  | names call => exact fun ⟨fault, hf⟩ => guarded_reliable hr _ _ fault hf
  | attributes call => exact fun ⟨fault, hf⟩ => guarded_reliable hr _ _ fault hf
  | _ => exact id

/-- Without failing calls a whole procedure runs as in the plain world. -/
theorem carryOut_plain {α : Type} (hc : env.Calm m) (hr : env.Reliable) (hs : w.Sound)
    (actor : Actor) (p : Procedure V α) :
    (w.carryOut env actor p).2.Sound ∧
      ((w.carryOut env actor p).1, (w.carryOut env actor p).2.plain) =
        p.runWith (PlainWorld.perform m env.draw actor) w.plain := by
  induction p generalizing w with
  | done result => exact ⟨hs, rfl⟩
  | act action next ih =>
    obtain ⟨hs', hfail | ⟨ha, hp⟩⟩ := perform_plain hc hs actor action
    · exact absurd hfail.1 (perform_reliable hr w actor action)
    · obtain ⟨hs'', he⟩ := ih (w.perform env actor action).1 hs'
      refine ⟨hs'', ?_⟩
      rw [ha, hp] at he
      simp only [carryOut, Procedure.runWith] at he ⊢
      rw [ha]
      exact he

end World
end SessionAttributes
