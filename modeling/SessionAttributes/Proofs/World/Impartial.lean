import SessionAttributes.Proofs.World.Enrolment
import SessionAttributes.Proofs.World.Tally

namespace SessionAttributes

variable {V σ : Type}

/-- Surroundings whose answers do not depend on the world. Calls may fail in them. -/
structure Surroundings.Impartial (env : Surroundings V σ) : Prop where
  before : ∀ request w w', (env.before request w).1 = (env.before request w').1
  encode : ∀ value w w', (env.encode value w).1 = (env.encode value w').1
  decode : ∀ bytes w w', (env.decode bytes w).1 = (env.decode bytes w').1

/-- Whether a request comes through when it is made in a world. -/
def Surroundings.permits (env : Surroundings V σ) (w : World V σ) (request : Request) : Bool :=
  (env.before request w).1.isNone

theorem Surroundings.Impartial.permits {env : Surroundings V σ} (hi : env.Impartial)
    (request : Request) (w w' : World V σ) : env.permits w request = env.permits w' request :=
  congrArg Option.isNone (hi.before request w w')

theorem Surroundings.quiet_impartial (m : Marshaller V) (draw : Nat → AttributeId) :
    (Surroundings.quiet (σ := σ) m draw).Impartial :=
  ⟨fun _ _ _ => rfl, fun _ _ _ => rfl, fun _ _ _ => rfl⟩

theorem Surroundings.Aloof.discreet {env : Surroundings V σ} (he : env.Aloof) : env.Discreet := by
  refine he.mono ?_
  rintro w _ ⟨scene, rfl⟩
  rfl

namespace World

variable {env : Surroundings V σ} {w w' : World V σ}

section Calls
variable (he : env.Aloof) (hi : env.Impartial) (w₀ : World V σ)
include he hi

/-- What comes through of a call is served; otherwise nothing is. -/
theorem guarded_permits {A : Type} (w : World V σ) (request : Request)
    (serve : World V σ → A × World V σ) :
    (env.permits w₀ request = false ∧ w.Handed (w.guarded env request serve).2 []) ∨
      env.permits w₀ request = true ∧
        ∃ w₁, w.Handed w₁ [] ∧ (serve w₁).2.Handed (w.guarded env request serve).2 [] := by
  rw [hi.permits request w₀ w, Surroundings.permits]
  rcases guarded_either he w request serve with ⟨hno, hw⟩ | ⟨hyes, hw⟩
  · refine .inl ⟨?_, hw⟩
    simpa [Option.isSome_iff_ne_none] using hno
  · refine .inr ⟨?_, hw⟩
    simp [hyes]

theorem callAttributes_permits (w : World V σ) (call : StoreCall AttributeKey Bytes) :
    (attributesPlace.withStore w (w.attributes.store.after
      (if env.permits w₀ (.attributes call) then call.parts else []))).Handed
        (w.callAttributes env call).2 [] := by
  have hecho := attributesPlace_echoes (V := V) he
  rcases guarded_permits he hi w₀ w (.attributes call) fun w =>
    attributesPlace.serve (tellAttributes env) w call with ⟨hp, hw⟩ | ⟨hp, w₁, hw₁, hw₂⟩
  · rw [hp]
    exact hw
  · have hserve := hecho.serve w₁ call
    have hsite : attributesPlace.get w₁ = w.attributes := hw₁.attributes
    have hput := hecho.withStore (l := []) (w.attributes.store.after call.parts) hw₁
    rw [hsite] at hserve
    rw [hp]
    exact (hput.trans hserve).trans hw₂

theorem callNames_permits (w : World V σ) (call : StoreCall SessionId Names) :
    w.Cascades (w.callNames env call).2
      (if env.permits w₀ (.names call) then call.parts else []) := by
  rcases guarded_permits he hi w₀ w (.names call) fun w =>
    namesPlace.serve (tellNames env) w call with ⟨hp, hw⟩ | ⟨hp, w₁, hw₁, hw₂⟩
  · rw [hp]
    exact hw.cascades
  · have hserve : w₁.Cascades _ call.parts := (namesPlace_echoes he).serve w₁ call
    have hall := hw₁.cascades.trans he (hserve.trans he hw₂.cascades)
    rw [List.append_nil] at hall
    rw [hp]
    exact hall

theorem metadataPlace_permits :
    (metadataPlace : Place (World V σ) SessionId Metadata).Echoes (tellMetadata env)
      (fun w w' made => w.Cascades w' (made.filter fun call => env.permits w₀ (.names call)))
      metadataEcho := by
  refine ⟨fun w => (Handed.refl w).cascades, ?_, ?_, ?_, fun _ _ => rfl, fun _ _ _ => rfl,
    fun _ => rfl, fun hearer event w => ?_, (metadataPlace_echoes he).still⟩
  · intro w w' w'' made made' h h'
    rw [List.filter_append]
    exact h.trans he h'
  · intro w w' made h
    exact h.metadata
  · intro w w' made store h
    exact ⟨congrArg (fun site => { site with store }) h.metadata, h.names, h.attributes, h.views,
      h.drawn, h.factory⟩
  · cases hearer with
    | observer number =>
      obtain ⟨scene, hw⟩ := he.hear number (.metadata event) w
      exact (Handed.scene hw).cascades
    | factory number =>
      cases event with
      | postPassivate session =>
        have hevict := callNames_permits he hi w₀ w (.evict session)
        have hfilter : ([.evict session] : List (StoreCall SessionId Names)).filter
            (fun call => env.permits w₀ (.names call)) =
            if env.permits w₀ (.names (.evict session)) then [.evict session] else [] := by
          simp [List.filter_cons]
        change w.Cascades _ (List.filter _ [.evict session])
        rw [hfilter]
        exact hevict
      | _ => exact (Handed.refl w).cascades

/-- A call of the metadata store that comes through is settled by it, and of the evictions that
follow those come through that are permitted. -/
theorem callMetadata_permits (w : World V σ) (call : StoreCall SessionId Metadata) :
    (metadataPlace.withStore w (w.metadata.store.after
      (if env.permits w₀ (.metadata call) then call.parts else []))).Cascades
        (w.callMetadata env call).2
        ((w.evictions (if env.permits w₀ (.metadata call) then call.parts else [])).filter
          fun call => env.permits w₀ (.names call)) := by
  have hecho := metadataPlace_permits (V := V) he hi w₀
  rcases guarded_permits he hi w₀ w (.metadata call) fun w =>
    metadataPlace.serve (tellMetadata env) w call with ⟨hp, hw⟩ | ⟨hp, w₁, hw₁, hw₂⟩
  · rw [hp]
    have hnone : w.evictions [] = [] := by
      unfold evictions
      rw [Store.heard_nil]
      rfl
    simp only [Bool.false_eq_true, if_false, hnone, List.filter_nil]
    exact hw.cascades
  · have hserve := hecho.serve w₁ call
    have hsite : metadataPlace.get w₁ = w.metadata := hw₁.metadata
    have hput := hecho.withStore (l := []) (w.metadata.store.after call.parts) hw₁.cascades
    rw [hsite] at hserve
    have hall := hecho.trans (hecho.trans hput hserve)
      (show Cascades _ _ (List.filter _ []) from hw₂.cascades)
    rw [List.nil_append, List.append_nil] at hall
    rw [hp]
    exact hall

end Calls

section Answers

/-- A call that comes through answers what its store does, and one that does not answers its
fault. -/
theorem guarded_verdict {A : Type} (he : env.Aloof) (w : World V σ) (request : Request)
    {serve : World V σ → A × World V σ} {answer : A}
    (hserve : ∀ w₁, w.Handed w₁ [] → (serve w₁).1 = answer) :
    (w.guarded env request serve).1 =
      match (env.before request w).1 with
      | some fault => .error fault
      | none => .ok answer := by
  obtain ⟨scene, hw₁⟩ := he.before request w
  unfold guarded
  generalize env.before request w = r at hw₁
  obtain ⟨fault, w₁⟩ := r
  cases fault with
  | some fault => rfl
  | none => exact congrArg Except.ok (hserve w₁ (.scene hw₁))

theorem callAttributes_verdict (he : env.Aloof) (hs : w.attributes.store.Sound)
    (call : StoreCall AttributeKey Bytes) :
    (w.callAttributes env call).1 =
      match (env.before (.attributes call) w).1 with
      | some fault => .error fault
      | none => .ok (call.onMap w.attributes.store.find?).1 := by
  refine guarded_verdict he w _ fun w₁ hw₁ => ?_
  have hsite : w₁.attributes = w.attributes := hw₁.attributes
  have hanswer := (attributesPlace_echoes he).reacts.serve_answer (w := w₁)
    (show w₁.attributes.store.Sound from hsite ▸ hs) call
  exact hanswer.trans (by rw [← hsite]; rfl)

theorem callNames_verdict (he : env.Aloof) (hs : w.names.store.Sound)
    (call : StoreCall SessionId Names) :
    (w.callNames env call).1 =
      match (env.before (.names call) w).1 with
      | some fault => .error fault
      | none => .ok (call.onMap w.names.store.find?).1 := by
  refine guarded_verdict he w _ fun w₁ hw₁ => ?_
  have hsite : w₁.names = w.names := hw₁.names
  have hanswer := (namesPlace_echoes he).reacts.serve_answer (w := w₁)
    (show w₁.names.store.Sound from hsite ▸ hs) call
  exact hanswer.trans (by rw [← hsite]; rfl)

end Answers
end World
end SessionAttributes
