import SessionAttributes.Proofs.World.Lasting
import SessionAttributes.Proofs.World.Wiring

namespace SessionAttributes

variable {V σ : Type}

def Happening.isInner : Happening V → Bool
  | .work .. | .stop _ | .join _ => false
  | _ => true

/-- Whether a factory or its pool does it of its own accord. -/
def Happening.Own (number : Nat) : Happening V → Prop
  | .work k _ => k = number
  | .stop k => k = number
  | .join k => k = number
  | _ => False

namespace World

/-- What a world may have become when a callback returns: notes were kept, and other things have
happened, of which others were told. -/
inductive Stirs : World V σ → World V σ → Prop
  | scene (w : World V σ) (scene : σ) : Stirs w { w with scene }
  | trans {w w' w'' : World V σ} (h : Stirs w w') (h' : Stirs w' w'') : Stirs w w''
  | happen {env : Surroundings V σ}
      (before : ∀ request w, Stirs w (env.before request w).2)
      (after : ∀ request w, Stirs w (env.after request w))
      (encode : ∀ value w, Stirs w (env.encode value w).2)
      (decode : ∀ bytes w, Stirs w (env.decode bytes w).2)
      (hear : ∀ number heard w, Stirs w (env.hear number heard w))
      (callback : ∀ callback w, Stirs w (env.callback callback w))
      (w : World V σ) {happening : Happening V} (hi : happening.isInner = true) :
      Stirs w (w.happen env happening)

end World

/-- Surroundings that may call back. Calls may fail in them. -/
abbrev Surroundings.Stirring (env : Surroundings V σ) : Prop := env.Leaves World.Stirs

/-- Who keeps to himself does not call back. -/
theorem Surroundings.Aloof.stirring {env : Surroundings V σ} (he : env.Aloof) : env.Stirring := by
  refine he.mono ?_
  rintro w _ ⟨scene, rfl⟩
  exact .scene w scene

namespace World

/-- A property that no callback ends, whatever it does. -/
structure Perennial (I : World V σ → Prop) : Prop where
  metadata : ∀ {w : World V σ} {store}, w.metadata.store.Advance store → I w →
    I { w with metadata := { w.metadata with store } }
  names : ∀ {w : World V σ} {store}, w.names.store.Advance store → I w →
    I { w with names := { w.names with store } }
  attributes : ∀ {w : World V σ} {store}, w.attributes.store.Advance store → I w →
    I { w with attributes := { w.attributes with store } }
  execute : ∀ {w : World V σ} number key, I w →
    I (w.changeFactory number fun f => { f with executor := f.executor.execute key })
  record : ∀ {w : World V σ} number measure, I w → I (w.record number measure)
  rest : ∀ {w : World V σ} views drawn scene,
    (w.Mute → Mute { w with views, drawn, scene }) → I w → I { w with views, drawn, scene }
  observe : ∀ {w : World V σ} shelf number, I w →
    I (w.changeListeners (fun l => (l.register (.observer number)).2) shelf)
  unobserve : ∀ {w : World V σ} shelf id, I w → I (w.changeListeners (·.unobserve id) shelf)
  openFactory : ∀ {w : World V σ} options immutability context counts, I w →
    I (w.opened (w.openFactory options immutability context counts))

variable {env : Surroundings V σ} {I : World V σ → Prop} {w w' : World V σ}

namespace Perennial
variable (hI : Perennial I)
include hI

theorem enduring : Enduring I :=
  ⟨hI.metadata, hI.names, hI.attributes, hI.execute,
    fun number measure _ => hI.record number measure⟩

theorem openView (number : Nat) (session : SessionId) (bundle : Bundle V) (metadata : Metadata)
    (context : String) (h : I w) :
    I (w.opened (w.openView number session bundle metadata context)) := by
  unfold World.openView
  split
  · exact h
  · split
    · exact h
    · refine hI.rest _ w.drawn w.scene (fun hm hp live hlive => ?_) h
      rcases List.mem_append.mp hlive with hold | hnew
      · exact hm hp live hold
      · rw [List.mem_singleton.mp hnew]
        exact if_neg (hp ▸ Bool.false_ne_true)

theorem perform (he : env.Observes I) (actor : Actor) (action : Action V) (h : I w) :
    I (w.perform env actor action).2 :=
  hI.enduring.perform he (fun {w} views drawn hm => hI.rest views drawn w.scene hm) actor action
    (fun measure _ => hI.record actor.factory measure h) h

/-- What a callback may do keeps the property, if those who are told of it keep it. -/
theorem happens (he : env.Observes I) {happening : Happening V} (hi : happening.isInner = true)
    (h : I w) : I (w.happen env happening) := by
  cases happening with
  | metadata call => exact hI.enduring.callMetadata he call h
  | act actor action => exact hI.perform he actor action h
  | openFactory options immutability context counts => exact hI.openFactory _ _ _ _ h
  | openView number session bundle metadata context => exact hI.openView _ _ _ _ _ h
  | closeView number =>
    exact hI.rest (w.changeView number _).views w.drawn w.scene
      (·.changeView number fun live hn => by rw [hn]; rfl) h
  | observe shelf number => exact hI.observe shelf number h
  | unobserve shelf id => exact hI.unobserve shelf id h
  | work number step => cases hi
  | stop number => cases hi
  | join number => cases hi

/-- By induction on what has happened in the callback: those who were told of it kept the property,
so it did. -/
theorem stirs (hs : w.Stirs w') (h : I w) : I w' := by
  induction hs with
  | scene w scene => exact hI.rest w.views w.drawn scene id h
  | trans _ _ ih ih' => exact ih' (ih h)
  | happen _ _ _ _ _ _ w hi before after encode decode hear callback =>
    exact hI.happens ⟨fun request w => before request w, fun request w => after request w,
      fun value w => encode value w, fun bytes w => decode bytes w,
      fun number heard w => hear number heard w, fun c w => callback c w⟩ hi h

theorem observes (he : env.Stirring) : env.Observes I := he.mono hI.stirs

end Perennial

theorem Perennial.and {I J : World V σ → Prop} (hI : Perennial I) (hJ : Perennial J) :
    Perennial fun w => I w ∧ J w where
  metadata hs h := ⟨hI.metadata hs h.1, hJ.metadata hs h.2⟩
  names hs h := ⟨hI.names hs h.1, hJ.names hs h.2⟩
  attributes hs h := ⟨hI.attributes hs h.1, hJ.attributes hs h.2⟩
  execute k key h := ⟨hI.execute k key h.1, hJ.execute k key h.2⟩
  record k measure h := ⟨hI.record k measure h.1, hJ.record k measure h.2⟩
  rest views drawn scene hm h :=
    ⟨hI.rest views drawn scene hm h.1, hJ.rest views drawn scene hm h.2⟩
  observe shelf k h := ⟨hI.observe shelf k h.1, hJ.observe shelf k h.2⟩
  unobserve shelf id h := ⟨hI.unobserve shelf id h.1, hJ.unobserve shelf id h.2⟩
  openFactory o i c m h := ⟨hI.openFactory o i c m h.1, hJ.openFactory o i c m h.2⟩

/-- The worlds that come about, callbacks or not, and those in the middle of a call: a store has
made a step, or a factory has scheduled or counted something, and others are still to be told. -/
inductive Lived : World V σ → Prop
  | opened {metadata names attributes : StoreOptions} {scene : σ} {w : World V σ}
      (h : World.openWith metadata names attributes scene = .ok w) : Lived w
  | step {w : World V σ} (h : Lived w) {env : Surroundings V σ} (he : env.Stirring)
      (happening : Happening V) : Lived (w.happen env happening)
  | scene {w : World V σ} (h : Lived w) (scene : σ) : Lived { w with scene }
  | metadata {w : World V σ} {store} (hs : w.metadata.store.Advance store) (h : Lived w) :
      Lived { w with metadata := { w.metadata with store } }
  | names {w : World V σ} {store} (hs : w.names.store.Advance store) (h : Lived w) :
      Lived { w with names := { w.names with store } }
  | attributes {w : World V σ} {store} (hs : w.attributes.store.Advance store) (h : Lived w) :
      Lived { w with attributes := { w.attributes with store } }
  | execute {w : World V σ} (number : Nat) (key : AttributeKey) (h : Lived w) :
      Lived (w.changeFactory number fun f => { f with executor := f.executor.execute key })
  | record {w : World V σ} (number : Nat) (measure : Measure) (h : Lived w) :
      Lived (w.record number measure)

/-- Also the worlds that a callback meets and leaves behind come about. -/
theorem Stirs.lived (hs : w.Stirs w') (h : w.Lived) : w'.Lived := by
  induction hs with
  | scene w scene => exact h.scene scene
  | trans _ _ ih ih' => exact ih' (ih h)
  | happen before after encode decode hear callback w _ =>
    exact h.step ⟨before, after, encode, decode, hear, callback⟩ _

/-- What holds when the stores are opened, and is ended by nothing that happens, holds ever
after. -/
theorem Lived.keeps (h : w.Lived) :
    ∃ (metadata names attributes : StoreOptions) (scene : σ) (w₀ : World V σ),
      World.openWith metadata names attributes scene = .ok w₀ ∧
      ∀ {I : World V σ → Prop}, Perennial I →
        (∀ {env w}, env.Stirring → ∀ happening, I w → I (w.happen env happening)) →
        I w₀ → I w := by
  induction h with
  | opened h => exact ⟨_, _, _, _, _, h, fun _ _ => id⟩
  | step _ he happening ih =>
    obtain ⟨m, n, a, scene, w₀, hopen, hkeeps⟩ := ih
    exact ⟨m, n, a, scene, w₀, hopen, fun hI hs h => hs he happening (hkeeps hI hs h)⟩
  | @scene w _ scene ih =>
    obtain ⟨m, n, a, s, w₀, hopen, hkeeps⟩ := ih
    exact ⟨m, n, a, s, w₀, hopen,
      fun hI hs h => hI.rest w.views w.drawn scene id (hkeeps hI hs h)⟩
  | metadata hadvance _ ih =>
    obtain ⟨m, n, a, scene, w₀, hopen, hkeeps⟩ := ih
    exact ⟨m, n, a, scene, w₀, hopen, fun hI hs h => hI.metadata hadvance (hkeeps hI hs h)⟩
  | names hadvance _ ih =>
    obtain ⟨m, n, a, scene, w₀, hopen, hkeeps⟩ := ih
    exact ⟨m, n, a, scene, w₀, hopen, fun hI hs h => hI.names hadvance (hkeeps hI hs h)⟩
  | attributes hadvance _ ih =>
    obtain ⟨m, n, a, scene, w₀, hopen, hkeeps⟩ := ih
    exact ⟨m, n, a, scene, w₀, hopen, fun hI hs h => hI.attributes hadvance (hkeeps hI hs h)⟩
  | execute number key _ ih =>
    obtain ⟨m, n, a, scene, w₀, hopen, hkeeps⟩ := ih
    exact ⟨m, n, a, scene, w₀, hopen, fun hI hs h => hI.execute number key (hkeeps hI hs h)⟩
  | record number measure _ ih =>
    obtain ⟨m, n, a, scene, w₀, hopen, hkeeps⟩ := ih
    exact ⟨m, n, a, scene, w₀, hopen, fun hI hs h => hI.record number measure (hkeeps hI hs h)⟩

theorem Reached.lived (h : w.Reached) : w.Lived := by
  induction h with
  | opened h => exact .opened h
  | step _ he happening ih => exact ih.step he.stirring happening

end World
end SessionAttributes
