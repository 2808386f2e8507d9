import SessionAttributes.Proofs.World.Enrolment
import SessionAttributes.Proofs.World.Journal

namespace SessionAttributes

variable {V σ : Type}

/-- Whether a line is a call that reached the attribute store, or a callback of a factory. -/
def Line.concerns (number : Nat) : Line V → Bool
  | .asked (.attributes _) none => true
  | .called callback => callback.factory = number
  | _ => false

theorem Line.concerns_of_tells {number : Nat} {direction : Direction} {line : Line V}
    (h : line.tells number direction = true) : line.concerns number = true := by
  cases line with
  | called callback => exact decide_eq_true (of_decide_eq_true h).1
  | _ => cases h

def Heard.isAttributes : Heard → Bool
  | .attributes _ => true
  | _ => false

namespace Happening

def callsAttributes : Happening V → Bool
  | .act _ (.attributes _) | .work _ (.finish _) => true
  | _ => false

/-- What may happen while a factory is open. Callbacks are counted where they are raised only. -/
def Routine (number : Nat) (happening : Happening V) : Prop :=
  happening ≠ .stop number ∧
    ∀ actor direction, happening ≠ .act actor (.record (.activationNotified direction))

end Happening

/-- Surroundings that keep a journal. The provider of one factory does not call back; everybody else
may, and a relation tells what that leads to. It may differ while events of the attribute store are
announced. -/
structure Surroundings.Takes (env : Surroundings V σ) (m : Marshaller V)
    (read : σ → List (Line V)) (number : Nat) (R : Bool → World V σ → World V σ → Prop) : Prop
    extends env.Books m read where
  own : ∀ callback w, callback.factory = number →
    World.Written read w (env.callback callback w) [.called callback]
  others : ∀ callback w, callback.factory ≠ number → R true w (env.callback callback w)
  hear : ∀ k heard w, R heard.isAttributes w (env.hear k heard w)

namespace World

/-- What may have happened when a callback returns, while a factory is open. If the attribute store
is `spared`, no call of it was made. If it is not, its calls took turns: none was made while the events
of another one were announced. -/
inductive Alternates (m : Marshaller V) (read : σ → List (Line V)) (number : Nat) :
    Bool → World V σ → World V σ → Prop
  | note {spared : Bool} {w w' : World V σ} {lines : List (Line V)} (h : w.Written read w' lines)
      (hq : ∀ line ∈ lines, line.concerns number = false) : Alternates m read number spared w w'
  | trans {spared : Bool} {w w' w'' : World V σ} (h : Alternates m read number spared w w')
      (h' : Alternates m read number spared w' w'') : Alternates m read number spared w w''
  | happen {spared : Bool} {env : Surroundings V σ} (books : env.Books m read)
      (own : ∀ callback w, callback.factory = number →
        World.Written read w (env.callback callback w) [.called callback])
      (others : ∀ callback w, callback.factory ≠ number →
        Alternates m read number true w (env.callback callback w))
      (hear : ∀ k heard w,
        Alternates m read number (heard.isAttributes || spared) w (env.hear k heard w))
      (w : World V σ) {happening : Happening V} (hr : happening.Routine number)
      (hs : spared = true → happening.callsAttributes = false) :
      Alternates m read number spared w (w.happen env happening)

end World

/-- Surroundings in which the calls of the attribute store take turns. -/
abbrev Surroundings.TakesTurns (env : Surroundings V σ) (m : Marshaller V)
    (read : σ → List (Line V)) (number : Nat) : Prop :=
  env.Takes m read number (World.Alternates m read number)

section Taking
variable {env : Surroundings V σ} {m : Marshaller V} {read : σ → List (Line V)} {number : Nat}

theorem Surroundings.Takes.mono {R R' : Bool → World V σ → World V σ → Prop}
    (h : env.Takes m read number R) (hr : ∀ {spared w w'}, R spared w w' → R' spared w w') :
    env.Takes m read number R' :=
  ⟨h.toBooks, h.own, fun callback w hn => hr (h.others callback w hn),
    fun k heard w => hr (h.hear k heard w)⟩

/-- Where nobody calls back, the calls take turns. -/
theorem Surroundings.Journals.takesTurns (hj : env.Journals m read) (number : Nat) :
    env.TakesTurns m read number where
  toBooks := hj.toBooks
  own callback w _ := hj.callback callback w
  others callback w hn :=
    .note (hj.callback callback w) (List.forall_mem_singleton.mpr (decide_eq_false hn))
  hear k heard w := .note (hj.hear k heard w) (List.forall_mem_singleton.mpr rfl)

end Taking

namespace World

variable {w : World V σ}

/-- The factories that are open listen, the attribute store keeps to its options, and the views
leave the callbacks to the factories. -/
structure Tuned (w : World V σ) : Prop where
  regular : w.Regular
  kept : ∃ options, w.attributes.store.Kept options
  mute : w.Mute

theorem tuned_perennial : Perennial (Tuned : World V σ → Prop) where
  metadata hs h := ⟨regular_perennial.metadata hs h.regular, h.kept, h.mute⟩
  names hs h := ⟨regular_perennial.names hs h.regular, h.kept, h.mute⟩
  attributes hs h := ⟨regular_perennial.attributes hs h.regular,
    h.kept.imp fun _ hk => hs.kept hk, mute_perennial.attributes hs h.mute⟩
  execute k key h := ⟨regular_perennial.execute k key h.regular, h.kept, h.mute⟩
  record k measure h := ⟨regular_perennial.record k measure h.regular, h.kept, h.mute⟩
  rest views drawn scene hm h :=
    ⟨regular_perennial.rest views drawn scene hm h.regular, h.kept, hm h.mute⟩
  observe shelf k h := ⟨regular_perennial.observe shelf k h.regular,
    by cases shelf <;> exact h.kept, mute_perennial.observe shelf k h.mute⟩
  unobserve shelf id h := ⟨regular_perennial.unobserve shelf id h.regular,
    by cases shelf <;> exact h.kept, mute_perennial.unobserve shelf id h.mute⟩
  openFactory {w} options immutability context counts h := by
    refine ⟨regular_perennial.openFactory options immutability context counts h.regular, ?_,
      mute_perennial.openFactory options immutability context counts h.mute⟩
    rcases opened_enters w options immutability context counts with he | ⟨f, -, -, -, he⟩
    · rw [he]
      exact h.kept
    · rw [he]
      unfold enter
      dsimp only
      split <;> exact h.kept

theorem Tuned.work (h : w.Tuned) (number : Nat)
    {work : Executor AttributeKey → Executor AttributeKey}
    (hx : ∀ {e : Executor AttributeKey} {isOpen}, e.Serves isOpen → (work e).Serves isOpen) :
    (w.changeFactory number fun f => { f with executor := work f.executor }).Tuned :=
  ⟨h.regular.change number (fun _ => ⟨rfl, rfl⟩) fun _ => hx, h.kept, h.mute⟩

theorem Tuned.stop (h : w.Tuned) (number : Nat) : (w.stop number).Tuned := by
  refine ⟨h.regular.stop number, ?_, stop_mute h.mute number⟩
  rcases stop_still w number with hsame | ⟨f, hf, ho⟩
  · rw [hsame]
    exact h.kept
  · rw [(stop_stores hf ho).2.2]
    exact h.kept

theorem Lived.tuned (h : w.Lived) : w.Tuned := by
  obtain ⟨_, _, options, hplaced⟩ := h.placed
  exact ⟨h.regular, ⟨options, hplaced.attributes⟩, h.mute⟩

end World
end SessionAttributes
