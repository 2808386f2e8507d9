import SessionAttributes.Proofs.World.Reaction

namespace SessionAttributes

variable {W K T E : Type}

namespace Store
variable [DecidableEq K] [ShardKey K]

def heard (s : Store K T) (calls : List (StoreCall K T)) : List (K × T) :=
  if s.persistent then [] else s.departures calls

theorem heard_nil (s : Store K T) : s.heard [] = [] := ite_self []

theorem heard_append (s : Store K T) (calls calls' : List (StoreCall K T)) :
    s.heard (calls ++ calls') = s.heard calls ++ (s.after calls).heard calls' := by
  unfold heard
  rw [after_persistent, departures_append]
  split <;> rfl

end Store

namespace Place

/-- What the listeners of a store make of an entry that leaves primary memory. -/
def replies (listeners : List Subscriber) (echo : Subscriber → Event K T → List E) (e : K × T) :
    List E :=
  (listeners.flatMap fun hearer => echo hearer (.prePassivate e.1 e.2)) ++
    listeners.flatMap fun hearer => echo hearer (.postPassivate e.1)

/-- Listeners who leave their own store alone, and what each of them makes of an event. A relation
tells which worlds may follow on one another, and what was made of the events in between. -/
structure Echoes (place : Place W K T) (tell : Tell W K T) (R : W → W → List E → Prop)
    (echo : Subscriber → Event K T → List E) : Prop where
  refl : ∀ w, R w w []
  trans : ∀ {w w' w'' l l'}, R w w' l → R w' w'' l' → R w w'' (l ++ l')
  site : ∀ {w w' l}, R w w' l → place.get w' = place.get w
  withStore : ∀ {w w' l} store, R w w' l → R (place.withStore w store) (place.withStore w' store) l
  lawful : place.Lawful
  rewritten : ∀ w site site', place.set (place.set w site) site' = place.set w site'
  kept : ∀ w, place.set w (place.get w) = w
  tell : ∀ hearer event w, R w (tell hearer event w) (echo hearer event)
  still : ∀ {notice : Notice K T}, notice.departure? = none → ∀ event ∈ notice.rounds,
    ∀ hearer, echo hearer event = []

namespace Echoes

variable {place : Place W K T} {tell : Tell W K T} {R : W → W → List E → Prop}
  {echo : Subscriber → Event K T → List E}

theorem reacts (h : place.Echoes tell R echo) : place.Reacts tell R echo :=
  ⟨h.refl, h.trans, h.site, h.withStore, h.lawful, h.rewritten, h.kept, h.tell⟩

/-- Of a notice its departure is heard, if it tells of one. -/
theorem reactions_rounds (h : place.Echoes tell R echo) (listeners : List Subscriber)
    (notice : Notice K T) :
    reactions echo listeners notice.rounds =
      (departuresIn [notice]).flatMap (replies listeners echo) := by
  cases hn : notice.departure? with
  | none =>
    have hquiet : departuresIn [notice] = [] := by simp [departuresIn, hn]
    rw [hquiet]
    refine List.flatMap_eq_nil_iff.mpr fun event he => ?_
    exact List.flatMap_eq_nil_iff.mpr fun hearer _ => h.still hn event he hearer
  | some e =>
    cases notice with
    | passivated key value => simp [Notice.rounds, replies, reactions]
    | _ => cases hn

/-- Departures are heard unless the store keeps them to itself. -/
theorem reactions_announced (h : place.Echoes tell R echo) (listeners : List Subscriber)
    (s : Store K T) (notices : List (Notice K T)) :
    reactions echo listeners (s.announced notices) =
      (if s.persistent then [] else departuresIn notices).flatMap (replies listeners echo) := by
  induction notices with
  | nil => simp [Store.announced, reactions]
  | cons notice notices ih =>
    have hfirst : reactions echo listeners (s.announced [notice]) =
        (if s.persistent then [] else departuresIn [notice]).flatMap (replies listeners echo) := by
      rw [Store.announced_single]
      cases hp : s.persistent with
      | false =>
        rw [if_pos (by cases notice <;> simp [Store.announces, hp]), h.reactions_rounds]
        rfl
      | true =>
        split
        · rename_i ha
          have hquiet : departuresIn [notice] = [] := by
            cases notice <;> simp [Store.announces, hp, departuresIn, Notice.departure?] at ha ⊢
          rw [h.reactions_rounds, hquiet]
          rfl
        · rfl
    have hboth : departuresIn (notice :: notices) =
        departuresIn [notice] ++ departuresIn notices :=
      List.filterMap_append (f := Notice.departure?) (l := [notice])
    rw [← List.singleton_append, Store.announced_append, reactions_append, hfirst, ih,
      ← List.flatMap_append, List.singleton_append, hboth]
    split <;> rfl

variable [DecidableEq K] [ShardKey K]

theorem reactions_news (h : place.Echoes tell R echo) (listeners : List Subscriber) (s : Store K T)
    (calls : List (StoreCall K T)) :
    reactions echo listeners (s.news calls) =
      (s.heard calls).flatMap (replies listeners echo) := by
  induction calls generalizing s with
  | nil =>
    rw [Store.heard_nil]
    rfl
  | cons call calls ih =>
    have hone : s.heard [call] = if s.persistent then [] else departuresIn (call.step s).2 := by
      rw [Store.heard, Store.departures, Store.departures, List.append_nil]
    have hall := s.heard_append [call] calls
    rw [List.singleton_append] at hall
    rw [Store.news, reactions_append, h.reactions_announced, ih, hall, hone, List.flatMap_append]
    rfl

/-- Calls that are settled one after the other. -/
theorem next (h : place.Echoes tell R echo) {w w' w'' : W} {calls calls' : List (StoreCall K T)}
    (hfirst : R (place.withStore w ((place.get w).store.after calls)) w'
      (((place.get w).store.heard calls).flatMap
        (replies (place.get w).listeners.snapshot echo)))
    (hthen : R (place.withStore w' ((place.get w').store.after calls')) w''
      (((place.get w').store.heard calls').flatMap
        (replies (place.get w').listeners.snapshot echo))) :
    R (place.withStore w ((place.get w).store.after (calls ++ calls'))) w''
      (((place.get w).store.heard (calls ++ calls')).flatMap
        (replies (place.get w).listeners.snapshot echo)) := by
  rw [← h.reactions_news] at hfirst hthen ⊢
  exact h.reacts.next hfirst hthen

/-- After a call the store has settled the calls on single keys that it is made of, and their
departures were heard. -/
theorem serve (h : place.Echoes tell R echo) (w : W) (call : StoreCall K T) :
    R (place.withStore w ((place.get w).store.after call.parts)) (place.serve tell w call).2
      (((place.get w).store.heard call.parts).flatMap
        (replies (place.get w).listeners.snapshot echo)) := by
  rw [← h.reactions_news]
  exact h.reacts.serve w call

end Echoes
end Place
end SessionAttributes
