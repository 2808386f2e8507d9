import SessionAttributes.Proofs.Procedure
import SessionAttributes.Proofs.World.Lasting

namespace SessionAttributes

variable {V σ α K T : Type}

namespace Metrics

def deeds (m : Metrics) : Metrics :=
  { m with cascadeEvictions := 0, passivationNotifications := 0, activationNotifications := 0 }

def tally (measures : List Measure) (m : Metrics) : Metrics :=
  measures.foldl (fun m measure => (m.record measure).deeds) m

theorem tally_append (measures measures' : List Measure) (m : Metrics) :
    tally (measures ++ measures') m = tally measures' (tally measures m) := List.foldl_append

theorem deeds_record (m : Metrics) (measure : Measure) :
    (m.record measure).deeds = (m.deeds.record measure).deeds := by
  cases measure with
  | sessionDeleted silent => cases silent <;> rfl
  | activationNotified direction => cases direction <;> rfl
  | _ => rfl

end Metrics

theorem Metrics.deeds_passing (m : Metrics) {measure : Measure} (h : measure.Passing) :
    (m.record measure).deeds = m.deeds := by
  cases measure with
  | activationNotified direction => cases direction <;> rfl
  | cascadeEviction => rfl
  | _ => cases h

namespace World

/-- The counters of operations on sessions, for each factory that counts. -/
def deeds (w : World V σ) (number : Nat) : Option Metrics :=
  ((w.factory? number).bind Factory.metrics).map Metrics.deeds

/-- A factory has counted some measures, and nobody has counted anything else. -/
def Counts (number : Nat) (measures : List Measure) (w w' : World V σ) : Prop :=
  ∀ k, w'.deeds k = if k = number then (w.deeds k).map (Metrics.tally measures) else w.deeds k

abbrev Uncounted (w w' : World V σ) : Prop := w'.deeds = w.deeds

variable {w w' w'' : World V σ} {number : Nat} {measures measures' : List Measure}

theorem Uncounted.counts (h : w.Uncounted w') : w.Counts number [] w' := by
  intro k
  rw [h]
  split
  · exact Option.map_id'.symm
  · rfl

theorem Counts.trans (h : w.Counts number measures w') (h' : w'.Counts number measures' w'') :
    w.Counts number (measures ++ measures') w'' := by
  intro k
  rw [h' k, h k]
  split
  · rw [Option.map_map]
    exact congrArg (Option.map · _) (funext fun m => (Metrics.tally_append ..).symm)
  · rfl

theorem deeds_changeFactory (w : World V σ) (number k : Nat) (change : Factory V → Factory V) :
    (w.changeFactory number change).deeds k = if number = k then
      ((w.factory? k).bind fun f => (change f).metrics).map Metrics.deeds else w.deeds k := by
  unfold deeds
  rw [factory?_changeFactory]
  split <;> cases w.factory? k <;> rfl

theorem record_counts (w : World V σ) (number : Nat) (measure : Measure) :
    w.Counts number [measure] (w.record number measure) := by
  intro k
  rw [World.record, deeds_changeFactory]
  by_cases hk : number = k
  · rw [if_pos hk, if_pos hk.symm]
    unfold deeds
    cases hf : w.factory? k with
    | none => rfl
    | some f =>
      cases hm : f.metrics with
      | none => simp [hm]
      | some counters => simp [hm, Metrics.tally, ← Metrics.deeds_record]
  · rw [if_neg hk, if_neg fun h => hk h.symm]

/-- What leaves the counters of a factory as they are counts no operation. -/
theorem deeds_change (w : World V σ) (number : Nat) {change : Factory V → Factory V}
    (hc : ∀ f, (change f).metrics = f.metrics) :
    (w.changeFactory number change).deeds = w.deeds := by
  funext k
  rw [deeds_changeFactory]
  split
  · simp only [hc]
    rfl
  · rfl

/-- Operations are counted by what they record, and by nothing that happens inside a call. -/
theorem deeds_lasting (counters : Nat → Option Metrics) :
    Lasting fun w : World V σ => w.deeds = counters where
  metadata _ := id
  names _ := id
  attributes _ := id
  listeners _ _ _ := id
  rest _ _ _ := id
  execute {w} number _ h := by
    refine (deeds_change w number ?_).trans h
    exact fun _ => rfl
  duty {w} number _ hc h := (deeds_change w number hc).trans h
  passing {w} number _ hm h := by
    refine Eq.trans (funext fun k => ?_) h
    rw [World.record, deeds_changeFactory]
    split
    · unfold deeds
      cases hf : w.factory? k with
      | none => rfl
      | some f =>
        cases hm' : f.metrics with
        | none => simp [hm']
        | some counters => simp [hm', Metrics.deeds_passing _ hm]
    · rfl

end World

/-- Surroundings that count no operation, whoever they tell. -/
abbrev Surroundings.Discreet (env : Surroundings V σ) : Prop := env.Leaves World.Uncounted

theorem Surroundings.quiet_discreet (m : Marshaller V) (draw : Nat → AttributeId) :
    (Surroundings.quiet (σ := σ) m draw).Discreet := Surroundings.quiet_leaves m draw fun _ => rfl

theorem Surroundings.Discreet.observes {env : Surroundings V σ} (hd : env.Discreet)
    (counters : Nat → Option Metrics) : env.Observes fun w => w.deeds = counters :=
  hd.mono fun hu h => hu.trans h

def Action.measures : Action V → List Measure
  | .record measure => [measure]
  | _ => []

/-- An action counts what it records and nothing else. -/
theorem World.perform_counts {env : Surroundings V σ} (hd : env.Discreet) (w : World V σ)
    (actor : World.Actor) (action : Action V) :
    w.Counts actor.factory action.measures (w.perform env actor action).2 := by
  cases action with
  | record measure => exact record_counts w actor.factory measure
  | _ =>
    exact Uncounted.counts ((deeds_lasting w.deeds).perform (hd.observes _) actor _ nofun rfl)

/-- The rule of surroundings that may answer anything. Its state lists what was counted so far. -/
def Rule.counting : Rule V (List Measure) :=
  fun action counted post => ∀ answer, post answer (counted ++ action.measures)

/-- A procedure counts what it records. -/
theorem World.carryOut_counts {env : Surroundings V σ} (hd : env.Discreet) (actor : World.Actor)
    {q : Procedure V α} {post : α → List Measure → Prop} {counted : List Measure}
    (h : q.Secures Rule.counting post counted) (w : World V σ) :
    ∃ measures, post (w.carryOut env actor q).1 (counted ++ measures) ∧
      w.Counts actor.factory measures (w.carryOut env actor q).2 := by
  induction q generalizing w counted with
  | done result => exact ⟨[], by rwa [List.append_nil], Uncounted.counts rfl⟩
  | act action next ih =>
    obtain ⟨measures, hpost, hcounts⟩ := ih _ (h _) (w.perform env actor action).2
    refine ⟨action.measures ++ measures, ?_, (perform_counts hd w actor action).trans hcounts⟩
    rw [← List.append_assoc]
    exact hpost

end SessionAttributes
