import SessionAttributes.Proofs.World.Tally
import SessionAttributes.Session
import SessionAttributes.View

namespace SessionAttributes

variable {V α : Type}

abbrev Action.Silent (action : Action V) : Prop := action.measures = []

namespace Attempt

variable {post : α → List Measure → Prop} {fails : SessionError → List Measure → Prop}
  {counted : List Measure}

theorem counts_nothing {x : Attempt V α} (h : x.Asks Action.Silent) (hp : ∀ a, post a counted)
    (hf : ∀ e, fails e counted) : x.Secures Rule.counting post fails counted := by
  have hends : ∀ r, Ends post fails r counted := by
    rintro (e | a)
    · exact hf e
    · exact hp a
  unfold Attempt.Asks at h
  unfold Attempt.Secures
  generalize x.run = q at h
  induction q with
  | done result => exact hends result
  | act action next ih =>
    intro answer
    rw [h.1, List.append_nil]
    exact ih answer (h.2 answer)

theorem record_counts {measure : Measure} {post : Unit → List Measure → Prop}
    (h : post () (counted ++ [measure])) :
    (Attempt.record measure : Attempt V Unit).Secures Rule.counting post fails counted :=
  fun _ => h

end Attempt

namespace Index

theorem removeEntries_silent (session : SessionId) (mode : AccessMode) (ids : List AttributeId) :
    (removeEntries session mode ids : Attempt V Unit).Asks Action.Silent := by
  induction ids with
  | nil => exact Attempt.asks_pure ()
  | cons id rest ih => exact Attempt.asks_bind (Attempt.asks_attributes rfl) fun _ => ih

theorem discardEntry_silent (session : SessionId) (id : AttributeId) :
    (discardEntry session id : Attempt V Unit).Asks Action.Silent := by
  refine Attempt.asks_bind (Attempt.asks_tryCatch ?_ fun _ => Attempt.asks_pure _) fun _ => ?_
  · exact Attempt.asks_bind (Attempt.asks_bind (Attempt.asks_attributes rfl)
      fun _ => Attempt.asks_pure ()) fun _ => Attempt.asks_pure _
  · rename_i e
    cases e <;> exact Attempt.asks_pure ()

end Index

namespace Session

variable {session : SessionId} {fails : SessionError → List Measure → Prop}
  {counted : List Measure}

/-- A deletion is counted if it succeeds. -/
theorem delete_counts (deletion : Deletion) {post : Bool → List Measure → Prop}
    (hp : post true (counted ++ [.sessionDeleted deletion.isSilent]))
    (hf : ∀ e, fails e counted) :
    (delete session deletion : Attempt V Bool).Secures Rule.counting post fails counted := by
  have hend : Attempt.Secures (V := V) Rule.counting post fails (do
      Attempt.record (.sessionDeleted deletion.isSilent)
      return true) counted := Attempt.Secures.bind (Attempt.record_counts hp)
  unfold delete
  refine Attempt.Secures.bind (Attempt.counts_nothing (Attempt.asks_ensureOpen rfl) ?_ hf)
  intro _
  refine Attempt.Secures.bind (Attempt.counts_nothing (Attempt.asks_names rfl) ?_ hf)
  rintro (_ | names)
  · exact hend
  · exact Attempt.Secures.bind
      (Attempt.counts_nothing (Index.removeEntries_silent _ _ _) (fun _ => hend) hf)

def Tallied (repair : Bool) : Except SessionError (Option (Bundle V)) → List Measure → Prop
  | .ok (some b), measures => measures = [.sessionLoaded b.names.size]
  | .ok none, measures =>
    measures = if repair then [.sessionCorrupt, .sessionDeleted true] else [.sessionCorrupt]
  | .error _, measures => measures = [] ∨ measures = [.sessionCorrupt]

/-- A load is counted if it finds a bundle, a corrupt session as such, and its purge if that
succeeds. -/
theorem load_counts (session : SessionId) (repair : Bool) :
    (load session repair : Attempt V _).run.Secures Rule.counting (Tallied repair) [] := by
  have hf : ∀ e, Tallied repair (.error e : Except _ (Option (Bundle V))) [] := fun _ => .inl rfl
  rw [Attempt.secures_run]
  unfold load
  refine Attempt.Secures.bind (Attempt.counts_nothing (Attempt.asks_ensureOpen rfl) ?_ hf)
  intro _
  refine Attempt.Secures.bind (Attempt.counts_nothing (Attempt.asks_names rfl) ?_ hf)
  rintro (_ | names)
  · exact Attempt.Secures.bind (Attempt.record_counts rfl)
  refine Attempt.Secures.bind (Attempt.counts_nothing (Attempt.asks_attributes rfl) ?_ hf)
  intro entries
  refine Attempt.Secures.bind
    (Attempt.counts_nothing (Attempt.asks_decodeEntries (fun _ => rfl) ..) ?_ hf)
  rintro (_ | values)
  · refine Attempt.Secures.bind (Attempt.record_counts ?_)
    cases repair with
    | false => rfl
    | true => exact Attempt.Secures.bind (delete_counts .purge rfl fun _ => .inr rfl)
  · exact Attempt.Secures.bind (Attempt.record_counts rfl)

end Session

namespace View

variable [BEq V]

theorem commit_silent (w : View V) (name : String) (value : V) (before : Option AttributeId)
    (previous : Option V) (id : AttributeId) :
    (w.commit name value before previous id).Asks Action.Silent := by
  refine Attempt.asks_bind (Attempt.asks_ask rfl) fun state => ?_
  dsimp only
  split
  · exact Attempt.asks_bind (Attempt.asks_ask rfl) fun _ => Attempt.asks_pure _
  · refine Attempt.asks_bind (Index.discardEntry_silent _ id) fun _ => ?_
    exact Attempt.asks_bind (Attempt.asks_ask rfl) fun _ => Attempt.asks_pure _
  · refine Attempt.asks_bind (Attempt.asks_tryCatch ?_ fun fault => ?_) fun _ => ?_
    · refine Attempt.asks_bind ?_ fun replaced => ?_
      · refine Attempt.asks_bind (Attempt.asks_names rfl) fun _ => ?_
        exact Attempt.asks_bind (Attempt.asks_bind (Attempt.asks_names rfl)
          fun _ => Attempt.asks_pure ()) fun _ => Attempt.asks_pure _
      · cases replaced with
        | none => exact Attempt.asks_pure ()
        | some replaced => exact Index.discardEntry_silent _ replaced
    · refine Attempt.asks_bind (Index.discardEntry_silent _ id) fun _ => ?_
      exact Attempt.asks_bind (Attempt.asks_ask rfl) fun _ => Attempt.asks_throw fault
    · exact Attempt.asks_bind (Attempt.asks_ask rfl) fun _ => Attempt.asks_pure _

/-- A write of a name that had no value is counted once. -/
theorem set_counts (w : View V) (name : String) (value : V) :
    (w.set name value).run.Secures Rule.counting
      (fun r measures => r = .ok none → measures = [.attributeWritten]) [] := by
  have hwrite : ∀ before previous id bytes, Attempt.Secures Rule.counting
      (fun r measures => Except.ok r = (Except.ok none : Except SessionError (Option V)) →
        measures = [Measure.attributeWritten])
      (fun e measures => Except.error e = (Except.ok none : Except SessionError (Option V)) →
        measures = [Measure.attributeWritten]) (do
      Index.saveEntry w.session id bytes
      Attempt.record .attributeWritten
      w.commit name value before previous id) [] := by
    intro before previous id bytes
    refine Attempt.Secures.bind (Attempt.counts_nothing ?_ (fun _ => ?_) fun _ => nofun)
    · exact Attempt.asks_bind (Attempt.asks_attributes rfl) fun _ => Attempt.asks_pure ()
    · refine Attempt.Secures.bind (Attempt.record_counts ?_)
      exact Attempt.counts_nothing (commit_silent w name value before previous id)
        (fun _ _ => rfl) fun _ => nofun
  rw [Attempt.secures_run]
  unfold View.set
  refine Attempt.Secures.bind (Attempt.counts_nothing (Attempt.asks_encode rfl) ?_ fun _ => nofun)
  intro bytes
  refine Attempt.Secures.bind (Attempt.counts_nothing ⟨rfl, fun _ => ⟨rfl, fun _ => trivial⟩⟩ ?_
    fun _ => nofun)
  intro state
  dsimp only
  split
  · -- A write that is skipped answers with the value that is bound already.
    rename_i hskip
    refine Attempt.Secures.bind (Attempt.record_counts fun hnone => ?_)
    rw [Except.ok.inj hnone] at hskip
    cases hskip
  · split
    · refine Attempt.Secures.bind ?_
      split
      · exact Attempt.Secures.bind (Attempt.counts_nothing (Attempt.asks_ask rfl)
          (fun _ => hwrite _ _ _ bytes) fun _ => nofun)
      · exact hwrite _ _ _ bytes
    · refine Attempt.Secures.bind (Attempt.counts_nothing (Attempt.asks_ask rfl) (fun id => ?_)
        fun _ => nofun)
      split
      · exact Attempt.Secures.bind (Attempt.counts_nothing (Attempt.asks_ask rfl)
          (fun _ => hwrite _ _ id bytes) fun _ => nofun)
      · exact hwrite _ _ id bytes

end View
end SessionAttributes
