import SessionAttributes.Proofs.View.OnMap

namespace SessionAttributes

variable {V : Type}

namespace Scope

variable {m : Marshaller V} {names : Names} {entries : AttributeId → Option Bytes}

theorem Healthy.setEntry (h : Healthy m names entries) {bytes : Bytes}
    (hr : ∃ value, m.read bytes = .ok value) (id : AttributeId) :
    Healthy m names (Function.update entries id (some bytes)) := by
  refine ⟨fun k hk => ?_, h.distinct⟩
  by_cases he : k = id
  · subst he
    obtain ⟨value, hv⟩ := hr
    rw [Function.update_self]
    exact ⟨value, bytes, rfl, hv⟩
  · rw [Function.update_of_ne he]
    exact h.readable k hk

theorem Healthy.erase (h : Healthy m names entries) (name : String) :
    Healthy m (names.erase name) entries := by
  refine ⟨fun id hm => h.readable id (Dict.mem_values_erase hm), ?_⟩
  refine Dict.Injective.values_nodup fun k k' id hb hb' => ?_
  exact Dict.injective_of_nodup h.distinct (Dict.get?_erase_eq_some.mp hb).2
    (Dict.get?_erase_eq_some.mp hb').2

def Loadable (m : Marshaller V) (s : Scope V) : Prop :=
  ∀ names, s.stored = some names → Healthy m names s.entries

theorem Mirrors.loadable [BEq V] {s : Scope V} (h : s.Mirrors m) : s.Loadable m :=
  fun _ hs => h.healthy hs

theorem Keeps.reads [BEq V] {bytes : Bytes} {value : V} (h : Keeps m (some bytes) value) :
    ∃ value, m.read bytes = .ok value := by
  obtain ⟨value', ⟨_, ⟨⟩, hr⟩, -⟩ := h
  exact ⟨value', hr⟩

theorem Loadable.setEntry {s : Scope V} (h : s.Loadable m) {bytes : Bytes}
    (hr : ∃ value, m.read bytes = .ok value) (id : AttributeId) :
    (s.setEntry id (some bytes)).Loadable m :=
  fun names hs => (h names hs).setEntry hr id

end Scope

/-- No call fails, what is stored decodes, and the names that are stored can be loaded. One
identifier may be drawn. -/
def Terms.steady (m : Marshaller V) (fresh : AttributeId) : Terms V where
  failing := False
  draws _ id := id = fresh
  permits _ call := ∀ key bytes mode, call = .put key bytes mode → ∃ value, m.read bytes = .ok value
  keeps := Scope.Loadable m

namespace View

variable [BEq V] {m : Marshaller V} {s : Scope V} {w : View V} {name : String} {value : V}
  {fresh id : AttributeId} {bytes : Bytes}

theorem overwrite_steady (h : s.Mirrors m) {previous : Option V}
    (hb : s.bundle.attributeId? name = some id) (hv : Scope.Keeps m (some bytes) value) :
    Writes (Terms.steady m fresh) m w name value (fun _ s => s.Mirrors m) (fun _ s => s.Mirrors m)
      (some id) previous id bytes s := by
  have hwritten : (s.setEntry id (some bytes)).Loadable m := h.loadable.setEntry hv.reads id
  refine (Index.secures_saveEntry id bytes _).mpr ⟨?_, False.elim, hwritten, ?_⟩
  · rintro _ _ _ ⟨⟩
    exact hv.reads
  · refine commit_current hb fun activated => ?_
    have hdone := (h.overwrite hb hv).announcing activated
    exact ⟨hdone.loadable, hdone⟩

/-- The name is stored only after its entry. -/
theorem create_steady (h : s.Mirrors m) {previous : Option V}
    (hb : s.bundle.attributeId? name = none) (hid : id ∉ s.bundle.names.values)
    (hv : Scope.Keeps m (some bytes) value) :
    Writes (Terms.steady m fresh) m w name value (fun _ s => s.Mirrors m) (fun _ s => s.Mirrors m)
      none previous id bytes s := by
  have hwritten : (s.setEntry id (some bytes)).Loadable m := h.loadable.setEntry hv.reads id
  have hcreated := h.create hb hid hv
  have hfree : (s.known.get? name).filter (· != id) = none := by
    rw [h.known, show s.bundle.names.get? name = none from hb]
    rfl
  have hbound : ((s.setEntry id (some bytes)).save (s.known.insert name id)).Loadable m := by
    rw [h.known]
    rw [h.create_eq hb] at hcreated
    exact hcreated.loadable
  refine (Index.secures_saveEntry id bytes _).mpr ⟨?_, False.elim, hwritten, ?_⟩
  · rintro _ _ _ ⟨⟩
    exact hv.reads
  · refine commit_free hb hwritten hbound False.elim (fun replaced hr => ?_) fun activated => ?_
    · cases hfree.symm.trans hr
    · have hdone := hcreated.announcing activated
      exact ⟨hdone.loadable, hdone⟩

theorem set_steady (h : s.Mirrors m) (hv : Faithful m value) (hf : fresh ∉ s.bundle.names.values) :
    (w.set name value).Secures ((Terms.steady m fresh).rule m w.session)
      (fun _ s => s.Mirrors m) (fun _ s => s.Mirrors m) s := by
  refine set_secures h.loadable (fun _ _ => h) (fun _ _ _ => h) ?_ ?_
  · exact fun bytes id hw _ hb => overwrite_steady h hb (hv.keeps hw)
  · rintro bytes id hw - hb rfl
    have hdrawn : Scope.Mirrors m { s with drawn := s.drawn + 1 } := ⟨h.tidy, h.stored, h.read⟩
    exact ⟨hdrawn.loadable, create_steady hdrawn hb hf (hv.keeps hw)⟩

/-- The entry is deleted only after its name. -/
theorem remove_steady (h : s.Mirrors m) :
    (w.remove name).Secures ((Terms.steady m fresh).rule m w.session)
      (fun _ s => s.Mirrors m) (fun _ s => s.Mirrors m) s := by
  refine remove_secures h.loadable (fun _ => h) fun id hb => ?_
  have hstored : s.stored = some s.bundle.names :=
    h.stored.resolve_right fun hn => h.stored_of_bound hb hn.1
  have hunbound : (s.save (s.known.erase name)).Loadable m := by
    rintro _ ⟨⟩
    rw [h.known]
    exact (h.healthy hstored).erase name
  have hremoved := h.remove name
  simp only [Scope.remove, hb] at hremoved
  refine ⟨False.elim, hunbound, fun activated => ?_⟩
  have hdone := hremoved.announcing activated
  refine ⟨hunbound, fun _ _ _ hput => ?_, False.elim, hdone.loadable, hdone⟩
  cases hput

/-- An operation of a view that mirrors its session keeps it loadable all the time, and mirrors it
in the end. -/
theorem procedure_steady (h : s.Mirrors m) {call : ViewCall V}
    (hv : ∀ value, call.written s.bundle = some value → Faithful m value)
    (hf : fresh ∉ s.bundle.names.values) :
    (call.procedure w).Secures ((Terms.steady m fresh).rule m w.session)
      (fun _ s => s.Mirrors m) s := by
  cases call with
  | get name =>
    exact get_secures fun activated => ⟨h.loadable, h.announcing activated⟩
  | names => exact names_secures h.loadable h
  | snapshot => exact snapshot_secures h.loadable h
  | set name value => exact Attempt.Secures.run (set_steady h (hv value rfl) hf)
  | update name change =>
    refine Attempt.Secures.run (update_secures h.loadable (fun _ => h) fun value hg => ?_)
    refine set_steady h (hv _ ?_) hf
    simp only [ViewCall.written, hg, Option.map_some]
  | remove name => exact Attempt.Secures.run (remove_steady h)

end View
end SessionAttributes
