import SessionAttributes.Proofs.Bundle
import SessionAttributes.Proofs.Session.Loads
import SessionAttributes.Proofs.View.Effects

namespace SessionAttributes

variable {V : Type}

/-- A value that is encoded and read back as an equal one. -/
def Faithful [BEq V] (m : Marshaller V) (value : V) : Prop :=
  ∃ bytes value', m.write value = .ok bytes ∧ m.read bytes = .ok value' ∧ value' == value

def Marshaller.bits : Marshaller Bool where
  write value := .ok [if value then 1 else 0]
  read bytes := .ok (bytes == [1])

theorem bits_faithful (value : Bool) : Faithful Marshaller.bits value := by
  cases value
  · exact ⟨[0], false, rfl, rfl, rfl⟩
  · exact ⟨[1], true, rfl, rfl, rfl⟩

namespace Scope

variable [BEq V] {m : Marshaller V} {s : Scope V}

/-- An entry decodes to a value equal to one that a view holds. -/
def Keeps (m : Marshaller V) (entry : Option Bytes) (value : V) : Prop :=
  ∃ value', Readable m entry value' ∧ value' == value

/-- The view holds what is stored: the same names, and equal values. -/
structure Mirrors (m : Marshaller V) (s : Scope V) : Prop where
  tidy : s.bundle.Tidy
  stored : s.stored = some s.bundle.names ∨ s.stored = none ∧ s.bundle = Bundle.empty
  read : ∀ {id value}, s.bundle.value? id = some value → Keeps m (s.entries id) value

theorem Mirrors.known (h : s.Mirrors m) : s.known = s.bundle.names := by
  unfold Scope.known
  rcases h.stored with hs | ⟨hs, _⟩
  · rw [hs]
    rfl
  · rw [hs]
    rfl

/-- A mirrored session is healthy. -/
theorem Mirrors.healthy (h : s.Mirrors m) {names : Names} (hs : s.stored = some names) :
    Healthy m names s.entries := by
  have hn : names = s.bundle.names := by
    rcases h.stored with hs' | ⟨hs', _⟩
    · exact Option.some.inj (hs.symm.trans hs')
    · rw [hs] at hs'
      cases hs'
  subst hn
  refine ⟨fun id hm => ?_, h.tidy.distinct.values_nodup⟩
  obtain ⟨name, hb⟩ := Dict.mem_values.mp hm
  obtain ⟨value, _, hv⟩ := h.tidy.get?_some hb
  obtain ⟨value', hr, _⟩ := h.read hv
  exact ⟨value', hr⟩

/-- A view over nothing mirrors a session with nothing stored. -/
theorem mirrors_empty (hs : s.stored = none) (hb : s.bundle = Bundle.empty) : s.Mirrors m := by
  refine ⟨hb ▸ Bundle.empty_tidy, .inr ⟨hs, hb⟩, fun {id value} hv => ?_⟩
  rw [hb] at hv
  cases hv

theorem Mirrors.announcing (h : s.Mirrors m) (activated : List AttributeId) :
    (s.announcing activated).Mirrors m := ⟨h.tidy, h.stored, h.read⟩

/-- A load of a mirrored session finds a bundle equal to what the view holds. -/
theorem Mirrors.loaded [PartialEquivBEq V] (h : s.Mirrors m) (session : SessionId) :
    ∃ b, s.loaded m session = some b ∧ b.equal s.bundle = true := by
  rcases h.stored with hs | ⟨hs, hb⟩
  · obtain ⟨b, hl, hn, hk, hr⟩ := (h.healthy hs).loaded hs session
    refine ⟨b, hl, ?_⟩
    simp only [Bundle.equal, Bool.and_eq_true, List.all_eq_true]
    refine ⟨⟨?_, ?_⟩, fun e he => ?_⟩
    · rw [hn]
      exact beq_self_eq_true _
    · have hp : (keysOf s.bundle.values).Perm s.bundle.names.values :=
        (List.perm_ext_iff_of_nodup h.tidy.unique h.tidy.distinct.values_nodup).mpr h.tidy.bound
      have hlen := hp.length_eq
      have hlen' := congrArg List.length hk
      simp only [keysOf, List.length_map, List.length_reverse] at hlen hlen'
      simp [hlen, hlen']
    · have hm : e.1 ∈ keysOf b.values := List.mem_map.mpr ⟨e, he, rfl⟩
      rw [hk, List.mem_reverse] at hm
      obtain ⟨name, hb⟩ := Dict.mem_values.mp hm
      obtain ⟨value, _, hv⟩ := h.tidy.get?_some hb
      obtain ⟨value', hr', heq⟩ := h.read hv
      rw [hv, (hr e he).unique hr']
      change (value == value') = true
      exact PartialEquivBEq.symm heq
  · refine ⟨Bundle.empty, by simp only [Scope.loaded, hs], ?_⟩
    rw [hb]
    rfl

section Write
variable {value : V} {bytes : Bytes}

/-- An entry and the value of its identifier are written together. -/
theorem keeps_setValue {b : Bundle V} {entries : AttributeId → Option Bytes} {id : AttributeId}
    (h : ∀ {k v}, b.value? k = some v → Keeps m (entries k) v) (hv : Keeps m (some bytes) value)
    {k : AttributeId} {v : V} (hk : (b.setValue id value).value? k = some v) :
    Keeps m (Function.update entries id (some bytes) k) v := by
  rw [Bundle.value?_setValue] at hk
  split at hk
  · rename_i he
    cases hk
    subst he
    rw [Function.update_self]
    exact hv
  · rename_i hne
    rw [Function.update_of_ne hne]
    exact h hk

theorem Mirrors.overwrite (h : s.Mirrors m) {name : String} {id : AttributeId}
    (hb : s.bundle.attributeId? name = some id) (hv : Keeps m (some bytes) value) :
    (s.overwrite value id bytes).Mirrors m := by
  refine ⟨h.tidy.setValue hb value, ?_, keeps_setValue h.read hv⟩
  rcases h.stored with hs | ⟨_, he⟩
  · exact Or.inl hs
  · rw [he] at hb
    cases hb

/-- Creating an attribute discards nothing, as its name is not bound in the store either. -/
theorem Mirrors.create_eq (h : s.Mirrors m) {name : String} (hb : s.bundle.attributeId? name = none)
    (id : AttributeId) :
    s.create name value id bytes = ((s.setEntry id (some bytes)).save
      (s.bundle.names.insert name id)).hold ((s.bundle.bindName name id).setValue id value) := by
  have hr : (s.known.get? name).filter (· != id) = none := by
    rw [h.known, show s.bundle.names.get? name = none from hb]
    rfl
  unfold Scope.create
  rw [hr, h.known]
  rfl

theorem Mirrors.create (h : s.Mirrors m) {name : String} {id : AttributeId}
    (hb : s.bundle.attributeId? name = none) (hid : id ∉ s.bundle.names.values)
    (hv : Keeps m (some bytes) value) : (s.create name value id bytes).Mirrors m := by
  rw [h.create_eq hb]
  have hread : ∀ {k v}, (s.bundle.bindName name id).value? k = some v → Keeps m (s.entries k) v :=
    h.read
  exact ⟨h.tidy.create hb hid value, Or.inl rfl, keeps_setValue hread hv⟩

end Write

theorem Mirrors.remove (h : s.Mirrors m) (name : String) : (s.remove name).2.Mirrors m := by
  unfold Scope.remove
  cases hb : s.bundle.attributeId? name with
  | none => exact h
  | some id =>
    refine ⟨h.tidy.drop hb, Or.inl ?_, fun {k v} hk => ?_⟩
    · change some (s.known.erase name) = some (s.bundle.names.erase name)
      rw [h.known]
    · change ((s.bundle.dropName name).dropValue id).value? k = some v at hk
      change Keeps m (Function.update s.entries id none k) v
      rw [Bundle.value?_dropValue] at hk
      split at hk
      · cases hk
      · rename_i hne
        rw [Function.update_of_ne hne]
        exact h.read hk

end Scope
end SessionAttributes
