import SessionAttributes.Proofs.Session.Reloading
import SessionAttributes.Proofs.Session.Strays
import SessionAttributes.Proofs.Simulation.Workload

namespace SessionAttributes.Scope

variable {V : Type} {m : Marshaller V} {s : Scope V} {size : Nat} {intact : Bool}

/-- A session has so many attributes and no other entries. It loads as long as it is intact. -/
structure Stocked (m : Marshaller V) (size : Nat) (intact : Bool) (s : Scope V) : Prop where
  absent : size = 0 → s.stored = none
  size : s.listed.size = size
  covered : s.Covered
  loads : ∀ session, (s.loaded m session).isSome = intact

theorem stocked_nothing (hs : s.stored = none) (he : ∀ id, s.entries id = none) :
    s.Stocked m 0 true := by
  refine ⟨fun _ => hs, ?_, covered_of_bare he, fun session => ?_⟩
  · rw [listed, hs]
    rfl
  · rw [(loaded_verdict s m session).absent hs]
    rfl

/-- A session without attributes has nothing stored. -/
theorem Stocked.nothing (h : s.Stocked m 0 intact) :
    s.stored = none ∧ ∀ id, s.entries id = none := by
  refine ⟨h.absent rfl, fun id => ?_⟩
  by_contra hid
  have hm := h.covered id hid
  rw [listed, h.absent rfl] at hm
  cases hm

theorem Stocked.loaded (h : s.Stocked m size true) (session : SessionId) :
    ∃ b, s.loaded m session = some b ∧ b.names.size = size := by
  obtain ⟨b, hb⟩ := Option.isSome_iff_exists.mp (h.loads session)
  refine ⟨b, hb, ?_⟩
  rw [loaded_names hb]
  exact h.size

theorem Stocked.lost (h : s.Stocked m size false) (session : SessionId) :
    s.loaded m session = none := Option.not_isSome_iff_eq_none.mp (by simp [h.loads session])

theorem Stocked.purged (h : s.Stocked m size intact) : s.purged.Stocked m 0 true :=
  stocked_nothing rfl h.covered.purged

/-- The first of the attributes cannot be read any more. -/
theorem Stocked.spoil (h : s.Stocked m (size + 1) intact) {bytes : Bytes} {fault : SessionError}
    (hr : m.read bytes = .error fault) :
    ∃ id, (s.stored.bind fun names => names.values.head?) = some id ∧
      (s.setEntry id (some bytes)).Stocked m (size + 1) false := by
  have hlength : s.listed.values.length = size + 1 := (List.length_map _).trans h.size
  obtain ⟨id, rest, hids⟩ := List.exists_cons_of_length_eq_add_one hlength
  have hid : id ∈ s.listed.values := hids ▸ List.mem_cons_self
  have hfirst : (s.stored.bind fun names => names.values.head?) = some id := by
    have hlisted : s.listed.values.head? = some id := congrArg List.head? hids
    rw [listed] at hlisted
    cases hs : s.stored with
    | none =>
      rw [hs] at hlisted
      cases hlisted
    | some names =>
      rw [hs] at hlisted
      exact hlisted
  refine ⟨id, hfirst, fun he => absurd he (Nat.succ_ne_zero size), h.size,
    h.covered.setEntry hid _, fun session => ?_⟩
  rw [Option.isSome_eq_false_iff, Option.isNone_iff_eq_none]
  obtain ⟨name, hname⟩ := Dict.mem_values.mp hid
  by_contra hloads
  have hall := ((loaded_isSome_iff _ m session).mp (Option.isSome_iff_ne_none.mpr hloads)).2 name
  have hlisted : (s.setEntry id (some bytes)).listed.get? name = some id := hname
  rw [reads_of_listed hlisted, hlisted] at hall
  obtain ⟨value, hv⟩ := Option.isSome_iff_exists.mp (hall rfl)
  obtain ⟨entry, he, hread⟩ := Marshaller.decoded_eq_some.mp hv
  cases (Function.update_self (β := fun _ => Option Bytes) id (some bytes) s.entries).symm.trans he
  cases hr.symm.trans hread

end SessionAttributes.Scope

namespace SessionAttributes

open Simulation

/-- A view has written some attributes of a session, each with an identifier of its own, and nothing
else is stored. -/
structure Scope.Filled (draw : Nat → AttributeId) (first count : Nat) (s : Scope Json) : Prop where
  mirrors : s.Mirrors Frame.marshaller
  absent : count = 0 → s.stored = none
  covered : s.Covered
  size : s.bundle.names.size = count
  bound : ∀ name, s.bundle.attributeId? name ≠ none → ∃ n < count, name = attributeName n
  given : ∀ id ∈ s.bundle.names.values, ∃ n < count, id = draw (first + n)
  drawn : s.drawn = first + count

namespace Scope.Filled

variable {draw : Nat → AttributeId} {first count : Nat} {s : Scope Json}

theorem start (hs : s.stored = none) (he : ∀ id, s.entries id = none)
    (hb : s.bundle = Bundle.empty) (hd : s.drawn = first) : s.Filled draw first 0 := by
  refine ⟨mirrors_empty hs hb, fun _ => hs, covered_of_bare he, ?_, fun name hn => ?_,
    fun id hid => ?_, hd⟩
  · rw [hb]
    rfl
  · rw [hb] at hn
    exact absurd rfl hn
  · rw [hb] at hid
    cases hid

theorem announcing (h : s.Filled draw first count) (activated : List AttributeId) :
    (s.announcing activated).Filled draw first count :=
  ⟨h.mirrors.announcing activated, h.absent, h.covered, h.size, h.bound, h.given, h.drawn⟩

theorem stocked (h : s.Filled draw first count) : s.Stocked Frame.marshaller count true := by
  refine ⟨h.absent, ?_, h.covered, fun session => ?_⟩
  · rw [h.mirrors.listed]
    exact h.size
  · obtain ⟨b, hb⟩ := h.mirrors.loads session
    rw [hb]
    rfl

/-- The next attribute is new, and so is what is drawn for it. -/
theorem set (h : s.Filled draw first count)
    (hd : ∀ n < count, draw (first + n) ≠ draw (first + count)) (immutability : Immutability Json) :
    (s.set Frame.marshaller draw immutability (attributeName count) (attributeValue count)).1 =
        .ok none ∧
      (s.set Frame.marshaller draw immutability (attributeName count)
        (attributeValue count)).2.Filled draw first (count + 1) := by
  obtain ⟨bytes, -, hw, -⟩ := id (attributeValue_faithful count)
  have hfree : s.bundle.attributeId? (attributeName count) = none := by
    by_contra hbound
    obtain ⟨n, hn, hname⟩ := h.bound _ hbound
    exact absurd (attributeName_injective hname) (Nat.ne_of_gt hn)
  have hfresh : draw s.drawn ∉ s.bundle.names.values := by
    intro hm
    obtain ⟨n, hn, hid⟩ := h.given _ hm
    rw [h.drawn] at hid
    exact hd n hn hid.symm
  have hvalue : s.bundle.value? (draw s.drawn) = none :=
    (lookup_none_iff _ _).mpr fun hm => hfresh ((h.mirrors.tidy.bound _).mp hm)
  have hm : Mirrors Frame.marshaller { s with drawn := s.drawn + 1 } :=
    ⟨h.mirrors.tidy, h.mirrors.stored, h.mirrors.read⟩
  rw [set_free hfree hw, hvalue]
  refine ⟨rfl, hm.create hfree hfresh ((attributeValue_faithful count).keeps hw), nofun, ?_, ?_,
    fun name hn => ?_, fun id hid => ?_, ?_⟩
  · rw [hm.create_eq hfree]
    have hcovered : Covered { s with drawn := s.drawn + 1 } := h.covered
    exact hcovered.bind h.mirrors.listed hfree (some bytes)
  · rw [create_bundle]
    exact (Dict.size_insert hfree _).trans (congrArg (· + 1) h.size)
  · rw [create_bundle] at hn
    change (s.bundle.names.insert (attributeName count) _).get? name ≠ none at hn
    rw [Dict.get?_insert] at hn
    split at hn
    · rename_i hname
      exact ⟨count, Nat.lt_succ_self _, hname⟩
    · obtain ⟨n, hlt, hname⟩ := h.bound name hn
      exact ⟨n, Nat.lt_succ_of_lt hlt, hname⟩
  · rw [create_bundle] at hid
    rcases (Bundle.mem_bindName hfree).mp hid with rfl | hid
    · exact ⟨count, Nat.lt_succ_self _, by rw [h.drawn]⟩
    · obtain ⟨n, hlt, hdrawn⟩ := h.given id hid
      exact ⟨n, Nat.lt_succ_of_lt hlt, hdrawn⟩
  · rw [create_drawn, ← Nat.add_assoc, ← h.drawn]

end Scope.Filled
end SessionAttributes
