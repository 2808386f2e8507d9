import SessionAttributes.Bundle
import SessionAttributes.Proofs.Dict

namespace SessionAttributes

variable {V : Type}

namespace Bundle

structure Tidy (b : Bundle V) : Prop where
  distinct : b.names.Injective
  unique : (keysOf b.values).Nodup
  bound : ∀ id, id ∈ keysOf b.values ↔ id ∈ b.names.values

theorem value?_setValue (b : Bundle V) (id k : AttributeId) (value : V) :
    (b.setValue id value).value? k = if k = id then some value else b.value? k := by
  have hw := lookup_without id k b.values
  unfold Shard.without at hw
  simp only [value?, setValue, lookup_bound, hw]
  split <;> rfl

theorem value?_dropValue (b : Bundle V) (id k : AttributeId) :
    (b.dropValue id).value? k = if k = id then none else b.value? k :=
  lookup_without id k b.values

theorem mem_setValue {b : Bundle V} {id k : AttributeId} {value : V} :
    k ∈ keysOf (b.setValue id value).values ↔ k = id ∨ k ∈ keysOf b.values := by
  have hw := mem_keys_without id k b.values
  unfold Shard.without at hw
  change k ∈ id :: keysOf (b.values.filter fun e => e.1 != id) ↔ _
  rw [List.mem_cons, hw]
  by_cases hk : k = id <;> simp [hk]

theorem mem_dropValue {b : Bundle V} {id k : AttributeId} :
    k ∈ keysOf (b.dropValue id).values ↔ k ∈ keysOf b.values ∧ k ≠ id :=
  mem_keys_without id k b.values

theorem unique_setValue {b : Bundle V} (h : (keysOf b.values).Nodup) (id : AttributeId)
    (value : V) :
    (keysOf (b.setValue id value).values).Nodup :=
  nodup_bound id value h

theorem empty_tidy : (empty : Bundle V).Tidy :=
  ⟨(by intro _ _ _ h _; cases h), List.nodup_nil, fun _ => Iff.rfl⟩

theorem get?_eq (b : Bundle V) (name : String) :
    b.get? name = (b.attributeId? name).bind b.value? := rfl

theorem Tidy.get?_none {b : Bundle V} {name : String} (hb : b.attributeId? name = none) :
    b.get? name = none := by
  rw [get?_eq, hb]
  rfl

theorem Tidy.get?_some {b : Bundle V} (h : b.Tidy) {name : String} {id : AttributeId}
    (hb : b.attributeId? name = some id) :
    ∃ value, b.get? name = some value ∧ b.value? id = some value := by
  have hm : id ∈ keysOf b.values := (h.bound id).mpr (Dict.mem_values.mpr ⟨name, hb⟩)
  cases hv : b.value? id with
  | none => exact absurd hm ((lookup_none_iff id b.values).mp hv)
  | some value => exact ⟨value, by rw [get?_eq, hb]; exact hv, rfl⟩

theorem Tidy.get?_isSome {b : Bundle V} (h : b.Tidy) (name : String) :
    (b.get? name).isSome = (b.attributeId? name).isSome := by
  cases hb : b.attributeId? name with
  | none => simp [Tidy.get?_none hb]
  | some id =>
    obtain ⟨value, hg, _⟩ := h.get?_some hb
    simp [hg]

/-- A name is listed if and only if it has a value. -/
theorem Tidy.mem_keys {b : Bundle V} (h : b.Tidy) (name : String) :
    (b.get? name).isSome = true ↔ name ∈ b.names.keys := by
  rw [h.get?_isSome, Option.isSome_iff_exists]
  exact Dict.mem_keys.symm

theorem Tidy.valueCount_eq {b : Bundle V} (h : b.Tidy) : b.valueCount = b.size := by
  have hperm := (List.perm_ext_iff_of_nodup h.unique h.distinct.values_nodup).mpr h.bound
  have hlength := hperm.length_eq
  simp only [keysOf, Dict.values, List.length_map] at hlength
  exact hlength

/-- Bundles answer alike for a name that has the same attribute in both, with the same value. -/
theorem get?_congr {b b' : Bundle V} {name : String}
    (hid : b'.attributeId? name = b.attributeId? name)
    (hvalue : ∀ id, b.attributeId? name = some id → b'.value? id = b.value? id) :
    b'.get? name = b.get? name := by
  rw [get?_eq, get?_eq, hid]
  cases hn : b.attributeId? name with
  | none => rfl
  | some id => exact hvalue id hn

section Overwrite
variable {b : Bundle V} {name : String} {id : AttributeId} {value : V}

theorem Tidy.setValue (h : b.Tidy) (hb : b.attributeId? name = some id) (value : V) :
    (b.setValue id value).Tidy := by
  refine ⟨h.distinct, unique_setValue h.unique id value, fun k => ?_⟩
  rw [mem_setValue, h.bound k]
  refine ⟨?_, Or.inr⟩
  rintro (rfl | hk)
  · exact Dict.mem_values.mpr ⟨name, hb⟩
  · exact hk

theorem Tidy.get?_setValue (h : b.Tidy) (hb : b.attributeId? name = some id) (k : String) :
    (b.setValue id value).get? k = if k = name then some value else b.get? k := by
  by_cases hk : k = name
  · subst hk
    rw [get?_eq, show (b.setValue id value).attributeId? k = some id from hb]
    simp [value?_setValue]
  · rw [if_neg hk]
    refine get?_congr rfl fun j hj => ?_
    rw [value?_setValue, if_neg]
    rintro rfl
    exact hk (h.distinct hj hb)

end Overwrite

section Create
variable {b : Bundle V} {name : String} {id : AttributeId} {value : V}

theorem mem_bindName (hb : b.attributeId? name = none) {k : AttributeId} :
    k ∈ (b.bindName name id).names.values ↔ k = id ∨ k ∈ b.names.values :=
  Dict.mem_values_insert_free hb

theorem Tidy.create (h : b.Tidy) (hb : b.attributeId? name = none) (hid : id ∉ b.names.values)
    (value : V) : ((b.bindName name id).setValue id value).Tidy := by
  refine ⟨h.distinct.insert hid, unique_setValue h.unique id value, fun k => ?_⟩
  change _ ↔ k ∈ (b.bindName name id).names.values
  rw [mem_setValue, mem_bindName hb]
  exact or_congr_right (h.bound k)

theorem get?_create (hid : id ∉ b.names.values) (k : String) :
    ((b.bindName name id).setValue id value).get? k =
      if k = name then some value else b.get? k := by
  have hbound : ((b.bindName name id).setValue id value).attributeId? k =
      if k = name then some id else b.attributeId? k := Dict.get?_insert ..
  by_cases hk : k = name
  · rw [get?_eq, hbound, if_pos hk, if_pos hk, Option.bind_some, value?_setValue, if_pos rfl]
  · rw [if_neg hk] at hbound ⊢
    refine get?_congr hbound fun j hj => (value?_setValue ..).trans (if_neg ?_)
    rintro rfl
    exact hid (Dict.mem_values.mpr ⟨k, hj⟩)

end Create

section Remove
variable {b : Bundle V} {name : String} {id : AttributeId}

theorem Tidy.mem_dropName (h : b.Tidy) (hb : b.attributeId? name = some id) {k : AttributeId} :
    k ∈ (b.dropName name).names.values ↔ k ∈ b.names.values ∧ k ≠ id :=
  h.distinct.mem_values_erase_bound hb

theorem Tidy.drop (h : b.Tidy) (hb : b.attributeId? name = some id) :
    ((b.dropName name).dropValue id).Tidy := by
  refine ⟨h.distinct.erase name, nodup_without id h.unique, fun k => ?_⟩
  change _ ↔ k ∈ (b.dropName name).names.values
  rw [mem_dropValue, h.mem_dropName hb]
  exact and_congr_left' (h.bound k)

theorem Tidy.get?_drop (h : b.Tidy) (hb : b.attributeId? name = some id) (k : String) :
    ((b.dropName name).dropValue id).get? k = if k = name then none else b.get? k := by
  have hbound : ((b.dropName name).dropValue id).attributeId? k =
      if k = name then none else b.attributeId? k := Dict.get?_erase ..
  by_cases hk : k = name
  · rw [get?_eq, hbound, if_pos hk, if_pos hk, Option.bind_none]
  · rw [if_neg hk] at hbound ⊢
    refine get?_congr hbound fun j hj => (value?_dropValue ..).trans (if_neg ?_)
    rintro rfl
    exact hk (h.distinct hj hb)

end Remove

structure AgreesOn (b b' : Bundle V) (name : String) : Prop where
  id : b.attributeId? name = b'.attributeId? name
  value : b.get? name = b'.get? name

namespace AgreesOn

variable {b b' b'' : Bundle V} {name : String}

theorem refl (b : Bundle V) (name : String) : b.AgreesOn b name := ⟨rfl, rfl⟩

theorem trans (h : b.AgreesOn b' name) (h' : b'.AgreesOn b'' name) : b.AgreesOn b'' name :=
  ⟨h.id.trans h'.id, h.value.trans h'.value⟩

end AgreesOn

structure Turns (b b' : Bundle V) (name : String) (id : Option AttributeId) (value : Option V) :
    Prop where
  tidy : b'.Tidy
  id : b'.attributeId? name = id
  value : b'.get? name = value
  others : ∀ k, k ≠ name → b'.AgreesOn b k

section Turns
variable {b : Bundle V} {name : String} {id : AttributeId}

theorem Tidy.turns_setValue (h : b.Tidy) (hb : b.attributeId? name = some id) (value : V) :
    b.Turns (b.setValue id value) name (some id) (some value) := by
  have hget : ∀ k, (b.setValue id value).get? k = if k = name then some value else b.get? k :=
    h.get?_setValue hb
  refine ⟨h.setValue hb value, hb, ?_, fun k hk => ⟨rfl, ?_⟩⟩
  · rw [hget, if_pos rfl]
  · rw [hget, if_neg hk]

theorem Tidy.turns_create (h : b.Tidy) (hb : b.attributeId? name = none)
    (hid : id ∉ b.names.values) (value : V) :
    b.Turns ((b.bindName name id).setValue id value) name (some id) (some value) := by
  have hget : ∀ k, ((b.bindName name id).setValue id value).get? k =
      if k = name then some value else b.get? k := get?_create hid
  have hbound : ∀ k, ((b.bindName name id).setValue id value).attributeId? k =
      if k = name then some id else b.attributeId? k := fun k => Dict.get?_insert b.names name k id
  refine ⟨h.create hb hid value, ?_, ?_, fun k hk => ⟨?_, ?_⟩⟩
  · rw [hbound, if_pos rfl]
  · rw [hget, if_pos rfl]
  · rw [hbound, if_neg hk]
  · rw [hget, if_neg hk]

theorem Tidy.turns_drop (h : b.Tidy) (hb : b.attributeId? name = some id) :
    b.Turns ((b.dropName name).dropValue id) name none none := by
  have hget := h.get?_drop hb
  have hbound : ∀ k, ((b.dropName name).dropValue id).attributeId? k =
      if k = name then none else b.attributeId? k := fun k => Dict.get?_erase b.names name k
  refine ⟨h.drop hb, ?_, ?_, fun k hk => ⟨?_, ?_⟩⟩
  · rw [hbound, if_pos rfl]
  · rw [hget, if_pos rfl]
  · rw [hbound, if_neg hk]
  · rw [hget, if_neg hk]

end Turns

end Bundle
end SessionAttributes
