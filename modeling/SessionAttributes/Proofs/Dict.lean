import Mathlib.Data.List.Nodup
import Mathlib.Data.List.Sort
import Mathlib.Data.String.Basic
import SessionAttributes.Dict
import SessionAttributes.Proofs.Store.Tiers

namespace SessionAttributes.Dict

variable {α β : Type}

theorem lookup_insertEntry (key k : String) (value : α) (entries : List (String × α)) :
    (insertEntry key value entries).lookup k =
      if k = key then some value else entries.lookup k := by
  induction entries with
  | nil => simp only [insertEntry, lookup_bound]
  | cons e rest ih =>
    obtain ⟨j, v⟩ := e
    simp only [insertEntry]
    split
    · rw [lookup_bound]
    · split
      · rename_i _ he
        subst he
        simp only [lookup_bound]
        by_cases hk : k = key <;> simp [hk]
      · rename_i _ hne
        rw [lookup_bound, lookup_bound, ih]
        by_cases hk : k = j
        · subst k
          simp [Ne.symm hne]
        · simp [hk]

@[simp] theorem get?_empty (k : String) : (empty : Dict α).get? k = none := rfl

theorem get?_insert (m : Dict α) (key k : String) (value : α) :
    (m.insert key value).get? k = if k = key then some value else m.get? k :=
  lookup_insertEntry key k value m.entries

theorem get?_erase (m : Dict α) (key k : String) :
    (m.erase key).get? k = if k = key then none else m.get? k :=
  lookup_without key k m.entries

theorem get?_insert_eq_some {m : Dict α} {key k : String} {value v : α} :
    (m.insert key value).get? k = some v ↔
      k = key ∧ value = v ∨ k ≠ key ∧ m.get? k = some v := by
  rw [get?_insert]
  by_cases hk : k = key <;> simp [hk]

theorem get?_erase_eq_some {m : Dict α} {key k : String} {v : α} :
    (m.erase key).get? k = some v ↔ k ≠ key ∧ m.get? k = some v := by
  rw [get?_erase]
  by_cases hk : k = key <;> simp [hk]

theorem keys_nodup (m : Dict α) : m.keys.Nodup := by
  refine (List.pairwise_map (l := m.entries)).mpr (m.ordered.imp fun h he => ?_)
  rw [he] at h
  exact String.lt_irrefl _ h

theorem get?_of_mem {m : Dict α} {key : String} {value : α} (h : (key, value) ∈ m.entries) :
    m.get? key = some value := lookup_of_mem m.keys_nodup h

theorem mem_of_get? {m : Dict α} {key : String} {value : α} (h : m.get? key = some value) :
    (key, value) ∈ m.entries := mem_of_lookup h

theorem mem_values {m : Dict α} {value : α} :
    value ∈ m.values ↔ ∃ key, m.get? key = some value := by
  unfold values
  rw [List.mem_map]
  constructor
  · rintro ⟨⟨key, _⟩, hm, rfl⟩
    exact ⟨key, get?_of_mem hm⟩
  · rintro ⟨key, h⟩
    exact ⟨(key, value), mem_of_get? h, rfl⟩

theorem mem_values_insert {m : Dict α} {key : String} {value v : α}
    (h : v ∈ (m.insert key value).values) : v = value ∨ v ∈ m.values := by
  obtain ⟨k, hk⟩ := mem_values.mp h
  rcases get?_insert_eq_some.mp hk with ⟨_, he⟩ | ⟨_, hk⟩
  · exact .inl he.symm
  · exact .inr (mem_values.mpr ⟨k, hk⟩)

theorem mem_values_erase {m : Dict α} {key : String} {v : α} (h : v ∈ (m.erase key).values) :
    v ∈ m.values := by
  obtain ⟨k, hk⟩ := mem_values.mp h
  exact mem_values.mpr ⟨k, (get?_erase_eq_some.mp hk).2⟩

/-- A free key adds to the size. -/
theorem size_insert {m : Dict α} {key : String} (h : m.get? key = none) (value : α) :
    (m.insert key value).size = m.size + 1 := by
  unfold size insert get? at *
  dsimp only
  generalize m.entries = entries at h
  induction entries with
  | nil => rfl
  | cons e rest ih =>
    obtain ⟨k, v⟩ := e
    rw [lookup_bound] at h
    split at h
    · cases h
    · rename_i hne
      simp only [insertEntry, if_neg hne]
      split
      · rfl
      · simp only [List.length_cons, ih h]

theorem mem_keys {m : Dict α} {key : String} : key ∈ m.keys ↔ ∃ value, m.get? key = some value := by
  unfold keys
  rw [List.mem_map]
  constructor
  · rintro ⟨⟨_, value⟩, hm, rfl⟩
    exact ⟨value, get?_of_mem hm⟩
  · rintro ⟨value, h⟩
    exact ⟨(key, value), mem_of_get? h, rfl⟩

def Injective (m : Dict α) : Prop :=
  ∀ ⦃key key' : String⦄ ⦃value : α⦄, m.get? key = some value → m.get? key' = some value → key = key'

theorem Injective.values_nodup {m : Dict α} (h : m.Injective) : m.values.Nodup := by
  refine (List.pairwise_map (l := m.entries)).mpr ?_
  refine m.ordered.imp_of_mem fun {a b} ha hb hlt he => ?_
  have hkey : a.1 = b.1 := h (get?_of_mem ha) (he ▸ get?_of_mem hb)
  rw [hkey] at hlt
  exact String.lt_irrefl _ hlt

theorem injective_of_nodup {m : Dict α} (h : m.values.Nodup) : m.Injective := by
  intro key key' value hk hk'
  have he := List.inj_on_of_nodup_map h (mem_of_get? hk) (mem_of_get? hk') rfl
  exact congrArg Prod.fst he

/-- A free key adds its value. -/
theorem mem_values_insert_free {m : Dict α} {key : String} {value v : α}
    (hn : m.get? key = none) : v ∈ (m.insert key value).values ↔ v = value ∨ v ∈ m.values := by
  refine ⟨mem_values_insert, ?_⟩
  rintro (rfl | hv)
  · exact mem_values.mpr ⟨key, get?_insert_eq_some.mpr (.inl ⟨rfl, rfl⟩)⟩
  · obtain ⟨k, hk⟩ := mem_values.mp hv
    refine mem_values.mpr ⟨k, get?_insert_eq_some.mpr (.inr ⟨?_, hk⟩)⟩
    rintro rfl
    cases hn.symm.trans hk

namespace Injective

variable {m : Dict α} {key : String} {value : α}

theorem insert (h : m.Injective) (hv : value ∉ m.values) : (m.insert key value).Injective := by
  intro k k' v hk hk'
  rcases get?_insert_eq_some.mp hk with ⟨rfl, rfl⟩ | ⟨_, hk⟩
  · rcases get?_insert_eq_some.mp hk' with ⟨rfl, _⟩ | ⟨_, hk'⟩
    · rfl
    · exact absurd (mem_values.mpr ⟨k', hk'⟩) hv
  · rcases get?_insert_eq_some.mp hk' with ⟨_, rfl⟩ | ⟨_, hk'⟩
    · exact absurd (mem_values.mpr ⟨k, hk⟩) hv
    · exact h hk hk'

theorem erase (h : m.Injective) (key : String) : (m.erase key).Injective :=
  fun _ _ _ hk hk' => h (get?_erase_eq_some.mp hk).2 (get?_erase_eq_some.mp hk').2

/-- A bound key takes its value away. -/
theorem mem_values_erase_bound (h : m.Injective) (hb : m.get? key = some value) {v : α} :
    v ∈ (m.erase key).values ↔ v ∈ m.values ∧ v ≠ value := by
  constructor
  · intro hv
    obtain ⟨k, hk⟩ := mem_values.mp hv
    obtain ⟨hne, hk⟩ := get?_erase_eq_some.mp hk
    refine ⟨mem_values.mpr ⟨k, hk⟩, ?_⟩
    rintro rfl
    exact hne (h hk hb)
  · rintro ⟨hv, hne⟩
    obtain ⟨k, hk⟩ := mem_values.mp hv
    refine mem_values.mpr ⟨k, get?_erase_eq_some.mpr ⟨?_, hk⟩⟩
    rintro rfl
    exact hne (Option.some.inj (hk.symm.trans hb))

end Injective

end SessionAttributes.Dict
