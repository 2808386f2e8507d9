import Mathlib.Data.List.Nodup
import SessionAttributes.Store.Shard

namespace SessionAttributes

variable {K V : Type}

def keysOf (entries : List (K × V)) : List K := entries.map Prod.fst

theorem nodup_displaced {front : List (K × V)} {old : K × V}
    (h : (keysOf (front ++ [old])).Nodup) : (keysOf front).Nodup ∧ old.1 ∉ keysOf front := by
  simp only [keysOf, List.map_append, List.map_cons, List.map_nil] at h
  obtain ⟨hf, _, hd⟩ := List.nodup_append.mp h
  exact ⟨hf, fun hm => hd _ hm _ (by simp) rfl⟩

section Bindings
variable [DecidableEq K]

theorem lookup_bound (key k : K) (value : V) (rest : List (K × V)) :
    ((key, value) :: rest).lookup k = if k = key then some value else rest.lookup k := by
  rw [List.lookup_cons]
  by_cases h : k = key
  · simp [h]
  · simp [h, beq_eq_false_iff_ne.mpr h]

theorem lookup_without (key k : K) (entries : List (K × V)) :
    (Shard.without key entries).lookup k = if k = key then none else entries.lookup k := by
  induction entries with
  | nil => simp [Shard.without]
  | cons e rest ih =>
    obtain ⟨j, v⟩ := e
    simp only [Shard.without, List.filter_cons] at ih ⊢
    by_cases hj : j = key
    · subst j
      rw [if_neg (by simp), ih, lookup_bound]
      by_cases hk : k = key <;> simp [hk]
    · rw [if_pos (by simpa using hj), lookup_bound, lookup_bound, ih]
      by_cases hk : k = key
      · subst k
        simp [Ne.symm hj]
      · simp [hk]

theorem mem_keys_without (key k : K) (entries : List (K × V)) :
    k ∈ keysOf (Shard.without key entries) ↔ k ∈ keysOf entries ∧ k ≠ key := by
  simp only [keysOf, Shard.without, List.mem_map, List.mem_filter, bne_iff_ne]
  constructor
  · rintro ⟨e, ⟨hm, hn⟩, rfl⟩
    exact ⟨⟨e, hm, rfl⟩, hn⟩
  · rintro ⟨⟨e, hm, rfl⟩, hn⟩
    exact ⟨e, ⟨hm, hn⟩, rfl⟩

theorem nodup_without (key : K) {entries : List (K × V)} (h : (keysOf entries).Nodup) :
    (keysOf (Shard.without key entries)).Nodup :=
  h.sublist (List.filter_sublist.map Prod.fst)

theorem nodup_bound (key : K) (value : V) {entries : List (K × V)} (h : (keysOf entries).Nodup) :
    (keysOf ((key, value) :: Shard.without key entries)).Nodup :=
  List.nodup_cons.mpr
    ⟨fun hm => ((mem_keys_without key key entries).mp hm).2 rfl, nodup_without key h⟩

theorem mem_keys_bound {key k : K} {value : V} {entries : List (K × V)}
    (h : k ∈ keysOf ((key, value) :: Shard.without key entries)) : k = key ∨ k ∈ keysOf entries :=
  (List.mem_cons.mp h).imp_right fun hm => ((mem_keys_without key k entries).mp hm).1

theorem lookup_none_iff (key : K) (entries : List (K × V)) :
    entries.lookup key = none ↔ key ∉ keysOf entries := by
  rw [List.lookup_eq_none_iff]
  simp only [keysOf, List.mem_map, not_exists, not_and, bne_iff_ne, ne_eq]
  exact ⟨fun h e hm he => h e hm he.symm, fun h e hm he => h e hm he.symm⟩

theorem mem_of_lookup {key : K} {value : V} {entries : List (K × V)}
    (h : entries.lookup key = some value) : (key, value) ∈ entries := by
  obtain ⟨front, back, he, _⟩ := List.lookup_eq_some_iff.mp h
  rw [he]
  exact List.mem_append_right _ List.mem_cons_self

theorem mem_keys_of_lookup {key : K} {value : V} {entries : List (K × V)}
    (h : entries.lookup key = some value) : key ∈ keysOf entries :=
  List.mem_map.mpr ⟨_, mem_of_lookup h, rfl⟩

theorem lookup_of_mem {key : K} {value : V} {entries : List (K × V)} (hn : (keysOf entries).Nodup)
    (h : (key, value) ∈ entries) : entries.lookup key = some value := by
  induction entries with
  | nil => cases h
  | cons e rest ih =>
    obtain ⟨j, v⟩ := e
    obtain ⟨hj, hn⟩ := List.nodup_cons.mp hn
    rw [lookup_bound]
    rcases List.mem_cons.mp h with he | hr
    · cases he
      simp
    · have hne : key ≠ j := fun he => hj (he ▸ List.mem_map.mpr ⟨_, hr, rfl⟩)
      rw [if_neg hne]
      exact ih hn hr

end Bindings

namespace Shard

structure Sound (s : Shard K V) : Prop where
  active : (keysOf s.active).Nodup
  passivated : (keysOf s.passivated).Nodup
  apart : ∀ k ∈ keysOf s.active, k ∉ keysOf s.passivated

theorem sound_empty : Sound (⟨[], []⟩ : Shard K V) :=
  ⟨List.nodup_nil, List.nodup_nil, by simp [keysOf]⟩

variable [DecidableEq K]

theorem find_erase (s : Shard K V) (key k : K) :
    (s.erase key).find? k = if k = key then none else s.find? k := by
  simp only [find?, erase, lookup_without]
  by_cases hk : k = key <;> simp [hk]

theorem Sound.erase {s : Shard K V} (h : s.Sound) (key : K) : (s.erase key).Sound := by
  refine ⟨nodup_without key h.active, nodup_without key h.passivated, ?_⟩
  intro k ha hp
  rw [Shard.erase, mem_keys_without] at ha hp
  exact h.apart k ha.1 hp.1

theorem find_none_iff (s : Shard K V) (key : K) :
    s.find? key = none ↔ key ∉ keysOf s.active ∧ key ∉ keysOf s.passivated := by
  simp only [find?, Option.or_eq_none_iff, lookup_none_iff]

/-- The entry that makes room is the last active one. -/
theorem displaced_shape {limit : Option Nat} {s : Shard K V} {key : K} {old : K × V}
    (h : s.displaced limit key = some old) : ∃ front, s.active = front ++ [old] := by
  unfold displaced at h
  split at h
  · cases h
  · split at h
    · exact (List.getLast?_eq_some_iff.mp h)
    · cases h

/-- Making room passivates an entry and loses none. -/
theorem find_accept {s : Shard K V} (h : s.Sound) (key : K)
    (limit : Option Nat) (value : V) (k : K) :
    ((s.accept limit key value).1).find? k = if k = key then some value else s.find? k := by
  unfold accept
  split
  · simp only [find?, lookup_bound, lookup_without]
    by_cases hkk : k = key <;> simp [hkk]
  · rename_i old hd
    obtain ⟨oldKey, oldValue⟩ := old
    obtain ⟨front, hf⟩ := displaced_shape hd
    have hold : oldKey ∉ keysOf front := (nodup_displaced (hf ▸ h.active)).2
    have hlast : (front ++ [(oldKey, oldValue)]).lookup k =
        (front.lookup k).or (if k = oldKey then some oldValue else none) := by
      rw [List.lookup_append, lookup_bound, List.lookup_nil]
    simp only [find?, lookup_bound, lookup_without, hf, List.dropLast_concat, hlast]
    by_cases hkk : k = key
    · simp [hkk]
    · by_cases ho : k = oldKey
      · subst ho
        simp [hkk, (lookup_none_iff _ _).mpr hold]
      · simp [hkk, ho]

theorem Sound.front {s : Shard K V} (h : s.Sound) {key : K} (hk : key ∉ keysOf s.passivated)
    (value : V) : (⟨(key, value) :: without key s.active, s.passivated⟩ : Shard K V).Sound := by
  refine ⟨nodup_bound key value h.active, h.passivated, fun k hm => ?_⟩
  rcases mem_keys_bound hm with rfl | hm
  · exact hk
  · exact h.apart k hm

theorem Sound.accept {s : Shard K V} (h : s.Sound) {key : K} (hk : s.find? key = none)
    (limit : Option Nat) (value : V) : ((s.accept limit key value).1).Sound := by
  obtain ⟨ha, hp⟩ := (find_none_iff s key).mp hk
  unfold Shard.accept
  split
  · exact h.front hp value
  · rename_i old hd
    obtain ⟨front, hf⟩ := displaced_shape hd
    obtain ⟨hfront, hold⟩ := nodup_displaced (hf ▸ h.active)
    have hkey : key ≠ old.1 := by
      intro he
      exact ha (by simp [hf, keysOf, he])
    simp only [hf, List.dropLast_concat]
    refine ⟨nodup_bound key value hfront, nodup_bound old.1 old.2 h.passivated,
      fun k hm hm' => ?_⟩
    rcases mem_keys_bound hm with rfl | hm
    · exact (mem_keys_bound hm').elim hkey hp
    · rcases mem_keys_bound hm' with rfl | hm'
      · exact hold hm
      · exact h.apart k (by simp [hf, keysOf] at hm ⊢; exact .inl hm) hm'

/-- An active entry keeps its value when it is passivated. -/
theorem find_passivate {s : Shard K V} {key : K} {value : V} (hv : s.active.lookup key = some value)
    (k : K) : (s.passivate key value).find? k = s.find? k := by
  simp only [find?, passivate, lookup_bound, lookup_without]
  by_cases hk : k = key
  · simp [hk, hv]
  · simp [hk]

theorem Sound.passivate {s : Shard K V} (h : s.Sound) (key : K) (value : V) :
    (s.passivate key value).Sound := by
  refine ⟨nodup_without key h.active, nodup_bound key value h.passivated, fun k ha hp => ?_⟩
  obtain ⟨ha, hne⟩ := (mem_keys_without key k s.active).mp ha
  exact (mem_keys_bound hp).elim hne (h.apart k ha)

/-- A hit moves its entry to the front. -/
theorem find_touch {s : Shard K V} {key : K} {value : V} (hv : s.active.lookup key = some value)
    (k : K) :
    (⟨(key, value) :: without key s.active, s.passivated⟩ : Shard K V).find? k = s.find? k := by
  simp only [find?, lookup_bound, lookup_without]
  by_cases hk : k = key
  · simp [hk, hv]
  · simp [hk]

theorem Sound.touch {s : Shard K V} (h : s.Sound) {key : K} {value : V}
    (hv : s.active.lookup key = some value) :
    (⟨(key, value) :: without key s.active, s.passivated⟩ : Shard K V).Sound :=
  h.front (h.apart key (mem_keys_of_lookup hv)) value

end Shard
end SessionAttributes
