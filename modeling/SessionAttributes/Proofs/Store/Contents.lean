import Mathlib.Logic.Function.Basic
import SessionAttributes.Proofs.Store.Tiers
import SessionAttributes.Store.Basic

namespace SessionAttributes

variable {K V : Type}

namespace Store

structure Sound (s : Store K V) : Prop where
  shards : s.shards ≠ []
  shard : ∀ shard ∈ s.shards, shard.Sound

/-- Options that are accepted give a store without entries and with a shard. -/
theorem openWith_shape {options : StoreOptions} {s : Store K V}
    (h : Store.openWith options = .ok s) :
    options.shards ≠ 0 ∧ s.shards = List.replicate options.shards ⟨[], []⟩ := by
  cases hv : options.validate with
  | error fault => simp [openWith, hv, bind, Except.bind] at h
  | ok _ =>
    have hn : options.shards ≠ 0 := by
      intro hz
      simp [StoreOptions.validate, hz] at hv
    simp only [openWith, hv, bind, Except.bind, pure, Except.pure, Except.ok.injEq] at h
    subst h
    exact ⟨hn, rfl⟩

theorem openWith_sound {options : StoreOptions} {s : Store K V}
    (h : Store.openWith options = .ok s) : s.Sound := by
  obtain ⟨hn, hs⟩ := openWith_shape h
  refine ⟨by simpa [hs] using hn, ?_⟩
  intro shard hm
  rw [hs] at hm
  rw [(List.mem_replicate.mp hm).2]
  exact Shard.sound_empty

theorem Sound.count {s : Store K V} (h : s.Sound) (notice : Notice K V) :
    (s.count notice).Sound := by
  cases notice <;> exact ⟨h.shards, h.shard⟩

section Shards
variable [ShardKey K]

theorem Sound.index_lt {s : Store K V} (h : s.Sound) (key : K) : s.index key < s.shards.length :=
  Nat.mod_lt _ (List.length_pos_iff.mpr h.shards)

theorem Sound.setShard {s : Store K V} (h : s.Sound) (key : K) {shard : Shard K V}
    (hs : shard.Sound) : (s.setShard key shard).Sound := by
  refine ⟨by simpa [Store.setShard] using h.shards, ?_⟩
  intro other hm
  rcases List.mem_or_eq_of_mem_set hm with hm | rfl
  · exact h.shard other hm
  · exact hs

theorem Sound.shard_sound {s : Store K V} (h : s.Sound) (key : K) : (s.shard key).Sound := by
  unfold Store.shard
  rw [List.getElem?_eq_getElem (h.index_lt key)]
  exact h.shard _ (List.getElem_mem _)

end Shards

variable [DecidableEq K] [ShardKey K]

theorem find_of_empty {s : Store K V} (h : ∀ shard ∈ s.shards, shard = ⟨[], []⟩) (key : K) :
    s.find? key = none := by
  unfold find? shard
  cases hi : s.shards[s.index key]? with
  | none => rfl
  | some shard =>
    rw [h shard (List.mem_of_getElem? hi)]
    rfl

theorem openWith_find {options : StoreOptions} {s : Store K V}
    (h : Store.openWith options = .ok s) (key : K) : s.find? key = none := by
  obtain ⟨_, hs⟩ := openWith_shape h
  refine find_of_empty (fun shard hm => ?_) key
  rw [hs] at hm
  exact (List.mem_replicate.mp hm).2

theorem find_count (s : Store K V) (notice : Notice K V) : (s.count notice).find? = s.find? := by
  cases notice <;> rfl

omit [DecidableEq K] in
theorem Sound.shard_setShard {s : Store K V} (h : s.Sound) (key k : K) (shard : Shard K V) :
    (s.setShard key shard).shard k = if s.index k = s.index key then shard else s.shard k := by
  have hlt := h.index_lt key
  have hi : (s.setShard key shard).index k = s.index k := by simp [Store.setShard, index]
  unfold Store.shard
  rw [hi]
  split
  · rename_i he
    simp [he, Store.setShard, hlt]
  · rename_i hne
    simp only [Store.setShard, List.getElem?_set_ne (Ne.symm hne)]

/-- A key is looked up in its own shard, so a change of that shard is all it sees. -/
theorem Sound.find_setShard {s : Store K V} (h : s.Sound) (key : K) {shard : Shard K V}
    (value : Option V)
    (hf : ∀ k, shard.find? k = if k = key then value else (s.shard key).find? k) :
    (s.setShard key shard).find? = Function.update s.find? key value := by
  funext k
  have hsame : s.index k = s.index key → s.shard k = s.shard key := by
    intro hi
    unfold Store.shard
    rw [hi]
  rw [find?, h.shard_setShard]
  by_cases hk : k = key
  · rw [hk, if_pos rfl, hf, if_pos rfl, Function.update_self]
  · rw [Function.update_of_ne hk]
    split
    · rename_i hi
      rw [hf, if_neg hk, find?, hsame hi]
    · rfl

/-- A change of a shard that keeps its values is not seen at all. -/
theorem Sound.find_setShard_same {s : Store K V} (h : s.Sound) (key : K) {shard : Shard K V}
    (hf : ∀ k, shard.find? k = (s.shard key).find? k) :
    (s.setShard key shard).find? = s.find? := by
  rw [h.find_setShard key (s.find? key), Function.update_eq_self]
  intro k
  by_cases hk : k = key
  · simp [hk, hf, find?]
  · simp [hk, hf]

theorem Sound.get {s : Store K V} (h : s.Sound) (key : K) :
    (s.get key).answer = s.find? key ∧ (s.get key).store.find? = s.find? ∧
      (s.get key).store.Sound := by
  have hshard := h.shard_sound key
  cases ha : (s.shard key).active.lookup key with
  | some value =>
    simp only [Store.get, ha]
    refine ⟨by simp [find?, Shard.find?, ha], ?_, ?_⟩
    · exact h.find_setShard_same key (Shard.find_touch ha)
    · exact h.setShard key (hshard.touch ha)
  | none =>
    cases hp : (s.shard key).passivated.lookup key with
    | none =>
      simp only [Store.get, ha, hp]
      exact ⟨by simp [find?, Shard.find?, ha, hp], trivial, h⟩
    | some value =>
      simp only [Store.get, ha, hp]
      have hv : (s.shard key).find? key = some value := by simp [Shard.find?, ha, hp]
      have he : ((s.shard key).erase key).find? key = none := by simp [Shard.find_erase]
      refine ⟨hv.symm, ?_, ?_⟩
      · apply h.find_setShard_same key
        intro k
        rw [Shard.find_accept (hshard.erase key), Shard.find_erase]
        by_cases hk : k = key <;> simp [hk, hv]
      · exact h.setShard key ((hshard.erase key).accept he _ _)

theorem Sound.put {s : Store K V} (h : s.Sound) (key : K) (value : V) (mode : AccessMode) :
    (s.put key value mode).answer = mode.reveal (s.find? key) ∧
      (s.put key value mode).store.find? = Function.update s.find? key (some value) ∧
      (s.put key value mode).store.Sound := by
  have hshard := (h.shard_sound key).erase key
  have he : ((s.shard key).erase key).find? key = none := by simp [Shard.find_erase]
  refine ⟨rfl, ?_, h.setShard key (hshard.accept he s.limit value)⟩
  have hf : ∀ k, (((s.shard key).erase key).accept s.limit key value).1.find? k =
      if k = key then some value else (s.shard key).find? k := by
    intro k
    rw [Shard.find_accept hshard, Shard.find_erase]
    by_cases hk : k = key <;> simp [hk]
  exact h.find_setShard key (some value) hf

theorem Sound.remove {s : Store K V} (h : s.Sound) (key : K) (mode : AccessMode) :
    (s.remove key mode).answer = mode.reveal (s.find? key) ∧
      (s.remove key mode).store.find? = Function.update s.find? key none ∧
      (s.remove key mode).store.Sound := by
  cases hv : (s.shard key).find? key with
  | none =>
    have hn : s.find? key = none := hv
    simp only [Store.remove, hv]
    refine ⟨?_, ?_, h⟩
    · simp [hn, AccessMode.reveal]
    · rw [← hn, Function.update_eq_self]
  | some value =>
    simp only [Store.remove, hv]
    refine ⟨by simp [find?, hv], ?_, h.setShard key ((h.shard_sound key).erase key)⟩
    exact h.find_setShard key none (Shard.find_erase _ key)

theorem Sound.evict {s : Store K V} (h : s.Sound) (key : K) :
    (s.evict key).store.find? = s.find? ∧ (s.evict key).store.Sound := by
  cases ha : (s.shard key).active.lookup key with
  | none =>
    simp only [Store.evict, ha]
    exact ⟨trivial, h⟩
  | some value =>
    simp only [Store.evict, ha]
    refine ⟨?_, h.setShard key ((h.shard_sound key).passivate key value)⟩
    exact h.find_setShard_same key (Shard.find_passivate ha)

end Store

/-- The bindings that a bulk read of a map finds, added to the ones found before. -/
def collect [DecidableEq K] (m : K → Option V) : List K → List (K × V) → List (K × V)
  | [], found => found
  | key :: keys, found =>
    match m key with
    | some value => collect m keys (addFound key value found)
    | none => collect m keys found

theorem lookup_addFound [DecidableEq K] (key k : K) (value : V) (found : List (K × V)) :
    (addFound key value found).lookup k = if k = key then some value else found.lookup k := by
  induction found with
  | nil => simp only [addFound, lookup_bound]
  | cons e rest ih =>
    obtain ⟨j, v⟩ := e
    simp only [addFound]
    split
    · rename_i hj
      subst j
      simp only [lookup_bound]
      by_cases hk : k = key <;> simp [hk]
    · rename_i hj
      rw [lookup_bound, lookup_bound, ih]
      by_cases hk : k = j
      · simp [hk, hj]
      · simp [hk]

/-- A bulk read finds what the map holds, and nothing under a key that was not asked for. -/
theorem lookup_collect [DecidableEq K] (m : K → Option V) (keys : List K) (found : List (K × V))
    (k : K) :
    (collect m keys found).lookup k =
      if k ∈ keys then (m k).or (found.lookup k) else found.lookup k := by
  induction keys generalizing found with
  | nil => simp [collect]
  | cons key keys ih =>
    simp only [collect]
    cases hm : m key with
    | none =>
      simp only [ih, List.mem_cons]
      by_cases hk : k = key
      · subst k
        simp [hm]
      · simp [hk]
    | some value =>
      simp only [ih, lookup_addFound, List.mem_cons]
      by_cases hk : k = key
      · subst k
        simp [hm]
      · simp [hk]

namespace StoreCall

variable [DecidableEq K]

/-- What a call answers and does if a store is nothing but a map. -/
def onMap : (call : StoreCall K V) → (K → Option V) → call.Answer × (K → Option V)
  | .get key, m => (m key, m)
  | .getAll keys, m => (collect m keys [], m)
  | .put key value mode, m => (mode.reveal (m key), Function.update m key (some value))
  | .remove key mode, m => (mode.reveal (m key), Function.update m key none)
  | .evict _, m => ((), m)

/-- Whether a call may change what the store holds under a key. -/
def Writes : StoreCall K V → K → Prop
  | .put key _ _, k | .remove key _, k => k = key
  | .get _, _ | .getAll _, _ | .evict _, _ => False

theorem onMap_other (call : StoreCall K V) (m : K → Option V) {k : K} (h : ¬ call.Writes k) :
    (call.onMap m).2 k = m k := by
  cases call with
  | get key => rfl
  | getAll keys => rfl
  | put key value mode => exact Function.update_of_ne h _ _
  | remove key mode => exact Function.update_of_ne h _ _
  | evict key => rfl

end StoreCall
end SessionAttributes
