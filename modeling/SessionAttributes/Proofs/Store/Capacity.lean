import Mathlib.Algebra.Order.BigOperators.Group.List
import Mathlib.Algebra.Order.Ring.Nat
import SessionAttributes.Proofs.Store.Recency

namespace SessionAttributes

variable {K V : Type}

namespace Store

/-- All that is in primary memory. -/
theorem stats_active (s : Store K V) :
    s.stats.active = (s.shards.flatMap Shard.active).length := by
  rw [List.length_flatMap, ← total_eq_sum]
  rfl

section Bounded
variable [ShardKey K] {options : StoreOptions} {s : Store K V} {capacity : Nat}

theorem Kept.bound (h : s.Kept options) (hc : options.capacity = some capacity) :
    ∀ shard ∈ s.shards, shard.active.length ≤ max 1 (capacity / options.shards) := by
  refine h.bounded _ ?_
  rw [h.limit, StoreOptions.shardLimit, hc, Option.map_some, Nat.max_comm]

theorem Kept.active_le (h : s.Kept options) (hc : options.capacity = some capacity) :
    s.stats.active ≤ options.shards * max 1 (capacity / options.shards) := by
  have hsum := List.sum_le_card_nsmul (s.shards.map fun shard => shard.active.length)
    (max 1 (capacity / options.shards)) fun n hn => by
      obtain ⟨shard, hm, rfl⟩ := List.mem_map.mp hn
      exact h.bound hc shard hm
  rw [List.length_map, h.shards, Nat.nsmul_eq_mul, ← total_eq_sum] at hsum
  exact hsum

/-- Each key stands in the shard of its hash, so keys of shards with one entry are of different
shards. -/
theorem Kept.indices_nodup (h : s.Kept options)
    (hone : ∀ shard ∈ s.shards, shard.active.length ≤ 1) :
    ((s.shards.flatMap Shard.active).map fun e => s.index e.1).Nodup := by
  rw [List.map_flatMap]
  refine List.nodup_flatMap.mpr ⟨fun shard hm => ?_, ?_⟩
  · have hlen := hone shard hm
    match shard.active, hlen with
    | [], _ => exact List.nodup_nil
    | [e], _ => exact List.nodup_singleton _
  · refine List.pairwise_iff_getElem.mpr fun i j hi hj hlt n hn hn' => ?_
    have hhome : ∀ k (hk : k < s.shards.length), n ∈ (s.shards[k].active.map fun e => s.index e.1) →
        n = k := by
      intro k hk hn
      obtain ⟨e, he, rfl⟩ := List.mem_map.mp hn
      exact h.home k _ (List.getElem?_eq_getElem hk) e.1
        (List.mem_append_left _ (List.mem_map_of_mem he))
    have hni := hhome i hi hn
    have hnj := hhome j hj hn'
    omega

end Bounded

section Filling
variable [DecidableEq K] [ShardKey K] {options : StoreOptions} {s : Store K V}

/-- An entry that comes to an empty shard is one more in primary memory. -/
theorem Kept.put_empty (h : s.Kept options) {key : K} (he : s.shard key = ⟨[], []⟩) (value : V) :
    (s.settled (.put key value .normal)).stats.active = s.stats.active + 1 := by
  have hshards : (s.settled (.put key value .normal)).shards =
      (s.put key value .normal).store.shards := foldl_count_shards _ _
  have htotal := h.sound.total_setShard key
    (((s.shard key).erase key).accept s.limit key value).1 fun shard => shard.active.length
  have hnew : (((s.shard key).erase key).accept s.limit key value).1.active.length = 1 := by
    rw [he]
    unfold Shard.accept
    split <;> rfl
  have hold : (s.shard key).active.length = 0 := by
    rw [he]
    rfl
  have hstore : (s.put key value .normal).store =
      s.setShard key (((s.shard key).erase key).accept s.limit key value).1 := rfl
  rw [stats_active, hshards, ← stats_active, hstore]
  simp only [stats]
  omega

theorem Sound.put_elsewhere (h : s.Sound) {key k : K} (hk : s.index k ≠ s.index key) (value : V) :
    (s.settled (.put key value .normal)).shard k = s.shard k := by
  rw [settled_shard]
  exact (h.shard_setShard key k _).trans (if_neg hk)

/-- Keys of different shards find room, each in its own one. -/
theorem Kept.fill (h : s.Kept options) (value : V) {keys : List K}
    (he : ∀ key ∈ keys, s.shard key = ⟨[], []⟩) (hn : (keys.map s.index).Nodup) :
    (s.after (keys.map fun key => .put key value .normal)).stats.active =
      s.stats.active + keys.length := by
  induction keys generalizing s with
  | nil => rfl
  | cons key keys ih =>
    obtain ⟨hkey, hkeys⟩ := List.nodup_cons.mp hn
    have hput := h.put_empty (he key List.mem_cons_self) value
    have hkept := h.settled (.put key value .normal)
    have hindex : (s.settled (.put key value .normal)).index = s.index := by
      funext k
      rw [index, index, hkept.shards, h.shards]
    have hempty : ∀ k ∈ keys, (s.settled (.put key value .normal)).shard k = ⟨[], []⟩ := by
      intro k hk
      have hne : s.index k ≠ s.index key := fun heq => hkey (heq ▸ List.mem_map_of_mem hk)
      rw [h.sound.put_elsewhere hne]
      exact he k (List.mem_cons_of_mem _ hk)
    have hrest := ih hkept hempty (hindex ▸ hkeys)
    change ((s.settled _).after _).stats.active = _
    rw [hrest, hput, List.length_cons]
    omega

end Filling
end Store

/-- Whether a store that was opened with some options never holds more than some number of entries in
primary memory, whatever is called, also by its listeners. -/
def StoreOptions.Bounds (K V : Type) [DecidableEq K] [ShardKey K] (options : StoreOptions)
    (most : Nat) : Prop :=
  ∀ (W : Type) (place : Place W K V) (tell : Place.Tell W K V) (w₀ w : W)
    (calls : List (StoreCall K V)), place.Lawful → place.Reenters tell →
      Store.openWith options = .ok (place.get w₀).store → place.Serves tell w₀ calls w →
        (place.get w).store.stats.active ≤ most

namespace StoreOptions
variable [DecidableEq K] [ShardKey K] {options : StoreOptions} {capacity most : Nat}

theorem Bounds.le {more : Nat} (h : options.Bounds K V most) (hm : most ≤ more) :
    options.Bounds K V more :=
  fun W place tell w₀ w calls hl ht ho hrun =>
    (h W place tell w₀ w calls hl ht ho hrun).trans hm

theorem bounds_of_kept (h : ∀ s : Store K V, s.Kept options → s.stats.active ≤ most) :
    options.Bounds K V most := by
  intro W place tell w₀ w calls hl ht ho hrun
  obtain ⟨steps, htakes, -⟩ := hrun.makes hl ht
  exact h _ (htakes.inOrder ho).1

theorem bounds_shards (hc : options.capacity = some capacity) :
    options.Bounds K V (options.shards * max 1 (capacity / options.shards)) :=
  bounds_of_kept fun _ h => h.active_le hc

/-- A capacity of an entry for each shard is a bound. -/
theorem bounds_large (hpos : 0 < options.shards) (hc : options.capacity = some capacity)
    (hlarge : options.shards ≤ capacity) : options.Bounds K V capacity := by
  refine (bounds_shards hc).le ?_
  rw [Nat.max_eq_right (Nat.div_pos hlarge hpos)]
  exact Nat.mul_div_le capacity options.shards

/-- With less than that, there is an entry for each shard that some key is in. -/
theorem bounds_small (hc : options.capacity = some capacity) (hsmall : capacity < options.shards)
    (hkeys : ∀ keys : List K,
      (keys.map fun key => (ShardKey.digest key).toNat % options.shards).Nodup →
        keys.length ≤ capacity) : options.Bounds K V capacity := by
  refine bounds_of_kept fun s h => ?_
  have hone : ∀ shard ∈ s.shards, shard.active.length ≤ 1 := by
    have hbound := h.bound hc
    rwa [Nat.div_eq_of_lt hsmall] at hbound
  have hnodup := h.indices_nodup hone
  unfold Store.index at hnodup
  rw [h.shards] at hnodup
  have hlen := hkeys (keysOf (s.shards.flatMap Shard.active)) (by rwa [keysOf, List.map_map])
  rwa [keysOf, List.length_map, ← Store.stats_active] at hlen

theorem Bounds.after (h : options.Bounds K V most) {s₀ : Store K V}
    (ho : Store.openWith options = .ok s₀) (calls : List (StoreCall K V)) :
    (s₀.after (calls.flatMap StoreCall.parts)).stats.active ≤ most := by
  let place : Place (Site K V) K V := ⟨id, fun _ site => site⟩
  let w₀ : Site K V := ⟨s₀, Listeners.empty⟩
  have hrun : ∃ w, place.Serves (fun _ _ w => w) w₀ calls w := by
    induction calls using List.reverseRecOn with
    | nil => exact ⟨w₀, .start⟩
    | append_singleton calls call ih =>
      obtain ⟨w, hserves⟩ := ih
      exact ⟨_, hserves.call call⟩
  obtain ⟨w, hserves⟩ := hrun
  have hstore : (place.get w).store = s₀.after (calls.flatMap StoreCall.parts) :=
    hserves.store_eq (fun _ _ => rfl) fun _ _ _ => rfl
  rw [← hstore]
  exact h _ place (fun _ _ w => w) w₀ w calls (fun _ _ => rfl) (fun _ _ _ => ⟨[], .start⟩) ho hserves

/-- Keys of different shards are all held. -/
theorem Bounds.length_le [Nonempty V] (h : options.Bounds K V most)
    (hv : options.validate = .ok ()) {keys : List K}
    (hn : (keys.map fun key => (ShardKey.digest key).toNat % options.shards).Nodup) :
    keys.length ≤ most := by
  obtain ⟨value⟩ := ‹Nonempty V›
  obtain ⟨s₀, ho⟩ : ∃ s₀ : Store K V, Store.openWith options = .ok s₀ := by
    unfold Store.openWith
    rw [hv]
    exact ⟨_, rfl⟩
  have hkept := Store.openWith_kept ho
  have hempty : ∀ key ∈ keys, s₀.shard key = ⟨[], []⟩ := fun key _ =>
    List.eq_of_mem_replicate ((Store.openWith_shape ho).2 ▸ hkept.sound.shard_mem key)
  have hindex : (keys.map s₀.index).Nodup := by
    unfold Store.index
    rwa [hkept.shards]
  have hbound := h.after ho (keys.map fun key => .put key value .normal)
  have hparts : (keys.map fun key => StoreCall.put key value .normal).flatMap StoreCall.parts =
      keys.map fun key => .put key value .normal := by
    rw [List.flatMap_map]
    exact List.flatMap_pure_eq_map _ _
  rw [hparts, hkept.fill value hempty hindex, Store.openWith_stats ho] at hbound
  omega

/-- The bound that the shards of a store have together, and when it is the capacity. -/
theorem bounds_iff [Nonempty V] (hv : options.validate = .ok ())
    (hc : options.capacity = some capacity) :
    options.Bounds K V (options.shards * max 1 (capacity / options.shards)) ∧
      (options.shards ≤ capacity → options.Bounds K V capacity) ∧
      (options.Bounds K V capacity ↔ ∀ keys : List K,
        (keys.map fun key => (ShardKey.digest key).toNat % options.shards).Nodup →
          keys.length ≤ capacity) := by
  have hpos : 0 < options.shards := by
    refine Nat.pos_of_ne_zero fun hz => ?_
    simp [validate, hz] at hv
  refine ⟨bounds_shards hc, bounds_large hpos hc, fun h keys => h.length_le hv, fun hkeys => ?_⟩
  rcases Nat.lt_or_ge capacity options.shards with hsmall | hlarge
  · exact bounds_small hc hsmall hkeys
  · exact bounds_large hpos hc hlarge

/-- Eight shards hold nine entries at most if there is room for one in each of them. If there is room
for one in the whole store, they hold two as soon as two keys are in different shards. -/
theorem bounds_iff_eight :
    ({ capacity := some 9 } : StoreOptions).validate = .ok () ∧
      ({ capacity := some 9 } : StoreOptions).Bounds UInt64 Bool 8 ∧
      ({ capacity := some 1 } : StoreOptions).validate = .ok () ∧
      ¬ ({ capacity := some 1 } : StoreOptions).Bounds UInt64 Bool 1 := by
  have hnine : ({ capacity := some 9 } : StoreOptions).capacity = some 9 := rfl
  have hone : ({ capacity := some 1 } : StoreOptions).capacity = some 1 := rfl
  refine ⟨rfl, (bounds_iff (K := UInt64) (V := Bool) rfl hnine).1, rfl, fun h => ?_⟩
  have htwo := (bounds_iff rfl hone).2.2.mp h [1, 2] (by decide)
  exact absurd htwo (by decide)

/-- A store with a capacity of one entry holds two. -/
theorem capacity_exceeded :
    ∃ (place : Place (Site UInt64 Bool) UInt64 Bool) (w₀ w : Site UInt64 Bool),
      place.Lawful ∧ place.Reenters (fun _ _ w => w) ∧
        Store.openWith { capacity := some 1 } = .ok (place.get w₀).store ∧
        place.Serves (fun _ _ w => w) w₀ [.put 1 true .normal, .put 2 true .normal] w ∧
        (place.get w).store.stats = ⟨2, 0, 0, 0⟩ := by
  let place : Place (Site UInt64 Bool) UInt64 Bool := ⟨id, fun _ site => site⟩
  let w₀ : Site UInt64 Bool :=
    ⟨⟨List.replicate 8 ⟨[], []⟩, some 1, false, 0, 0⟩, Listeners.empty⟩
  exact ⟨place, w₀, _, fun _ _ => rfl, fun _ _ _ => ⟨[], .start⟩, rfl,
    (Place.Serves.start : place.Serves (fun _ _ w => w) w₀ [] w₀)
      |>.call (.put 1 true .normal) |>.call (.put 2 true .normal), by decide⟩

end StoreOptions
end SessionAttributes
