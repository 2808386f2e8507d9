import Mathlib.Algebra.BigOperators.Group.List.Basic
import Mathlib.Algebra.GroupWithZero.Nat
import SessionAttributes.Proofs.Store.Contents

namespace SessionAttributes

variable {K V : Type}

def passivationsIn (notices : List (Notice K V)) : Nat :=
  notices.countP fun | .passivated _ _ => true | _ => false

def activationsIn (notices : List (Notice K V)) : Nat :=
  notices.countP fun | .activated _ _ => true | _ => false

theorem passivationsIn_append (notices notices' : List (Notice K V)) :
    passivationsIn (notices ++ notices') = passivationsIn notices + passivationsIn notices' :=
  List.countP_append

theorem activationsIn_append (notices notices' : List (Notice K V)) :
    activationsIn (notices ++ notices') = activationsIn notices + activationsIn notices' :=
  List.countP_append

theorem length_without [DecidableEq K] (key : K) {entries : List (K × V)}
    (h : (keysOf entries).Nodup) :
    (Shard.without key entries).length + (if key ∈ keysOf entries then 1 else 0) =
      entries.length := by
  induction entries with
  | nil => rfl
  | cons e rest ih =>
    obtain ⟨hn, hr⟩ := List.nodup_cons.mp h
    have ih := ih hr
    unfold Shard.without at ih ⊢
    by_cases he : e.1 = key
    · subst he
      have hm : e.1 ∈ keysOf (e :: rest) := List.mem_cons_self
      have hn : e.1 ∉ keysOf rest := hn
      rw [if_neg hn] at ih
      rw [if_pos hm]
      simp only [List.filter_cons, bne_self_eq_false, Bool.false_eq_true, if_false,
        List.length_cons]
      omega
    · have hm : key ∈ keysOf (e :: rest) ↔ key ∈ keysOf rest := by
        simp [keysOf, Ne.symm he]
      rw [if_congr hm rfl rfl]
      simp only [List.filter_cons, bne_iff_ne, ne_eq, he, not_false_iff, if_true, List.length_cons]
      omega

namespace Shard

def keys (s : Shard K V) : List K := keysOf s.active ++ keysOf s.passivated

theorem Sound.nodup_keys {s : Shard K V} (h : s.Sound) : s.keys.Nodup := by
  refine List.nodup_append.mpr ⟨h.active, h.passivated, fun k hk k' hk' he => ?_⟩
  subst he
  exact h.apart k hk hk'

/-- A step on a key changes its shard. It leaves notices, and `met` entries that were passivated are
overwritten or removed by it. -/
structure Changes (limit : Option Nat) (key : K) (s s' : Shard K V) (notices : List (Notice K V))
    (met : Nat) : Prop where
  sound : s'.Sound
  keys : ∀ k ∈ s'.keys, k = key ∨ k ∈ s.keys
  bounded : ∀ most, limit = some most → 0 < most → s.active.length ≤ most →
    s'.active.length ≤ most
  balance : s.passivated.length + passivationsIn notices =
    s'.passivated.length + activationsIn notices + met

theorem Changes.trans {limit : Option Nat} {key : K} {s s' s'' : Shard K V}
    {notices notices' : List (Notice K V)} {met met' : Nat} (h : s.Changes limit key s' notices met)
    (h' : s'.Changes limit key s'' notices' met') :
    s.Changes limit key s'' (notices ++ notices') (met + met') := by
  refine ⟨h'.sound, fun k hk => ?_, fun most hl hm ha => ?_, ?_⟩
  · rcases h'.keys k hk with he | hk
    · exact .inl he
    · exact h.keys k hk
  · exact h'.bounded most hl hm (h.bounded most hl hm ha)
  · have hb := h.balance
    have hb' := h'.balance
    rw [passivationsIn_append, activationsIn_append]
    omega

variable [DecidableEq K] {s : Shard K V} {key : K} {value : V}

theorem isPassivated_iff : s.isPassivated key = true ↔ key ∈ keysOf s.passivated := by
  simp [isPassivated, keysOf]

theorem isActive_iff : s.isActive key = true ↔ key ∈ keysOf s.active := by
  simp [isActive, keysOf]

theorem mem_keys_iff : key ∈ s.keys ↔ (s.find? key).isSome := by
  rw [Option.isSome_iff_ne_none, Ne, find_none_iff, keys, List.mem_append]
  tauto

/-- What is left of a tier without one key was held before. -/
theorem mem_keys_of_active {other k : K} (h : k ∈ keysOf (without other s.active)) : k ∈ s.keys :=
  List.mem_append_left _ ((mem_keys_without other k s.active).mp h).1

theorem mem_keys_of_passivated {other k : K} (h : k ∈ keysOf (without other s.passivated)) :
    k ∈ s.keys := List.mem_append_right _ ((mem_keys_without other k s.passivated).mp h).1

/-- A hit moves its entry to the front. -/
theorem Sound.touch_changes (h : s.Sound) (limit : Option Nat)
    (hv : s.active.lookup key = some value) :
    s.Changes limit key ⟨(key, value) :: without key s.active, s.passivated⟩ [] 0 := by
  have hlen := length_without key h.active
  rw [if_pos (mem_keys_of_lookup hv)] at hlen
  refine ⟨h.touch hv, fun k hk => ?_, fun most _ _ ha => ?_, rfl⟩
  · rcases List.mem_append.mp hk with hk | hk
    · rcases List.mem_cons.mp hk with he | hk
      · exact .inl he
      · exact .inr (mem_keys_of_active hk)
    · exact .inr (List.mem_append_right _ hk)
  · simp only [List.length_cons]
    omega

/-- An entry that was passivated counts as met. -/
theorem Sound.erase_changes (h : s.Sound) (limit : Option Nat) (key : K) :
    s.Changes limit key (s.erase key) [] (if s.isPassivated key then 1 else 0) := by
  have hactive := length_without key h.active
  have hpassivated := length_without key h.passivated
  refine ⟨h.erase key, fun k hk => ?_, fun most _ _ ha => ?_, ?_⟩
  · rcases List.mem_append.mp hk with hk | hk
    · exact .inr (mem_keys_of_active hk)
    · exact .inr (mem_keys_of_passivated hk)
  · change (without key s.active).length ≤ most
    omega
  · simp only [isPassivated_iff]
    exact hpassivated.symm

theorem displaced_full {limit : Option Nat} {most : Nat} (hl : limit = some most)
    (hd : s.displaced limit key = none) (hk : key ∉ keysOf s.active) (hm : 0 < most) :
    s.active.length < most := by
  have hn : s.isActive key = false := by
    rw [← Bool.not_eq_true, isActive_iff]
    exact hk
  by_contra hfull
  simp only [displaced, hl, hn, Nat.not_lt.mp hfull, Bool.not_false, and_self, if_true,
    List.getLast?_eq_none_iff] at hd
  rw [hd] at hfull
  exact hfull hm

/-- Whoever makes room is passivated. -/
theorem Sound.accept_changes (h : s.Sound) (hk : s.find? key = none) (limit : Option Nat)
    (value : V) :
    s.Changes limit key (s.accept limit key value).1
      (Store.displacedNotice (s.accept limit key value).2) 0 := by
  have hsound := h.accept hk limit value
  obtain ⟨ha, -⟩ := (find_none_iff s key).mp hk
  unfold Shard.accept at hsound ⊢
  cases hd : s.displaced limit key with
  | none =>
    simp only [hd] at hsound ⊢
    refine ⟨hsound, fun k hk => ?_, fun most hl hm _ => ?_, rfl⟩
    · rcases List.mem_append.mp hk with hk | hk
      · rcases List.mem_cons.mp hk with he | hk
        · exact .inl he
        · exact .inr (mem_keys_of_active hk)
      · exact .inr (List.mem_append_right _ hk)
    · have hfree := displaced_full hl hd ha hm
      have hlen := length_without key h.active
      simp only [List.length_cons]
      omega
  | some old =>
    simp only [hd] at hsound ⊢
    obtain ⟨front, hf⟩ := displaced_shape hd
    have hold : old.1 ∈ keysOf s.active := by simp [hf, keysOf]
    have hfront : keysOf front ⊆ keysOf s.active := by
      rw [hf, keysOf, keysOf, List.map_append]
      exact List.subset_append_left _ _
    have hnodup := (nodup_displaced (hf ▸ h.active)).1
    refine ⟨hsound, fun k hk => ?_, fun most _ _ hmost => ?_, ?_⟩
    · rcases List.mem_append.mp hk with hk | hk
      · rcases List.mem_cons.mp hk with he | hk
        · exact .inl he
        · rw [hf, List.dropLast_concat] at hk
          exact .inr (List.mem_append_left _ (hfront ((mem_keys_without key k front).mp hk).1))
      · rcases List.mem_cons.mp hk with he | hk
        · exact .inr (List.mem_append_left _ (he ▸ hold))
        · exact .inr (mem_keys_of_passivated hk)
    · have hlen := length_without key hnodup
      rw [hf, List.length_append, List.length_singleton] at hmost
      simp only [hf, List.dropLast_concat, List.length_cons]
      omega
    · have hlen := length_without old.1 h.passivated
      rw [if_neg (h.apart old.1 hold)] at hlen
      change s.passivated.length + 1 = (without old.1 s.passivated).length + 1 + 0 + 0
      omega

theorem Sound.passivate_changes (h : s.Sound) (limit : Option Nat)
    (hv : s.active.lookup key = some value) :
    s.Changes limit key (s.passivate key value) [.passivated key value] 0 := by
  have hkey := mem_keys_of_lookup hv
  have hactive := length_without key h.active
  have hpassivated := length_without key h.passivated
  rw [if_neg (h.apart key hkey)] at hpassivated
  refine ⟨h.passivate key value, fun k hk => ?_, fun most _ _ ha => ?_, ?_⟩
  · rcases List.mem_append.mp hk with hk | hk
    · exact .inr (mem_keys_of_active hk)
    · rcases List.mem_cons.mp hk with he | hk
      · exact .inl he
      · exact .inr (mem_keys_of_passivated hk)
  · change (without key s.active).length ≤ most
    omega
  · change s.passivated.length + 1 = (without key s.passivated).length + 1 + 0 + 0
    omega

/-- An entry that comes back does not count as met: its activation is announced. -/
theorem Sound.activate_changes (h : s.Sound) (limit : Option Nat)
    (hv : s.passivated.lookup key = some value) :
    s.Changes limit key ((s.erase key).accept limit key value).1
      (.activated key value :: Store.displacedNotice ((s.erase key).accept limit key value).2)
      0 := by
  have herased : (s.erase key).find? key = none := by simp [find_erase]
  have hboth := (h.erase_changes limit key).trans ((h.erase key).accept_changes herased limit value)
  rw [if_pos (isPassivated_iff.mpr (mem_keys_of_lookup hv))] at hboth
  refine ⟨hboth.sound, hboth.keys, hboth.bounded, ?_⟩
  have hb := hboth.balance
  rw [List.nil_append] at hb
  have hp : passivationsIn (.activated key value ::
      Store.displacedNotice ((s.erase key).accept limit key value).2) =
        passivationsIn (Store.displacedNotice ((s.erase key).accept limit key value).2) := by
    simp [passivationsIn]
  have ha : activationsIn (.activated key value ::
      Store.displacedNotice ((s.erase key).accept limit key value).2) =
        activationsIn (Store.displacedNotice ((s.erase key).accept limit key value).2) + 1 := by
    simp [activationsIn]
  rw [hp, ha]
  omega

theorem Sound.put_changes (h : s.Sound) (limit : Option Nat) (key : K) (value : V) :
    s.Changes limit key ((s.erase key).accept limit key value).1
      (Store.displacedNotice ((s.erase key).accept limit key value).2)
      (if s.isPassivated key then 1 else 0) := by
  have herased : (s.erase key).find? key = none := by simp [find_erase]
  exact (h.erase_changes limit key).trans ((h.erase key).accept_changes herased limit value)

end Shard

namespace Store

def keys (s : Store K V) : List K := s.shards.flatMap Shard.keys

theorem foldl_count (count : Shard K V → Nat) (shards : List (Shard K V)) (sum : Nat) :
    shards.foldl (fun sum shard => sum + count shard) sum = sum + (shards.map count).sum := by
  induction shards generalizing sum with
  | nil => rfl
  | cons shard rest ih => rw [List.foldl_cons, ih, List.map_cons, List.sum_cons, Nat.add_assoc]

theorem total_eq_sum (s : Store K V) (count : Shard K V → Nat) :
    s.total count = (s.shards.map count).sum :=
  (foldl_count count s.shards 0).trans (Nat.zero_add _)

theorem size_eq_stats (s : Store K V) : s.stats.active + s.stats.passivated = s.size := by
  simp only [stats, size, total_eq_sum]
  rw [← List.sum_map_add]
  rfl

theorem size_eq_keys (s : Store K V) : s.size = s.keys.length := by
  rw [size, total_eq_sum, keys, List.length_flatMap]
  congr 1
  exact List.map_congr_left fun shard _ => by simp [Shard.size, Shard.keys, keysOf]

theorem openWith_eq {options : StoreOptions} {s : Store K V} (h : Store.openWith options = .ok s) :
    s = ⟨List.replicate options.shards ⟨[], []⟩, options.shardLimit, options.persistent, 0, 0⟩ := by
  cases hv : options.validate with
  | error fault => simp [openWith, hv, bind, Except.bind] at h
  | ok _ =>
    simp only [openWith, hv, bind, Except.bind, pure, Except.pure, Except.ok.injEq] at h
    exact h.symm

theorem openWith_stats {options : StoreOptions} {s : Store K V}
    (h : Store.openWith options = .ok s) : s.stats = ⟨0, 0, 0, 0⟩ := by
  obtain rfl := openWith_eq h
  simp [stats, total_eq_sum]

section Shards
variable [ShardKey K]

theorem Sound.shard_at {s : Store K V} (h : s.Sound) (key : K) :
    s.shards[s.index key]? = some (s.shard key) := by
  unfold Store.shard
  rw [List.getElem?_eq_getElem (h.index_lt key)]
  rfl

theorem Sound.shard_mem {s : Store K V} (h : s.Sound) (key : K) : s.shard key ∈ s.shards :=
  List.mem_of_getElem? (h.shard_at key)

/-- The shard of a key, among the others. -/
theorem Sound.shards_eq {s : Store K V} (h : s.Sound) (key : K) :
    s.shards = s.shards.take (s.index key) ++ s.shard key :: s.shards.drop (s.index key + 1) := by
  obtain ⟨hlt, hs⟩ := List.getElem?_eq_some_iff.mp (h.shard_at key)
  rw [← hs, List.cons_getElem_drop_succ, List.take_append_drop]

theorem Sound.total_setShard {s : Store K V} (h : s.Sound) (key : K) (shard : Shard K V)
    (count : Shard K V → Nat) :
    (s.setShard key shard).total count + count (s.shard key) = s.total count + count shard := by
  have hset : (s.setShard key shard).shards =
      s.shards.take (s.index key) ++ shard :: s.shards.drop (s.index key + 1) := by
    unfold Store.setShard
    rw [List.set_eq_take_append_cons_drop, if_pos (h.index_lt key)]
  have hold := congrArg (fun shards => (shards.map count).sum) (h.shards_eq key)
  have hnew := congrArg (fun shards => (shards.map count).sum) hset
  simp only [List.map_append, List.map_cons, List.sum_append, List.sum_cons] at hold hnew
  rw [total_eq_sum, total_eq_sum, hold, hnew]
  omega

/-- A store that was opened with some options: each key stands in the shard of its hash, and no
shard is above its bound. -/
structure Kept (options : StoreOptions) (s : Store K V) : Prop where
  sound : s.Sound
  shards : s.shards.length = options.shards
  limit : s.limit = options.shardLimit
  home : ∀ i shard, s.shards[i]? = some shard → ∀ key ∈ shard.keys, s.index key = i
  bounded : ∀ most, s.limit = some most → ∀ shard ∈ s.shards, shard.active.length ≤ most

theorem openWith_kept {options : StoreOptions} {s : Store K V}
    (h : Store.openWith options = .ok s) : s.Kept options := by
  have hsound := openWith_sound h
  obtain rfl := openWith_eq h
  have hempty : ∀ shard ∈ List.replicate options.shards (⟨[], []⟩ : Shard K V),
      shard = ⟨[], []⟩ := fun shard hm => (List.mem_replicate.mp hm).2
  refine ⟨hsound, List.length_replicate, rfl, fun i shard hi key hk => ?_,
    fun most _ shard hm => ?_⟩
  · rw [hempty shard (List.mem_of_getElem? hi)] at hk
    cases hk
  · rw [hempty shard hm]
    exact Nat.zero_le most

theorem Kept.count {options : StoreOptions} {s : Store K V} (h : s.Kept options)
    (notice : Notice K V) : (s.count notice).Kept options := by
  cases notice <;> exact ⟨h.sound.count _, h.shards, h.limit, h.home, h.bounded⟩

/-- Each key stands at most once in the whole store. -/
theorem Kept.nodup_keys {options : StoreOptions} {s : Store K V} (h : s.Kept options) :
    s.keys.Nodup := by
  refine List.nodup_flatMap.mpr ⟨fun shard hm => (h.sound.shard shard hm).nodup_keys, ?_⟩
  refine List.pairwise_iff_getElem.mpr fun i j hi hj hlt k hk hk' => ?_
  have hki := h.home i _ (List.getElem?_eq_getElem hi) k hk
  have hkj := h.home j _ (List.getElem?_eq_getElem hj) k hk'
  omega

/-- A step takes a store to another one, before its notices are announced and counted. `met` of the
entries that it overwrote or removed were passivated. -/
structure Steps (options : StoreOptions) (s s' : Store K V) (notices : List (Notice K V))
    (met : Nat) : Prop where
  kept : s'.Kept options
  passivations : s'.passivations = s.passivations
  activations : s'.activations = s.activations
  balance : s.stats.passivated + passivationsIn notices =
    s'.stats.passivated + activationsIn notices + met

variable {options : StoreOptions} {s : Store K V}

theorem Kept.idle (h : s.Kept options) : Steps options s s [] 0 := ⟨h, rfl, rfl, rfl⟩

theorem Kept.changes (h : s.Kept options) {key : K} {shard : Shard K V}
    {notices : List (Notice K V)} {met : Nat}
    (hc : (s.shard key).Changes s.limit key shard notices met) :
    Steps options s (s.setShard key shard) notices met := by
  have hindex : ∀ k, (s.setShard key shard).index k = s.index k := by simp [setShard, index]
  refine ⟨⟨h.sound.setShard key hc.sound, by simpa [setShard] using h.shards, h.limit, ?_, ?_⟩,
    rfl, rfl, ?_⟩
  · intro i other hi k hk
    rw [hindex]
    simp only [setShard, List.getElem?_set] at hi
    split at hi
    · rename_i he
      subst he
      rw [if_pos (h.sound.index_lt key)] at hi
      obtain rfl := Option.some.inj hi
      rcases hc.keys k hk with rfl | hk
      · rfl
      · exact h.home _ _ (h.sound.shard_at key) k hk
    · exact h.home i other hi k hk
  · intro most hl other hm
    have hpos : 0 < most := by
      have hl' : options.shardLimit = some most := h.limit ▸ hl
      obtain ⟨capacity, -, rfl⟩ := Option.map_eq_some_iff.mp hl'
      exact Nat.lt_of_lt_of_le Nat.one_pos (Nat.le_max_right _ _)
    rcases List.mem_or_eq_of_mem_set hm with hm | rfl
    · exact h.bounded most hl other hm
    · exact hc.bounded most hl hpos (h.bounded most hl _ (h.sound.shard_mem key))
  · have htotal := h.sound.total_setShard key shard fun shard => shard.passivated.length
    have hb := hc.balance
    simp only [stats]
    omega

/-- News of a write or a removal tells of no move between the tiers. -/
theorem Steps.prepend {s' : Store K V} {notices : List (Notice K V)} {met : Nat}
    (h : Steps options s s' notices met) {news : List (Notice K V)}
    (hp : passivationsIn news = 0) (ha : activationsIn news = 0) :
    Steps options s s' (news ++ notices) met := by
  refine ⟨h.kept, h.passivations, h.activations, ?_⟩
  rw [passivationsIn_append, activationsIn_append, hp, ha, Nat.zero_add, Nat.zero_add]
  exact h.balance

variable [DecidableEq K]

/-- A key is held exactly if it stands in some shard. -/
theorem Kept.mem_keys (h : s.Kept options) (key : K) : key ∈ s.keys ↔ (s.find? key).isSome := by
  rw [find?, ← Shard.mem_keys_iff]
  constructor
  · intro hm
    obtain ⟨shard, hs, hk⟩ := List.mem_flatMap.mp hm
    obtain ⟨i, hi⟩ := List.getElem?_of_mem hs
    have hhome := h.home i shard hi key hk
    unfold Store.shard
    rw [hhome, hi]
    exact hk
  · intro hk
    exact List.mem_flatMap.mpr ⟨s.shard key, h.sound.shard_mem key, hk⟩

theorem contains_eq (s : Store K V) (key : K) : s.contains key = (s.find? key).isSome := by
  rw [Bool.eq_iff_iff, find?, ← Shard.mem_keys_iff, contains, Bool.or_eq_true, Shard.keys,
    List.mem_append]
  exact or_congr Shard.isActive_iff Shard.isPassivated_iff

theorem Kept.get (h : s.Kept options) (key : K) :
    Steps options s (s.get key).store (s.get key).notices 0 := by
  have hshard := h.sound.shard_sound key
  unfold Store.get
  dsimp only
  split
  · rename_i value hv
    exact h.changes (hshard.touch_changes s.limit hv)
  · split
    · exact h.idle
    · rename_i value hv
      exact h.changes (hshard.activate_changes s.limit hv)

theorem Kept.put (h : s.Kept options) (key : K) (value : V) (mode : AccessMode) :
    Steps options s (s.put key value mode).store (s.put key value mode).notices
      (if s.isPassivated key then 1 else 0) := by
  have hsteps := h.changes ((h.sound.shard_sound key).put_changes s.limit key value)
  refine hsteps.prepend ?_ ?_ <;> cases mode <;> rfl

theorem Kept.remove (h : s.Kept options) (key : K) (mode : AccessMode) :
    Steps options s (s.remove key mode).store (s.remove key mode).notices
      (if s.isPassivated key then 1 else 0) := by
  unfold Store.remove
  dsimp only
  split
  · rename_i hn
    have hp : s.isPassivated key = false := by
      rw [← Bool.not_eq_true, isPassivated, Shard.isPassivated_iff]
      exact ((Shard.find_none_iff _ key).mp hn).2
    rw [hp]
    exact h.idle
  · have hsteps := h.changes ((h.sound.shard_sound key).erase_changes s.limit key)
    rw [← List.append_nil (if mode.notifies then _ else _)]
    refine hsteps.prepend ?_ ?_ <;> cases mode <;> rfl

theorem Kept.evict (h : s.Kept options) (key : K) :
    Steps options s (s.evict key).store (s.evict key).notices 0 := by
  unfold Store.evict
  dsimp only
  split
  · exact h.idle
  · rename_i value hv
    exact h.changes ((h.sound.shard_sound key).passivate_changes s.limit hv)

end Shards
end Store
end SessionAttributes
