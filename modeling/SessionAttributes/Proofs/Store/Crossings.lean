import SessionAttributes.Proofs.Store.Overhearing

namespace SessionAttributes

variable {K T E : Type}

def StoreCall.isRead : StoreCall K T → Bool
  | .get _ => true
  | _ => false

/-- Someone who minds nothing but what crosses between the tiers, and a departure only in the first
of its rounds. -/
structure Event.Minds (echo : Event K T → List E) : Prop where
  left : ∀ key, echo (.postPassivate key) = []
  modified : ∀ key value, echo (.modified key value) = []
  removed : ∀ key, echo (.removed key) = []

namespace Store
variable [DecidableEq K] [ShardKey K]

/-- The entries in primary memory after a call that were passivated before. -/
def entered (s s' : Store K T) : List (K × T) :=
  (s'.shards.flatMap Shard.active).filter fun e => s.isPassivated e.1

/-- The entries passivated after a call that were in primary memory before. -/
def departed (s s' : Store K T) : List (K × T) :=
  (s'.shards.flatMap Shard.passivated).filter fun e => s.isActive e.1

variable {options : StoreOptions} {s s' : Store K T} {key : K}

omit [DecidableEq K] in
/-- A tier lists each entry once. -/
theorem Kept.nodup_tier (h : s.Kept options) {tier : Shard K T → List (K × T)}
    (ht : ∀ shard : Shard K T, (keysOf (tier shard)).Sublist shard.keys) :
    (s.shards.flatMap tier).Nodup := by
  have hkeys : (keysOf (s.shards.flatMap tier)).Sublist s.keys := by
    unfold keys keysOf
    rw [List.map_flatMap]
    exact List.Sublist.flatMap_right _ fun shard _ => ht shard
  exact (h.nodup_keys.sublist hkeys).of_map _

omit [DecidableEq K] [ShardKey K] in
/-- Two lists of the same entries are one list, if one of them has no more than one entry. -/
theorem eq_of_mem_iff {l l' : List (K × T)} (hl : l.Nodup) (hl' : l'.length ≤ 1)
    (hm : ∀ e, e ∈ l ↔ e ∈ l') : l = l' := by
  match l', hl' with
  | [], _ => exact List.eq_nil_iff_forall_not_mem.mpr fun e he => List.not_mem_nil ((hm e).mp he)
  | [e], _ =>
    have hperm := (List.perm_ext_iff_of_nodup hl (List.nodup_singleton e)).mpr hm
    exact List.perm_singleton.mp hperm

theorem isActive_slot (s : Store K T) (key : K) :
    s.isActive key = (s.slot key).active.isSome := by
  rw [Bool.eq_iff_iff, isActive_iff, Option.isSome_iff_ne_none]
  exact (lookup_none_iff key (s.shard key).active).not_left.symm

theorem isPassivated_slot (s : Store K T) (key : K) :
    s.isPassivated key = (s.slot key).passivated.isSome := by
  rw [Bool.eq_iff_iff, isPassivated_iff, Option.isSome_iff_ne_none]
  exact (lookup_none_iff key (s.shard key).passivated).not_left.symm

theorem find_slot (s : Store K T) (key : K) :
    s.find? key = (s.slot key).active.or (s.slot key).passivated := rfl

/-- What is passivated and not in primary memory is found. -/
theorem Sound.find_passivated (h : s.Sound) {key : K} {value : T}
    (hp : (s.slot key).passivated = some value) : s.find? key = some value := by
  have ha : s.isActive key = false := by
    by_contra hactive
    have hnone := h.apart (Bool.eq_true_of_not_eq_false hactive)
    rw [isPassivated_slot, hp] at hnone
    cases hnone
  rw [isActive_slot, Option.isSome_eq_false_iff, Option.isNone_iff_eq_none] at ha
  rw [find_slot, ha, hp]
  rfl

theorem Sound.passivated_find (h : s.Sound) {key : K} (hp : s.isPassivated key = true) :
    (s.slot key).passivated = s.find? key := by
  rw [isPassivated_slot] at hp
  obtain ⟨value, hvalue⟩ := Option.isSome_iff_exists.mp hp
  rw [hvalue, h.find_passivated hvalue]

theorem find_active {key : K} {value : T} (ha : (s.slot key).active = some value) :
    s.find? key = some value := by
  rw [find_slot, ha]
  rfl

/-- The entries that notices say have left primary memory are the ones that have left it. -/
theorem Kept.departed_eq (h : s.Kept options) {call : StoreCall K T}
    (hc : call.isSingle = true) :
    s.departed (s.settled call) = departuresIn (call.step s).2 := by
  have hshift := h.step_shifts hc
  have hkept := h.settled call
  have hnodup : (s.departed (s.settled call)).Nodup :=
    (hkept.nodup_tier fun _ => List.sublist_append_right _ _).filter _
  refine eq_of_mem_iff hnodup hshift.single fun e => ?_
  unfold departed
  rw [List.mem_filter, hkept.mem_passivated]
  constructor
  · rintro ⟨hslot, hactive⟩
    have hfound := hkept.sound.find_passivated hslot
    have hpassivated : (call.step s).1.isPassivated e.1 = true := by
      rw [← settled_isPassivated, isPassivated_slot, hslot]
      rfl
    have hunused : ¬ call.Uses e.1 := by
      intro hu
      rw [hshift.used e.1 hu] at hpassivated
      cases hpassivated
    rw [settled_find, h.sound.step_find call hunused] at hfound
    rcases (hshift.passivated e.1 hunused).mp hpassivated with hbefore | hout
    · rw [h.sound.apart hactive] at hbefore
      cases hbefore
    · obtain ⟨e', he', hkey⟩ := List.mem_map.mp hout
      obtain ⟨⟨hfind, -⟩, -⟩ := hshift.leaves e' he'
      rw [hkey, hfound] at hfind
      rw [show e = e' from Prod.ext hkey.symm (Option.some.inj hfind)]
      exact he'
  · intro he
    obtain ⟨⟨hfind, hactive⟩, hunused⟩ := hshift.leaves e he
    have hpassivated : (s.settled call).isPassivated e.1 = true := by
      rw [settled_isPassivated]
      exact (hshift.passivated e.1 hunused).mpr (.inr (List.mem_map_of_mem he))
    refine ⟨?_, hactive⟩
    rw [hkept.sound.passivated_find hpassivated, settled_find, h.sound.step_find call hunused,
      hfind]

/-- A read brings the entry of its key back, if that was passivated, and no other. -/
theorem Kept.entered_eq (h : s.Kept options) (key : K) :
    s.entered (s.settled (.get key)) =
      (s.slot key).passivated.toList.map fun value => (key, value) := by
  have hshift := h.step_shifts (rfl : (StoreCall.get (V := T) key).isSingle = true)
  have hkept := h.settled (.get key)
  have hfind : (s.settled (.get key)).find? = s.find? :=
    (funext fun k => settled_find s _ k).trans (h.sound.get key).2.1
  have hnodup : (s.entered (s.settled (.get key))).Nodup :=
    (hkept.nodup_tier fun _ => List.sublist_append_left _ _).filter _
  refine eq_of_mem_iff hnodup ?_ fun e => ?_
  · cases (s.slot key).passivated <;> simp
  unfold entered
  rw [List.mem_filter, hkept.mem_active]
  constructor
  · rintro ⟨hslot, hpassivated⟩
    have hkey : e.1 = key := by
      by_contra hne
      have hactive : (s.settled (.get key)).isActive e.1 = true := by
        rw [isActive_slot, hslot]
        rfl
      rw [settled_isActive, hshift.active e.1 hne] at hactive
      rw [h.sound.apart hactive.1] at hpassivated
      cases hpassivated
    have hfound := find_active hslot
    rw [hkey] at hpassivated hfound
    rw [h.sound.passivated_find hpassivated, ← hfind, hfound]
    exact List.mem_singleton.mpr (Prod.ext hkey rfl)
  · intro he
    obtain ⟨value, hvalue, rfl⟩ := List.mem_map.mp he
    have hslot : (s.slot key).passivated = some value := Option.mem_toList.mp hvalue
    have hgone : (s.settled (.get key)).isPassivated key = false := by
      rw [settled_isPassivated]
      exact hshift.used key rfl
    rw [isPassivated_slot, Option.isSome_eq_false_iff, Option.isNone_iff_eq_none] at hgone
    have hfound := h.sound.find_passivated hslot
    rw [← hfind, find_slot, hgone, Option.or_none] at hfound
    refine ⟨hfound, ?_⟩
    rw [isPassivated_slot, hslot]
    rfl

/-- Of an entry that comes back there is a notice, and it is the first one. -/
theorem Sound.get_notices (h : s.Sound) (key : K) :
    ∃ old, ((StoreCall.get key).step s).2 =
      ((s.slot key).passivated.toList.map fun value => .activated key value) ++
        displacedNotice old := by
  unfold StoreCall.step Store.get slot Shard.slot
  dsimp only
  cases ha : (s.shard key).active.lookup key with
  | some value =>
    have hnone : (s.shard key).passivated.lookup key = none :=
      (lookup_none_iff _ _).mpr ((h.shard_sound key).apart key (mem_keys_of_lookup ha))
    rw [hnone]
    exact ⟨none, rfl⟩
  | none =>
    cases (s.shard key).passivated.lookup key with
    | none => exact ⟨none, rfl⟩
    | some value => exact ⟨_, rfl⟩

/-- No other call gives notice of an entry that comes back. -/
theorem activated_of_read {call : StoreCall K T} (hr : call.isRead = false) (key : K) (value : T) :
    Notice.activated key value ∉ (call.step s).2 := by
  intro hm
  obtain ⟨other, rfl⟩ := reads_of_activated hm
  cases hr

section Hearing
variable {echo : Event K T → List E} (he : Event.Minds echo)
include he

omit [DecidableEq K] [ShardKey K] in
/-- Of all notices only the departures are heard, if nothing comes back. -/
theorem flatMap_rounds {notices : List (Notice K T)}
    (hn : ∀ key value, Notice.activated key value ∉ notices) :
    (notices.flatMap fun notice => notice.rounds.flatMap echo) =
      (departuresIn notices).flatMap fun e => echo (.prePassivate e.1 e.2) := by
  induction notices with
  | nil => rfl
  | cons notice notices ih =>
    have hrest := ih fun key value hm => hn key value (List.mem_cons_of_mem _ hm)
    rw [List.flatMap_cons, hrest]
    cases notice with
    | activated key value => exact absurd List.mem_cons_self (hn key value)
    | passivated key value => simp [Notice.rounds, he.left]
    | modified key value =>
      rw [Notice.rounds, List.flatMap_singleton, he.modified]
      rfl
    | removed key =>
      rw [Notice.rounds, List.flatMap_singleton, he.removed]
      rfl

/-- Of a call on one key the entry is heard that comes back, and then the one that leaves. -/
theorem Kept.crossings (h : s.Kept options) (hp : s.persistent = false) {call : StoreCall K T}
    (hc : call.isSingle = true) :
    (s.news [call]).flatMap echo =
      (if call.isRead then s.entered (s.settled call) else []).flatMap
          (fun e => echo (.postActivate e.1 e.2)) ++
        (s.departed (s.settled call)).flatMap fun e => echo (.prePassivate e.1 e.2) := by
  rw [news_single, announced_all hp, h.departed_eq hc, List.flatMap_assoc]
  cases hr : call.isRead with
  | false => exact flatMap_rounds he (activated_of_read hr)
  | true =>
    cases call with
    | get key =>
      obtain ⟨old, hnotices⟩ := h.sound.get_notices key
      have hdepartures : departuresIn ((StoreCall.get key).step s).2 =
          departuresIn (displacedNotice old) := by
        rw [hnotices]
        cases (s.slot key).passivated <;> rfl
      rw [if_pos rfl, h.entered_eq, hdepartures, hnotices, List.flatMap_append,
        flatMap_rounds he (activated_displaced old)]
      cases (s.slot key).passivated <;> simp [Notice.rounds]
    | _ => cases hr

end Hearing
end Store
end SessionAttributes
