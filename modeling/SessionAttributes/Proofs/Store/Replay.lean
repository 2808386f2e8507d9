import SessionAttributes.Proofs.Store.Moves

namespace SessionAttributes

variable {K V : Type}

structure Slot (V : Type) where
  active : Option V
  passivated : Option V
deriving DecidableEq

/-- Whoever wants to know of every change needs calls that tell of theirs. -/
def StoreCall.Loud : StoreCall K V → Prop
  | .put _ _ mode | .remove _ mode => mode ≠ .silent
  | .get _ | .getAll _ | .evict _ => True

theorem AccessMode.notifies_of_ne_silent (mode : AccessMode) (h : mode ≠ .silent) :
    mode.notifies = true := by
  cases mode with
  | silent => exact absurd rfl h
  | normal => rfl
  | writeOnly => rfl

namespace Event

def key : Event K V → K
  | .prePassivate key _ | .postPassivate key | .postActivate key _ | .modified key _
  | .removed key => key

def turn : Event K V → Slot V → Slot V
  | .prePassivate _ _, slot => slot
  | .postPassivate _, ⟨some value, _⟩ => ⟨none, some value⟩
  | .postPassivate _, ⟨none, passivated⟩ => ⟨none, passivated⟩
  | .postActivate _ value, _ | .modified _ value, _ => ⟨some value, none⟩
  | .removed _, _ => ⟨none, none⟩

variable [DecidableEq K]

/-- The tiers as someone knows them who hears of an event. -/
def hear (tiers : K → Slot V) (event : Event K V) : K → Slot V :=
  Function.update tiers event.key (event.turn (tiers event.key))

/-- The tiers as someone knows them who heard some events, all from empty tiers on. -/
def replay (events : List (Event K V)) : K → Slot V := events.foldl hear fun _ => ⟨none, none⟩

theorem replay_append (events events' : List (Event K V)) :
    replay (events ++ events') = events'.foldl hear (replay events) := List.foldl_append

/-- Of all events only those on a key matter to it. -/
theorem foldl_hear (events : List (Event K V)) (tiers : K → Slot V) (k : K) :
    events.foldl hear tiers k =
      events.foldl (fun slot event => if event.key = k then event.turn slot else slot)
        (tiers k) := by
  induction events generalizing tiers with
  | nil => rfl
  | cons event events ih =>
    rw [List.foldl_cons, List.foldl_cons, ih]
    by_cases hk : event.key = k
    · subst hk
      rw [hear, Function.update_self, if_pos rfl]
    · rw [hear, Function.update_of_ne (Ne.symm hk), if_neg hk]

theorem foldl_hear_congr (events : List (Event K V)) {tiers tiers' : K → Slot V} {k : K}
    (h : tiers k = tiers' k) : events.foldl hear tiers k = events.foldl hear tiers' k := by
  rw [foldl_hear, foldl_hear, h]

theorem foldl_hear_other {events : List (Event K V)} (tiers : K → Slot V) {k : K}
    (h : ∀ event ∈ events, event.key ≠ k) : events.foldl hear tiers k = tiers k := by
  rw [foldl_hear]
  induction events with
  | nil => rfl
  | cons event events ih =>
    rw [List.foldl_cons, if_neg (h event List.mem_cons_self)]
    exact ih fun other hm => h other (List.mem_cons_of_mem _ hm)

/-- Both rounds of a passivation move its entry. -/
theorem hear_passivated {tiers : K → Slot V} {key : K} {value : V}
    (h : (tiers key).active = some value) :
    (Notice.passivated key value).rounds.foldl hear tiers =
      Function.update tiers key ⟨none, some value⟩ := by
  have hturn : (Event.postPassivate key).turn (tiers key) = ⟨none, some value⟩ := by
    cases hslot : tiers key with
    | mk active passivated =>
      rw [hslot] at h
      obtain rfl : active = some value := h
      rfl
  have hpre : hear tiers (.prePassivate key value) = tiers := Function.update_eq_self _ _
  rw [Notice.rounds, List.foldl_cons, hpre, List.foldl_cons, List.foldl_nil, hear]
  exact congrArg _ hturn

end Event

/-- Each first round of a passivation is followed at once by its second round, which comes nowhere
else. -/
structure Paired (events : List (Event K V)) : Prop where
  next : ∀ i key, (∃ value, events[i]? = some (.prePassivate key value)) ↔
    events[i + 1]? = some (.postPassivate key)
  first : ∀ key, events[0]? ≠ some (.postPassivate key)

theorem Paired.append {events events' : List (Event K V)} (h : Paired events)
    (h' : Paired events') : Paired (events ++ events') := by
  refine ⟨?_, ?_⟩
  · intro i key
    rcases Nat.lt_trichotomy (i + 1) events.length with hlt | heq | hgt
    · rw [List.getElem?_append_left hlt, List.getElem?_append_left (by omega)]
      exact h.next i key
    · -- The last of the first events opens no pair, and the first of the others closes none.
      rw [List.getElem?_append_left (by omega), heq, List.getElem?_append_right (Nat.le_refl _),
        Nat.sub_self, h.next i key, List.getElem?_eq_none (by omega)]
      exact iff_of_false nofun (h'.first key)
    · have hshift : i + 1 - events.length = i - events.length + 1 := by omega
      rw [List.getElem?_append_right (by omega), List.getElem?_append_right (by omega), hshift]
      exact h'.next (i - events.length) key
  · intro key
    cases events with
    | nil => exact h'.first key
    | cons event events => exact h.first key

theorem paired_nil : Paired ([] : List (Event K V)) := ⟨by simp, by simp⟩

theorem paired_single {event : Event K V} (hpre : ∀ key value, event ≠ .prePassivate key value)
    (hpost : ∀ key, event ≠ .postPassivate key) : Paired [event] := by
  refine ⟨?_, ?_⟩
  · intro i key
    cases i with
    | zero => simp [hpre]
    | succ i => simp
  · intro key
    simp [hpost]

theorem paired_rounds (notice : Notice K V) : Paired notice.rounds := by
  cases notice with
  | passivated key value =>
    refine ⟨?_, by simp [Notice.rounds]⟩
    intro i k
    match i with
    | 0 => simp [Notice.rounds]
    | 1 => simp [Notice.rounds]
    | i + 2 => simp [Notice.rounds]
  | activated key value => exact paired_single nofun nofun
  | modified key value => exact paired_single nofun nofun
  | removed key => exact paired_single nofun nofun

theorem paired_announced (notices : List (Notice K V)) : Paired (notices.flatMap Notice.rounds) := by
  induction notices with
  | nil => exact paired_nil
  | cons notice notices ih =>
    rw [List.flatMap_cons]
    exact (paired_rounds notice).append ih

namespace Shard
variable [DecidableEq K] {s : Shard K V} {key : K} {value : V}

def slot (s : Shard K V) (key : K) : Slot V := ⟨s.active.lookup key, s.passivated.lookup key⟩

/-- A hit moves its entry to the front and leaves it in its tier. -/
theorem slot_touch (hv : s.active.lookup key = some value) :
    (⟨(key, value) :: without key s.active, s.passivated⟩ : Shard K V).slot = s.slot := by
  funext k
  simp only [slot, lookup_bound, lookup_without]
  by_cases hk : k = key
  · simp [hk, hv]
  · simp [hk]

theorem slot_erase (s : Shard K V) (key : K) :
    (s.erase key).slot = Function.update s.slot key ⟨none, none⟩ := by
  funext k
  simp only [slot, erase, lookup_without]
  by_cases hk : k = key
  · simp [hk]
  · simp [hk, slot]

theorem slot_of_find_none (h : s.find? key = none) : s.slot key = ⟨none, none⟩ := by
  obtain ⟨ha, hp⟩ := (find_none_iff s key).mp h
  rw [slot, (lookup_none_iff _ _).mpr ha, (lookup_none_iff _ _).mpr hp]

theorem slot_passivate (hv : s.active.lookup key = some value) :
    (s.passivate key value).slot = (Notice.passivated key value).rounds.foldl Event.hear s.slot := by
  rw [Event.hear_passivated hv]
  funext k
  simp only [slot, passivate, lookup_bound, lookup_without]
  by_cases hk : k = key
  · simp [hk]
  · simp [hk, slot]

/-- An entry that makes room is heard to leave after the new one has come. -/
theorem Sound.slot_accept (h : s.Sound) (hn : s.find? key = none) (limit : Option Nat) (value : V) :
    (s.accept limit key value).1.slot =
      ((Store.displacedNotice (s.accept limit key value).2).flatMap Notice.rounds).foldl Event.hear
        (Function.update s.slot key ⟨some value, none⟩) := by
  obtain ⟨ha, hp⟩ := (find_none_iff s key).mp hn
  have hnone := (lookup_none_iff key s.passivated).mpr hp
  unfold Shard.accept
  cases hd : s.displaced limit key with
  | none =>
    funext k
    simp only [slot, lookup_bound, lookup_without, Store.displacedNotice, List.flatMap_nil,
      List.foldl_nil]
    by_cases hk : k = key
    · simp [hk, hnone]
    · simp [hk, slot]
  | some old =>
    obtain ⟨oldKey, oldValue⟩ := old
    obtain ⟨front, hf⟩ := displaced_shape hd
    obtain ⟨-, hold⟩ := nodup_displaced (hf ▸ h.active)
    have hmem : (oldKey, oldValue) ∈ s.active := hf ▸ List.mem_append_right _ List.mem_cons_self
    have hne : oldKey ≠ key := by
      rintro rfl
      exact ha (List.mem_map_of_mem hmem)
    have hother : ∀ k, k ≠ oldKey → front.lookup k = s.active.lookup k := by
      intro k hk
      rw [hf, List.lookup_append, lookup_bound, if_neg hk, List.lookup_nil, Option.or_none]
    have hfound : (Function.update s.slot key ⟨some value, none⟩ oldKey).active =
        some oldValue := by
      rw [Function.update_of_ne hne]
      exact lookup_of_mem h.active hmem
    rw [Store.displacedNotice, List.flatMap_singleton, Event.hear_passivated hfound]
    funext k
    simp only [slot, lookup_bound, lookup_without, hf, List.dropLast_concat]
    by_cases hk : k = oldKey
    · subst hk
      simp [hne, (lookup_none_iff _ _).mpr hold]
    · by_cases hkk : k = key
      · subst hkk
        simp [hk, hnone]
      · simp [hk, hkk, slot, hother k hk]

/-- The same when the key was held before: it is taken out first. -/
theorem Sound.slot_put (h : s.Sound) (limit : Option Nat) (key : K) (value : V) :
    ((s.erase key).accept limit key value).1.slot =
      ((Store.displacedNotice ((s.erase key).accept limit key value).2).flatMap
        Notice.rounds).foldl Event.hear (Function.update s.slot key ⟨some value, none⟩) := by
  have herased : (s.erase key).find? key = none := by simp [find_erase]
  rw [(h.erase key).slot_accept herased, slot_erase, Function.update_idem]

end Shard

namespace Store
variable [DecidableEq K] [ShardKey K] {options : StoreOptions} {s : Store K V}

def slot (s : Store K V) (key : K) : Slot V := (s.shard key).slot key

theorem slot_congr {s' : Store K V} (h : s'.shards = s.shards) : s'.slot = s.slot := by
  funext k
  simp only [slot, shard, index, h]

theorem find_congr {s' : Store K V} (h : s'.shards = s.shards) : s'.find? = s.find? := by
  funext k
  simp only [find?, shard, index, h]

/-- A change of one shard, heard by someone who knows the whole store. -/
theorem Sound.slot_setShard (h : s.Sound) {key : K} {shard : Shard K V}
    {events : List (Event K V)} (hevents : ∀ event ∈ events, s.index event.key = s.index key)
    (hs : shard.slot = events.foldl Event.hear (s.shard key).slot) :
    (s.setShard key shard).slot = events.foldl Event.hear s.slot := by
  funext k
  rw [slot, h.shard_setShard]
  by_cases hi : s.index k = s.index key
  · have hsame : (s.shard key).slot k = s.slot k := by
      rw [slot, Store.shard, Store.shard, hi]
    rw [if_pos hi, hs]
    exact Event.foldl_hear_congr events hsame
  · rw [if_neg hi, Event.foldl_hear_other]
    · rfl
    · rintro event hm rfl
      exact hi (hevents event hm)

/-- Whoever makes room for a key stands in the same shard. -/
theorem Kept.displaced_home (h : s.Kept options) {key : K} {value : V} {event : Event K V}
    (hm : event ∈ (displacedNotice
      (((s.shard key).erase key).accept s.limit key value).2).flatMap Notice.rounds) :
    s.index event.key = s.index key := by
  have hshifts := (h.sound.shard_sound key).put_shifts s.limit key value
  revert hm
  generalize (((s.shard key).erase key).accept s.limit key value).2 = old at hshifts
  intro hm
  cases old with
  | none => cases hm
  | some old =>
    obtain ⟨⟨-, hactive⟩, -⟩ := hshifts.leaves old (List.mem_singleton.mpr rfl)
    have hkey : event.key = old.1 := by
      rw [displacedNotice, List.flatMap_singleton, Notice.rounds] at hm
      rcases List.mem_cons.mp hm with rfl | hm
      · rfl
      · rw [List.mem_singleton.mp hm]
        rfl
    rw [hkey]
    exact h.home _ _ (h.sound.shard_at key) old.1 (List.mem_append_left _ hactive)

/-- The entry of a key gets a value, as an event tells, and another one may have to make room. -/
theorem Kept.slot_put (h : s.Kept options) {key : K} {value : V} {news : Notice K V}
    (event : Event K V) (hnews : news.rounds = [event]) (hkey : event.key = key)
    (hturn : ∀ slot, event.turn slot = ⟨some value, none⟩) :
    (s.setShard key (((s.shard key).erase key).accept s.limit key value).1).slot =
      ((news :: displacedNotice
        (((s.shard key).erase key).accept s.limit key value).2).flatMap Notice.rounds).foldl
          Event.hear s.slot := by
  rw [List.flatMap_cons, hnews]
  apply h.sound.slot_setShard
  · intro other hm
    rcases List.mem_cons.mp hm with rfl | hm
    · rw [hkey]
    · exact h.displaced_home hm
  · rw [(h.sound.shard_sound key).slot_put, List.singleton_append, List.foldl_cons, Event.hear,
      hturn, hkey]

theorem Kept.get_heard (h : s.Kept options) (key : K) :
    (s.get key).store.slot =
      ((s.get key).notices.flatMap Notice.rounds).foldl Event.hear s.slot := by
  unfold Store.get
  dsimp only
  cases ha : (s.shard key).active.lookup key with
  | some value => exact h.sound.slot_setShard (List.forall_mem_nil _) (Shard.slot_touch ha)
  | none =>
    cases hp : (s.shard key).passivated.lookup key with
    | none => rfl
    | some value => exact h.slot_put (.postActivate key value) rfl rfl fun _ => rfl

theorem Kept.put_heard (h : s.Kept options) (key : K) (value : V) {mode : AccessMode}
    (hm : mode ≠ .silent) :
    (s.put key value mode).store.slot =
      ((s.put key value mode).notices.flatMap Notice.rounds).foldl Event.hear s.slot := by
  unfold Store.put
  dsimp only
  rw [if_pos (mode.notifies_of_ne_silent hm)]
  exact h.slot_put (.modified key value) rfl rfl fun _ => rfl

theorem Kept.remove_heard (h : s.Kept options) (key : K) {mode : AccessMode}
    (hm : mode ≠ .silent) :
    (s.remove key mode).store.slot =
      ((s.remove key mode).notices.flatMap Notice.rounds).foldl Event.hear s.slot := by
  unfold Store.remove
  dsimp only
  cases (s.shard key).find? key with
  | none => rfl
  | some value =>
    dsimp only
    rw [if_pos (mode.notifies_of_ne_silent hm)]
    apply h.sound.slot_setShard
    · intro event hevent
      rw [List.flatMap_singleton, Notice.rounds, List.mem_singleton] at hevent
      rw [hevent]
      rfl
    · exact Shard.slot_erase _ key

theorem Kept.evict_heard (h : s.Kept options) (key : K) :
    (s.evict key).store.slot =
      ((s.evict key).notices.flatMap Notice.rounds).foldl Event.hear s.slot := by
  unfold Store.evict
  dsimp only
  cases ha : (s.shard key).active.lookup key with
  | none => rfl
  | some value =>
    apply h.sound.slot_setShard
    · intro event hm
      rw [List.flatMap_singleton, Notice.rounds] at hm
      rcases List.mem_cons.mp hm with rfl | hm
      · rfl
      · rw [List.mem_singleton.mp hm]
        rfl
    · rw [List.flatMap_singleton]
      exact Shard.slot_passivate ha

/-- What a step leaves to be announced tells what it did, if it keeps nothing to itself. -/
theorem Kept.step_slot (h : s.Kept options) {call : StoreCall K V} (hc : call.Loud) :
    (call.step s).1.slot = ((call.step s).2.flatMap Notice.rounds).foldl Event.hear s.slot := by
  cases call with
  | getAll keys => rfl
  | get key => exact h.get_heard key
  | put key value mode => exact h.put_heard key value hc
  | remove key mode => exact h.remove_heard key hc
  | evict key => exact h.evict_heard key

/-- Whether an event that carries the value of a key carries the one that a store holds. -/
def Shows (s : Store K V) : Event K V → Prop
  | .prePassivate key value | .postActivate key value => s.find? key = some value
  | .postPassivate _ | .modified _ _ | .removed _ => True

theorem Shows.congr {s s' : Store K V} {event : Event K V} (h : s.Shows event)
    (hs : s'.shards = s.shards) : s'.Shows event := by
  cases event with
  | prePassivate key value => exact (congrFun (find_congr hs) key).trans h
  | postActivate key value => exact (congrFun (find_congr hs) key).trans h
  | _ => trivial

omit [DecidableEq K] [ShardKey K] in
theorem activated_displaced (old : Option (K × V)) (key : K) (value : V) :
    Notice.activated key value ∉ displacedNotice old := by
  cases old <;> simp [displacedNotice]

/-- Only a read gives notice of an entry that comes back. -/
theorem reads_of_activated {call : StoreCall K V} {key : K} {value : V}
    (hm : Notice.activated key value ∈ (call.step s).2) : ∃ other, call = .get other := by
  cases call with
  | get other => exact ⟨other, rfl⟩
  | getAll keys => cases hm
  | put other held mode =>
    rcases List.mem_append.mp hm with hm | hm
    · cases mode <;> simp [AccessMode.notifies] at hm
    · exact absurd hm (activated_displaced _ _ _)
  | remove other mode =>
    unfold StoreCall.step Store.remove at hm
    dsimp only at hm
    split at hm
    · cases hm
    · cases mode <;> simp [AccessMode.notifies] at hm
  | evict other =>
    unfold StoreCall.step Store.evict at hm
    dsimp only at hm
    split at hm
    · cases hm
    · simp at hm

/-- The entry of which there is such a notice is there. -/
theorem Sound.step_activated (h : s.Sound) {call : StoreCall K V} {key : K} {value : V}
    (hm : Notice.activated key value ∈ (call.step s).2) :
    (call.step s).1.find? key = some value := by
  obtain ⟨other, rfl⟩ := reads_of_activated hm
  obtain ⟨-, hfind, -⟩ := h.get other
  refine (congrFun hfind key).trans ?_
  unfold StoreCall.step Store.get at hm
  dsimp only at hm
  cases ha : (s.shard other).active.lookup other with
  | some _ => simp [ha] at hm
  | none =>
    cases hp : (s.shard other).passivated.lookup other with
    | none => simp [ha, hp] at hm
    | some held =>
      simp only [ha, hp] at hm
      rcases List.mem_cons.mp hm with heq | hm
      · cases heq
        simp [Store.find?, Shard.find?, ha, hp]
      · exact absurd hm (activated_displaced _ _ _)

/-- Every value that a step's notices tell of is the one that the store holds after it. -/
theorem Kept.step_shows (h : s.Kept options) {call : StoreCall K V} {notice : Notice K V}
    (hm : notice ∈ (call.step s).2) {event : Event K V} (he : event ∈ notice.rounds) :
    (call.step s).1.Shows event := by
  cases notice with
  | passivated key value =>
    rw [Notice.rounds] at he
    rcases List.mem_cons.mp he with rfl | he
    · have hsingle : call.isSingle = true := by
        cases call with
        | getAll keys => cases hm
        | _ => rfl
      have hout : (key, value) ∈ departuresIn (call.step s).2 :=
        List.mem_filterMap.mpr ⟨_, hm, rfl⟩
      obtain ⟨⟨hfind, -⟩, huses⟩ := (h.step_shifts hsingle).leaves _ hout
      exact (h.sound.step_find call huses).trans hfind
    · rw [List.mem_singleton.mp he]
      trivial
  | activated key value =>
    rw [List.mem_singleton.mp he]
    exact h.sound.step_activated hm
  | modified key value =>
    rw [List.mem_singleton.mp he]
    trivial
  | removed key =>
    rw [List.mem_singleton.mp he]
    trivial

end Store
end SessionAttributes
