import Mathlib.Data.Finmap
import SessionAttributes.Proofs.Store.Layout
import SessionAttributes.World.Call

namespace SessionAttributes

variable {W K V : Type} [DecidableEq K]

theorem keys_addFound (key : K) (value : V) (found : List (K × V)) :
    keysOf (addFound key value found) =
      if key ∈ keysOf found then keysOf found else keysOf found ++ [key] := by
  induction found with
  | nil => rfl
  | cons e rest ih =>
    obtain ⟨k, v⟩ := e
    by_cases hk : k = key
    · subst hk
      simp [addFound, keysOf]
    · simp only [keysOf] at ih
      simp only [addFound, if_neg hk, keysOf, List.map_cons, ih, List.mem_cons, Ne.symm hk,
        false_or]
      by_cases hm : key ∈ List.map Prod.fst rest <;> simp [hm]

/-- A bulk read lists each key once. -/
theorem nodup_collect (m : K → Option V) (keys : List K) {found : List (K × V)}
    (h : (keysOf found).Nodup) : (keysOf (collect m keys found)).Nodup := by
  induction keys generalizing found with
  | nil => exact h
  | cons key keys ih =>
    unfold collect
    cases m key with
    | none => exact ih h
    | some value =>
      apply ih
      rw [keys_addFound]
      split
      · exact h
      · rename_i hn
        exact List.nodup_append.mpr ⟨h, List.nodup_singleton key, by
          intro k hk k' hk' he
          rw [List.mem_singleton.mp hk'] at he
          exact hn (he ▸ hk)⟩

namespace StoreCall

def update : StoreCall K V → Finmap (fun _ : K => V) → Finmap fun _ : K => V
  | .put key value _, m => m.insert key value
  | .remove key _, m => m.erase key
  | .get _, m | .getAll _, m | .evict _, m => m

def held (calls : List (StoreCall K V)) : Finmap fun _ : K => V :=
  calls.foldl (fun m call => call.update m) ∅

/-- Whether an answer is the one that a finite map gives. -/
def Fits (m : Finmap fun _ : K => V) : (call : StoreCall K V) → call.Answer → Prop
  | .get key, answer => answer = m.lookup key
  | .getAll keys, answer => (keysOf answer).Nodup ∧
      ∀ key, answer.lookup key = if key ∈ keys then m.lookup key else none
  | .put key _ mode, answer | .remove key mode, answer =>
      answer = if mode = .normal then m.lookup key else none
  | .evict _, answer => answer = ()

theorem held_concat (calls : List (StoreCall K V)) (call : StoreCall K V) :
    held (calls ++ [call]) = call.update (held calls) := by
  simp [held]

theorem lookup_update (call : StoreCall K V) (m : Finmap fun _ : K => V) :
    (call.update m).lookup = (call.onMap m.lookup).2 := by
  cases call with
  | get key => rfl
  | getAll keys => rfl
  | evict key => rfl
  | put key value mode =>
    funext k
    by_cases hk : k = key
    · subst hk
      simp [update, onMap]
    · simp [update, onMap, hk]
  | remove key mode =>
    funext k
    by_cases hk : k = key
    · subst hk
      simp [update, onMap]
    · simp [update, onMap, hk]

theorem reveal_eq (mode : AccessMode) (previous : Option V) :
    mode.reveal previous = if mode = .normal then previous else none := by
  cases mode <;> rfl

theorem fits_onMap (m : Finmap fun _ : K => V) (call : StoreCall K V) :
    call.Fits m (call.onMap m.lookup).1 := by
  cases call with
  | get key => rfl
  | getAll keys =>
    refine ⟨nodup_collect _ keys List.nodup_nil, fun key => ?_⟩
    simp [onMap, lookup_collect]
  | put key value mode => exact reveal_eq mode _
  | remove key mode => exact reveal_eq mode _
  | evict key => rfl

end StoreCall

namespace Store
variable [ShardKey K]

structure Represents (options : StoreOptions) (s : Store K V) (m : K → Option V) : Prop where
  kept : s.Kept options
  find : s.find? = m

variable {options : StoreOptions} {s : Store K V} {m : K → Option V}

theorem Represents.count (h : s.Represents options m) (notice : Notice K V) :
    (s.count notice).Represents options m :=
  ⟨h.kept.count notice, (find_count s notice).trans h.find⟩

theorem Represents.get (h : s.Represents options m) (key : K) :
    (s.get key).answer = m key ∧ (s.get key).store.Represents options m := by
  obtain ⟨ha, hf, -⟩ := h.kept.sound.get key
  exact ⟨ha.trans (congrFun h.find key), (h.kept.get key).kept, hf.trans h.find⟩

theorem Represents.put (h : s.Represents options m) (key : K) (value : V) (mode : AccessMode) :
    (s.put key value mode).answer = mode.reveal (m key) ∧
      (s.put key value mode).store.Represents options (Function.update m key (some value)) := by
  obtain ⟨ha, hf, -⟩ := h.kept.sound.put key value mode
  rw [h.find] at ha hf
  exact ⟨ha, (h.kept.put key value mode).kept, hf⟩

theorem Represents.remove (h : s.Represents options m) (key : K) (mode : AccessMode) :
    (s.remove key mode).answer = mode.reveal (m key) ∧
      (s.remove key mode).store.Represents options (Function.update m key none) := by
  obtain ⟨ha, hf, -⟩ := h.kept.sound.remove key mode
  rw [h.find] at ha hf
  exact ⟨ha, (h.kept.remove key mode).kept, hf⟩

theorem Represents.evict (h : s.Represents options m) (key : K) :
    (s.evict key).store.Represents options m :=
  ⟨(h.kept.evict key).kept, (h.kept.sound.evict key).1.trans h.find⟩

end Store

namespace Place

def Lawful (place : Place W K V) : Prop := ∀ w site, place.get (place.set w site) = site

def Quiet (place : Place W K V) (tell : Tell W K V) : Prop :=
  ∀ hearer event w, (place.get (tell hearer event w)).store = (place.get w).store

variable {place : Place W K V} {tell : Tell W K V}

omit [DecidableEq K] in
theorem foldl_store {A : Type} {f : W → A → W}
    (h : ∀ w a, (place.get (f w a)).store = (place.get w).store) (as : List A) (w : W) :
    (place.get (as.foldl f w)).store = (place.get w).store := by
  induction as generalizing w with
  | nil => rfl
  | cons a as ih => exact (ih (f w a)).trans (h w a)

omit [DecidableEq K] in
theorem announce_store (hl : place.Lawful) (hq : place.Quiet tell) (w : W) (notice : Notice K V) :
    (place.get (place.announce tell w notice)).store = (place.get w).store.count notice := by
  have hround : ∀ hearers w event,
      (place.get (tellAll tell hearers w event)).store = (place.get w).store :=
    fun hearers w event => foldl_store (fun w hearer => hq hearer event w) hearers w
  have hset : (place.get (place.set w
      { place.get w with store := (place.get w).store.count notice })).store =
        (place.get w).store.count notice := by rw [hl]
  unfold announce
  dsimp only
  split
  · exact (foldl_store (hround _) _ _).trans hset
  · exact hset

variable [ShardKey K] {options : StoreOptions} {m : K → Option V}

theorem announceAll_represents (hl : place.Lawful) (hq : place.Quiet tell)
    (notices : List (Notice K V)) {w : W} (h : (place.get w).store.Represents options m) :
    (place.get (notices.foldl (place.announce tell) w)).store.Represents options m := by
  induction notices generalizing w with
  | nil => exact h
  | cons notice notices ih =>
    apply ih
    rw [announce_store hl hq]
    exact h.count notice

theorem settle_represents {A : Type} (hl : place.Lawful) (hq : place.Quiet tell) (w : W)
    {step : Store K V → Outcome K V A}
    (h : (step (place.get w).store).store.Represents options m) :
    (place.get (place.settle tell w step).2).store.Represents options m := by
  apply announceAll_represents hl hq
  rw [hl]
  exact h

theorem readAll_represents (hl : place.Lawful) (hq : place.Quiet tell) (keys : List K)
    (found : List (K × V)) {w : W} (h : (place.get w).store.Represents options m) :
    (place.readAll tell keys found w).1 = collect m keys found ∧
      (place.get (place.readAll tell keys found w).2).store.Represents options m := by
  induction keys generalizing found w with
  | nil => exact ⟨rfl, h⟩
  | cons key keys ih =>
    obtain ⟨hanswer, hget⟩ := h.get key
    have hread : (place.get (place.settle tell w (·.get key)).2).store.Represents options m :=
      settle_represents hl hq w hget
    have hfirst : (place.settle tell w (·.get key)).1 = m key := hanswer
    unfold readAll collect
    generalize place.settle tell w (·.get key) = r at hread hfirst
    obtain ⟨answer, w'⟩ := r
    replace hfirst : answer = m key := hfirst
    rw [← hfirst]
    cases answer with
    | none => exact ih found hread
    | some value => exact ih (addFound key value found) hread

/-- A call answers as the map does and leaves what it leaves. -/
theorem serve_represents (hl : place.Lawful) (hq : place.Quiet tell) {w : W}
    (h : (place.get w).store.Represents options m) (call : StoreCall K V) :
    (place.serve tell w call).1 = (call.onMap m).1 ∧
      (place.get (place.serve tell w call).2).store.Represents options (call.onMap m).2 := by
  cases call with
  | get key =>
    obtain ⟨ha, hr⟩ := h.get key
    exact ⟨ha, settle_represents hl hq w hr⟩
  | getAll keys => exact readAll_represents hl hq keys [] h
  | put key value mode =>
    obtain ⟨ha, hr⟩ := h.put key value mode
    exact ⟨ha, settle_represents hl hq w hr⟩
  | remove key mode =>
    obtain ⟨ha, hr⟩ := h.remove key mode
    exact ⟨ha, settle_represents hl hq w hr⟩
  | evict key => exact ⟨rfl, settle_represents hl hq w (h.evict key)⟩

/-- The calls that a store has served since it was opened. In between, anything may happen that
leaves the store alone. -/
inductive Serves (place : Place W K V) (tell : Tell W K V) (w₀ : W) :
    List (StoreCall K V) → W → Prop
  | start : Serves place tell w₀ [] w₀
  | aside {calls : List (StoreCall K V)} {w w' : W} (h : Serves place tell w₀ calls w)
      (hs : (place.get w').store = (place.get w).store) : Serves place tell w₀ calls w'
  | call {calls : List (StoreCall K V)} {w : W} (h : Serves place tell w₀ calls w)
      (call : StoreCall K V) :
      Serves place tell w₀ (calls ++ [call]) (place.serve tell w call).2

theorem Serves.represents (hl : place.Lawful) (hq : place.Quiet tell) {w₀ w : W}
    (ho : Store.openWith options = .ok (place.get w₀).store) {calls : List (StoreCall K V)}
    (h : Serves place tell w₀ calls w) :
    (place.get w).store.Represents options (StoreCall.held calls).lookup := by
  induction h with
  | start =>
    exact ⟨Store.openWith_kept ho, funext fun key => Store.openWith_find ho key⟩
  | aside _ hs ih =>
    rw [hs]
    exact ih
  | call _ call ih =>
    rw [StoreCall.held_concat, StoreCall.lookup_update]
    exact (serve_represents hl hq ih call).2

/-- Every further call answers as the finite map would after the same calls, and the store contains
and counts the keys of that map. -/
theorem Serves.refines (hl : place.Lawful) (hq : place.Quiet tell) {w₀ w : W}
    (ho : Store.openWith options = .ok (place.get w₀).store) {calls : List (StoreCall K V)}
    (h : Serves place tell w₀ calls w) :
    (∀ call : StoreCall K V, call.Fits (StoreCall.held calls) (place.serve tell w call).1) ∧
      (∀ key, (place.get w).store.contains key = true ↔ key ∈ StoreCall.held calls) ∧
      (place.get w).store.size = (StoreCall.held calls).keys.card := by
  have hr := h.represents hl hq ho
  have hmem : ∀ key, ((place.get w).store.find? key).isSome ↔ key ∈ StoreCall.held calls := by
    intro key
    rw [hr.find]
    exact Finmap.lookup_isSome
  refine ⟨fun call => ?_, fun key => ?_, ?_⟩
  · rw [(serve_represents hl hq hr call).1]
    exact call.fits_onMap (StoreCall.held calls)
  · rw [Store.contains_eq]
    exact hmem key
  · have hkeys : (place.get w).store.keys.toFinset = (StoreCall.held calls).keys := by
      ext key
      rw [List.mem_toFinset, hr.kept.mem_keys, hmem, Finmap.mem_keys]
    rw [Store.size_eq_keys, ← hkeys, List.toFinset_card_of_nodup hr.kept.nodup_keys]

/-- A store of one shard that has room for a single entry: the first entry is passivated by the
second one, and still answers and counts. -/
theorem Serves.refines_spilled :
    ∃ (place : Place (Site UInt64 Bool) UInt64 Bool) (w₀ w : Site UInt64 Bool),
      place.Lawful ∧ place.Quiet (fun _ _ w => w) ∧
        Store.openWith { shards := 1, capacity := some 1 } = .ok (place.get w₀).store ∧
        place.Serves (fun _ _ w => w) w₀ [.put 2 true .normal, .put 4 false .silent] w ∧
        (place.get w).store.isPassivated 2 = true ∧
        (place.serve (fun _ _ w => w) w (.remove 2 .normal)).1 = some true ∧
        (place.get w).store.size = 2 := by
  let place : Place (Site UInt64 Bool) UInt64 Bool := ⟨id, fun _ site => site⟩
  let w₀ : Site UInt64 Bool := ⟨⟨[⟨[], []⟩], some 1, false, 0, 0⟩, Listeners.empty⟩
  have hl : place.Lawful := fun _ _ => rfl
  have hq : place.Quiet fun _ _ w => w := fun _ _ _ => rfl
  have ho : Store.openWith { shards := 1, capacity := some 1 } = .ok (place.get w₀).store := rfl
  have hrun := (Serves.start : place.Serves (fun _ _ w => w) w₀ [] w₀)
    |>.call (.put 2 true .normal) |>.call (.put 4 false .silent)
  obtain ⟨hanswers, -, hsize⟩ := Serves.refines hl hq ho hrun
  have hheld : (StoreCall.held [.put (2 : UInt64) true .normal, .put 4 false .silent]).lookup 2 =
      some true := by simp [StoreCall.held, StoreCall.update]
  exact ⟨place, w₀, _, hl, hq, ho, hrun, by decide, (hanswers (.remove 2 .normal)).trans hheld,
    hsize.trans (by decide)⟩

end Place
end SessionAttributes
