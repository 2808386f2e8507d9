import SessionAttributes.Proofs.Store.Crossings

namespace SessionAttributes

variable {W K V : Type}

/-- Of keys that were touched, the latest first: one was touched for the last time before another
was. -/
def Older [DecidableEq K] (touched : List K) (k k' : K) : Prop :=
  touched.idxOf k' < touched.idxOf k

/-- Keys that were touched, in the order of their latest touches, the latest first. -/
structure Aged [DecidableEq K] (touched keys : List K) : Prop where
  seen : ∀ k ∈ keys, k ∈ touched
  sorted : keys.Pairwise fun k k' => Older touched k' k

section Ages
variable [DecidableEq K] {touched keys : List K} {key : K}

theorem older_touched (touched : List K) {k : K} (h : k ≠ key) : Older (key :: touched) k key := by
  unfold Older
  rw [List.idxOf_cons_self, List.idxOf_cons_ne _ (Ne.symm h)]
  exact Nat.succ_pos _

/-- A touch of a third key changes nothing between two others. -/
theorem older_cons (touched : List K) {k k' : K} (h : k ≠ key) (h' : k' ≠ key) :
    Older (key :: touched) k k' ↔ Older touched k k' := by
  unfold Older
  rw [List.idxOf_cons_ne _ (Ne.symm h), List.idxOf_cons_ne _ (Ne.symm h')]
  exact Nat.succ_lt_succ_iff

theorem aged_nil (touched : List K) : Aged touched [] := ⟨List.forall_mem_nil _, .nil⟩

theorem Aged.sublist {keys' : List K} (h : Aged touched keys) (hs : keys'.Sublist keys) :
    Aged touched keys' :=
  ⟨fun k hk => h.seen k (hs.subset hk), h.sorted.sublist hs⟩

/-- Keys keep their order when another one is touched. -/
theorem Aged.other (h : Aged touched keys) (hn : key ∉ keys) : Aged (key :: touched) keys := by
  have hne : ∀ k ∈ keys, k ≠ key := fun k hk he => hn (he ▸ hk)
  refine ⟨fun k hk => List.mem_cons_of_mem _ (h.seen k hk), h.sorted.imp_of_mem ?_⟩
  intro k k' hk hk' hold
  exact (older_cons touched (hne k' hk') (hne k hk)).mpr hold

/-- The key that was touched comes first. -/
theorem Aged.touch (h : Aged touched keys) (hn : key ∉ keys) :
    Aged (key :: touched) (key :: keys) := by
  refine ⟨fun k hk => ?_, List.pairwise_cons.mpr ⟨fun k hk => ?_, (h.other hn).sorted⟩⟩
  · rcases List.mem_cons.mp hk with rfl | hk
    · exact List.mem_cons_self
    · exact (h.other hn).seen k hk
  · exact older_touched touched fun he => hn (he ▸ hk)

/-- The last key was not touched for longest. -/
theorem Aged.last (h : Aged touched (keys ++ [key])) : ∀ k ∈ keys, Older touched key k :=
  fun k hk => (List.pairwise_append.mp h.sorted).2.2 k hk key List.mem_cons_self

end Ages

namespace StoreCall
variable [DecidableEq K] [ShardKey K]

def touches (s : Store K V) : StoreCall K V → List K
  | .put key _ _ => [key]
  | .get key => if s.contains key then [key] else []
  | .getAll _ | .remove _ _ | .evict _ => []

/-- Whether a step brings a key to primary memory: it writes the key, or reads a passivated one. -/
def Brings (s : Store K V) : StoreCall K V → K → Prop
  | .put key _ _, k => k = key
  | .get key, k => k = key ∧ s.isPassivated key = true
  | .getAll _, _ | .remove _ _, _ | .evict _, _ => False

def evicts : StoreCall K V → K → Bool
  | .evict key, k => k = key
  | .get _, _ | .getAll _, _ | .put _ _ _, _ | .remove _ _, _ => false

end StoreCall

namespace Shard

/-- A shard after a step on a key. The key stands in front if the step touched it; of the other
active entries some may be gone, and the rest have kept their order. -/
def Fronts (key : K) (touches : List K) (s s' : Shard K V) : Prop :=
  ∃ front rest, s'.active = front ++ rest ∧ keysOf front = touches ∧ rest.Sublist s.active ∧
    (touches = [] ∨ touches = [key] ∧ key ∉ keysOf rest)

theorem fronts_of_sublist (key : K) {s s' : Shard K V} (h : s'.active.Sublist s.active) :
    s.Fronts key [] s' :=
  ⟨[], s'.active, rfl, rfl, h, .inl rfl⟩

variable [DecidableEq K] {s s' : Shard K V} {key : K} {value : V}

theorem fronts_of_cons {rest : List (K × V)} (he : s'.active = (key, value) :: rest)
    (hs : rest.Sublist (without key s.active)) : s.Fronts key [key] s' := by
  refine ⟨[(key, value)], rest, he, rfl, hs.trans List.filter_sublist, .inr ⟨rfl, fun hm => ?_⟩⟩
  have hwithout := (hs.map Prod.fst).subset hm
  exact ((mem_keys_without key key s.active).mp hwithout).2 rfl

/-- Whoever comes to a shard stands in front there. -/
theorem accept_fronts (s : Shard K V) (limit : Option Nat) (key : K) (value : V) :
    s.Fronts key [key] ((s.erase key).accept limit key value).1 := by
  unfold accept
  split
  · exact fronts_of_cons rfl List.filter_sublist
  · exact fronts_of_cons rfl (List.filter_sublist.trans (List.dropLast_sublist _))

theorem accept_displaced (s : Shard K V) (limit : Option Nat) (key : K) (value : V) :
    (s.accept limit key value).2 = s.displaced limit key := by
  unfold accept
  split <;> simp_all

theorem displaced_erase (s : Shard K V) (most : Nat) (key : K) :
    (s.erase key).displaced (some most) key =
      if most ≤ (s.erase key).active.length then (s.erase key).active.getLast? else none := by
  have hn : (s.erase key).isActive key = false := by
    rw [← Bool.not_eq_true, isActive_iff]
    exact fun hm => ((mem_keys_without key key s.active).mp hm).2 rfl
  simp [displaced, hn]

theorem without_of_not_mem (h : key ∉ keysOf s.active) : without key s.active = s.active :=
  List.filter_eq_self.mpr fun _ he =>
    bne_iff_ne.mpr fun hk => h (hk ▸ List.mem_map_of_mem he)

end Shard

namespace Store
variable [DecidableEq K] [ShardKey K]

/-- The entries that a step sends out of primary memory, other than by an eviction of them. -/
def displacedBy (s : Store K V) (call : StoreCall K V) : List (K × V) :=
  (s.departed (call.step s).1).filter fun e => !call.evicts e.1

/-- The active entries of each shard stand in the order of their latest touches. -/
def InOrder (s : Store K V) (touched : List K) : Prop :=
  ∀ shard ∈ s.shards, Aged touched (keysOf shard.active)

structure MakesRoom (s : Store K V) (most : Nat) (touched : List K) (call : StoreCall K V) :
    Prop where
  order : s.InOrder touched
  /-- A key that comes to a full shard displaces one entry, which was not touched for longest. -/
  oldest : ∀ key, call.Brings s key → s.isActive key = false →
    most ≤ ((s.shard key).erase key).active.length →
      ∃ e ∈ (s.shard key).active, s.displacedBy call = [e] ∧ e.1 ≠ key ∧
        ∀ e' ∈ (s.shard key).active, e'.1 ≠ e.1 → Older touched e.1 e'.1
  /-- Otherwise nothing is displaced. -/
  room : (∀ key, call.Brings s key → s.isActive key = false →
    ((s.shard key).erase key).active.length < most) → s.displacedBy call = []
  /-- A step that touches no key leaves the order of the entries that remain. -/
  still : call.touches s = [] → List.Forall₂ (fun shard shard' => shard'.active.Sublist shard.active)
    s.shards (call.step s).1.shards

inductive Takes (s₀ : Store K V) : List (Store K V × StoreCall K V) → Store K V → Prop
  | start : Takes s₀ [] s₀
  | step {steps : List (Store K V × StoreCall K V)} {s : Store K V} (h : Takes s₀ steps s)
      {call : StoreCall K V} (hc : call.isSingle = true) :
      Takes s₀ (steps ++ [(s, call)]) (call.step s).1
  | count {steps : List (Store K V × StoreCall K V)} {s : Store K V} (h : Takes s₀ steps s)
      (notice : Notice K V) : Takes s₀ steps (s.count notice)

/-- The keys that some steps have touched, the latest first. -/
def touched (steps : List (Store K V × StoreCall K V)) : List K :=
  (steps.flatMap fun x => x.2.touches x.1).reverse

theorem touched_concat (steps : List (Store K V × StoreCall K V)) (s : Store K V)
    (call : StoreCall K V) :
    touched (steps ++ [(s, call)]) = call.touches s ++ touched steps := by
  have hone : (call.touches s).reverse = call.touches s := by
    cases call with
    | get key => cases hf : s.contains key <;> simp [StoreCall.touches, hf]
    | _ => rfl
  unfold touched
  rw [List.flatMap_append, List.reverse_append, List.flatMap_singleton, hone]

theorem Takes.trans {s₀ s s' : Store K V} {steps steps' : List (Store K V × StoreCall K V)}
    (h : Takes s₀ steps s) (h' : Takes s steps' s') : Takes s₀ (steps ++ steps') s' := by
  induction h' with
  | start => rwa [List.append_nil]
  | step _ hc ih =>
    rw [← List.append_assoc]
    exact ih.step hc
  | count _ notice ih => exact ih.count notice

/-- The steps of some calls on single keys, one after the other. -/
theorem takes_after (s : Store K V) {calls : List (StoreCall K V)}
    (hc : ∀ call ∈ calls, call.isSingle = true) :
    ∃ steps, s.Takes steps (s.after calls) ∧ steps.map Prod.snd = calls := by
  have hcount : ∀ (notices : List (Notice K V)) {s s' : Store K V}
      {steps : List (Store K V × StoreCall K V)}, s.Takes steps s' →
        s.Takes steps (notices.foldl Store.count s') := by
    intro notices
    induction notices with
    | nil => exact fun h => h
    | cons notice notices ih => exact fun h => ih (h.count notice)
  induction calls generalizing s with
  | nil => exact ⟨[], .start, rfl⟩
  | cons call calls ih =>
    obtain ⟨hcall, hcalls⟩ := List.forall_mem_cons.mp hc
    obtain ⟨steps, htakes, hsteps⟩ := ih (s.settled call) hcalls
    have hfirst := hcount (call.step s).2 (Takes.start.step hcall : s.Takes [(s, call)] _)
    exact ⟨(s, call) :: steps, hfirst.trans htakes, by rw [List.map_cons, hsteps]⟩

section Order
variable {options : StoreOptions} {s : Store K V} {key : K} {touched touches : List K}

omit [DecidableEq K] in
theorem Sound.setShard_self (h : s.Sound) (key : K) : s.setShard key (s.shard key) = s := by
  obtain ⟨hlt, hs⟩ := List.getElem?_eq_some_iff.mp (h.shard_at key)
  unfold Store.setShard
  rw [← hs, List.set_getElem_self]

/-- A step works on one shard. -/
theorem Kept.step_fronts (h : s.Kept options) {call : StoreCall K V}
    (hc : call.isSingle = true) :
    ∃ key shard, (call.step s).1 = s.setShard key shard ∧
      (s.shard key).Fronts key (call.touches s) shard := by
  have hidle : ∀ key, ∃ key' shard, s = s.setShard key' shard ∧
      (s.shard key').Fronts key' [] shard := fun key =>
    ⟨key, s.shard key, (h.sound.setShard_self key).symm,
      Shard.fronts_of_sublist key (List.Sublist.refl _)⟩
  cases call with
  | getAll keys => cases hc
  | put key value mode => exact ⟨key, _, rfl, Shard.accept_fronts _ s.limit key value⟩
  | get key =>
    unfold StoreCall.step Store.get StoreCall.touches
    dsimp only
    rw [contains_eq, find?, Shard.find?]
    cases (s.shard key).active.lookup key with
    | some value => exact ⟨key, _, rfl, Shard.fronts_of_cons rfl (List.Sublist.refl _)⟩
    | none =>
      cases (s.shard key).passivated.lookup key with
      | none => exact hidle key
      | some value => exact ⟨key, _, rfl, Shard.accept_fronts _ s.limit key value⟩
  | remove key mode =>
    unfold StoreCall.step Store.remove
    dsimp only
    cases (s.shard key).find? key with
    | none => exact hidle key
    | some value => exact ⟨key, _, rfl, Shard.fronts_of_sublist key List.filter_sublist⟩
  | evict key =>
    unfold StoreCall.step Store.evict
    dsimp only
    cases (s.shard key).active.lookup key with
    | none => exact hidle key
    | some value => exact ⟨key, _, rfl, Shard.fronts_of_sublist key List.filter_sublist⟩

/-- No other shard holds the key that comes to the front of its shard. -/
theorem Kept.inOrder_fronts (h : s.Kept options) (ho : s.InOrder touched) {shard : Shard K V}
    (hf : (s.shard key).Fronts key touches shard) :
    (s.setShard key shard).InOrder (touches ++ touched) := by
  obtain ⟨front, rest, hactive, hfront, hrest, htouches⟩ := hf
  have hkeys : keysOf shard.active = touches ++ keysOf rest := by
    rw [hactive, keysOf, List.map_append]
    exact congrArg (· ++ keysOf rest) hfront
  have haged := (ho _ (h.sound.shard_mem key)).sublist (hrest.map Prod.fst)
  intro other hm
  obtain ⟨j, hj⟩ := List.getElem?_of_mem hm
  simp only [setShard, List.getElem?_set] at hj
  split at hj
  · rename_i he
    rw [if_pos (he ▸ h.sound.index_lt key)] at hj
    obtain rfl := Option.some.inj hj
    rw [hkeys]
    rcases htouches with rfl | ⟨rfl, hnew⟩
    · exact haged
    · exact haged.touch hnew
  · rename_i hne
    have hother := ho other (List.mem_of_getElem? hj)
    rcases htouches with rfl | ⟨rfl, -⟩
    · exact hother
    · exact hother.other fun hk => hne (h.home j other hj key (List.mem_append_left _ hk))

theorem Kept.inOrder_step (h : s.Kept options) (ho : s.InOrder touched) {call : StoreCall K V}
    (hc : call.isSingle = true) : (call.step s).1.InOrder (call.touches s ++ touched) := by
  obtain ⟨key, shard, hstep, hf⟩ := h.step_fronts hc
  rw [hstep]
  exact h.inOrder_fronts ho hf

theorem Kept.still_step (h : s.Kept options) {call : StoreCall K V} (hc : call.isSingle = true)
    (hn : call.touches s = []) :
    List.Forall₂ (fun shard shard' => shard'.active.Sublist shard.active)
      s.shards (call.step s).1.shards := by
  obtain ⟨key, shard, hstep, front, rest, hactive, hfront, hrest, -⟩ := h.step_fronts hc
  rw [hn] at hfront
  obtain rfl := List.map_eq_nil_iff.mp hfront
  rw [hstep, List.forall₂_iff_get]
  refine ⟨by simp [setShard], fun i hi hi' => ?_⟩
  simp only [setShard, List.get_eq_getElem, List.getElem_set]
  split
  · rename_i he
    obtain ⟨_, hs⟩ := List.getElem?_eq_some_iff.mp (h.sound.shard_at key)
    subst he
    rw [hs, hactive]
    exact hrest
  · exact List.Sublist.refl _

/-- A store that has taken some steps is in the order of their touches. -/
theorem Takes.inOrder {s₀ : Store K V} {steps : List (Store K V × StoreCall K V)}
    (ho : Store.openWith options = .ok s₀) (h : Takes s₀ steps s) :
    s.Kept options ∧ s.InOrder (Store.touched steps) := by
  induction h with
  | start =>
    refine ⟨openWith_kept ho, fun shard hm => ?_⟩
    rw [(openWith_shape ho).2] at hm
    rw [(List.mem_replicate.mp hm).2]
    exact aged_nil _
  | @step steps s _ call hc ih =>
    obtain ⟨hkept, horder⟩ := ih
    rw [touched_concat]
    exact ⟨(call.step_steps hkept).kept, hkept.inOrder_step horder hc⟩
  | @count steps s _ notice ih =>
    obtain ⟨hkept, horder⟩ := ih
    refine ⟨hkept.count notice, ?_⟩
    unfold InOrder
    rw [show (s.count notice).shards = s.shards from foldl_count_shards [notice] s]
    exact horder

end Order

section Room
variable {options : StoreOptions} {s : Store K V} {key : K} {call : StoreCall K V} {most : Nat}

theorem Kept.displacedBy_eq (h : s.Kept options) (hc : call.isSingle = true) :
    s.displacedBy call = (departuresIn (call.step s).2).filter fun e => !call.evicts e.1 := by
  have hshards : (s.settled call).shards = (call.step s).1.shards := foldl_count_shards _ _
  rw [displacedBy, ← h.departed_eq hc]
  unfold departed
  rw [hshards]

theorem Kept.displacedBy_brings (h : s.Kept options) (hb : call.Brings s key) :
    s.displacedBy call = (((s.shard key).erase key).displaced s.limit key).toList := by
  have hall : ∀ l : List (K × V), l.filter (fun _ => !false) = l := fun l =>
    List.filter_eq_self.mpr fun _ _ => rfl
  cases call with
  | put other value mode =>
    obtain rfl : key = other := hb
    rw [h.displacedBy_eq rfl, ← Shard.accept_displaced _ _ _ value, ← departuresIn_displaced]
    refine (hall _).trans ?_
    exact departuresIn_told mode rfl _
  | get other =>
    obtain ⟨rfl, hp⟩ := hb
    have ha : (s.shard key).active.lookup key = none := by
      rw [lookup_none_iff]
      exact fun hk => Bool.noConfusion ((h.sound.apart (isActive_iff.mpr hk)).symm.trans hp)
    rw [isPassivated_slot] at hp
    obtain ⟨value, hv⟩ := Option.isSome_iff_exists.mp hp
    replace hv : (s.shard key).passivated.lookup key = some value := hv
    rw [h.displacedBy_eq rfl, ← Shard.accept_displaced _ _ _ value, ← departuresIn_displaced]
    refine (hall _).trans ?_
    simp only [StoreCall.step, Store.get, ha, hv, departuresIn_activated]
  | _ => cases hb

theorem Kept.displacedBy_none (h : s.Kept options) (hc : call.isSingle = true)
    (hn : ∀ key, ¬ call.Brings s key) : s.displacedBy call = [] := by
  rw [h.displacedBy_eq hc]
  cases call with
  | getAll keys => cases hc
  | put key value mode => exact absurd rfl (hn key)
  | get key =>
    have hp : s.isPassivated key = false := Bool.eq_false_iff.mpr fun hp => hn key ⟨rfl, hp⟩
    rw [isPassivated_slot, Option.isSome_eq_false_iff, Option.isNone_iff_eq_none] at hp
    replace hp : (s.shard key).passivated.lookup key = none := hp
    unfold StoreCall.step Store.get
    dsimp only
    rw [hp]
    cases (s.shard key).active.lookup key <;> rfl
  | remove key mode =>
    unfold StoreCall.step Store.remove
    dsimp only
    cases (s.shard key).find? key <;> cases mode <;> rfl
  | evict key =>
    unfold StoreCall.step Store.evict
    dsimp only
    cases (s.shard key).active.lookup key with
    | none => rfl
    | some value => simp [StoreCall.evicts]

/-- Who makes room in a step of a store that is in order. -/
theorem Kept.makesRoom (h : s.Kept options) {touched : List K} (ho : s.InOrder touched)
    (hl : s.limit = some most) (hm : 0 < most) (hc : call.isSingle = true) :
    s.MakesRoom most touched call := by
  refine ⟨ho, fun key hb ha hfull => ?_, fun hroom => ?_, h.still_step hc⟩
  · have hn : key ∉ keysOf (s.shard key).active := by
      rw [← isActive_iff, ha]
      exact Bool.false_ne_true
    have herase : ((s.shard key).erase key).active = (s.shard key).active :=
      Shard.without_of_not_mem hn
    rw [h.displacedBy_brings hb, hl, Shard.displaced_erase, if_pos hfull]
    rw [herase] at hfull ⊢
    have hne : (s.shard key).active ≠ [] := List.length_pos_iff.mp (Nat.lt_of_lt_of_le hm hfull)
    obtain ⟨front, e, he⟩ := List.eq_nil_or_concat _ |>.resolve_left hne
    rw [List.concat_eq_append] at he
    have haged := ho _ (h.sound.shard_mem key)
    have hmem : e ∈ (s.shard key).active := he ▸ List.mem_append_right _ List.mem_cons_self
    have hkey : e.1 ∈ keysOf (s.shard key).active := List.mem_map_of_mem hmem
    refine ⟨e, hmem, ?_, ne_of_mem_of_not_mem hkey hn, fun e' he' hother => ?_⟩
    · rw [he, List.getLast?_concat]
      rfl
    · rw [he] at haged he'
      rw [keysOf, List.map_append] at haged
      rcases List.mem_append.mp he' with hfront | hlast
      · exact haged.last e'.1 (List.mem_map_of_mem hfront)
      · exact absurd (congrArg Prod.fst (List.mem_singleton.mp hlast)) hother
  · by_cases hb : ∃ key, call.Brings s key
    · obtain ⟨key, hb⟩ := hb
      have hfree : ((s.shard key).erase key).active.length < most := by
        cases ha : s.isActive key with
        | false => exact hroom key hb ha
        | true =>
          have hlen := length_without key (h.sound.shard_sound key).active
          rw [if_pos (isActive_iff.mp ha)] at hlen
          have hbound := h.bounded most hl _ (h.sound.shard_mem key)
          change (Shard.without key (s.shard key).active).length < most
          omega
      rw [h.displacedBy_brings hb, hl, Shard.displaced_erase, if_neg (Nat.not_le.mpr hfree)]
      rfl
    · exact h.displacedBy_none hc (not_exists.mp hb)

end Room
end Store

namespace Place
variable [DecidableEq K] [ShardKey K]

/-- A store takes steps from one moment to another, some calls among them in their order. -/
def Makes (place : Place W K V) (calls : List (StoreCall K V)) (w w' : W) : Prop :=
  ∃ steps, (place.get w).store.Takes steps (place.get w').store ∧
    calls.Sublist (steps.map Prod.snd)

/-- Listeners that call the store back as often as they like, and do not touch it otherwise. -/
def Reenters (place : Place W K V) (tell : Tell W K V) : Prop :=
  ∀ hearer event w, ∃ steps,
    (place.get w).store.Takes steps (place.get (tell hearer event w)).store

section Steps
variable {place : Place W K V} {tell : Tell W K V} {w w' w'' : W}
  {calls calls' : List (StoreCall K V)}

theorem makes_of_eq (hs : (place.get w').store = (place.get w).store) : place.Makes [] w w' := by
  refine ⟨[], ?_, List.Sublist.refl _⟩
  rw [hs]
  exact .start

theorem Makes.trans (h : place.Makes calls w w') (h' : place.Makes calls' w' w'') :
    place.Makes (calls ++ calls') w w'' := by
  obtain ⟨steps, htakes, hcalls⟩ := h
  obtain ⟨steps', htakes', hcalls'⟩ := h'
  refine ⟨steps ++ steps', htakes.trans htakes', ?_⟩
  rw [List.map_append]
  exact hcalls.append hcalls'

theorem foldl_makes {A : Type} {f : W → A → W} (h : ∀ w a, place.Makes [] w (f w a))
    (as : List A) (w : W) : place.Makes [] w (as.foldl f w) := by
  induction as generalizing w with
  | nil => exact makes_of_eq rfl
  | cons a as ih => exact (h w a).trans (ih (f w a))

theorem Reenters.announce (ht : place.Reenters tell) (hl : place.Lawful) (w : W)
    (notice : Notice K V) : place.Makes [] w (place.announce tell w notice) := by
  have hone : ∀ (hearer : Subscriber) (event : Event K V) (w : W),
      place.Makes [] w (tell hearer event w) := by
    intro hearer event w
    obtain ⟨steps, htakes⟩ := ht hearer event w
    exact ⟨steps, htakes, List.nil_sublist _⟩
  have hround : ∀ (hearers : List Subscriber) (w : W) (event : Event K V),
      place.Makes [] w (tellAll tell hearers w event) := fun hearers w event =>
    foldl_makes (fun w hearer => hone hearer event w) hearers w
  have hcount : place.Makes [] w (place.set w
      { place.get w with store := (place.get w).store.count notice }) := by
    refine ⟨[], ?_, List.Sublist.refl _⟩
    rw [hl]
    exact .count .start notice
  unfold Place.announce
  dsimp only
  split
  · exact hcount.trans (foldl_makes (hround _) _ _)
  · exact hcount

theorem Reenters.settle {A : Type} (ht : place.Reenters tell) (hl : place.Lawful) (w : W)
    {call : StoreCall K V} (hc : call.isSingle = true) {f : Store K V → Outcome K V A}
    (hf : (call.step (place.get w).store).1 = (f (place.get w).store).store) :
    place.Makes [call] w (place.settle tell w f).2 := by
  have hstep : place.Makes [call] w
      (place.set w { place.get w with store := (f (place.get w).store).store }) := by
    refine ⟨[((place.get w).store, call)], ?_, List.Sublist.refl _⟩
    rw [hl, ← hf]
    exact .step .start hc
  exact hstep.trans (foldl_makes (ht.announce hl) _ _)

theorem Reenters.readAll (ht : place.Reenters tell) (hl : place.Lawful) (keys : List K)
    (found : List (K × V)) (w : W) :
    place.Makes (keys.map .get) w (place.readAll tell keys found w).2 := by
  rw [Place.readAll_world]
  induction keys generalizing w with
  | nil => exact makes_of_eq rfl
  | cons key keys ih =>
    have hread : place.Makes [.get key] w (place.settle tell w (·.get key)).2 :=
      ht.settle hl w rfl rfl
    exact hread.trans (ih _)

/-- A call takes the steps of its parts, whatever listeners do in between. -/
theorem Reenters.serve (ht : place.Reenters tell) (hl : place.Lawful) (w : W)
    (call : StoreCall K V) : place.Makes call.parts w (place.serve tell w call).2 := by
  cases call with
  | getAll keys => exact ht.readAll hl keys [] w
  | _ => exact ht.settle hl w rfl rfl

theorem Serves.makes (hl : place.Lawful) (ht : place.Reenters tell) {w₀ : W}
    (h : Serves place tell w₀ calls w) :
    place.Makes (calls.flatMap StoreCall.parts) w₀ w := by
  induction h with
  | start => exact makes_of_eq rfl
  | aside _ hs ih =>
    have hboth := ih.trans (makes_of_eq hs)
    rwa [List.append_nil] at hboth
  | call _ call ih =>
    rw [List.flatMap_append, List.flatMap_singleton]
    exact ih.trans (ht.serve hl _ call)

theorem Serves.store_eq (hl : place.Lawful) (hq : place.Quiet tell) {w₀ : W}
    (h : Serves place tell w₀ calls w) :
    (place.get w).store = (place.get w₀).store.after (calls.flatMap StoreCall.parts) := by
  induction h with
  | start => rfl
  | aside _ hs ih => exact hs.trans ih
  | call _ call ih =>
    rw [serve_store hl hq, ih, List.flatMap_append, List.flatMap_singleton, Store.after_append]

/-- Without listeners that call back, the store takes the steps of its calls and no others. -/
theorem Serves.takes (hl : place.Lawful) (hq : place.Quiet tell) {w₀ : W}
    (h : Serves place tell w₀ calls w) :
    ∃ steps, (place.get w₀).store.Takes steps (place.get w).store ∧
      steps.map Prod.snd = calls.flatMap StoreCall.parts := by
  rw [h.store_eq hl hq]
  refine Store.takes_after _ fun part hm => ?_
  obtain ⟨call, -, hpart⟩ := List.mem_flatMap.mp hm
  exact call.parts_single part hpart

end Steps

/-- Whatever is called, also by listeners, a store does nothing but take steps on single keys, and
in each of them the least recently used entry of a shard makes room, if one has to. -/
theorem Serves.spills_oldest {place : Place W K V} {tell : Tell W K V} {options : StoreOptions}
    {capacity : Nat} (hl : place.Lawful) (ht : place.Reenters tell)
    (hc : options.capacity = some capacity) {w₀ w : W}
    (ho : Store.openWith options = .ok (place.get w₀).store) {calls : List (StoreCall K V)}
    (h : Serves place tell w₀ calls w) :
    place.Makes (calls.flatMap StoreCall.parts) w₀ w ∧
      (place.Quiet tell → ∃ steps, (place.get w₀).store.Takes steps (place.get w).store ∧
        steps.map Prod.snd = calls.flatMap StoreCall.parts) ∧
      ∀ (steps : List (Store K V × StoreCall K V)) (s : Store K V) (call : StoreCall K V),
        (place.get w₀).store.Takes steps s → call.isSingle = true →
          s.MakesRoom (max 1 (capacity / options.shards)) (Store.touched steps) call := by
  refine ⟨h.makes hl ht, fun hq => h.takes hl hq, fun steps s call htakes hsingle => ?_⟩
  obtain ⟨hkept, horder⟩ := htakes.inOrder ho
  have hlimit : s.limit = some (max 1 (capacity / options.shards)) := by
    rw [hkept.limit, StoreOptions.shardLimit, hc, Option.map_some, Nat.max_comm]
  exact hkept.makesRoom horder hlimit (Nat.lt_of_lt_of_le Nat.one_pos (Nat.le_max_left _ _)) hsingle

/-- A shard with room for two entries, and a listener that reads the key 2 again whenever it hears
anything. The key 6 displaces the key 4, which was written later than the key 2. -/
theorem Serves.spills_oldest_reentrant :
    ∃ (place : Place (Site UInt64 Bool) UInt64 Bool) (tell : Tell (Site UInt64 Bool) UInt64 Bool)
      (w₀ w : Site UInt64 Bool) (steps : List (Store UInt64 Bool × StoreCall UInt64 Bool)),
      place.Lawful ∧ place.Reenters tell ∧
        Store.openWith { shards := 1, capacity := some 2 } = .ok (place.get w₀).store ∧
        Serves place tell w₀ [.put 2 true .normal, .put 4 false .normal] w ∧
        (place.get w₀).store.Takes steps (place.get w).store ∧
        (place.get w).store.displacedBy (.put 6 true .normal) = [(4, false)] ∧
        (place.get w).store.MakesRoom 2 (Store.touched steps) (.put 6 true .normal) := by
  let place : Place (Site UInt64 Bool) UInt64 Bool := ⟨id, fun _ site => site⟩
  let tell : Tell (Site UInt64 Bool) UInt64 Bool := fun _ _ w =>
    (place.serve (fun _ _ w => w) w (.get 2)).2
  let w₀ : Site UInt64 Bool :=
    ⟨⟨[⟨[], []⟩], some 2, false, 0, 0⟩, (Listeners.empty.register (.observer 0)).2⟩
  have hl : place.Lawful := fun _ _ => rfl
  have hquiet : place.Reenters fun _ _ w => w := fun _ _ _ => ⟨[], .start⟩
  have ht : place.Reenters tell := by
    intro hearer event w
    obtain ⟨steps, htakes, -⟩ := hquiet.serve hl w (.get 2)
    exact ⟨steps, htakes⟩
  have ho : Store.openWith { shards := 1, capacity := some 2 } = .ok (place.get w₀).store := rfl
  have hrun := (Serves.start : place.Serves tell w₀ [] w₀)
    |>.call (.put 2 true .normal) |>.call (.put 4 false .normal)
  obtain ⟨⟨steps, htakes, -⟩, -, hroom⟩ := Serves.spills_oldest hl ht rfl ho hrun
  exact ⟨place, tell, w₀, _, steps, hl, ht, ho, hrun, htakes, by decide,
    hroom steps _ (.put 6 true .normal) htakes rfl⟩

end Place
end SessionAttributes
