import SessionAttributes.Proofs.Store.Accounts

namespace SessionAttributes

variable {K V : Type}

/-- The entry that left primary memory, if a notice tells of one. -/
def Notice.departure? : Notice K V → Option (K × V)
  | .passivated key value => some (key, value)
  | .activated _ _ | .modified _ _ | .removed _ => none

/-- The entries that some notices say have left primary memory. -/
def departuresIn (notices : List (Notice K V)) : List (K × V) :=
  notices.filterMap Notice.departure?

@[simp] theorem departuresIn_nil : departuresIn ([] : List (Notice K V)) = [] := rfl

@[simp] theorem departuresIn_passivated (key : K) (value : V) (notices : List (Notice K V)) :
    departuresIn (.passivated key value :: notices) = (key, value) :: departuresIn notices := rfl

@[simp] theorem departuresIn_activated (key : K) (value : V) (notices : List (Notice K V)) :
    departuresIn (.activated key value :: notices) = departuresIn notices := rfl

@[simp] theorem departuresIn_displaced (old : Option (K × V)) :
    departuresIn (Store.displacedNotice old) = old.toList := by
  cases old <;> rfl

/-- News of a write or a removal is no news of a departure. -/
theorem departuresIn_told (mode : AccessMode) {notice : Notice K V}
    (h : notice.departure? = none) (notices : List (Notice K V)) :
    departuresIn ((if mode.notifies then [notice] else []) ++ notices) = departuresIn notices := by
  cases mode <;> simp [departuresIn, AccessMode.notifies, h]

@[simp] theorem keysOf_nil : keysOf ([] : List (K × V)) = [] := rfl

@[simp] theorem keysOf_cons (e : K × V) (entries : List (K × V)) :
    keysOf (e :: entries) = e.1 :: keysOf entries := rfl

namespace Shard
variable [DecidableEq K] {s : Shard K V} {key : K} {value : V}

/-- The tiers after a call that `uses` at most one key and sends entries `out`. -/
structure Shifts (s s' : Shard K V) (uses : K → Prop) (out : List (K × V)) : Prop where
  active : ∀ k, ¬ uses k → (k ∈ keysOf s'.active ↔ k ∈ keysOf s.active ∧ k ∉ keysOf out)
  passivated : ∀ k, ¬ uses k →
    (k ∈ keysOf s'.passivated ↔ k ∈ keysOf s.passivated ∨ k ∈ keysOf out)
  used : ∀ k, uses k → k ∉ keysOf s'.passivated
  leaves : ∀ e ∈ out, (s.find? e.1 = some e.2 ∧ e.1 ∈ keysOf s.active) ∧ ¬ uses e.1
  single : out.length ≤ 1

theorem Sound.touch_shifts (h : s.Sound) (hv : s.active.lookup key = some value) :
    s.Shifts ⟨(key, value) :: without key s.active, s.passivated⟩ (· = key) [] := by
  refine ⟨fun k hk => ?_, fun k _ => by simp, ?_, nofun, Nat.zero_le 1⟩
  · simp [mem_keys_without, hk]
  · rintro k rfl
    exact h.apart k (mem_keys_of_lookup hv)

theorem erase_shifts (s : Shard K V) (key : K) : s.Shifts (s.erase key) (· = key) [] := by
  refine ⟨fun k hk => ?_, fun k hk => ?_, ?_, nofun, Nat.zero_le 1⟩
  · rw [Shard.erase, mem_keys_without]
    simp [hk]
  · rw [Shard.erase, mem_keys_without]
    simp [hk]
  · rintro k rfl
    rw [Shard.erase, mem_keys_without]
    exact fun hm => hm.2 rfl

/-- A shard that has no room for a key sends its last active entry out. -/
theorem Sound.accept_shifts (h : s.Sound) (hk : s.find? key = none) (limit : Option Nat)
    (value : V) :
    s.Shifts (s.accept limit key value).1 (· = key) (s.accept limit key value).2.toList := by
  obtain ⟨ha, hp⟩ := (find_none_iff s key).mp hk
  unfold Shard.accept
  cases hd : s.displaced limit key with
  | none =>
    refine ⟨fun k hne => ?_, fun k _ => by simp, ?_, nofun, Nat.zero_le 1⟩
    · simp [mem_keys_without, hne]
    · rintro k rfl
      exact hp
  | some old =>
    obtain ⟨front, hf⟩ := displaced_shape hd
    obtain ⟨-, hold⟩ := nodup_displaced (hf ▸ h.active)
    have hactive : ∀ k, k ∈ keysOf s.active ↔ k ∈ keysOf front ∨ k = old.1 := by
      simp [hf, keysOf]
    have hne : old.1 ≠ key := by
      rintro rfl
      exact ha ((hactive _).mpr (.inr rfl))
    have hin : (old.1, old.2) ∈ s.active :=
      hf ▸ List.mem_append_right _ (List.mem_singleton.mpr rfl)
    refine ⟨fun k hk => ?_, fun k hk => ?_, ?_, fun e he => ?_, Nat.le_refl 1⟩
    · rw [hactive]
      simp only [hf, List.dropLast_concat, keysOf_cons, List.mem_cons, hk, false_or,
        mem_keys_without, ne_eq, not_false_eq_true, and_true, Option.toList_some, keysOf_nil,
        List.not_mem_nil, or_false]
      constructor
      · exact fun hm => ⟨.inl hm, fun he => hold (he ▸ hm)⟩
      · rintro ⟨hm | he, hn⟩
        · exact hm
        · exact absurd he hn
    · simp only [keysOf_cons, List.mem_cons, mem_keys_without, Option.toList_some, keysOf_nil,
        List.not_mem_nil, or_false]
      tauto
    · rintro k rfl hm
      rcases List.mem_cons.mp hm with he | hm
      · exact hne he.symm
      · exact hp ((mem_keys_without old.1 k s.passivated).mp hm).1
    · obtain rfl := List.mem_singleton.mp he
      have hlookup : s.active.lookup e.1 = some e.2 := lookup_of_mem h.active hin
      exact ⟨⟨by rw [Shard.find?, hlookup]; rfl, (hactive _).mpr (.inr rfl)⟩, hne⟩

/-- The same when the key was held before: it is taken out first. -/
theorem Sound.put_shifts (h : s.Sound) (limit : Option Nat) (key : K) (value : V) :
    s.Shifts ((s.erase key).accept limit key value).1 (· = key)
      ((s.erase key).accept limit key value).2.toList := by
  have herased : (s.erase key).find? key = none := by simp [find_erase]
  have hfirst := s.erase_shifts key
  have hthen := (h.erase key).accept_shifts herased limit value
  refine ⟨fun k hk => ?_, fun k hk => ?_, hthen.used, fun e he => ?_, hthen.single⟩
  · rw [hthen.active k hk, hfirst.active k hk]
    simp
  · rw [hthen.passivated k hk, hfirst.passivated k hk]
    simp
  · obtain ⟨⟨hf, ha⟩, hne⟩ := hthen.leaves e he
    rw [find_erase, if_neg hne] at hf
    exact ⟨⟨hf, ((hfirst.active e.1 hne).mp ha).1⟩, hne⟩

theorem passivate_shifts (hv : s.active.lookup key = some value) :
    s.Shifts (s.passivate key value) (fun _ => False) [(key, value)] := by
  refine ⟨fun k _ => ?_, fun k _ => ?_, fun _ => False.elim, fun e he => ?_, Nat.le_refl 1⟩
  · simp [Shard.passivate, mem_keys_without]
  · simp only [Shard.passivate, keysOf_cons, List.mem_cons, mem_keys_without, keysOf_nil,
      List.not_mem_nil, or_false]
    tauto
  · obtain rfl := List.mem_singleton.mp he
    exact ⟨⟨by rw [find?, hv]; rfl, mem_keys_of_lookup hv⟩, id⟩

end Shard

namespace StoreCall

def Uses : StoreCall K V → K → Prop
  | .get key, k | .put key _ _, k | .remove key _, k => k = key
  | .getAll keys, k => k ∈ keys
  | .evict _, _ => False

def isSingle : StoreCall K V → Bool
  | .getAll _ => false
  | _ => true

def parts : StoreCall K V → List (StoreCall K V)
  | .getAll keys => keys.map .get
  | call => [call]

theorem parts_single (call : StoreCall K V) : ∀ part ∈ call.parts, part.isSingle = true := by
  intro part hm
  cases call with
  | getAll keys =>
    obtain ⟨key, -, rfl⟩ := List.mem_map.mp hm
    rfl
  | _ =>
    obtain rfl := List.mem_singleton.mp hm
    rfl

theorem parts_of_single {call : StoreCall K V}
    (h : call.isSingle = true) : call.parts = [call] := by
  cases call with
  | getAll keys => cases h
  | _ => rfl

theorem parts_uses (call : StoreCall K V) {k : K} (hk : ¬ call.Uses k) :
    ∀ part ∈ call.parts, ¬ part.Uses k := by
  intro part hm
  cases call with
  | getAll keys =>
    obtain ⟨key, hkey, rfl⟩ := List.mem_map.mp hm
    rintro rfl
    exact hk hkey
  | _ =>
    obtain rfl := List.mem_singleton.mp hm
    exact hk

end StoreCall

namespace Store
variable [DecidableEq K] [ShardKey K]

/-- The tiers of a store after a call that `uses` at most one key and sends entries `out`. -/
structure Shifts (s s' : Store K V) (uses : K → Prop) (out : List (K × V)) : Prop where
  active : ∀ k, ¬ uses k → (s'.isActive k = true ↔ s.isActive k = true ∧ k ∉ keysOf out)
  passivated : ∀ k, ¬ uses k →
    (s'.isPassivated k = true ↔ s.isPassivated k = true ∨ k ∈ keysOf out)
  used : ∀ k, uses k → s'.isPassivated k = false
  leaves : ∀ e ∈ out, (s.find? e.1 = some e.2 ∧ s.isActive e.1 = true) ∧ ¬ uses e.1
  single : out.length ≤ 1

theorem isActive_iff {s : Store K V} {key : K} :
    s.isActive key = true ↔ key ∈ keysOf (s.shard key).active := Shard.isActive_iff

theorem isPassivated_iff {s : Store K V} {key : K} :
    s.isPassivated key = true ↔ key ∈ keysOf (s.shard key).passivated := Shard.isPassivated_iff

theorem Sound.apart {s : Store K V} (h : s.Sound) {key : K} (ha : s.isActive key = true) :
    s.isPassivated key = false := by
  rw [← Bool.not_eq_true, isPassivated_iff]
  exact (h.shard_sound key).apart key (isActive_iff.mp ha)

/-- What is held, but not in primary memory, is passivated. -/
theorem isPassivated_of_find {s : Store K V} {key : K}
    (hf : (s.find? key).isSome) (ha : s.isActive key = false) : s.isPassivated key = true := by
  rw [← contains_eq, contains, ha, Bool.false_or] at hf
  exact hf

section Calls
variable {options : StoreOptions} {s : Store K V}

/-- A change of one shard, seen from the whole store. -/
theorem Kept.shifts (h : s.Kept options) {key : K} {shard : Shard K V} {uses : K → Prop}
    {out : List (K × V)} (hs : (s.shard key).Shifts shard uses out)
    (huses : ∀ k, uses k → k = key) : s.Shifts (s.setShard key shard) uses out := by
  have hhome : ∀ k, k ∈ keysOf out → s.index k = s.index key := by
    intro k hk
    obtain ⟨e, he, rfl⟩ := List.mem_map.mp hk
    exact h.home _ _ (h.sound.shard_at key) e.1 (List.mem_append_left _ (hs.leaves e he).1.2)
  have hsame : ∀ k, s.index k = s.index key → s.shard k = s.shard key := by
    intro k hk
    unfold Store.shard
    rw [hk]
  refine ⟨fun k hk => ?_, fun k hk => ?_, fun k hk => ?_, fun e he => ?_, hs.single⟩
  · rw [isActive_iff, isActive_iff, h.sound.shard_setShard]
    by_cases hi : s.index k = s.index key
    · rw [if_pos hi, hsame k hi]
      exact hs.active k hk
    · rw [if_neg hi]
      exact (and_iff_left fun ho => hi (hhome k ho)).symm
  · rw [isPassivated_iff, isPassivated_iff, h.sound.shard_setShard]
    by_cases hi : s.index k = s.index key
    · rw [if_pos hi, hsame k hi]
      exact hs.passivated k hk
    · rw [if_neg hi]
      exact (or_iff_left fun ho => hi (hhome k ho)).symm
  · obtain rfl := huses k hk
    rw [← Bool.not_eq_true, isPassivated_iff, h.sound.shard_setShard, if_pos rfl]
    exact hs.used k hk
  · obtain ⟨⟨hf, ha⟩, hn⟩ := hs.leaves e he
    have hshard := hsame e.1 (hhome e.1 (List.mem_map.mpr ⟨e, he, rfl⟩))
    rw [isActive_iff, find?, hshard]
    exact ⟨⟨hf, ha⟩, hn⟩

theorem still_shifts {uses : K → Prop} (hn : ∀ k, uses k → s.isPassivated k = false) :
    s.Shifts s uses [] :=
  ⟨fun k _ => by simp, fun k _ => by simp, hn, nofun, Nat.zero_le 1⟩

theorem not_passivated_of_find {key : K} (hf : s.find? key = none) :
    s.isPassivated key = false := by
  rw [← Bool.not_eq_true, isPassivated_iff]
  exact ((Shard.find_none_iff _ key).mp hf).2

/-- Each call on one key shifts the tiers, and its notices name what it sends out. -/
theorem Kept.step_shifts (h : s.Kept options) {call : StoreCall K V}
    (hc : call.isSingle = true) :
    s.Shifts (call.step s).1 call.Uses (departuresIn (call.step s).2) := by
  cases call with
  | getAll keys => cases hc
  | get key =>
    have hshard := h.sound.shard_sound key
    unfold StoreCall.step Store.get
    dsimp only
    cases ha : (s.shard key).active.lookup key with
    | some value => exact h.shifts (hshard.touch_shifts ha) fun _ => id
    | none =>
      cases hp : (s.shard key).passivated.lookup key with
      | none =>
        refine still_shifts ?_
        rintro k rfl
        exact not_passivated_of_find (by simp [Store.find?, Shard.find?, ha, hp])
      | some value =>
        dsimp only
        rw [departuresIn_activated, departuresIn_displaced]
        exact h.shifts (hshard.put_shifts s.limit key value) fun _ => id
  | put key value mode =>
    unfold StoreCall.step Store.put
    dsimp only
    rw [departuresIn_told mode rfl, departuresIn_displaced]
    exact h.shifts ((h.sound.shard_sound key).put_shifts s.limit key value) fun _ => id
  | remove key mode =>
    unfold StoreCall.step Store.remove
    dsimp only
    cases hf : (s.shard key).find? key with
    | none =>
      refine still_shifts ?_
      rintro k rfl
      exact not_passivated_of_find hf
    | some value =>
      dsimp only
      rw [← List.append_nil (if mode.notifies then _ else _), departuresIn_told mode rfl]
      exact h.shifts ((s.shard key).erase_shifts key) fun _ => id
  | evict key =>
    unfold StoreCall.step Store.evict
    dsimp only
    cases ha : (s.shard key).active.lookup key with
    | none => exact still_shifts fun _ => False.elim
    | some value => exact h.shifts (Shard.passivate_shifts ha) fun _ => False.elim

/-- A call changes no value under a key that it does not use. -/
theorem Sound.step_find (h : s.Sound) (call : StoreCall K V) {k : K} (hk : ¬ call.Uses k) :
    (call.step s).1.find? k = s.find? k := by
  cases call with
  | getAll keys => rfl
  | get key => exact congrFun (h.get key).2.1 k
  | put key value mode =>
    exact (congrFun (h.put key value mode).2.1 k).trans (Function.update_of_ne hk _ _)
  | remove key mode =>
    exact (congrFun (h.remove key mode).2.1 k).trans (Function.update_of_ne hk _ _)
  | evict key => exact congrFun (h.evict key).1 k

/-- The store after a call, when all that the call left to announce is counted. -/
def settled (s : Store K V) (call : StoreCall K V) : Store K V :=
  (call.step s).2.foldl Store.count (call.step s).1

def after (s : Store K V) (calls : List (StoreCall K V)) : Store K V := calls.foldl settled s

/-- The entries that leave primary memory during some calls, in their order. -/
def departures (s : Store K V) : List (StoreCall K V) → List (K × V)
  | [] => []
  | call :: calls => departuresIn (call.step s).2 ++ (s.settled call).departures calls

omit [DecidableEq K] [ShardKey K] in
theorem foldl_count_shards (notices : List (Notice K V)) (s : Store K V) :
    (notices.foldl Store.count s).shards = s.shards := by
  induction notices generalizing s with
  | nil => rfl
  | cons notice notices ih =>
    rw [List.foldl_cons, ih]
    cases notice <;> rfl

theorem settled_shard (s : Store K V) (call : StoreCall K V) (k : K) :
    (s.settled call).shard k = (call.step s).1.shard k := by
  unfold Store.shard index
  rw [settled, foldl_count_shards]

theorem settled_isActive (s : Store K V) (call : StoreCall K V) (k : K) :
    (s.settled call).isActive k = (call.step s).1.isActive k := by
  rw [isActive, settled_shard, isActive]

theorem settled_isPassivated (s : Store K V) (call : StoreCall K V) (k : K) :
    (s.settled call).isPassivated k = (call.step s).1.isPassivated k := by
  rw [isPassivated, settled_shard, isPassivated]

theorem settled_find (s : Store K V) (call : StoreCall K V) (k : K) :
    (s.settled call).find? k = (call.step s).1.find? k := by
  rw [find?, settled_shard, find?]

theorem Kept.settled (h : s.Kept options) (call : StoreCall K V) :
    (s.settled call).Kept options := by
  have hcount : ∀ (notices : List (Notice K V)) {s : Store K V}, s.Kept options →
      (notices.foldl Store.count s).Kept options := by
    intro notices
    induction notices with
    | nil => exact fun hs => hs
    | cons notice notices ih => exact fun hs => ih (hs.count notice)
  exact hcount _ (call.step_steps h).kept

theorem after_append (s : Store K V) (calls calls' : List (StoreCall K V)) :
    s.after (calls ++ calls') = (s.after calls).after calls' := List.foldl_append

theorem departures_append (s : Store K V) (calls calls' : List (StoreCall K V)) :
    s.departures (calls ++ calls') = s.departures calls ++ (s.after calls).departures calls' := by
  induction calls generalizing s with
  | nil => rfl
  | cons call calls ih =>
    rw [List.cons_append, departures, departures, ih, List.append_assoc]
    rfl

variable {calls : List (StoreCall K V)} {key : K}

theorem Kept.after (h : s.Kept options) (calls : List (StoreCall K V)) :
    (s.after calls).Kept options := by
  induction calls generalizing s with
  | nil => exact h
  | cons call calls ih => exact ih (h.settled call)

/-- Calls that do not use a key leave its value. -/
theorem Kept.after_find (h : s.Kept options) (hk : ∀ call ∈ calls, ¬ call.Uses key) :
    (s.after calls).find? key = s.find? key := by
  induction calls generalizing s with
  | nil => rfl
  | cons call calls ih =>
    refine (ih (h.settled call) fun c hc => hk c (List.mem_cons_of_mem _ hc)).trans ?_
    rw [settled_find]
    exact h.sound.step_find call (hk call List.mem_cons_self)

/-- Evictions change no value. -/
theorem Kept.evicted_find (h : s.Kept options) (hc : ∀ call ∈ calls, ∃ key, call = .evict key) :
    (s.after calls).find? = s.find? := by
  funext key
  refine h.after_find fun call hm => ?_
  obtain ⟨key', rfl⟩ := hc call hm
  exact id

/-- A call does to the values of a store what it does to a map. -/
theorem Kept.parts_find (h : s.Kept options) (call : StoreCall K V) :
    (s.after call.parts).find? = (call.onMap s.find?).2 := by
  have hone : ∀ {s : Store K V} {call : StoreCall K V} {f : K → Option V},
      (call.step s).1.find? = f → (s.settled call).find? = f :=
    fun {s call f} hf => (funext (s.settled_find call)).trans hf
  cases call with
  | get key => exact hone (h.sound.get key).2.1
  | put key value mode => exact hone (h.sound.put key value mode).2.1
  | remove key mode => exact hone (h.sound.remove key mode).2.1
  | evict key => exact hone (h.sound.evict key).1
  | getAll keys =>
    change (s.after (keys.map .get)).find? = s.find?
    induction keys generalizing s with
    | nil => rfl
    | cons key keys ih => exact (ih (h.settled (.get key))).trans (hone (h.sound.get key).2.1)

/-- Nothing comes back to primary memory that is not used. -/
theorem Kept.after_inactive (h : s.Kept options) (hc : ∀ call ∈ calls, call.isSingle = true)
    (hk : ∀ call ∈ calls, ¬ call.Uses key) (ha : s.isActive key = false) :
    (s.after calls).isActive key = false := by
  induction calls generalizing s with
  | nil => exact ha
  | cons call calls ih =>
    refine ih (h.settled call) (fun c hm => hc c (List.mem_cons_of_mem _ hm))
      (fun c hm => hk c (List.mem_cons_of_mem _ hm)) ?_
    rw [settled_isActive, ← Bool.not_eq_true,
      (h.step_shifts (hc call List.mem_cons_self)).active key (hk call List.mem_cons_self), ha]
    exact fun hn => Bool.false_ne_true hn.1

/-- What was not passivated before and is passivated in the end has left primary memory. -/
theorem Kept.mem_departures (h : s.Kept options) (hc : ∀ call ∈ calls, call.isSingle = true)
    (hp : s.isPassivated key = false) (hp' : (s.after calls).isPassivated key = true) :
    key ∈ keysOf (s.departures calls) := by
  induction calls generalizing s with
  | nil => exact absurd (hp.symm.trans hp') Bool.false_ne_true
  | cons call calls ih =>
    have hshift := h.step_shifts (hc call List.mem_cons_self)
    have hrest := ih (h.settled call) (fun c hm => hc c (List.mem_cons_of_mem _ hm))
    rw [departures, keysOf, List.map_append, List.mem_append]
    by_cases hout : key ∈ keysOf (departuresIn (call.step s).2)
    · exact .inl hout
    · refine .inr (hrest ?_ hp')
      rw [settled_isPassivated]
      by_cases hu : call.Uses key
      · exact hshift.used key hu
      · rw [← Bool.not_eq_true, hshift.passivated key hu, hp]
        exact fun hn => hn.elim Bool.false_ne_true hout

/-- What leaves primary memory is held, as long as nothing is written or it is the first to go. -/
theorem Kept.departures_find (h : s.Kept options) {calls : List (StoreCall K V)}
    (hc : ∀ call ∈ calls, call.isSingle = true ∧ ∀ k, ¬ call.Writes k) :
    ∀ e ∈ s.departures calls, s.find? e.1 = some e.2 := by
  induction calls generalizing s with
  | nil => exact List.forall_mem_nil _
  | cons call calls ih =>
    intro e he
    obtain ⟨hsingle, hwrites⟩ := hc call List.mem_cons_self
    rcases List.mem_append.mp he with he | he
    · exact ((h.step_shifts hsingle).leaves e he).1.1
    · have hrest := ih (h.settled call) (fun c hm => hc c (List.mem_cons_of_mem _ hm)) e he
      rw [settled_find] at hrest
      rw [← hrest]
      cases call with
      | get key => exact (congrFun (h.sound.get key).2.1 e.1).symm
      | getAll keys => rfl
      | evict key => exact (congrFun (h.sound.evict key).1 e.1).symm
      | put key value mode => exact absurd rfl (hwrites key)
      | remove key mode => exact absurd rfl (hwrites key)

/-- A single call sends at most one entry out, which is passivated then. -/
theorem Kept.departures_single (h : s.Kept options) {call : StoreCall K V}
    (hc : call.isSingle = true) :
    (s.departures [call]).length ≤ 1 ∧ ∀ e ∈ s.departures [call],
      s.isActive e.1 = true ∧ s.find? e.1 = some e.2 ∧
        (s.settled call).isPassivated e.1 = true := by
  have hshift := h.step_shifts hc
  have hone : s.departures [call] = departuresIn (call.step s).2 := List.append_nil _
  rw [hone]
  refine ⟨hshift.single, fun e he => ?_⟩
  obtain ⟨⟨hf, ha⟩, hu⟩ := hshift.leaves e he
  refine ⟨ha, hf, ?_⟩
  rw [settled_isPassivated, hshift.passivated e.1 hu]
  exact .inr (List.mem_map.mpr ⟨e, he, rfl⟩)

/-- What an eviction leaves. -/
theorem evict_departures (s : Store K V) (key : K) :
    keysOf (departuresIn ((StoreCall.evict (V := V) key).step s).2) =
      if s.isActive key then [key] else [] := by
  have hactive : s.isActive key = true ↔ key ∈ keysOf (s.shard key).active := isActive_iff
  unfold StoreCall.step Store.evict
  dsimp only
  cases ha : (s.shard key).active.lookup key with
  | none =>
    rw [if_neg (fun hn => (lookup_none_iff _ _).mp ha (hactive.mp hn))]
    rfl
  | some value =>
    rw [if_pos (hactive.mpr (mem_keys_of_lookup ha))]
    rfl

theorem Kept.evict_inactive (h : s.Kept options) (key : K) :
    (s.settled (.evict key)).isActive key = false := by
  have hshift := h.step_shifts (rfl : (StoreCall.evict (V := V) key).isSingle = true)
  rw [settled_isActive, ← Bool.not_eq_true, hshift.active key id, evict_departures]
  rintro ⟨ha, hn⟩
  rw [if_pos ha] at hn
  exact hn (List.mem_singleton.mpr rfl)

/-- An eviction moves no other entry. -/
theorem Kept.evict_others (h : s.Kept options) {k : K} (hk : k ≠ key) :
    (s.settled (.evict key)).isActive k = s.isActive k ∧
      (s.settled (.evict key)).isPassivated k = s.isPassivated k := by
  have hshift := h.step_shifts (rfl : (StoreCall.evict (V := V) key).isSingle = true)
  have hout : k ∉ keysOf (departuresIn ((StoreCall.evict (V := V) key).step s).2) := by
    rw [evict_departures]
    split
    · exact fun hm => hk (List.mem_singleton.mp hm)
    · exact List.not_mem_nil
  rw [settled_isActive, settled_isPassivated]
  exact ⟨Bool.eq_iff_iff.mpr ((hshift.active k id).trans (and_iff_left hout)),
    Bool.eq_iff_iff.mpr ((hshift.passivated k id).trans (or_iff_left hout))⟩

/-- An entry that is not in primary memory is not evicted. -/
theorem evict_still (ha : s.isActive key = false) :
    (StoreCall.evict (V := V) key).step s = (s, []) := by
  have hn : (s.shard key).active.lookup key = none := by
    rw [lookup_none_iff, ← isActive_iff, ha]
    exact Bool.false_ne_true
  unfold StoreCall.step Store.evict
  simp only [hn]

/-- Repeated evictions of a key are one eviction. -/
theorem Kept.evict_again (h : s.Kept options) (key : K) (n : Nat) :
    s.after (List.replicate (n + 1) (.evict key)) = s.settled (.evict key) ∧
      s.departures (List.replicate (n + 1) (.evict key)) = s.departures [.evict key] := by
  induction n with
  | zero => exact ⟨rfl, rfl⟩
  | succ n ih =>
    obtain ⟨ha, hd⟩ := ih
    have hstill := evict_still (h.evict_inactive key)
    rw [List.replicate_succ', after_append, departures_append, ha, hd]
    refine ⟨?_, ?_⟩
    · change ((StoreCall.evict key).step _).2.foldl _ _ = _
      rw [hstill]
      rfl
    · have hlast : (s.settled (.evict key)).departures [.evict key] = [] := by
        rw [departures, hstill]
        rfl
      rw [hlast, List.append_nil]

theorem Kept.evict_each (h : s.Kept options) (keys : List K) (n : Nat) :
    s.after (keys.flatMap fun key => List.replicate (n + 1) (.evict key)) =
        s.after (keys.map .evict) ∧
      s.departures (keys.flatMap fun key => List.replicate (n + 1) (.evict key)) =
        s.departures (keys.map .evict) := by
  induction keys generalizing s with
  | nil => exact ⟨rfl, rfl⟩
  | cons key keys ih =>
    obtain ⟨hfirst, hleft⟩ := h.evict_again key n
    obtain ⟨hrest, hlater⟩ := ih (h.settled (.evict key))
    rw [List.flatMap_cons, after_append, departures_append, hfirst, hleft, hrest, hlater]
    exact ⟨rfl, by simp [departures]⟩

/-- Some of the evictions of keys that are each evicted again and again are evictions of some of
the keys. -/
theorem Kept.evict_some (h : s.Kept options) (keys : List K) (n : Nat)
    {calls : List (StoreCall K V)}
    (hs : calls.Sublist (keys.flatMap fun key => List.replicate n (.evict key))) :
    ∃ keys' : List K, keys'.Sublist keys ∧ s.after calls = s.after (keys'.map .evict) ∧
      s.departures calls = s.departures (keys'.map .evict) := by
  induction keys generalizing s calls with
  | nil =>
    obtain rfl := List.sublist_nil.mp hs
    exact ⟨[], .refl _, rfl, rfl⟩
  | cons key keys ih =>
    rw [List.flatMap_cons] at hs
    obtain ⟨first, later, rfl, hfirst, hlater⟩ := List.sublist_append_iff.mp hs
    obtain ⟨k, -, rfl⟩ := List.sublist_replicate_iff.mp hfirst
    cases k with
    | zero =>
      obtain ⟨keys', hsub, ha, hd⟩ := ih h hlater
      exact ⟨keys', hsub.cons key, ha, hd⟩
    | succ k =>
      obtain ⟨hsame, hleft⟩ := h.evict_again key k
      obtain ⟨keys', hsub, ha, hd⟩ := ih (h.settled (.evict key)) hlater
      refine ⟨key :: keys', hsub.cons_cons key, ?_, ?_⟩
      · rw [after_append, hsame, ha]
        rfl
      · rw [departures_append, hsame, hleft, hd]
        simp [departures]

/-- What was evicted is not in primary memory after further evictions. -/
theorem Kept.evicted_inactive (h : s.Kept options) {keys : List K} (hk : key ∈ keys) :
    (s.after (keys.map .evict)).isActive key = false := by
  have hevict : ∀ {keys : List K}, ∀ call ∈ keys.map (StoreCall.evict (V := V)),
      call.isSingle = true ∧ ∀ k, ¬ call.Uses k := by
    intro keys call hm
    obtain ⟨key, -, rfl⟩ := List.mem_map.mp hm
    exact ⟨rfl, fun _ => id⟩
  induction keys generalizing s with
  | nil => cases hk
  | cons first keys ih =>
    rcases List.mem_cons.mp hk with rfl | hk
    · exact (h.settled _).after_inactive (fun c hm => (hevict c hm).1)
        (fun c hm => (hevict c hm).2 key) (h.evict_inactive key)
    · exact ih (h.settled _) hk

end Calls
end Store
end SessionAttributes
