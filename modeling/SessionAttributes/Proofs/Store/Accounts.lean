import Mathlib.Logic.Relation
import SessionAttributes.Proofs.Store.Layout
import SessionAttributes.World.Call

namespace SessionAttributes

variable {K V ρ : Type}

/-- A store with its listeners, and whatever else there is. `met` counts the writes and removals so
far that found their key passivated. -/
structure Watched (K V ρ : Type) where
  site : Site K V
  met : Nat
  rest : ρ

/-- What may happen while some notices are still to be announced. -/
abbrev Watched.Pending (K V ρ : Type) := Watched K V ρ × List (Notice K V)

namespace StoreCall
variable [DecidableEq K] [ShardKey K]

/-- Whether a call overwrites or removes an entry that is passivated. -/
def meets (s : Store K V) : StoreCall K V → Bool
  | .put key _ _ | .remove key _ => s.isPassivated key
  | .get _ | .getAll _ | .evict _ => false

/-- The store after the step of a call, and the notices that the step leaves. A bulk read has no
step of its own: it reads its keys one by one. -/
def step (s : Store K V) : StoreCall K V → Store K V × List (Notice K V)
  | .get key => ((s.get key).store, (s.get key).notices)
  | .getAll _ => (s, [])
  | .put key value mode => ((s.put key value mode).store, (s.put key value mode).notices)
  | .remove key mode => ((s.remove key mode).store, (s.remove key mode).notices)
  | .evict key => ((s.evict key).store, (s.evict key).notices)

theorem step_steps {options : StoreOptions} {s : Store K V} (h : s.Kept options)
    (call : StoreCall K V) :
    Store.Steps options s (call.step s).1 (call.step s).2 (if call.meets s then 1 else 0) := by
  cases call with
  | get key => exact h.get key
  | getAll keys => exact h.idle
  | put key value mode => exact h.put key value mode
  | remove key mode => exact h.remove key mode
  | evict key => exact h.evict key

end StoreCall

namespace Watched

def place : Place (Watched K V ρ) K V := ⟨Watched.site, fun w site => { w with site }⟩

def withStore (w : Watched K V ρ) (store : Store K V) : Watched K V ρ :=
  { w with site := { w.site with store } }

section Moves
variable [ShardKey K]

structure Accounted (options : StoreOptions) (x : Pending K V ρ) : Prop where
  kept : x.1.site.store.Kept options
  books : x.1.site.store.passivations + passivationsIn x.2 =
    x.1.site.store.activations + activationsIn x.2 + x.1.site.store.stats.passivated + x.1.met

theorem Accounted.opened {options : StoreOptions} {s : Store K V}
    (h : Store.openWith options = .ok s) (listeners : Listeners Subscriber) (rest : ρ) :
    Accounted options (⟨⟨s, listeners⟩, 0, rest⟩, []) := by
  refine ⟨Store.openWith_kept h, ?_⟩
  have hstats := Store.openWith_stats h
  have hp := congrArg StoreStats.passivations hstats
  have ha := congrArg StoreStats.activations hstats
  have hn := congrArg StoreStats.passivated hstats
  change s.passivations + 0 = s.activations + 0 + s.stats.passivated + 0
  change s.passivations = 0 at hp
  change s.activations = 0 at ha
  change s.stats.passivated = 0 at hn
  omega

variable [DecidableEq K]

def tally (w : Watched K V ρ) (call : StoreCall K V) : Watched K V ρ :=
  { w with met := w.met + if call.meets w.site.store then 1 else 0 }

def serve (tell : Place.Tell (Watched K V ρ) K V) (w : Watched K V ρ) (call : StoreCall K V) :
    call.Answer × Watched K V ρ :=
  place.serve tell (w.tally call) call

/-- The moves of a store and of those around it: a call takes its step, the next notice is counted
and goes out, or something happens that leaves the store alone. -/
inductive Move : Pending K V ρ → Pending K V ρ → Prop
  | step (w : Watched K V ρ) (pending : List (Notice K V)) (call : StoreCall K V) :
      Move (w, pending)
        ((w.tally call).withStore (call.step w.site.store).1,
          (call.step w.site.store).2 ++ pending)
  | announce (w : Watched K V ρ) (notice : Notice K V) (pending : List (Notice K V)) :
      Move (w, notice :: pending) (w.withStore (w.site.store.count notice), pending)
  | aside (w w' : Watched K V ρ) (pending : List (Notice K V))
      (hs : w'.site.store = w.site.store) (hm : w'.met = w.met) : Move (w, pending) (w', pending)

abbrev Moves : Pending K V ρ → Pending K V ρ → Prop := Relation.ReflTransGen Move

/-- Listeners that call the store back as often as they like, and do not touch it otherwise. What
was to be announced when they were told is still to be announced when they are done. -/
def Reenters (tell : Place.Tell (Watched K V ρ) K V) : Prop :=
  ∀ hearer event w pending, Moves (w, pending) (tell hearer event w, pending)

inductive Runs (tell : Place.Tell (Watched K V ρ) K V) (w₀ : Watched K V ρ) : Watched K V ρ → Prop
  | start : Runs tell w₀ w₀
  | aside {w w' : Watched K V ρ} (h : Runs tell w₀ w) (hs : w'.site.store = w.site.store)
      (hm : w'.met = w.met) : Runs tell w₀ w'
  | call {w : Watched K V ρ} (h : Runs tell w₀ w) (call : StoreCall K V) :
      Runs tell w₀ (w.serve tell call).2

theorem Accounted.move {options : StoreOptions} {x y : Pending K V ρ} (h : Accounted options x)
    (hm : Move x y) : Accounted options y := by
  obtain ⟨hkept, hbooks⟩ := h
  cases hm with
  | step w pending call =>
    -- The new notices are not counted yet, but they stand in front of the pending ones.
    replace hkept : w.site.store.Kept options := hkept
    have hs := call.step_steps hkept
    refine ⟨hs.kept, ?_⟩
    have hb := hs.balance
    simp only [withStore, tally, hs.passivations, hs.activations, passivationsIn_append,
      activationsIn_append] at hbooks ⊢
    omega
  | announce w notice pending =>
    refine ⟨hkept.count notice, ?_⟩
    cases notice <;>
      simp only [withStore, Store.count, Store.stats, Store.total, passivationsIn, activationsIn,
        List.countP_cons, if_true, Bool.false_eq_true, if_false] at hbooks ⊢ <;> omega
  | aside w w' pending hs hm =>
    refine ⟨by rw [hs]; exact hkept, ?_⟩
    simp only [hs, hm]
    exact hbooks

theorem Accounted.moves {options : StoreOptions} {x y : Pending K V ρ} (h : Accounted options x)
    (hm : Moves x y) : Accounted options y := by
  induction hm with
  | refl => exact h
  | tail _ hm ih => exact ih.move hm

theorem foldl_moves {A : Type} {f : Watched K V ρ → A → Watched K V ρ}
    {pending : List (Notice K V)} (h : ∀ w a, Moves (w, pending) (f w a, pending)) (as : List A)
    (w : Watched K V ρ) : Moves (w, pending) (as.foldl f w, pending) := by
  induction as generalizing w with
  | nil => exact .refl
  | cons a as ih => exact (h w a).trans (ih (f w a))

variable {tell : Place.Tell (Watched K V ρ) K V}

theorem Reenters.announce (ht : Reenters tell) (w : Watched K V ρ) (notice : Notice K V)
    (pending : List (Notice K V)) :
    Moves (w, notice :: pending) (place.announce tell w notice, pending) := by
  have hround : ∀ (w : Watched K V ρ) (event : Event K V) hearers,
      Moves (w, pending) (Place.tellAll tell hearers w event, pending) := fun w event hearers =>
    foldl_moves (fun w hearer => ht hearer event w pending) hearers w
  refine .head (.announce w notice pending) ?_
  unfold Place.announce
  dsimp only
  split
  · exact foldl_moves (fun w event => hround w event _) _ _
  · exact .refl

theorem Reenters.announceAll (ht : Reenters tell) (notices pending : List (Notice K V))
    (w : Watched K V ρ) :
    Moves (w, notices ++ pending) (notices.foldl (place.announce tell) w, pending) := by
  induction notices generalizing w with
  | nil => exact .refl
  | cons notice notices ih =>
    exact (ht.announce w notice (notices ++ pending)).trans (ih (place.announce tell w notice))

theorem Reenters.settle {A : Type} (ht : Reenters tell) (w : Watched K V ρ)
    (pending : List (Notice K V)) (call : StoreCall K V) {f : Store K V → Outcome K V A}
    (hf : call.step w.site.store = ((f w.site.store).store, (f w.site.store).notices)) :
    Moves (w, pending) ((place.settle tell (w.tally call) f).2, pending) := by
  have hm := Move.step w pending call
  rw [hf] at hm
  exact .head hm (ht.announceAll (f w.site.store).notices pending _)

theorem Reenters.readAll (ht : Reenters tell) (pending : List (Notice K V)) (keys : List K)
    (found : List (K × V)) (w : Watched K V ρ) :
    Moves (w, pending) ((place.readAll tell keys found w).2, pending) := by
  rw [Place.readAll_world]
  induction keys generalizing w with
  | nil => exact .refl
  | cons key keys ih => exact (ht.settle w pending (.get key) rfl).trans (ih _)

theorem Reenters.serve (ht : Reenters tell) (w : Watched K V ρ) (pending : List (Notice K V))
    (call : StoreCall K V) : Moves (w, pending) ((w.serve tell call).2, pending) := by
  cases call with
  | get key => exact ht.settle w pending (.get key) rfl
  | getAll keys => exact ht.readAll pending keys [] w
  | put key value mode => exact ht.settle w pending (.put key value mode) rfl
  | remove key mode => exact ht.settle w pending (.remove key mode) rfl
  | evict key => exact ht.settle w pending (.evict key) rfl

theorem Runs.moves {w₀ w : Watched K V ρ} (h : Runs tell w₀ w) (ht : Reenters tell) :
    Moves (w₀, []) (w, []) := by
  induction h with
  | start => exact .refl
  | aside _ hs hm ih => exact ih.tail (.aside _ _ [] hs hm)
  | call _ call ih => exact ih.trans (ht.serve _ [] call)

/-- Listeners that do nothing, and listeners that answer an event with a call while others are told
of it in turn. -/
theorem Reenters.quiet : Reenters (fun _ _ w => w : Place.Tell (Watched K V ρ) K V) :=
  fun _ _ _ _ => .refl

theorem Reenters.respond (ht : Reenters tell) (calls : Subscriber → Event K V → StoreCall K V) :
    Reenters fun hearer event w => (w.serve tell (calls hearer event)).2 :=
  fun hearer event w pending => ht.serve w pending (calls hearer event)

/-- Whatever was called, each key stands once in the store and in the shard of its hash, no shard
holds more active entries than its part of the capacity, and the statistics add up. -/
theorem Runs.layout {options : StoreOptions} {s₀ : Store K V}
    (ho : Store.openWith options = .ok s₀) {listeners : Listeners Subscriber} {rest : ρ}
    (ht : Reenters tell) {w : Watched K V ρ} (h : Runs tell ⟨⟨s₀, listeners⟩, 0, rest⟩ w) :
    w.site.store.keys.Nodup ∧
      (∀ i shard, w.site.store.shards[i]? = some shard →
        ∀ key ∈ keysOf shard.active ++ keysOf shard.passivated,
          i = (ShardKey.digest key).toNat % options.shards) ∧
      (∀ capacity, options.capacity = some capacity → ∀ shard ∈ w.site.store.shards,
        shard.active.length ≤ max 1 (capacity / options.shards)) ∧
      w.site.store.stats.active + w.site.store.stats.passivated = w.site.store.size ∧
      w.site.store.stats.passivations =
        w.site.store.stats.activations + w.site.store.stats.passivated + w.met := by
  obtain ⟨hkept, hbooks⟩ := (Accounted.opened ho listeners rest).moves (h.moves ht)
  refine ⟨hkept.nodup_keys, fun i shard hi key hk => ?_, fun capacity hc shard hm => ?_,
    w.site.store.size_eq_stats, hbooks⟩
  · rw [← hkept.shards]
    exact (hkept.home i shard hi key hk).symm
  · have hlimit : w.site.store.limit = some (max (capacity / options.shards) 1) := by
      rw [hkept.limit, StoreOptions.shardLimit, hc, Option.map_some]
    rw [Nat.max_comm]
    exact hkept.bounded _ hlimit shard hm

/-- A full shard whose listener reads the key 2 again whenever it hears anything. -/
theorem Runs.layout_reentrant :
    ∃ (s₀ : Store UInt64 Bool) (w : Watched UInt64 Bool Unit)
      (tell : Place.Tell (Watched UInt64 Bool Unit) UInt64 Bool),
      Store.openWith { shards := 2, capacity := some 1 } = .ok s₀ ∧ Reenters tell ∧
        Runs tell ⟨⟨s₀, ⟨1, [(0, .observer 0)]⟩⟩, 0, ()⟩ w ∧
        w.site.store.stats = ⟨1, 1, 4, 2⟩ ∧ w.met = 1 ∧ w.site.store.keys.Nodup ∧
        w.site.store.stats.passivations =
          w.site.store.stats.activations + w.site.store.stats.passivated + w.met := by
  let tell : Place.Tell (Watched UInt64 Bool Unit) UInt64 Bool := fun _ _ w =>
    (w.serve (fun _ _ w => w) (.get 2)).2
  let w₀ : Watched UInt64 Bool Unit :=
    ⟨⟨⟨List.replicate 2 ⟨[], []⟩, some 1, false, 0, 0⟩, ⟨1, [(0, .observer 0)]⟩⟩, 0, ()⟩
  have ho : Store.openWith { shards := 2, capacity := some 1 } = .ok w₀.site.store := rfl
  have ht : Reenters tell := Reenters.quiet.respond fun _ _ => .get 2
  have hrun := (Runs.start : Runs tell w₀ w₀) |>.call (.put 2 true .normal)
    |>.call (.put 4 true .normal) |>.call (.remove 4 .normal) |>.call (.put 4 true .normal)
  obtain ⟨hkeys, -, -, -, hbooks⟩ := Runs.layout ho ht hrun
  exact ⟨_, _, tell, ho, ht, hrun, by decide, by decide, hkeys, hbooks⟩

end Moves
end Watched
end SessionAttributes
