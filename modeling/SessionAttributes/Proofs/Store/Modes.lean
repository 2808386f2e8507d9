import SessionAttributes.Proofs.Store.Overhearing

namespace SessionAttributes

variable {W W' W₀ K V : Type}

namespace StoreCall

def plain : StoreCall K V → StoreCall K V
  | .get key => .get key
  | .getAll keys => .getAll keys
  | .put key value _ => .put key value .normal
  | .remove key _ => .remove key .normal
  | .evict key => .evict key

/-- What a call shows of the answer that it gives in the mode that shows everything. -/
def veil : (call : StoreCall K V) → call.plain.Answer → call.Answer
  | .get _, answer | .getAll _, answer | .evict _, answer => answer
  | .put _ _ mode, answer | .remove _ mode, answer => if mode = .normal then answer else none

/-- Whether the listeners hear what a call writes or removes. -/
def tells : StoreCall K V → Bool
  | .put _ _ mode | .remove _ mode => mode != .silent
  | .get _ | .getAll _ | .evict _ => true

def audible (call : StoreCall K V) (persistent : Bool) : Event K V → Bool
  | .modified _ _ | .removed _ => call.tells
  | .prePassivate _ _ | .postPassivate _ | .postActivate _ _ => !persistent

def leaves (call : StoreCall K V) : Notice K V → Bool
  | .modified _ _ | .removed _ => call.tells
  | .passivated _ _ | .activated _ _ => true

theorem parts_plain (call : StoreCall K V) : call.plain.parts = call.parts.map plain := by
  cases call with
  | getAll keys =>
    unfold plain parts
    rw [List.map_map]
    rfl
  | _ => rfl

theorem parts_tells (call : StoreCall K V) : ∀ part ∈ call.parts, part.tells = call.tells := by
  intro part hm
  cases call with
  | getAll keys =>
    obtain ⟨key, -, rfl⟩ := List.mem_map.mp hm
    rfl
  | _ =>
    obtain rfl := List.mem_singleton.mp hm
    rfl

theorem audible_congr {call call' : StoreCall K V} (h : call.tells = call'.tells) :
    call.audible = call'.audible := by
  funext persistent event
  cases event <;> simp [audible, h]

theorem onMap_veil [DecidableEq K] (call : StoreCall K V) (m : K → Option V) :
    (call.onMap m).1 = call.veil (call.plain.onMap m).1 := by
  cases call with
  | put key value mode => exact reveal_eq mode _
  | remove key mode => exact reveal_eq mode _
  | _ => rfl

end StoreCall

namespace Store

def withPersistence (s : Store K V) (persistent : Bool) : Store K V := { s with persistent }

/-- Counting does not ask whether the store is persistent. -/
theorem count_withPersistence (s : Store K V) (persistent : Bool) (notices : List (Notice K V)) :
    notices.foldl count (s.withPersistence persistent) =
      (notices.foldl count s).withPersistence persistent := by
  induction notices generalizing s with
  | nil => rfl
  | cons notice notices ih =>
    have hone : (s.withPersistence persistent).count notice =
        (s.count notice).withPersistence persistent := by cases notice <;> rfl
    rw [List.foldl_cons, List.foldl_cons, hone, ih]

/-- News of a change is not counted. -/
theorem count_leaves (call : StoreCall K V) (notices : List (Notice K V)) (s : Store K V) :
    (notices.filter call.leaves).foldl count s = notices.foldl count s := by
  induction notices generalizing s with
  | nil => rfl
  | cons notice notices ih =>
    cases hleaves : call.leaves notice with
    | true =>
      rw [List.filter_cons_of_pos hleaves]
      exact ih _
    | false =>
      have hsame : s.count notice = s := by
        cases notice with
        | passivated key value => cases hleaves
        | activated key value => cases hleaves
        | modified key value => rfl
        | removed key => rfl
      rw [List.filter_cons_of_neg (by simp [hleaves]), List.foldl_cons, hsame]
      exact ih s

/-- Of the events of some notices those are heard that the mode and the persistence let through. -/
theorem announced_leaves (call : StoreCall K V) (s : Store K V) (persistent : Bool)
    (notices : List (Notice K V)) :
    (s.withPersistence persistent).announced (notices.filter call.leaves) =
      ((s.withPersistence false).announced notices).filter (call.audible persistent) := by
  rw [announced_all (rfl : (s.withPersistence false).persistent = false)]
  induction notices with
  | nil => rfl
  | cons notice notices ih =>
    have hone : (s.withPersistence persistent).announced ([notice].filter call.leaves) =
        notice.rounds.filter (call.audible persistent) := by
      cases notice <;> cases htells : call.tells <;> cases persistent <;>
        simp [announced, announces, withPersistence, Notice.rounds, StoreCall.leaves,
          StoreCall.audible, htells, List.filter_cons]
    rw [← List.singleton_append, List.filter_append, announced_append, hone, ih,
      List.flatMap_append, List.filter_append, List.flatMap_singleton]

variable [DecidableEq K] [ShardKey K]

theorem step_withPersistence (s : Store K V) (persistent : Bool) (call : StoreCall K V) :
    call.step (s.withPersistence persistent) =
      ((call.step s).1.withPersistence persistent, (call.step s).2) := by
  have hshard : ∀ key, (s.withPersistence persistent).shard key = s.shard key := fun _ => rfl
  cases call with
  | getAll keys => rfl
  | put key value mode => rfl
  | get key =>
    unfold StoreCall.step Store.get
    dsimp only
    rw [hshard]
    cases (s.shard key).active.lookup key with
    | some value => rfl
    | none => cases (s.shard key).passivated.lookup key <;> rfl
  | remove key mode =>
    unfold StoreCall.step Store.remove
    dsimp only
    rw [hshard]
    cases (s.shard key).find? key <;> rfl
  | evict key =>
    unfold StoreCall.step Store.evict
    dsimp only
    rw [hshard]
    cases (s.shard key).active.lookup key <;> rfl

omit [DecidableEq K] [ShardKey K] in
theorem leaves_displaced (call : StoreCall K V) (old : Option (K × V)) :
    (displacedNotice old).filter call.leaves = displacedNotice old := by
  cases old <;> rfl

/-- A step changes the store as it does in any other mode, and keeps to itself what its mode says. -/
theorem step_plain (s : Store K V) (call : StoreCall K V) :
    call.step s = ((call.plain.step s).1, (call.plain.step s).2.filter call.leaves) := by
  cases call with
  | getAll keys => rfl
  | get key =>
    unfold StoreCall.plain StoreCall.step Store.get
    dsimp only
    cases (s.shard key).active.lookup key with
    | some value => rfl
    | none =>
      cases (s.shard key).passivated.lookup key with
      | none => rfl
      | some value =>
        dsimp only
        rw [List.filter_cons_of_pos rfl, leaves_displaced]
  | put key value mode =>
    unfold StoreCall.plain StoreCall.step Store.put
    dsimp only
    rw [List.filter_append, leaves_displaced]
    cases mode <;> rfl
  | remove key mode =>
    unfold StoreCall.plain StoreCall.step Store.remove
    dsimp only
    cases (s.shard key).find? key with
    | none => rfl
    | some value => cases mode <;> rfl
  | evict key =>
    unfold StoreCall.plain StoreCall.step Store.evict
    dsimp only
    cases (s.shard key).active.lookup key <;> rfl

theorem settled_withPersistence (s : Store K V) (persistent : Bool) (call : StoreCall K V) :
    (s.withPersistence persistent).settled call =
      (s.settled call).withPersistence persistent := by
  rw [settled, step_withPersistence, count_withPersistence]
  rfl

theorem settled_plain (s : Store K V) (call : StoreCall K V) :
    s.settled call = s.settled call.plain := by
  rw [settled, step_plain, count_leaves]
  rfl

theorem after_withPersistence (s : Store K V) (persistent : Bool)
    (calls : List (StoreCall K V)) :
    (s.withPersistence persistent).after calls = (s.after calls).withPersistence persistent := by
  induction calls generalizing s with
  | nil => rfl
  | cons call calls ih =>
    change ((s.withPersistence persistent).settled call).after calls = _
    rw [settled_withPersistence, ih]
    rfl

theorem after_plain (s : Store K V) (calls : List (StoreCall K V)) :
    s.after (calls.map StoreCall.plain) = s.after calls := by
  induction calls generalizing s with
  | nil => rfl
  | cons call calls ih =>
    change (s.settled call.plain).after (calls.map StoreCall.plain) = (s.settled call).after calls
    rw [ih, ← settled_plain]

/-- What is heard of some parts of a call. -/
theorem news_plain (s : Store K V) (persistent : Bool) (call : StoreCall K V)
    {parts : List (StoreCall K V)} (hp : ∀ part ∈ parts, part.tells = call.tells) :
    (s.withPersistence persistent).news parts =
      ((s.withPersistence false).news (parts.map StoreCall.plain)).filter
        (call.audible persistent) := by
  induction parts generalizing s with
  | nil => rfl
  | cons part parts ih =>
    have hrest := ih (s.settled part) fun other hm => hp other (List.mem_cons_of_mem _ hm)
    have hloud := StoreCall.audible_congr (hp part List.mem_cons_self)
    rw [List.map_cons, news, news, List.filter_append, step_withPersistence, step_withPersistence,
      step_plain s part, announced_leaves, hloud, settled_withPersistence, hrest,
      settled_withPersistence, ← settled_plain]

end Store

namespace Place

section Overhearing
variable (place : Place W K V) (listener : Subscriber) (tell : Tell W K V)

/-- Whoever writes down what he hears changes nothing by that. -/
theorem overhear_foldl {A : Type} {f : Overheard W K V → A → Overheard W K V} {g : W → A → W}
    (h : ∀ o a, (f o a).world = g o.world a) (as : List A) (o : Overheard W K V) :
    (as.foldl f o).world = as.foldl g o.world := by
  induction as generalizing o with
  | nil => rfl
  | cons a as ih => rw [List.foldl_cons, ih, h, List.foldl_cons]

theorem overhear_announce (o : Overheard W K V) (notice : Notice K V) :
    (place.overheard.announce (place.overhear listener tell) o notice).world =
      place.announce tell o.world notice := by
  have hround : ∀ (hearers : List Subscriber) (o : Overheard W K V) (event : Event K V),
      (tellAll (place.overhear listener tell) hearers o event).world =
        tellAll tell hearers o.world event := fun hearers o event =>
    overhear_foldl (fun _ _ => rfl) hearers o
  unfold announce
  dsimp only
  change (if (place.get o.world).store.announces notice = true then _ else _ : Overheard W K V).world
    = _
  split
  · exact overhear_foldl (hround _) _ _
  · rfl

theorem overhear_settle {A : Type} (o : Overheard W K V) (step : Store K V → Outcome K V A) :
    (place.overheard.settle (place.overhear listener tell) o step).1 =
        (place.settle tell o.world step).1 ∧
      (place.overheard.settle (place.overhear listener tell) o step).2.world =
        (place.settle tell o.world step).2 :=
  ⟨rfl, overhear_foldl (place.overhear_announce listener tell) _ _⟩

variable [DecidableEq K] [ShardKey K]

theorem overhear_readAll (keys : List K) (found : List (K × V)) (o : Overheard W K V) :
    (place.overheard.readAll (place.overhear listener tell) keys found o).1 =
        (place.readAll tell keys found o.world).1 ∧
      (place.overheard.readAll (place.overhear listener tell) keys found o).2.world =
        (place.readAll tell keys found o.world).2 := by
  induction keys generalizing found o with
  | nil => exact ⟨rfl, rfl⟩
  | cons key keys ih =>
    obtain ⟨hanswer, hworld⟩ := place.overhear_settle listener tell o (·.get key)
    unfold readAll
    generalize place.overheard.settle (place.overhear listener tell) o (·.get key) = r at *
    generalize place.settle tell o.world (·.get key) = r' at *
    obtain ⟨answer, o'⟩ := r
    obtain ⟨answer', w'⟩ := r'
    obtain rfl : answer = answer' := hanswer
    obtain rfl : o'.world = w' := hworld
    cases answer with
    | none => exact ih found o'
    | some value => exact ih (addFound key value found) o'

theorem overhear_serve (o : Overheard W K V) (call : StoreCall K V) :
    (place.overheard.serve (place.overhear listener tell) o call).1 =
        (place.serve tell o.world call).1 ∧
      (place.overheard.serve (place.overhear listener tell) o call).2.world =
        (place.serve tell o.world call).2 := by
  cases call with
  | getAll keys => exact place.overhear_readAll listener tell keys [] o
  | _ => exact place.overhear_settle listener tell o _

end Overhearing

section Hearing
variable [DecidableEq K] [ShardKey K] {place : Place W K V} {listener : Subscriber}
  {tell : Tell W K V}

omit [DecidableEq K] [ShardKey K] in
theorem flatMap_own (event : Event K V) (hearers : List Subscriber) :
    (hearers.flatMap fun hearer => if hearer = listener then [event] else []) =
      List.replicate (hearers.count listener) event := by
  induction hearers with
  | nil => rfl
  | cons hearer hearers ih =>
    rw [List.flatMap_cons, ih]
    by_cases hl : hearer = listener
    · rw [if_pos hl, hl, List.count_cons_self, List.replicate_succ]
      rfl
    · rw [if_neg hl, List.count_cons_of_ne hl]
      rfl

/-- Someone who listens once writes down what is announced, one event after the other. -/
theorem overhear_attends (hl : place.Lawful) (hq : place.Quiet tell)
    (hs : place.Leaves listener tell) :
    place.overheard.Attends (place.overhear listener tell)
      (fun o => place.Listens listener o.world) (fun o o' events => o'.events = o.events ++ events)
      (fun hearer event => if hearer = listener then [event] else []) fun event => [event] where
  refl o := (List.append_nil _).symm
  trans h h' := by rw [h', h, List.append_assoc]
  lawful o site := hl o.world site
  put {o store} _ ho := by
    refine ⟨?_, (List.append_nil _).symm⟩
    change (place.get (place.set o.world _)).listeners.snapshot.count listener = 1
    rw [hl]
    exact ho
  tell hearer event {o} ho := by
    refine ⟨hs hearer event o.world ho, ?_, hq hearer event o.world⟩
    by_cases hown : hearer = listener <;> simp [overhear, Overheard.events, hown]
  all {o} ho event := by
    have hone : (place.overheard.get o).listeners.snapshot.count listener = 1 := ho
    rw [flatMap_own, hone]
    rfl

/-- What a listener hears of a call is what is heard of the calls on single keys that it is made
of. -/
theorem hear_serve (hl : place.Lawful) (hq : place.Quiet tell)
    (hs : place.Leaves listener tell) {o : Overheard W K V}
    (hlistens : place.Listens listener o.world) (call : StoreCall K V) :
    (place.overheard.serve (place.overhear listener tell) o call).2.events =
        o.events ++ (place.get o.world).store.news call.parts ∧
      place.Listens listener
        (place.overheard.serve (place.overhear listener tell) o call).2.world := by
  have hserved := (overhear_attends hl hq hs).serve hlistens call
  have hmade := hserved.made
  rw [List.flatMap_singleton'] at hmade
  exact ⟨hmade, hserved.holds⟩

end Hearing
end Place

namespace Store

/-- Stores that are opened with the same shards and the same capacity differ in their persistence
only. -/
theorem openWith_persistence {options options' : StoreOptions} {s s' : Store K V}
    (hshards : options'.shards = options.shards) (hcapacity : options'.capacity = options.capacity)
    (h : Store.openWith options = .ok s) (h' : Store.openWith options' = .ok s') :
    s' = s.withPersistence options'.persistent := by
  obtain rfl := openWith_eq h
  obtain rfl := openWith_eq h'
  unfold withPersistence StoreOptions.shardLimit
  rw [hshards, hcapacity]

variable [DecidableEq K] [ShardKey K]

def bulletins (s : Store K V) : List (StoreCall K V) → List (List (Event K V))
  | [] => []
  | call :: calls => s.news call.parts :: (s.after call.parts).bulletins calls

theorem bulletins_append (s : Store K V) (calls calls' : List (StoreCall K V)) :
    s.bulletins (calls ++ calls') =
      s.bulletins calls ++ (s.after (calls.flatMap StoreCall.parts)).bulletins calls' := by
  induction calls generalizing s with
  | nil => rfl
  | cons call calls ih =>
    rw [List.cons_append, bulletins, bulletins, ih, List.flatMap_cons, after_append,
      List.cons_append]

/-- The bulletins of calls in any modes are those of the plain calls, less what is not heard. -/
theorem bulletins_plain (s : Store K V) (persistent : Bool)
    {log reference : List (StoreCall K V × List (Event K V))}
    (hlog : log.map Prod.snd = (s.withPersistence persistent).bulletins (log.map Prod.fst))
    (hreference : reference.map Prod.snd =
      (s.withPersistence false).bulletins (reference.map Prod.fst))
    (hcalls : log.map (fun e => e.1.plain) = reference.map Prod.fst) :
    List.Forall₂ (fun e e₀ => e.2 = e₀.2.filter (e.1.audible persistent)) log reference := by
  induction log generalizing s reference with
  | nil =>
    cases reference with
    | nil => exact .nil
    | cons e₀ reference => cases hcalls
  | cons e log ih =>
    cases reference with
    | nil => cases hcalls
    | cons e₀ reference =>
      obtain ⟨call, events⟩ := e
      obtain ⟨call₀, events₀⟩ := e₀
      obtain ⟨hcall, hlater⟩ := List.cons_eq_cons.mp hcalls
      obtain ⟨hevents, hrest⟩ := List.cons_eq_cons.mp hlog
      obtain ⟨hevents₀, hrest₀⟩ := List.cons_eq_cons.mp hreference
      obtain rfl : call.plain = call₀ := hcall
      replace hevents : events = (s.withPersistence persistent).news call.parts := hevents
      replace hevents₀ : events₀ = (s.withPersistence false).news call.plain.parts := hevents₀
      rw [after_withPersistence] at hrest hrest₀
      rw [StoreCall.parts_plain, after_plain] at hrest₀
      refine .cons ?_ (ih (s.after call.parts) hrest hrest₀ hlater)
      rw [StoreCall.parts_plain] at hevents₀
      rw [hevents, hevents₀]
      exact s.news_plain persistent call call.parts_tells

end Store

/-- Someone who listens to a store, and all who are told of its events beside him. They leave the
store and his registration alone. -/
structure Audience (W K V : Type) where
  place : Place W K V
  tell : Place.Tell W K V
  listener : Subscriber
  lawful : place.Lawful
  quiet : place.Quiet tell
  leaves : place.Leaves listener tell

namespace Audience
variable [DecidableEq K] [ShardKey K]

def hears (a : Audience W K V) (w : W) (call : StoreCall K V) : List (Event K V) :=
  (a.place.overheard.serve (a.place.overhear a.listener a.tell) ⟨w, []⟩ call).2.events

/-- A run of calls, each of them with what the listener heard of it. In between anything may happen
that leaves the store and his registration alone. -/
inductive Logs (a : Audience W K V) (w₁ : W) : List (StoreCall K V × List (Event K V)) → W → Prop
  | start (hl : a.place.Listens a.listener w₁) : Logs a w₁ [] w₁
  | aside {log : List (StoreCall K V × List (Event K V))} {w w' : W} (h : Logs a w₁ log w)
      (hs : (a.place.get w').store = (a.place.get w).store)
      (hl : a.place.Listens a.listener w') : Logs a w₁ log w'
  | call {log : List (StoreCall K V × List (Event K V))} {w : W} (h : Logs a w₁ log w)
      (call : StoreCall K V) :
      Logs a w₁ (log ++ [(call, a.hears w call)]) (a.place.serve a.tell w call).2

variable {a : Audience W K V} {w₁ w : W} {log : List (StoreCall K V × List (Event K V))}

/-- The store of a run, and what was heard of its calls. -/
theorem Logs.follows (h : a.Logs w₁ log w) :
    a.place.Listens a.listener w ∧
      (a.place.get w).store =
        (a.place.get w₁).store.after ((log.map Prod.fst).flatMap StoreCall.parts) ∧
      log.map Prod.snd = (a.place.get w₁).store.bulletins (log.map Prod.fst) := by
  induction h with
  | start hl => exact ⟨hl, rfl, rfl⟩
  | aside _ hs hl ih => exact ⟨hl, hs.trans ih.2.1, ih.2.2⟩
  | @call log w _ call ih =>
    obtain ⟨hlistens, hstore, hlog⟩ := ih
    obtain ⟨hevents, hlistens'⟩ := Place.hear_serve a.lawful a.quiet a.leaves
      (o := (⟨w, []⟩ : Overheard W K V)) hlistens call
    have hheard : a.hears w call = (a.place.get w).store.news call.parts := hevents
    have hworld := (a.place.overhear_serve a.listener a.tell ⟨w, []⟩ call).2
    rw [hworld] at hlistens'
    refine ⟨hlistens', ?_, ?_⟩
    · rw [Place.serve_store a.lawful a.quiet, hstore, List.map_append, List.flatMap_append,
        Store.after_append]
      simp
    · rw [List.map_append, List.map_append, Store.bulletins_append, hlog, ← hstore]
      change _ ++ [a.hears w call] = _ ++ [(a.place.get w).store.news call.parts]
      rw [hheard]

theorem Logs.answer {options : StoreOptions} (h : a.Logs w₁ log w)
    (ho : Store.openWith options = .ok (a.place.get w₁).store) (call : StoreCall K V) :
    (a.place.serve a.tell w call).1 = (call.onMap (a.place.get w).store.find?).1 := by
  have hkept := (Store.openWith_kept ho).after ((log.map Prod.fst).flatMap StoreCall.parts)
  rw [← h.follows.2.1] at hkept
  exact (Place.serve_represents a.lawful a.quiet ⟨hkept, rfl⟩ call).1

/-- A run beside one of the same calls in the mode that shows everything, on a store that is not
persistent. -/
theorem Logs.plain {a₀ : Audience W₀ K V} {v₁ v : W₀} {options options₀ : StoreOptions}
    {reference : List (StoreCall K V × List (Event K V))} (h : a.Logs w₁ log w)
    (hshards : options.shards = options₀.shards) (hcapacity : options.capacity = options₀.capacity)
    (ho : Store.openWith options = .ok (a.place.get w₁).store)
    (ho₀ : Store.openWith options₀ = .ok (a₀.place.get v₁).store)
    (hpersistent : options₀.persistent = false) (h₀ : a₀.Logs v₁ reference v)
    (hcalls : log.map (fun e => e.1.plain) = reference.map Prod.fst) :
    (a.place.get w).store = (a₀.place.get v).store.withPersistence options.persistent ∧
      (∀ call : StoreCall K V, (a.place.serve a.tell w call).1 =
        call.veil (a₀.place.serve a₀.tell v call.plain).1) ∧
      List.Forall₂ (fun e e₀ => e.2 = e₀.2.filter (e.1.audible options.persistent))
        log reference := by
  have hopened := Store.openWith_persistence hshards hcapacity ho₀ ho
  have hopened₀ := Store.openWith_persistence rfl rfl ho₀ ho₀
  rw [hpersistent] at hopened₀
  obtain ⟨-, hstore, hlog⟩ := h.follows
  obtain ⟨-, hstore₀, hreference⟩ := h₀.follows
  have hparts : (reference.map Prod.fst).flatMap StoreCall.parts =
      ((log.map Prod.fst).flatMap StoreCall.parts).map StoreCall.plain := by
    rw [← hcalls, List.flatMap_map, List.map_flatMap, List.flatMap_map]
    exact congrArg (List.flatMap · log) (funext fun e => e.1.parts_plain)
  have hsame : (a.place.get w).store =
      (a₀.place.get v).store.withPersistence options.persistent := by
    rw [hstore, hstore₀, hopened, Store.after_withPersistence, hparts, Store.after_plain]
  refine ⟨hsame, fun call => ?_, ?_⟩
  · rw [h.answer ho, h₀.answer ho₀, call.onMap_veil]
    congr 2
    rw [hsame]
    rfl
  · rw [hopened] at hlog
    rw [hopened₀] at hreference
    exact Store.bulletins_plain _ _ hlog hreference hcalls

/-- Two runs of calls that differ in nothing but their modes, on stores that differ in nothing but
their persistence. Their stores hold the same entries in the same tiers and in the same order, and
count the same. What they answer and what their listeners hear is what a third run answers and
tells, with all calls in the mode that shows everything on a store that is not persistent, less what
their modes and their persistence hide. -/
theorem Logs.modes_unseen {a' : Audience W' K V} {a₀ : Audience W₀ K V}
    {options options' : StoreOptions} (hshards : options'.shards = options.shards)
    (hcapacity : options'.capacity = options.capacity) {w₁' w' : W'} {v₁ v : W₀}
    {log' reference : List (StoreCall K V × List (Event K V))}
    (ho : Store.openWith options = .ok (a.place.get w₁).store)
    (ho' : Store.openWith options' = .ok (a'.place.get w₁').store)
    (ho₀ : Store.openWith { options with persistent := false } = .ok (a₀.place.get v₁).store)
    (h : a.Logs w₁ log w) (h' : a'.Logs w₁' log' w') (h₀ : a₀.Logs v₁ reference v)
    (hcalls : log'.map (fun e => e.1.plain) = log.map fun e => e.1.plain)
    (hplain : reference.map Prod.fst = log.map fun e => e.1.plain) :
    ((a'.place.get w').store.shards = (a.place.get w).store.shards ∧
      (a'.place.get w').store.stats = (a.place.get w).store.stats) ∧
    (∀ call : StoreCall K V,
      (a.place.serve a.tell w call).1 = call.veil (a₀.place.serve a₀.tell v call.plain).1 ∧
      (a'.place.serve a'.tell w' call).1 = call.veil (a₀.place.serve a₀.tell v call.plain).1) ∧
    List.Forall₂ (fun e e₀ => e.2 = e₀.2.filter (e.1.audible options.persistent)) log reference ∧
    List.Forall₂ (fun e e₀ => e.2 = e₀.2.filter (e.1.audible options'.persistent))
      log' reference := by
  have hsame : options.shards = ({ options with persistent := false } : StoreOptions).shards ∧
    options.capacity = ({ options with persistent := false } : StoreOptions).capacity := ⟨rfl, rfl⟩
  obtain ⟨hstore, hanswer, hheard⟩ := h.plain hsame.1 hsame.2 ho ho₀ rfl h₀ hplain.symm
  obtain ⟨hstore', hanswer', hheard'⟩ := h'.plain (hshards.trans hsame.1)
    (hcapacity.trans hsame.2) ho' ho₀ rfl h₀ (hcalls.trans hplain.symm)
  refine ⟨?_, fun call => ⟨hanswer call, hanswer' call⟩, hheard, hheard'⟩
  rw [hstore, hstore']
  exact ⟨rfl, rfl⟩

/-- Stores with room for one active entry, a persistent one and one that is not. The key 2 makes room
for the key 4, comes back and is removed. -/
theorem Logs.modes_unseen_spilled :
    ∃ (a : Audience (Site UInt64 Bool) UInt64 Bool) (w₁ w w₁' w' v₁ v : Site UInt64 Bool)
      (log log' reference : List (StoreCall UInt64 Bool × List (Event UInt64 Bool))),
      Store.openWith { shards := 1, capacity := some 1 } = .ok (a.place.get w₁).store ∧
      Store.openWith { shards := 1, capacity := some 1, persistent := true } =
        .ok (a.place.get w₁').store ∧
      Store.openWith { shards := 1, capacity := some 1 } = .ok (a.place.get v₁).store ∧
      a.Logs w₁ log w ∧ a.Logs w₁' log' w' ∧ a.Logs v₁ reference v ∧
      log'.map (fun e => e.1.plain) = log.map (fun e => e.1.plain) ∧
      reference.map Prod.fst = log.map (fun e => e.1.plain) ∧
      reference.map Prod.snd = [[.modified 2 true],
        [.modified 4 false, .prePassivate 2 true, .postPassivate 2],
        [.postActivate 2 true, .prePassivate 4 false, .postPassivate 4], [.removed 2]] ∧
      log.map Prod.snd = [[], [.modified 4 false, .prePassivate 2 true, .postPassivate 2],
        [.postActivate 2 true, .prePassivate 4 false, .postPassivate 4], []] ∧
      log'.map Prod.snd = [[.modified 2 true], [], [], [.removed 2]] ∧
      (a.place.get w').store.stats = (a.place.get w).store.stats ∧
      List.Forall₂ (fun e e₀ => e.2 = e₀.2.filter (e.1.audible true)) log' reference := by
  let a : Audience (Site UInt64 Bool) UInt64 Bool :=
    { place := ⟨id, fun _ site => site⟩, tell := fun _ _ w => w, listener := .observer 0
      lawful := fun _ _ => rfl, quiet := fun _ _ _ => rfl, leaves := fun _ _ _ h => h }
  let opened (persistent : Bool) : Site UInt64 Bool :=
    ⟨⟨[⟨[], []⟩], some 1, persistent, 0, 0⟩, (Listeners.empty.register (.observer 0)).2⟩
  have ho : Store.openWith { shards := 1, capacity := some 1 } =
    .ok (a.place.get (opened false)).store := rfl
  have ho' : Store.openWith { shards := 1, capacity := some 1, persistent := true } =
    .ok (a.place.get (opened true)).store := rfl
  have hlog := (Logs.start rfl : a.Logs (opened false) [] (opened false))
    |>.call (.put 2 true .silent) |>.call (.put 4 false .writeOnly) |>.call (.get 2)
    |>.call (.remove 2 .silent)
  have hlog' := (Logs.start rfl : a.Logs (opened true) [] (opened true))
    |>.call (.put 2 true .writeOnly) |>.call (.put 4 false .silent) |>.call (.get 2)
    |>.call (.remove 2 .normal)
  have hreference := (Logs.start rfl : a.Logs (opened false) [] (opened false))
    |>.call (.put 2 true .normal) |>.call (.put 4 false .normal) |>.call (.get 2)
    |>.call (.remove 2 .normal)
  have hshards : ({ shards := 1, capacity := some 1, persistent := true } : StoreOptions).shards =
    ({ shards := 1, capacity := some 1 } : StoreOptions).shards := rfl
  obtain ⟨⟨-, hstats⟩, -, -, hheard⟩ :=
    Logs.modes_unseen hshards rfl ho ho' ho hlog hlog' hreference
      (by simp [StoreCall.plain]) (by simp [StoreCall.plain])
  exact ⟨a, _, _, _, _, _, _, _, _, _, ho, ho', ho, hlog, hlog', hreference,
    by simp [StoreCall.plain], by simp [StoreCall.plain], by decide +kernel, by decide +kernel,
    by decide +kernel, hstats, hheard⟩

end Audience
end SessionAttributes
