import SessionAttributes.Proofs.Store.Crossings
import SessionAttributes.Proofs.World.Reach
import SessionAttributes.Proofs.World.Tasks
import SessionAttributes.Proofs.World.Turns

namespace SessionAttributes

variable {V σ : Type}

/-- The callbacks of a factory when a call on one key is settled: first for the entry that comes
back because it is read, then for the entry that leaves. -/
def crossing (m : Marshaller V) (context : String) (number : Nat) (s : Store AttributeKey Bytes)
    (call : StoreCall AttributeKey Bytes) : List (Line V) :=
  (if call.isRead then s.entered (s.settled call) else []).flatMap
      (fun e => World.relayLines m context number .activate e.1 e.2) ++
    (s.departed (s.settled call)).flatMap
      fun e => World.relayLines m context number .passivate e.1 e.2

/-- The callbacks of a factory when some calls are settled one after the other. -/
def crossings (m : Marshaller V) (context : String) (number : Nat) (s : Store AttributeKey Bytes) :
    List (StoreCall AttributeKey Bytes) → List (Line V)
  | [] => []
  | call :: calls => crossing m context number s call ++
      crossings m context number (s.settled call) calls

/-- Calls that reach the attribute store, each with the callbacks that it brings about. A bulk read
reads one key after the other. -/
def chronicle (m : Marshaller V) (context : String) (number : Nat) (s : Store AttributeKey Bytes) :
    List (StoreCall AttributeKey Bytes) → List (Line V)
  | [] => []
  | call :: calls => .asked (.attributes call) none :: (crossings m context number s call.parts ++
      chronicle m context number (s.after call.parts) calls)

theorem chronicle_append (m : Marshaller V) (context : String) (number : Nat)
    (s : Store AttributeKey Bytes) (calls calls' : List (StoreCall AttributeKey Bytes)) :
    chronicle m context number s (calls ++ calls') = chronicle m context number s calls ++
      chronicle m context number (s.after (calls.flatMap StoreCall.parts)) calls' := by
  induction calls generalizing s with
  | nil => rfl
  | cons call calls ih =>
    rw [List.cons_append, chronicle, chronicle, ih, List.flatMap_cons, Store.after_append,
      List.cons_append, List.append_assoc]

section Listening
variable {m : Marshaller V} {context : Nat → String} {number : Nat}

theorem concerns_relayLines (context : String) (direction : Direction) (key : AttributeKey)
    (bytes : Bytes) :
    (World.relayLines m context number direction key bytes).filter (Line.concerns number) =
      World.relayLines m context number direction key bytes := by
  unfold World.relayLines
  cases m.read bytes with
  | error fault => rfl
  | ok value => simp [Line.concerns]

theorem echo_minds (m : Marshaller V) (context : Nat → String) (number : Nat) :
    Event.Minds (World.attributesEcho m context (.factory number)) :=
  ⟨fun _ => rfl, fun _ _ => rfl, fun _ => rfl⟩

/-- What a factory relays while calls on single keys are settled. -/
theorem relayed_crossings {options : StoreOptions} {s : Store AttributeKey Bytes}
    (h : s.Kept options) (hp : s.persistent = false) {calls : List (StoreCall AttributeKey Bytes)}
    (hc : ∀ call ∈ calls, call.isSingle = true) :
    (s.news calls).flatMap (World.attributesEcho m context (.factory number)) =
      crossings m (context number) number s calls := by
  induction calls generalizing s with
  | nil => rfl
  | cons call calls ih =>
    have hfirst := h.crossings (echo_minds m context number) hp (hc call List.mem_cons_self)
    have hrest := ih (h.settled call) ((s.settled_persistent call).2.trans hp)
      fun c hm => hc c (List.mem_cons_of_mem _ hm)
    have hnews := s.news_append [call] calls
    rw [List.singleton_append] at hnews
    rw [hnews, List.flatMap_append, hfirst]
    exact congrArg (_ ++ ·) hrest

end Listening

theorem Happening.Routine.of_due {session : SessionId} {locks : Bool} {action : Action V}
    (h : action.Due session locks) (number : Nat) (actor : World.Actor) :
    (Happening.act actor action).Routine number := by
  refine ⟨nofun, fun _ direction he => h.2 direction ?_⟩
  cases he
  rfl

/-- An operation of a view or on a session is one routine action after the other. -/
theorem World.carryOut_routine {α : Type} {session : SessionId} {locks : Bool}
    {q : Procedure V α} (h : q.Asks (Action.Due session locks)) (env : Surroundings V σ)
    (number : Nat) (actor : World.Actor) (w : World V σ) :
    ∃ happenings : List (Happening V), (∀ happening ∈ happenings, happening.Routine number) ∧
      (w.carryOut env actor q).2 = happenings.foldl (World.happen env) w := by
  induction q generalizing w with
  | done result => exact ⟨[], List.forall_mem_nil _, rfl⟩
  | act action next ih =>
    obtain ⟨happenings, hall, hrest⟩ :=
      ih _ (h.2 (w.perform env actor action).1) (w.perform env actor action).2
    refine ⟨.act actor action :: happenings, ?_, hrest⟩
    exact List.forall_mem_cons.mpr ⟨.of_due h.1 number actor, hall⟩

/-- A factory that relays, and the journal in which its callbacks are written down. -/
structure Relay (V σ : Type) where
  marshaller : Marshaller V
  read : σ → List (Line V)
  number : Nat
  context : String
  subscriptions : Subscriptions

namespace World

variable {x : Relay V σ} {env : Surroundings V σ} {spared : Bool} {w w' w'' : World V σ}
  {lines lines' : List (Line V)} {calls calls' : List (StoreCall AttributeKey Bytes)}

/-- The factory is open and listens to an attribute store that is not persistent. -/
structure Attentive (x : Relay V σ) (w : World V σ) : Prop where
  tuned : w.Tuned
  reports : w.attributes.store.persistent = false
  enlisted : ∃ id, x.subscriptions.at? .attributes = some id
  front : ∃ notified, (w.factory? x.number).map Factory.front =
    some ⟨true, x.context, x.subscriptions, notified⟩

theorem Attentive.context (h : w.Attentive x) : w.context x.number = x.context := by
  obtain ⟨notified, hf⟩ := h.front
  have hcontext := congrArg (Option.map Factory.Front.context) hf
  rw [Option.map_map] at hcontext
  exact congrArg (·.getD "") hcontext

theorem Attentive.enrolled (h : w.Attentive x) :
    w.enrolled .attributes x.number = x.subscriptions.at? .attributes := by
  obtain ⟨notified, hf⟩ := h.front
  obtain ⟨f, hf, hfront⟩ := Option.map_eq_some_iff.mp hf
  rw [World.enrolled, subscriptions?_of_open hf (congrArg Factory.Front.isOpen hfront),
    Option.bind_some]
  exact congrArg (·.at? .attributes) (congrArg Factory.Front.subscriptions hfront)

/-- Lines were written down, and the factory has counted the callbacks among them. -/
structure Reports (x : Relay V σ) (w w' : World V σ) (lines : List (Line V)) : Prop where
  read : x.read w'.scene = x.read w.scene ++ lines
  front : (w'.factory? x.number).map Factory.front =
    ((w.factory? x.number).map Factory.front).map (·.after x.number lines)

theorem Reports.trans (h : w.Reports x w' lines) (h' : w'.Reports x w'' lines') :
    w.Reports x w'' (lines ++ lines') := by
  refine ⟨?_, ?_⟩
  · rw [h'.read, h.read, List.append_assoc]
  · rw [h'.front, h.front, Option.map_map]
    exact congrArg (Option.map · _) (funext fun f => (f.after_append x.number lines lines').symm)

theorem Noted.reports (h : w.Noted x.read w' lines) : w.Reports x w' lines :=
  ⟨h.read, h.front x.number⟩

/-- Nothing that the factory or the journal knows of. -/
theorem Reports.aside (hr : w'.scene = w.scene)
    (hf : (w'.factory? x.number).map Factory.front = (w.factory? x.number).map Factory.front) :
    w.Reports x w' [] :=
  ⟨by rw [hr, List.append_nil], by rw [hf, Factory.Front.after_nil, Option.map_id_fun, id]⟩

theorem Written.reports (h : w.Written x.read w' lines)
    (hq : ∀ line ∈ lines, line.concerns x.number = false) : w.Reports x w' lines := by
  obtain ⟨scene, rfl, hread⟩ := h
  refine ⟨hread, ?_⟩
  have hquiet : ∀ line ∈ lines, ∀ direction, line.tells x.number direction = false :=
    fun line hm direction => Bool.eq_false_iff.mpr fun ht =>
      absurd ((hq line hm).symm.trans (Line.concerns_of_tells ht)) nofun
  rw [Factory.Front.after_quiet hquiet, Option.map_id_fun]
  rfl

/-- Some calls have reached the attribute store, and a factory has relayed what has crossed between
the tiers. -/
structure Relays (x : Relay V σ) (w w' : World V σ)
    (calls : List (StoreCall AttributeKey Bytes)) (lines : List (Line V)) : Prop
    extends w.Reports x w' lines where
  store : w'.attributes.store = w.attributes.store.after (calls.flatMap StoreCall.parts)
  told : lines.filter (Line.concerns x.number) =
    chronicle x.marshaller x.context x.number w.attributes.store calls

theorem Relays.trans (h : w.Relays x w' calls lines) (h' : w'.Relays x w'' calls' lines') :
    w.Relays x w'' (calls ++ calls') (lines ++ lines') := by
  refine ⟨h.toReports.trans h'.toReports, ?_, ?_⟩
  · rw [h'.store, h.store, List.flatMap_append, Store.after_append]
  · rw [List.filter_append, h.told, h'.told, h.store, chronicle_append]

theorem Reports.relays (h : w.Reports x w' lines)
    (hs : w'.attributes.store = w.attributes.store)
    (hq : ∀ line ∈ lines, line.concerns x.number = false) : w.Relays x w' [] lines := by
  refine ⟨h, hs, ?_⟩
  exact List.filter_eq_nil_iff.mpr fun line hm => by rw [hq line hm]; exact Bool.false_ne_true

theorem Reports.attentive (h : w.Reports x w' lines) (hr : w.Attentive x) (ht : w'.Tuned)
    (hp : w'.attributes.store.persistent = w.attributes.store.persistent) : w'.Attentive x := by
  obtain ⟨notified, hf⟩ := hr.front
  refine ⟨ht, hp.trans hr.reports, hr.enlisted, ?_⟩
  rw [h.front, hf]
  exact ⟨_, rfl⟩

theorem Relays.attentive (h : w.Relays x w' calls lines) (hr : w.Attentive x) (ht : w'.Tuned) :
    w'.Attentive x := by
  refine h.toReports.attentive hr ht ?_
  rw [h.store]
  exact Store.after_persistent _ _

/-- From a world in which the factory is ready another one is reached, and the factory has relayed
what crossed between the tiers meanwhile. No call has reached a store that is `spared`. -/
def Relayed (x : Relay V σ) (spared : Bool) (w w' : World V σ) : Prop :=
  w.Attentive x → ∃ calls lines, w.Relays x w' calls lines ∧ (spared = true → calls = []) ∧ w'.Tuned

theorem Relayed.trans (h : w.Relayed x spared w') (h' : w'.Relayed x spared w'') :
    w.Relayed x spared w'' := by
  intro hr
  obtain ⟨calls, lines, hrelays, hnone, ht⟩ := h hr
  obtain ⟨calls', lines', hrelays', hnone', ht'⟩ := h' (hrelays.attentive hr ht)
  refine ⟨calls ++ calls', lines ++ lines', hrelays.trans hrelays', fun hs => ?_, ht'⟩
  rw [hnone hs, hnone' hs]
  rfl

/-- Nothing that the attribute store knows of. -/
theorem Reports.relayed (h : w.Reports x w' lines)
    (hs : w'.attributes.store = w.attributes.store)
    (hq : ∀ line ∈ lines, line.concerns x.number = false) (ht : w.Tuned → w'.Tuned) :
    w.Relayed x spared w' :=
  fun hr => ⟨[], lines, h.relays hs hq, fun _ => rfl, ht hr.tuned⟩

theorem relayed_aside (hs : w'.attributes.store = w.attributes.store) (hr : w'.scene = w.scene)
    (hf : (w'.factory? x.number).map Factory.front = (w.factory? x.number).map Factory.front)
    (ht : w.Tuned → w'.Tuned) : w.Relayed x spared w' :=
  (Reports.aside hr hf).relayed hs (List.forall_mem_nil _) ht

theorem relayed_self (x : Relay V σ) (spared : Bool) (w : World V σ) : w.Relayed x spared w :=
  relayed_aside rfl rfl rfl id

theorem Written.tuned {read : σ → List (Line V)} (h : w.Written read w' lines) (ht : w.Tuned) :
    w'.Tuned := by
  obtain ⟨scene, rfl, -⟩ := h
  exact tuned_perennial.rest w.views w.drawn scene id ht

theorem Written.relayed (h : w.Written x.read w' lines)
    (hq : ∀ line ∈ lines, line.concerns x.number = false) : w.Relayed x spared w' := by
  refine (h.reports hq).relayed ?_ hq h.tuned
  obtain ⟨scene, rfl, -⟩ := h
  rfl

theorem Written.relayed_still (h : w.Written x.read w' []) : w.Relayed x spared w' :=
  h.relayed (List.forall_mem_nil _)

theorem Written.attentive {request : Request} {fault : Option SessionError}
    (h : w.Written x.read w' [.asked request fault]) (hr : w.Attentive x) : w'.Attentive x :=
  h.asked.reports.attentive hr (h.tuned hr.tuned)
    (congrArg (·.store.persistent) h.asked.attributes)

/-- A factory changes in what has nothing to do with its callbacks. -/
theorem relayed_change (number : Nat) {change : Factory V → Factory V}
    (hc : ∀ f, (change f).front = f.front) (ht : w.Tuned → (w.changeFactory number change).Tuned) :
    w.Relayed x spared (w.changeFactory number change) := by
  have hnoted : w.Noted x.read (w.changeFactory number change) [] := .change w number hc
  exact hnoted.reports.relayed rfl (List.forall_mem_nil _) ht

theorem relayed_work (number : Nat) (work : Executor AttributeKey → Executor AttributeKey)
    (hx : ∀ {e : Executor AttributeKey} {isOpen}, e.Serves isOpen → (work e).Serves isOpen) :
    w.Relayed x spared (w.changeFactory number fun f => { f with executor := work f.executor }) :=
  relayed_change number (fun _ => rfl) (·.work number hx)

section Calls
variable (he : env.Takes x.marshaller x.read x.number fun told => Relayed x (told || spared))
include he

/-- A call of another store, failed or not. -/
theorem call_relayed {K T : Type} [DecidableEq K] [ShardKey K] {place : Place (World V σ) K T}
    {tell : Place.Tell (World V σ) K T} {request : Request}
    (hq : ∀ fault, (Line.asked request fault : Line V).concerns x.number = false)
    (hset : ∀ (w : World V σ) {store}, (place.get w).store.Advance store →
      w.Relayed x spared (place.set w { place.get w with store }))
    (htell : ∀ hearer event (w : World V σ), w.Relayed x spared (tell hearer event w))
    (call : StoreCall K T) (w : World V σ) :
    w.Relayed x spared (w.guarded env request fun w => place.serve tell w call).2 := by
  have hserve : ∀ w : World V σ, w.Relayed x spared (place.serve tell w call).2 := fun w =>
    place.serve_lasting (I := w.Relayed x spared) (fun w' _ hs h => h.trans (hset w' hs))
      (fun hearer event w' h => h.trans (htell hearer event w')) call (relayed_self x spared w)
  have hbefore := he.before request w
  unfold guarded
  generalize env.before request w = r at hbefore
  obtain ⟨fault, w₁⟩ := r
  have hasked : w.Relayed x spared w₁ := hbefore.relayed (List.forall_mem_singleton.mpr (hq fault))
  cases fault with
  | some fault => exact hasked
  | none => exact hasked.trans ((hserve w₁).trans (he.after request _).relayed_still)

theorem tellNames_relayed (hearer : Subscriber) (event : Event SessionId Names) (w : World V σ) :
    w.Relayed x spared (tellNames env hearer event w) := by
  cases hearer with
  | observer k => exact he.hear k (.names event) w
  | factory k =>
    cases event with
    | prePassivate session names =>
      refine foldl_lasting (I := w.Relayed x spared) (fun w' id h => h.trans ?_) _
        (relayed_self x spared w)
      have hnoted : w'.Noted x.read (schedule k session w' id) [] := schedule_noted k session w' id
      refine hnoted.reports.relayed (congrArg Site.store hnoted.attributes) (List.forall_mem_nil _)
        fun ht => ?_
      exact tuned_perennial.record k _ (tuned_perennial.execute k _ ht)
    | _ => exact relayed_self x spared w

theorem callNames_relayed (w : World V σ) (call : StoreCall SessionId Names) :
    w.Relayed x spared (w.callNames env call).2 :=
  call_relayed he (fun _ => rfl)
    (fun _ _ hs => relayed_aside rfl rfl rfl (tuned_perennial.names hs)) (tellNames_relayed he)
    call w

theorem tellMetadata_relayed (hearer : Subscriber) (event : Event SessionId Metadata)
    (w : World V σ) : w.Relayed x spared (tellMetadata env hearer event w) := by
  cases hearer with
  | observer k => exact he.hear k (.metadata event) w
  | factory k =>
    cases event with
    | postPassivate session => exact callNames_relayed he w (.evict session)
    | _ => exact relayed_self x spared w

theorem callMetadata_relayed (w : World V σ) (call : StoreCall SessionId Metadata) :
    w.Relayed x spared (w.callMetadata env call).2 :=
  call_relayed he (fun _ => rfl)
    (fun _ _ hs => relayed_aside rfl rfl rfl (tuned_perennial.metadata hs))
    (tellMetadata_relayed he) call w

/-- Other factories relay to their own providers, who spare the attribute store. -/
theorem relay_relayed {k : Nat} (hk : k ≠ x.number) (direction : Direction) (key : AttributeKey)
    (bytes : Bytes) (w : World V σ) :
    w.Relayed x true (w.relay env k direction key bytes) := by
  have hdecode := (he.decode bytes w).2
  unfold relay
  generalize env.decode bytes w = r at hdecode
  obtain ⟨answer, w₁⟩ := r
  cases answer with
  | error fault => exact hdecode.relayed_still
  | ok value =>
    have hcounted : ∀ w' : World V σ,
        w'.Relayed x true (w'.record k (.activationNotified direction)) := by
      intro w'
      refine relayed_aside rfl rfl ?_ (tuned_perennial.record k _)
      rw [World.record, factory?_changeFactory, if_neg hk]
    exact hdecode.relayed_still.trans ((he.others _ w₁ hk).trans (hcounted _))

theorem relay_tuned (ht : w.Tuned) (direction : Direction) (key : AttributeKey) (bytes : Bytes) :
    (w.relay env x.number direction key bytes).Tuned := by
  have hdecode := (he.decode bytes w).2
  unfold relay
  generalize env.decode bytes w = r at hdecode
  obtain ⟨answer, w₁⟩ := r
  cases answer with
  | error fault => exact hdecode.tuned ht
  | ok value => exact tuned_perennial.record _ _ ((he.own _ w₁ rfl).tuned (hdecode.tuned ht))

/-- While events of the attribute store are announced, only the factory adds lines that concern
it. -/
theorem attributesPlace_attends :
    (attributesPlace : Place (World V σ) AttributeKey Bytes).Attends (tellAttributes env)
      (Attentive x)
      (fun w w' l => ∃ lines, w.Reports x w' lines ∧ lines.filter (Line.concerns x.number) = l)
      (fun hearer event => if hearer = .factory x.number then
        attributesEcho x.marshaller (fun _ => x.context) (.factory x.number) event else [])
      (attributesEcho x.marshaller (fun _ => x.context) (.factory x.number)) where
  refl w := ⟨[], .aside rfl rfl, rfl⟩
  trans := by
    rintro w w' w'' l l' ⟨lines, h, rfl⟩ ⟨lines', h', rfl⟩
    exact ⟨_, h.trans h', List.filter_append ..⟩
  lawful _ _ := rfl
  put {w store} hs hr :=
    ⟨⟨tuned_perennial.attributes hs hr.tuned, hs.persistent.trans hr.reports, hr.enlisted,
      hr.front⟩, [], .aside rfl rfl, rfl⟩
  tell hearer event {w} hr := by
    have hothers : ∀ {w'}, w.Relayed x true w' → attributesPlace.Leads (Attentive x)
        (fun w w' l => ∃ lines, w.Reports x w' lines ∧
          lines.filter (Line.concerns x.number) = l) w w' [] w.attributes.store := by
      intro w' h
      obtain ⟨calls, lines, hrelays, hnone, ht⟩ := h hr
      obtain rfl := hnone rfl
      exact ⟨hrelays.attentive hr ht, ⟨lines, hrelays.toReports, hrelays.told⟩, hrelays.store⟩
    cases hearer with
    | observer k => exact hothers (he.hear k (.attributes event) w)
    | factory k =>
      by_cases hk : k = x.number
      · subst hk
        rw [if_pos rfl]
        have hown : ∀ direction key bytes, attributesPlace.Leads (Attentive x)
            (fun w w' l => ∃ lines, w.Reports x w' lines ∧
              lines.filter (Line.concerns x.number) = l) w
            (w.relay env x.number direction key bytes)
            (relayLines x.marshaller x.context x.number direction key bytes)
            w.attributes.store := by
          intro direction key bytes
          have hnoted := relay_noted he.toBooks he.own direction key bytes w
          rw [hr.context] at hnoted
          have hstore := congrArg Site.store hnoted.attributes
          exact ⟨hnoted.reports.attentive hr (relay_tuned he hr.tuned direction key bytes)
            (congrArg Store.persistent hstore), ⟨_, hnoted.reports, concerns_relayLines ..⟩, hstore⟩
        cases event with
        | prePassivate key bytes => exact hown .passivate key bytes
        | postActivate key bytes => exact hown .activate key bytes
        | _ => exact hothers (relayed_self x true w)
      · rw [if_neg fun h => hk (Subscriber.factory.inj h)]
        cases event with
        | prePassivate key bytes => exact hothers (relay_relayed he hk .passivate key bytes w)
        | postActivate key bytes => exact hothers (relay_relayed he hk .activate key bytes w)
        | _ => exact hothers (relayed_self x true w)
  all {w} hr event := by
    obtain ⟨id, hid⟩ := hr.enlisted
    exact (hr.tuned.regular.listed .attributes).once (hr.enrolled.trans hid) _

end Calls

/-- A call that reaches the attribute store is settled and relayed. -/
theorem serve_relays
    (he : env.Takes x.marshaller x.read x.number fun told => Relayed x (told || false))
    (hr : w.Attentive x) (call : StoreCall AttributeKey Bytes) :
    let served := (attributesPlace.serve (tellAttributes env) w call).2
    ∃ lines, w.Reports x served lines ∧ lines.filter (Line.concerns x.number) =
        crossings x.marshaller x.context x.number w.attributes.store call.parts ∧
      served.attributes.store = w.attributes.store.after call.parts ∧ served.Tuned := by
  obtain ⟨options, hkept⟩ := hr.tuned.kept
  have hserved := (attributesPlace_attends he).serve hr call
  obtain ⟨lines, hlines, htold⟩ := hserved.made
  exact ⟨lines, hlines, htold.trans (relayed_crossings hkept hr.reports call.parts_single),
    hserved.store, hserved.holds.tuned⟩

/-- A call of the attribute store that fails comes to nothing; any other one is relayed. -/
theorem callAttributes_relayed
    (he : env.Takes x.marshaller x.read x.number fun told => Relayed x (told || false))
    (w : World V σ) (call : StoreCall AttributeKey Bytes) :
    w.Relayed x false (w.callAttributes env call).2 := by
  intro hr
  have hbefore := he.before (.attributes call) w
  unfold callAttributes guarded
  generalize env.before (.attributes call) w = r at hbefore
  obtain ⟨fault, w₁⟩ := r
  cases fault with
  | some fault => exact hbefore.relayed (List.forall_mem_singleton.mpr rfl) hr
  | none =>
    have hasked : w.Noted x.read w₁ [.asked (.attributes call) none] := hbefore.asked
    obtain ⟨lines, hlines, hcrossed, hstore, ht⟩ := serve_relays he (hbefore.attentive hr) call
    have hafter := he.after (.attributes call)
      (attributesPlace.serve (tellAttributes env) w₁ call).2
    have hall := hasked.reports.trans (hlines.trans hafter.still.reports)
    rw [hasked.attributes] at hcrossed hstore
    refine ⟨[call], _, ⟨hall, ?_, ?_⟩, nofun, hafter.tuned ht⟩
    · rw [List.flatMap_singleton]
      exact (congrArg Site.store hafter.still.attributes).trans hstore
    · rw [List.append_nil, List.singleton_append, List.filter_cons_of_pos rfl, hcrossed, chronicle,
        chronicle, List.append_nil]

theorem callAttributes_relayed_answer
    (he : env.Takes x.marshaller x.read x.number fun told => Relayed x (told || false))
    (hr : w.Attentive x) {call : StoreCall AttributeKey Bytes}
    (hb : (env.before (.attributes call) w).1 = none) :
    (w.callAttributes env call).1 = .ok (call.onMap w.attributes.store.find?).1 := by
  have hbefore := he.before (.attributes call) w
  unfold callAttributes guarded
  generalize env.before (.attributes call) w = r at hb hbefore
  obtain ⟨fault, w₁⟩ := r
  obtain rfl : fault = none := hb
  have hr₁ : w₁.Attentive x := hbefore.attentive hr
  have hstore : w₁.attributes.store = w.attributes.store :=
    congrArg Site.store hbefore.asked.attributes
  obtain ⟨options, hkept⟩ := hr₁.tuned.kept
  rw [← hstore]
  exact congrArg Except.ok ((attributesPlace_attends he).serve_answer hr₁ hkept.sound call)

section Happening
variable (he : env.Takes x.marshaller x.read x.number fun told => Relayed x (told || spared))
include he

theorem act_relayed {actor : Actor} {action : Action V}
    (hr : (Happening.act actor action).Routine x.number)
    (hs : spared = true → (Happening.act actor action).callsAttributes = false) (w : World V σ) :
    w.Relayed x spared (w.perform env actor action).2 := by
  obtain ⟨factory, view⟩ := actor
  have hviews : ∀ (k : Nat) {change : LiveView V → LiveView V},
      (∀ live, (change live).notifier = live.notifier) →
      w.Relayed x spared (w.changeView k change) := fun k {change} hc =>
    relayed_aside rfl rfl rfl (tuned_perennial.rest _ _ _
      (·.changeView k fun live hn => (hc live).trans hn))
  cases action with
  | isOpen => exact relayed_self x spared w
  | draw => exact relayed_aside rfl rfl rfl (tuned_perennial.rest _ (w.drawn + 1) _ id)
  | encode value => exact (he.encode value w).2.relayed_still
  | decode bytes => exact (he.decode bytes w).2.relayed_still
  | names call => exact callNames_relayed he w call
  | attributes call =>
    cases spared with
    | false => exact callAttributes_relayed he w call
    | true => cases hs rfl
  | lock =>
    cases view with
    | none => exact relayed_self x spared w
    | some k => exact hviews k fun _ => rfl
  | unlock state =>
    cases view with
    | none => exact relayed_self x spared w
    | some k => exact hviews k fun _ => rfl
  | record measure =>
    have hm : ∀ direction, measure ≠ .activationNotified direction := by
      rintro direction rfl
      exact hr.2 _ direction rfl
    have hnoted : w.Noted x.read (w.record factory measure) [] := .record w factory hm
    exact hnoted.reports.relayed rfl (List.forall_mem_nil _)
      (tuned_perennial.record factory measure)
  | notify direction value =>
    cases view with
    | none => exact relayed_self x spared w
    | some k =>
      intro hattentive
      have hquiet : (w.perform env ⟨factory, some k⟩ (.notify direction value)).2 = w := by
        change w.notifyView env k direction value = w
        unfold notifyView
        split
        · rfl
        · rename_i live hlive
          rw [hattentive.tuned.mute hattentive.reports live (List.mem_of_getElem? hlive)]
      rw [hquiet]
      exact relayed_self x spared w hattentive

theorem work_relayed (k : Nat) {step : WorkerStep}
    (hs : spared = true → (Happening.work k step : Happening V).callsAttributes = false)
    (w : World V σ) : w.Relayed x spared (w.workerStep env k step) := by
  cases step with
  | receive =>
    rw [receive_eq]
    exact relayed_work k _ fun hx => hx.received
  | finish position =>
    cases spared with
    | true => cases hs rfl
    | false =>
      cases hf : (w.factory? k).bind fun f => f.executor.running[position]? with
      | none =>
        rw [finish_nothing hf]
        exact relayed_self x false w
      | some key =>
        rw [finish_task hf]
        exact (callAttributes_relayed he w (.evict key)).trans
          (relayed_work k (·.finish position) fun hx => hx.finish position)

omit he in
/-- A factory that is opened is another one. -/
theorem openFactory_relayed (options : FactoryOptions) (immutability : Immutability V)
    (context : String) (counts : Bool) (w : World V σ) :
    w.Relayed x spared (w.opened (w.openFactory options immutability context counts)) := by
  intro hr
  obtain ⟨notified, hfront⟩ := hr.front
  have hne : x.number ≠ w.factories.length := by
    intro hnumber
    have hnone : w.factory? x.number = none := List.getElem?_eq_none hnumber.ge
    rw [hnone] at hfront
    cases hfront
  have ht := tuned_perennial.openFactory options immutability context counts hr.tuned
  rcases opened_enters w options immutability context counts with he | ⟨f, -, -, -, he⟩
  · rw [he]
    exact relayed_self x spared w hr
  · rw [he] at ht ⊢
    refine relayed_aside ?_ rfl ?_ (fun _ => ht) hr
    · unfold enter
      dsimp only
      split <;> rfl
    · rw [enter_factory?, if_neg hne]

omit he in
theorem stop_relayed {k : Nat} (hne : k ≠ x.number) (w : World V σ) :
    w.Relayed x spared (w.stop k) := by
  rcases stop_still w k with hsame | ⟨f, hf, ho⟩
  · rw [hsame]
    exact relayed_self x spared w
  · refine relayed_aside (stop_stores hf ho).2.2 ?_ ?_ (·.stop k)
    · rw [stop_eq hf ho]
      rfl
    · rw [stop_factory? hf ho, if_neg hne]

omit he in
theorem openView_relayed (k : Nat) (session : SessionId) (bundle : Bundle V) (metadata : Metadata)
    (context : String) (w : World V σ) :
    w.Relayed x spared (w.opened (w.openView k session bundle metadata context)) := by
  have hviews : ∃ views, w.opened (w.openView k session bundle metadata context) =
      { w with views } := by
    unfold openView
    split
    · exact ⟨w.views, rfl⟩
    · split
      · exact ⟨w.views, rfl⟩
      · exact ⟨_, rfl⟩
  have ht := tuned_perennial.openView (w := w) k session bundle metadata context
  obtain ⟨views, hw⟩ := hviews
  rw [hw] at ht ⊢
  exact relayed_aside rfl rfl rfl ht

/-- Whatever happens while the factory is open, it relays what crosses between the tiers. -/
theorem happen_relayed {happening : Happening V} (hr : happening.Routine x.number)
    (hs : spared = true → happening.callsAttributes = false) (w : World V σ) :
    w.Relayed x spared (w.happen env happening) := by
  cases happening with
  | metadata call => exact callMetadata_relayed he w call
  | act actor action => exact act_relayed he hr hs w
  | work k step => exact work_relayed he k hs w
  | openFactory options immutability context counts => exact openFactory_relayed _ _ _ _ w
  | stop k =>
    refine stop_relayed ?_ w
    rintro rfl
    exact hr.1 rfl
  | join k => exact relayed_work k _ fun hx => hx.join
  | openView k session bundle metadata context => exact openView_relayed _ _ _ _ _ w
  | closeView k =>
    exact relayed_aside rfl rfl rfl (tuned_perennial.rest _ _ _
      (·.changeView k fun live hn => by rw [hn]; rfl))
  | observe shelf k =>
    refine relayed_aside ?_ ?_ ?_ (tuned_perennial.observe shelf k) <;> cases shelf <;> rfl
  | unobserve shelf id =>
    refine relayed_aside ?_ ?_ ?_ (tuned_perennial.unobserve shelf id) <;> cases shelf <;> rfl

end Happening

/-- By induction on what has happened in a callback: those who were told of it let the factory relay
what crossed between the tiers, so it did. -/
theorem Alternates.relayed (h : w.Alternates x.marshaller x.read x.number spared w') :
    w.Relayed x spared w' := by
  induction h with
  | note h hq => exact h.relayed hq
  | trans _ _ ih ih' => exact ih.trans ih'
  | happen books own _ _ w hr hs others hear =>
    exact happen_relayed ⟨books, own, others, hear⟩ hr hs w

/-- A run of what may happen while the factory is open. -/
theorem run_relayed (he : env.TakesTurns x.marshaller x.read x.number)
    {happenings : List (Happening V)} (hr : ∀ happening ∈ happenings, happening.Routine x.number)
    (w : World V σ) : w.Relayed x false (happenings.foldl (happen env) w) := by
  have hrelays : env.Takes x.marshaller x.read x.number fun told => Relayed x (told || false) :=
    he.mono fun h => (Bool.or_false _).symm ▸ h.relayed
  induction happenings generalizing w with
  | nil => exact relayed_self x false w
  | cons happening happenings ih =>
    obtain ⟨hfirst, hrest⟩ := List.forall_mem_cons.mp hr
    exact (happen_relayed hrelays hfirst nofun w).trans (ih hrest _)

section Opening
variable {m : Marshaller V} {read : σ → List (Line V)} {number : Nat}

/-- A factory that was just opened listens and has counted nothing. -/
theorem openFactory_front {options : FactoryOptions} {immutability : Immutability V}
    {context : String} {counts : Bool} (hp : w.attributes.store.persistent = false)
    (ho : w.openFactory options immutability context counts = .ok (number, w')) :
    ∃ s : Subscriptions, (∃ id, s.at? .attributes = some id) ∧
      w'.attributes.store = w.attributes.store ∧
      (w'.factory? number).map Factory.front =
        some ⟨true, context, s, if counts then some fun _ => 0 else none⟩ := by
  obtain ⟨rfl, -, -, f, hentered, hcontext, hmetrics, hlistens⟩ := openFactory_shape ho
  obtain ⟨hattributes, hid⟩ := hlistens hp
  have hf : w'.factory? w.factories.length = some f := (hentered.factory? _).trans (if_pos rfl)
  refine ⟨f.subscriptions, ⟨_, congrArg (Option.map Registration.id) hid⟩, ?_, ?_⟩
  · rw [hattributes]
  · rw [hf, Option.map_some, Factory.front, hentered.isOpen, hcontext, hmetrics]
    have hnone : Metrics.notified {} = fun _ => 0 := by
      funext direction
      cases direction <;> rfl
    cases counts
    · rfl
    · simp [hnone]

/-- Over an attribute store that is not persistent an open factory relays exactly what crosses
between the tiers, if the calls of that store take turns. Whatever happens from its opening on, and
whichever calls fail, its provider is called with the value of each entry that leaves primary memory
for the other tier, and of each entry that a read brings back, in that order, if the bytes of the
entry decode; it is called for nothing else, and each callback is counted. No bytes make a call of
the store fail. -/
theorem relay_exact (he : env.TakesTurns m read number) (hw : w.Lived)
    (hp : w.attributes.store.persistent = false) {options : FactoryOptions}
    {immutability : Immutability V} {context : String} {counts : Bool}
    (ho : w.openFactory options immutability context counts = .ok (number, w'))
    {happenings : List (Happening V)}
    (hr : ∀ happening ∈ happenings, happening.Routine number) :
    let w'' := happenings.foldl (happen env) w'
    (∃ calls lines, read w''.scene = read w'.scene ++ lines ∧
      w''.attributes.store = w'.attributes.store.after (calls.flatMap StoreCall.parts) ∧
      lines.filter (Line.concerns number) =
        chronicle m context number w'.attributes.store calls ∧
      (w''.factory? number).map (fun f => f.metrics.map Metrics.notified) =
        some (if counts then some fun direction => lines.countP (Line.tells number direction)
          else none)) ∧
    ∀ call, (env.before (.attributes call) w'').1 = none →
      (w''.callAttributes env call).1 = .ok (call.onMap w''.attributes.store.find?).1 := by
  intro w''
  obtain ⟨s, hid, hstore, hfront⟩ := openFactory_front hp ho
  let x : Relay V σ := ⟨m, read, number, context, s⟩
  have hopened : w'.Tuned := by
    have h := tuned_perennial.openFactory options immutability context counts hw.tuned
    rwa [ho] at h
  have hattentive : w'.Attentive x :=
    ⟨hopened, (congrArg Store.persistent hstore).trans hp, hid, _, hfront⟩
  obtain ⟨calls, lines, h, -, ht⟩ := run_relayed (x := x) he hr w' hattentive
  refine ⟨⟨calls, lines, h.read, h.store, h.told, ?_⟩, fun call hb => ?_⟩
  · have hcounted := congrArg (Option.map Factory.Front.notified) h.front
    change Option.map _ (Option.map Factory.front (w''.factory? number)) = Option.map _
      (Option.map _ (Option.map Factory.front (w'.factory? number))) at hcounted
    rw [hfront, Option.map_map] at hcounted
    refine hcounted.trans ?_
    cases counts <;> simp [Factory.Front.after, x]
  · have hrelays : env.Takes x.marshaller x.read x.number fun told => Relayed x (told || false) :=
      he.mono fun h => (Bool.or_false _).symm ▸ Alternates.relayed (x := x) h
    exact callAttributes_relayed_answer hrelays (h.attentive hattentive ht) hb

end Opening

/-- Of all bytes only one string decodes. -/
def terse : Marshaller Unit :=
  ⟨fun _ => .ok [], fun bytes => if bytes = [] then .ok () else .error .factoryClosed⟩

/-- Whoever hears of metadata evicts an entry of the attribute store, and whoever hears of
attributes reads names. -/
def courteous : Surroundings Unit (List (Line Unit)) :=
  { Surroundings.journaling terse AttributeId.ofNat with
    hear _ heard w :=
      match heard with
      | .metadata _ =>
        (w.callAttributes (.journaling terse AttributeId.ofNat) (.evict ⟨"s", .ofNat 1⟩)).2
      | .attributes _ => (w.callNames (.journaling terse AttributeId.ofNat) (.get "s")).2
      | .names _ => w }

theorem courteous_takesTurns : courteous.TakesTurns terse id 0 := by
  have hj := Surroundings.journaling_journals terse AttributeId.ofNat
  have h := hj.takesTurns 0
  have hact : ∀ (spared : Bool) (w : World Unit (List (Line Unit))) (action : Action Unit),
      (Happening.act ⟨0, none⟩ action).Routine 0 →
      (spared = true → (Happening.act ⟨0, none⟩ action).callsAttributes = false) →
      Alternates terse id 0 spared w
        (w.happen (.journaling terse AttributeId.ofNat) (.act ⟨0, none⟩ action)) :=
    fun spared w action hr hs => .happen h.toBooks h.own h.others
      (fun k heard w => .note (hj.hear k heard w) (List.forall_mem_singleton.mpr rfl)) w hr hs
  refine ⟨⟨h.before, h.after, h.encode, h.decode⟩, h.own, h.others, fun k heard w => ?_⟩
  cases heard with
  | metadata event => exact hact false w (.attributes (.evict _)) ⟨nofun, nofun⟩ nofun
  | names event => exact .note ⟨w.scene, rfl, (List.append_nil _).symm⟩ (List.forall_mem_nil _)
  | attributes event => exact hact true w (.names (.get "s")) ⟨nofun, nofun⟩ fun _ => rfl

/-- Two entries leave primary memory and come back, one of which does not decode. The other one
leaves it when metadata are stored. -/
def errands : List (Happening Unit) :=
  let ask (call : StoreCall AttributeKey Bytes) : Happening Unit :=
    .act ⟨0, none⟩ (.attributes call)
  [.observe .metadata 7, .observe .attributes 8, ask (.put ⟨"s", .ofNat 1⟩ [] .normal),
    ask (.put ⟨"s", .ofNat 2⟩ [7] .normal), .metadata (.put "s" ⟨0, 0, 1⟩ .normal),
    ask (.evict ⟨"s", .ofNat 2⟩), ask (.getAll [⟨"s", .ofNat 1⟩, ⟨"s", .ofNat 2⟩])]

/-- Both entries cross twice, and the provider is told of the one that decodes. -/
theorem relay_exact_corrupt :
    ∃ w' : World Unit (List (Line Unit)),
      (blank false [] : World Unit (List (Line Unit))).openFactory { workers := 1 }
        Immutability.never "c" true = .ok (0, w') ∧
      (errands.foldl (happen courteous) w').attributes.store.activations = 2 ∧
      ∃ calls lines,
        (errands.foldl (happen courteous) w').scene = w'.scene ++ lines ∧
        lines.filter (Line.concerns 0) = chronicle terse "c" 0 w'.attributes.store calls ∧
        lines.countP (Line.tells 0 .passivate) = 1 ∧ lines.countP (Line.tells 0 .activate) = 1 := by
  have hroutine : ∀ happening ∈ errands, happening.Routine 0 := by
    intro happening hm
    simp only [errands, List.mem_cons, List.not_mem_nil, or_false] at hm
    rcases hm with rfl | rfl | rfl | rfl | rfl | rfl | rfl <;> exact ⟨nofun, nofun⟩
  obtain ⟨w', ho⟩ : ∃ w', (blank false [] : World Unit (List (Line Unit))).openFactory
      { workers := 1 } Immutability.never "c" true = .ok (0, w') := ⟨_, rfl⟩
  obtain ⟨⟨calls, lines, hread, -, htold, -⟩, -⟩ :=
    relay_exact courteous_takesTurns (blank_reached false []).lived rfl ho hroutine
  have hlines : (errands.foldl (happen courteous) w').scene = lines := by
    obtain rfl := (Prod.mk.inj (Except.ok.inj ho)).2
    exact hread
  refine ⟨w', ho, ?_, calls, lines, hread, htold, ?_, ?_⟩
  · obtain rfl := (Prod.mk.inj (Except.ok.inj ho)).2
    decide +kernel
  · rw [← hlines]
    obtain rfl := (Prod.mk.inj (Except.ok.inj ho)).2
    decide +kernel
  · rw [← hlines]
    obtain rfl := (Prod.mk.inj (Except.ok.inj ho)).2
    decide +kernel

/-- An observer of the attribute store reads each entry again that is about to be passivated. -/
def recalling : Surroundings Unit (List (Line Unit)) :=
  { Surroundings.journaling terse AttributeId.ofNat with
    hear _ heard w :=
      match heard with
      | .attributes (.prePassivate key _) =>
        (w.callAttributes (.journaling terse AttributeId.ofNat) (.get key)).2
      | _ => w }

/-- An entry in primary memory, an observer of its store and a factory that listens after him. -/
def observed : World Unit (List (Line Unit)) :=
  let happenings : List (Happening Unit) := [
    .observe .attributes 7,
    .openFactory { workers := 1 } Immutability.never "c" true,
    .act ⟨0, none⟩ (.attributes (.put ⟨"s", .ofNat 1⟩ [] .silent))]
  happenings.foldl (happen (.journaling terse AttributeId.ofNat)) (blank false [])

/-- The provider keeps to itself, and an entry leaves primary memory before it comes back; but the
provider is told that it comes back before it is told that it leaves. -/
theorem relay_overtaken :
    (∀ callback w, recalling.callback callback w =
      { w with scene := w.scene ++ [.called callback] }) ∧
    observed.Reached ∧ observed.attributes.store.persistent = false ∧
    (observed.subscriptions? 0).isSome = true ∧
    let w := (observed.callAttributes recalling (.evict ⟨"s", .ofNat 1⟩)).2
    let calls : List (StoreCall AttributeKey Bytes) :=
      [.evict ⟨"s", .ofNat 1⟩, .get ⟨"s", .ofNat 1⟩]
    let directions (lines : List (Line Unit)) : List Direction := lines.filterMap fun line =>
      match line with
      | .called callback => some callback.direction
      | _ => none
    w.attributes.store = observed.attributes.store.after calls ∧
      directions (chronicle terse "c" 0 observed.attributes.store calls) =
        [.passivate, .activate] ∧
      directions (w.scene.drop observed.scene.length) = [.activate, .passivate] := by
  refine ⟨fun _ _ => rfl, ?_, by decide +kernel, by decide +kernel, ?_, ?_, ?_⟩
  · exact (blank_reached false []).all (Surroundings.journaling_journals _ _).aloof _
  · rfl
  · decide +kernel
  · decide +kernel

end World
end SessionAttributes
