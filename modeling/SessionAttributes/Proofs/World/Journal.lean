import SessionAttributes.Proofs.Procedure
import SessionAttributes.Proofs.World.Wiring

namespace SessionAttributes

variable {V σ : Type}

inductive Line (V : Type) where
  /-- A call is about to reach its store, unless it fails. -/
  | asked (request : Request) (fault : Option SessionError)
  | heard (number : Nat) (heard : Heard)
  | called (callback : Callback V)

namespace Line

/-- Whether a line is about something that an observer or a provider was told. -/
def isNews : Line V → Bool
  | .asked _ _ => false
  | _ => true

/-- Whether a line is a callback of a factory in a direction. -/
def tells (number : Nat) (direction : Direction) : Line V → Bool
  | .called callback => callback.factory = number ∧ callback.direction = direction
  | _ => false

end Line

def Metrics.notified (m : Metrics) : Direction → Nat
  | .passivate => m.passivationNotifications
  | .activate => m.activationNotifications

theorem Metrics.notified_record (m : Metrics) (measure : Measure) (direction : Direction) :
    (m.record measure).notified direction =
      m.notified direction + if measure = .activationNotified direction then 1 else 0 := by
  cases measure with
  | activationNotified d => cases d <;> cases direction <;> simp [record, notified]
  | sessionDeleted silent => cases silent <;> cases direction <;> simp [record, notified]
  | _ => cases direction <;> simp [record, notified]

/-- A counter that has nothing to do with callbacks. -/
theorem Metrics.notified_record_other (m : Metrics) {measure : Measure}
    (hm : ∀ direction, measure ≠ .activationNotified direction) :
    (m.record measure).notified = m.notified := by
  funext direction
  rw [Metrics.notified_record, if_neg (hm direction), Nat.add_zero]

structure Factory.Front where
  isOpen : Bool
  context : String
  subscriptions : Subscriptions
  notified : Option (Direction → Nat)

namespace Factory

def front (f : Factory V) : Front :=
  ⟨f.isOpen, f.context, f.subscriptions, f.metrics.map Metrics.notified⟩

def Front.after (number : Nat) (lines : List (Line V)) (f : Front) : Front :=
  let calls direction := lines.countP (Line.tells number direction)
  { f with notified := f.notified.map fun n direction => n direction + calls direction }

theorem Front.after_append (number : Nat) (lines lines' : List (Line V)) (f : Front) :
    f.after number (lines ++ lines') = (f.after number lines).after number lines' := by
  simp [Front.after, Option.map_map, Function.comp_def, List.countP_append, Nat.add_assoc]

/-- Lines that are no callbacks of a factory do not count for it. -/
theorem Front.after_quiet {number : Nat} {lines : List (Line V)}
    (h : ∀ line ∈ lines, ∀ direction, line.tells number direction = false) :
    Front.after number lines = id := by
  have hzero : ∀ direction, lines.countP (Line.tells number direction) = 0 := fun direction =>
    List.countP_eq_zero.mpr fun line hm => by rw [h line hm direction]; exact Bool.false_ne_true
  funext f
  cases f with
  | mk isOpen context subscriptions notified => cases notified <;> simp [Front.after, hzero]

theorem Front.after_nil (number : Nat) : Front.after number ([] : List (Line V)) = id :=
  after_quiet (List.forall_mem_nil _)

end Factory

namespace World

/-- Nothing has happened but that lines were written down. -/
def Written (read : σ → List (Line V)) (w w' : World V σ) (lines : List (Line V)) : Prop :=
  ∃ scene, w' = { w with scene } ∧ read scene = read w.scene ++ lines

def context (w : World V σ) (number : Nat) : String :=
  ((w.factory? number).map Factory.context).getD ""

end World

/-- Surroundings that write down every call that they are asked about, and that turn values into
bytes and back as a marshaller does. Calls may fail in them. -/
structure Surroundings.Books (env : Surroundings V σ) (m : Marshaller V)
    (read : σ → List (Line V)) : Prop where
  before : ∀ request (w : World V σ),
    w.Written read (env.before request w).2 [.asked request (env.before request w).1]
  after : ∀ request (w : World V σ), w.Written read (env.after request w) []
  encode : ∀ value (w : World V σ),
    (env.encode value w).1 = m.write value ∧ w.Written read (env.encode value w).2 []
  decode : ∀ bytes (w : World V σ),
    (env.decode bytes w).1 = m.read bytes ∧ w.Written read (env.decode bytes w).2 []

structure Surroundings.Journals (env : Surroundings V σ) (m : Marshaller V)
    (read : σ → List (Line V)) : Prop extends env.Books m read where
  hear : ∀ number heard (w : World V σ),
    w.Written read (env.hear number heard w) [.heard number heard]
  callback : ∀ callback (w : World V σ),
    w.Written read (env.callback callback w) [.called callback]

/-- Nothing fails, nobody calls back, and everything is written down. -/
def Surroundings.journaling (m : Marshaller V) (draw : Nat → AttributeId) :
    Surroundings V (List (Line V)) where
  before request w := (none, { w with scene := w.scene ++ [.asked request none] })
  after _ w := w
  encode value w := (m.write value, w)
  decode bytes w := (m.read bytes, w)
  draw := draw
  hear number heard w := { w with scene := w.scene ++ [.heard number heard] }
  callback callback w := { w with scene := w.scene ++ [.called callback] }

theorem Surroundings.journaling_journals (m : Marshaller V) (draw : Nat → AttributeId) :
    (Surroundings.journaling m draw).Journals m id where
  before _ _ := ⟨_, rfl, rfl⟩
  after _ w := ⟨w.scene, rfl, (List.append_nil _).symm⟩
  encode _ w := ⟨rfl, w.scene, rfl, (List.append_nil _).symm⟩
  decode _ w := ⟨rfl, w.scene, rfl, (List.append_nil _).symm⟩
  hear _ _ _ := ⟨_, rfl, rfl⟩
  callback _ _ := ⟨_, rfl, rfl⟩

theorem Surroundings.journaling_reliable (m : Marshaller V) (draw : Nat → AttributeId) :
    (Surroundings.journaling m draw).Reliable := fun _ _ => rfl

theorem World.Written.scene {read : σ → List (Line V)} {w w' : World V σ} {lines : List (Line V)}
    (h : w.Written read w' lines) : ∃ scene, w' = { w with scene } := by
  obtain ⟨scene, hw, -⟩ := h
  exact ⟨scene, hw⟩

theorem Surroundings.Journals.aloof {env : Surroundings V σ} {m : Marshaller V}
    {read : σ → List (Line V)} (h : env.Journals m read) : env.Aloof :=
  ⟨fun request w => (h.before request w).scene, fun request w => (h.after request w).scene,
    fun value w => (h.encode value w).2.scene, fun bytes w => (h.decode bytes w).2.scene,
    fun number heard w => (h.hear number heard w).scene,
    fun callback w => (h.callback callback w).scene⟩

namespace World

variable {env : Surroundings V σ} {m : Marshaller V} {read : σ → List (Line V)}
  {w w' w'' : World V σ} {lines lines' : List (Line V)}

/-- Nothing has happened but that lines were written down and callbacks among them were counted, and
that workers were handed something to do. -/
structure Noted (read : σ → List (Line V)) (w w' : World V σ) (lines : List (Line V)) : Prop where
  metadata : w'.metadata = w.metadata
  names : w'.names = w.names
  attributes : w'.attributes = w.attributes
  views : w'.views = w.views
  drawn : w'.drawn = w.drawn
  front : ∀ number, (w'.factory? number).map Factory.front =
    ((w.factory? number).map Factory.front).map (·.after number lines)
  read : read w'.scene = read w.scene ++ lines

theorem Noted.refl (w : World V σ) : w.Noted read w [] :=
  ⟨rfl, rfl, rfl, rfl, rfl, fun number => by rw [Factory.Front.after_nil, Option.map_id_fun, id],
    (List.append_nil _).symm⟩

theorem Noted.trans (h : w.Noted read w' lines) (h' : w'.Noted read w'' lines') :
    w.Noted read w'' (lines ++ lines') := by
  refine ⟨h'.metadata.trans h.metadata, h'.names.trans h.names, h'.attributes.trans h.attributes,
    h'.views.trans h.views, h'.drawn.trans h.drawn, fun number => ?_, ?_⟩
  · rw [h'.front, h.front, Option.map_map]
    exact congrArg (Option.map · _) (funext fun f => (f.after_append number lines lines').symm)
  · rw [h'.read, h.read, List.append_assoc]

/-- Whatever was written down, a factory is open and known to its provider as before. -/
theorem Noted.context (h : w.Noted read w' lines) : w'.context = w.context := by
  have hread : ∀ (w : World V σ) number, w.context number =
      (((w.factory? number).map Factory.front).map Factory.Front.context).getD "" := by
    intro w number
    rw [World.context, Option.map_map]
    rfl
  funext number
  rw [hread, hread, h.front, Option.map_map]
  rfl

/-- Lines that are no callbacks are all that was written down. -/
theorem Written.noted (h : w.Written read w' lines)
    (hq : ∀ line ∈ lines, ∀ number direction, line.tells number direction = false) :
    w.Noted read w' lines := by
  obtain ⟨scene, rfl, hread⟩ := h
  refine ⟨rfl, rfl, rfl, rfl, rfl, fun number => ?_, hread⟩
  rw [Factory.Front.after_quiet fun line hm => hq line hm number, Option.map_id_fun]
  rfl

theorem Written.asked {request : Request} {fault : Option SessionError}
    (h : w.Written read w' [.asked request fault]) : w.Noted read w' [.asked request fault] :=
  h.noted fun line hm _ _ => by rw [List.mem_singleton.mp hm]; rfl

theorem Written.heard {number : Nat} {heard : Heard}
    (h : w.Written read w' [.heard number heard]) : w.Noted read w' [.heard number heard] :=
  h.noted fun line hm _ _ => by rw [List.mem_singleton.mp hm]; rfl

theorem Written.still (h : w.Written read w' []) : w.Noted read w' [] :=
  h.noted fun _ hm => absurd hm List.not_mem_nil

/-- A factory changes in what has nothing to do with its callbacks. -/
theorem Noted.change (w : World V σ) (number : Nat) {change : Factory V → Factory V}
    (hc : ∀ f, (change f).front = f.front) : w.Noted read (w.changeFactory number change) [] := by
  refine ⟨rfl, rfl, rfl, rfl, rfl, fun k => ?_, (List.append_nil _).symm⟩
  rw [factory?_changeFactory]
  rw [Factory.Front.after_nil, Option.map_id_fun, id]
  split
  · rw [Option.map_map]
    exact congrArg (Option.map · _) (funext hc)
  · rfl

theorem Noted.record (w : World V σ) (number : Nat) {measure : Measure}
    (hm : ∀ direction, measure ≠ .activationNotified direction) :
    w.Noted read (w.record number measure) [] := by
  refine .change w number fun f => ?_
  simp [Factory.front, Option.map_map, Function.comp_def, Metrics.notified_record_other _ hm]

/-- A callback is written down and counted. -/
theorem raise_noted {callback : Callback V}
    (h : w.Written read (env.callback callback w) [.called callback]) :
    w.Noted read (w.raise env callback) [.called callback] := by
  obtain ⟨scene, hw, hread⟩ := h
  unfold raise
  rw [hw]
  refine ⟨rfl, rfl, rfl, rfl, rfl, fun number => ?_, hread⟩
  rw [World.record, factory?_changeFactory]
  by_cases hk : callback.factory = number
  · subst hk
    have hcount : ∀ direction,
        [Line.called callback].countP (Line.tells callback.factory direction) =
        if Measure.activationNotified callback.direction = .activationNotified direction then 1
        else 0 := by
      intro direction
      rw [List.countP_singleton]
      simp [Line.tells]
    rw [if_pos rfl, Option.map_map, Option.map_map]
    refine congrArg (Option.map · _) (funext fun f => ?_)
    simp only [Function.comp_def, Factory.front, Factory.Front.after, Option.map_map, hcount,
      ← Metrics.notified_record]
  · have hquiet : ∀ line ∈ [Line.called callback], ∀ direction,
        line.tells number direction = false := by
      intro line hm direction
      rw [List.mem_singleton.mp hm]
      simp [Line.tells, hk]
    rw [if_neg hk, Factory.Front.after_quiet hquiet, Option.map_id_fun]
    rfl

section Calls
variable {A : Type} {request : Request}

/-- A call that does not fail is served after it was asked for. -/
theorem guarded_served (hb : env.Books m read) (serve : World V σ → A × World V σ)
    (h : (env.before request w).1 = none) :
    ∃ w₁, w.Noted read w₁ [.asked request none] ∧
      (w.guarded env request serve).1 = .ok (serve w₁).1 ∧
      (serve w₁).2.Noted read (w.guarded env request serve).2 [] := by
  have hbefore := (hb.before request w).asked
  unfold guarded
  generalize env.before request w = r at h hbefore
  obtain ⟨fault, w₁⟩ := r
  obtain rfl : fault = none := h
  exact ⟨w₁, hbefore, rfl, (hb.after request (serve w₁).2).still⟩

end Calls

section Attributes

theorem Noted.withAttributes (h : w.Noted read w' lines) (store : Store AttributeKey Bytes) :
    (attributesPlace.withStore w store).Noted read (attributesPlace.withStore w' store) lines :=
  ⟨h.metadata, h.names, congrArg (fun site => { site with store }) h.attributes, h.views, h.drawn,
    h.front, h.read⟩

/-- What a provider is called with for an attribute entry: the value that its bytes stand for, if
they stand for any. -/
def relayLines (m : Marshaller V) (context : String) (number : Nat) (direction : Direction)
    (key : AttributeKey) (bytes : Bytes) : List (Line V) :=
  match m.read bytes with
  | .error _ => []
  | .ok value => [.called ⟨number, direction, ⟨key.session, none, none⟩, context, value⟩]

theorem relay_noted (hb : env.Books m read) {number : Nat}
    (hc : ∀ callback (w : World V σ), callback.factory = number →
      w.Written read (env.callback callback w) [.called callback])
    (direction : Direction) (key : AttributeKey) (bytes : Bytes) (w : World V σ) :
    w.Noted read (w.relay env number direction key bytes)
      (relayLines m (w.context number) number direction key bytes) := by
  obtain ⟨hanswer, hw⟩ := hb.decode bytes w
  unfold relay relayLines
  rw [← hanswer]
  generalize env.decode bytes w = r at hw
  obtain ⟨answer, w₁⟩ := r
  have hstill := hw.still
  cases answer with
  | error fault => exact hstill
  | ok value =>
    have hcontext : ((w₁.factory? number).map Factory.context).getD "" = w.context number :=
      congrFun hstill.context number
    dsimp only
    rw [hcontext]
    exact hstill.trans (raise_noted (hc _ w₁ rfl))

/-- The lines that an event of the attribute store leads to. -/
def attributesEcho (m : Marshaller V) (context : Nat → String) :
    Subscriber → Event AttributeKey Bytes → List (Line V)
  | .observer number, event => [.heard number (.attributes event)]
  | .factory number, .prePassivate key bytes =>
    relayLines m (context number) number .passivate key bytes
  | .factory number, .postActivate key bytes =>
    relayLines m (context number) number .activate key bytes
  | .factory _, _ => []

theorem attributesPlace_reacts (hj : env.Journals m read) (context : Nat → String) :
    (attributesPlace : Place (World V σ) AttributeKey Bytes).Reacts (tellAttributes env)
      (fun w w' l => ∃ lines, w.Noted read w' lines ∧ (w.context = context → lines = l))
      (attributesEcho m context) := by
  have hrelay : ∀ number direction key bytes (w : World V σ),
      w.Noted read (w.relay env number direction key bytes)
        (relayLines m (w.context number) number direction key bytes) :=
    fun number => relay_noted hj.toBooks fun callback w _ => hj.callback callback w
  refine ⟨fun w => ⟨[], .refl w, fun _ => rfl⟩, ?_, ?_, ?_, fun _ _ => rfl, fun _ _ _ => rfl,
    fun _ => rfl, fun hearer event w => ?_⟩
  · rintro w w' w'' l l' ⟨lines, h, hl⟩ ⟨lines', h', hl'⟩
    refine ⟨lines ++ lines', h.trans h', fun hc => ?_⟩
    rw [hl hc, hl' (h.context.trans hc)]
  · rintro w w' l ⟨lines, h, -⟩
    exact h.attributes
  · rintro w w' l store ⟨lines, h, hl⟩
    exact ⟨lines, h.withAttributes store, hl⟩
  · cases hearer with
    | observer number => exact ⟨_, (hj.hear number (.attributes event) w).heard, fun _ => rfl⟩
    | factory number =>
      cases event with
      | prePassivate key bytes =>
        exact ⟨_, hrelay number .passivate key bytes w, fun hc => by rw [hc]; rfl⟩
      | postActivate key bytes =>
        exact ⟨_, hrelay number .activate key bytes w, fun hc => by rw [hc]; rfl⟩
      | _ => exact ⟨[], .refl w, fun _ => rfl⟩

/-- The lines that calls of the attribute store lead to. -/
def attributesLines (m : Marshaller V) (w : World V σ)
    (calls : List (StoreCall AttributeKey Bytes)) : List (Line V) :=
  Place.reactions (attributesEcho m w.context) w.attributes.listeners.snapshot
    (w.attributes.store.news calls)

theorem attributesLines_cons (m : Marshaller V) (w : World V σ)
    (call : StoreCall AttributeKey Bytes) (calls : List (StoreCall AttributeKey Bytes)) :
    w.attributesLines m (call :: calls) = w.attributesLines m [call] ++
      (attributesPlace.withStore w (w.attributes.store.settled call)).attributesLines m calls := by
  have hnews := w.attributes.store.news_append [call] calls
  rw [List.singleton_append] at hnews
  unfold attributesLines
  rw [hnews, Place.reactions_append]
  rfl

theorem attributesLines_congr (m : Marshaller V) (h : w'.attributes = w.attributes)
    (hc : w'.context = w.context) : w'.attributesLines m = w.attributesLines m := by
  funext calls
  rw [attributesLines, attributesLines, h, hc]

/-- What calls lead to is told to somebody. -/
theorem attributesLines_news (m : Marshaller V) (w : World V σ)
    (calls : List (StoreCall AttributeKey Bytes)) :
    ∀ line ∈ w.attributesLines m calls, line.isNews = true := by
  intro line hm
  obtain ⟨event, -, hm⟩ := List.mem_flatMap.mp hm
  obtain ⟨hearer, -, hm⟩ := List.mem_flatMap.mp hm
  have hrelay : ∀ number direction key bytes,
      line ∈ relayLines m (w.context number) number direction key bytes → line.isNews = true := by
    intro number direction key bytes hm
    unfold relayLines at hm
    split at hm
    · cases hm
    · rw [List.mem_singleton.mp hm]
      rfl
  cases hearer with
  | observer number =>
    rw [List.mem_singleton.mp hm]
    rfl
  | factory number =>
    cases event with
    | prePassivate key bytes => exact hrelay _ _ _ _ hm
    | postActivate key bytes => exact hrelay _ _ _ _ hm
    | _ => cases hm

/-- A call of the attribute store that does not fail is settled by it, and all that it leads to is
written down. -/
theorem callAttributes_noted (hj : env.Journals m read) {call : StoreCall AttributeKey Bytes}
    (h : (env.before (.attributes call) w).1 = none) :
    (attributesPlace.withStore w (w.attributes.store.after call.parts)).Noted read
      (w.callAttributes env call).2
      (.asked (.attributes call) none :: w.attributesLines m call.parts) := by
  have hreacts := attributesPlace_reacts hj w.context
  obtain ⟨w₁, hasked, -, hafter⟩ := guarded_served hj.toBooks
    (fun w => attributesPlace.serve (tellAttributes env) w call) h
  obtain ⟨lines, hserve, hlines⟩ := hreacts.serve w₁ call
  have hsite : attributesPlace.get w₁ = w.attributes := hasked.attributes
  rw [hsite] at hserve hlines
  obtain ⟨lines', hput, hlines'⟩ := hreacts.withStore (w.attributes.store.after call.parts)
    ⟨_, hasked, fun _ => rfl⟩
  rw [hlines hasked.context] at hserve
  rw [hlines' rfl] at hput
  have hall := (hput.trans hserve).trans hafter
  rw [List.append_nil] at hall
  exact hall

/-- The bytes of entries that move do not matter for the answer of a call. -/
theorem callAttributes_answer (hj : env.Journals m read) {call : StoreCall AttributeKey Bytes}
    (hs : w.attributes.store.Sound) (h : (env.before (.attributes call) w).1 = none) :
    (w.callAttributes env call).1 = .ok (call.onMap w.attributes.store.find?).1 := by
  obtain ⟨w₁, hasked, hanswer, -⟩ := guarded_served hj.toBooks
    (fun w => attributesPlace.serve (tellAttributes env) w call) h
  have hsite : attributesPlace.get w₁ = w.attributes := hasked.attributes
  have hserve := (attributesPlace_reacts hj w.context).serve_answer (w := w₁) (hsite ▸ hs) call
  rw [hsite] at hserve
  exact hanswer.trans (congrArg Except.ok hserve)

end Attributes

section Names

theorem Noted.withNames (h : w.Noted read w' lines) (store : Store SessionId Names) :
    (namesPlace.withStore w store).Noted read (namesPlace.withStore w' store) lines :=
  ⟨h.metadata, congrArg (fun site => { site with store }) h.names, h.attributes, h.views, h.drawn,
    h.front, h.read⟩

/-- The lines that an event of the names store leads to. Factories only hand evictions to their
workers. -/
def namesLine : Subscriber → Event SessionId Names → List (Line V)
  | .observer number, event => [.heard number (.names event)]
  | .factory _, _ => []

theorem schedule_noted (number : Nat) (session : SessionId) (w : World V σ) (id : AttributeId) :
    w.Noted read (schedule number session w id) [] := by
  have hscheduled : w.Noted read (w.changeFactory number fun f =>
      { f with executor := f.executor.execute ⟨session, id⟩ }) [] := .change w number fun _ => rfl
  exact hscheduled.trans (.record _ number fun _ => nofun)

theorem namesPlace_reacts (hj : env.Journals m read) :
    (namesPlace : Place (World V σ) SessionId Names).Reacts (tellNames env)
      (Noted read) namesLine := by
  refine ⟨.refl, .trans, Noted.names, fun store h => h.withNames store, fun _ _ => rfl,
    fun _ _ _ => rfl, fun _ => rfl, fun hearer event w => ?_⟩
  cases hearer with
  | observer number => exact (hj.hear number (.names event) w).heard
  | factory number =>
    cases event with
    | prePassivate session names =>
      have hall : ∀ (ids : List AttributeId) (w : World V σ),
          w.Noted read (ids.foldl (schedule number session) w) [] := by
        intro ids
        induction ids with
        | nil => exact .refl
        | cons id ids ih => exact fun w => (schedule_noted number session w id).trans (ih _)
      exact hall names.values w
    | _ => exact .refl w

def namesLines (w : World V σ) (calls : List (StoreCall SessionId Names)) : List (Line V) :=
  Place.reactions namesLine w.names.listeners.snapshot (w.names.store.news calls)

theorem callNames_noted (hj : env.Journals m read) {call : StoreCall SessionId Names}
    (h : (env.before (.names call) w).1 = none) :
    (namesPlace.withStore w (w.names.store.after call.parts)).Noted read (w.callNames env call).2
      (.asked (.names call) none :: w.namesLines call.parts) := by
  have hreacts := namesPlace_reacts hj
  obtain ⟨w₁, hasked, -, hafter⟩ := guarded_served hj.toBooks
    (fun w => namesPlace.serve (tellNames env) w call) h
  have hserve := hreacts.serve w₁ call
  have hsite : namesPlace.get w₁ = w.names := hasked.names
  rw [hsite] at hserve
  have hput := hreacts.withStore (w.names.store.after call.parts) hasked
  have hall := (hput.trans hserve).trans hafter
  rw [List.append_nil] at hall
  exact hall

theorem callNames_answer (hj : env.Journals m read) {call : StoreCall SessionId Names}
    (hs : w.names.store.Sound) (h : (env.before (.names call) w).1 = none) :
    (w.callNames env call).1 = .ok (call.onMap w.names.store.find?).1 := by
  obtain ⟨w₁, hasked, hanswer, -⟩ := guarded_served hj.toBooks
    (fun w => namesPlace.serve (tellNames env) w call) h
  have hsite : namesPlace.get w₁ = w.names := hasked.names
  have hserve := (namesPlace_reacts hj).serve_answer (w := w₁) (hsite ▸ hs) call
  rw [hsite] at hserve
  exact hanswer.trans (congrArg Except.ok hserve)

end Names

section Procedures
variable {α : Type}

/-- The rule of a world: each action is answered as the world answers it. -/
def exactly (env : Surroundings V σ) (actor : Actor) : Rule V (World V σ) :=
  fun action w post => post (w.perform env actor action).1 (w.perform env actor action).2

theorem secures_exactly (actor : Actor) (p : Procedure V α) (post : α → World V σ → Prop) :
    p.Secures (exactly env actor) post w =
      post (w.carryOut env actor p).1 (w.carryOut env actor p).2 := by
  induction p generalizing w with
  | done a => rfl
  | act action next ih => exact ih _

end Procedures

/-- Empty stores of one shard each. The attribute store may be persistent. -/
def blank (persistent : Bool) (scene : σ) : World V σ :=
  ⟨⟨⟨[⟨[], []⟩], none, false, 0, 0⟩, .empty⟩, ⟨⟨[⟨[], []⟩], none, false, 0, 0⟩, .empty⟩,
    ⟨⟨[⟨[], []⟩], none, persistent, 0, 0⟩, .empty⟩, [], [], 0, scene⟩

theorem blank_reached (persistent : Bool) (scene : σ) :
    (blank persistent scene : World V σ).Reached :=
  .opened (rfl : World.openWith { shards := 1 } { shards := 1 } { shards := 1, persistent } scene =
    .ok (blank persistent scene))

end World
end SessionAttributes
