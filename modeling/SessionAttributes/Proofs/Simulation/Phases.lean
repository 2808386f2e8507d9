import SessionAttributes.Proofs.Session.Counting
import SessionAttributes.Proofs.Simulation.Stock
import SessionAttributes.Proofs.World.Slices

namespace SessionAttributes

variable {V : Type}

theorem Scope.Stocked.congr {m : Marshaller V} {s s' : Scope V} {size : Nat} {intact : Bool}
    (h : s.Stocked m size intact) (hs : s'.stored = s.stored) (he : s'.entries = s.entries) :
    s'.Stocked m size intact := by
  have hlisted : s'.listed = s.listed := by rw [Scope.listed, Scope.listed, hs]
  refine ⟨fun hn => hs.trans (h.absent hn), hlisted ▸ h.size, ?_, fun session => ?_⟩
  · unfold Scope.Covered
    rw [he, hlisted]
    exact h.covered
  · rw [← h.loads session]
    simp only [Scope.loaded, Scope.found, hs, he]

structure PlainWorld.SameAt (session : SessionId) (p p' : PlainWorld V) : Prop where
  metadata : p'.metadata session = p.metadata session
  names : p'.names session = p.names session
  attributes : ∀ id, p'.attributes ⟨session, id⟩ = p.attributes ⟨session, id⟩

theorem PlainWorld.SameAt.trans {session : SessionId} {p p' p'' : PlainWorld V}
    (h : SameAt session p p') (h' : SameAt session p' p'') : SameAt session p p'' :=
  ⟨h'.metadata.trans h.metadata, h'.names.trans h.names,
    fun id => (h'.attributes id).trans (h.attributes id)⟩

theorem PlainWorld.withScope_sameAt (p : PlainWorld V) {session other : SessionId}
    (hne : other ≠ session) (actor : World.Actor) (s : Scope V) :
    SameAt other p (p.withScope session actor s) :=
  ⟨rfl, Function.update_of_ne hne _ _, fun _ => if_neg hne⟩

namespace Simulation

structure Stock where
  /-- Whether its metadata are stored. -/
  known : Bool
  size : Nat
  intact : Bool

/-- The counters after some writes, with so many corrupt sessions, loads and deletions. -/
def counters (written corrupt loaded attributes removed : Nat) : Metrics :=
  { sessionsLoaded := loaded
    attributesLoaded := attributes
    sessionsCorrupt := corrupt
    sessionsRemoved := removed
    sessionsPurged := corrupt
    attributesWritten := written }

/-- Surroundings of a workload: nothing fails, and what goes on in them neither shows nor counts. -/
structure Smooth (stores : StoreSections) (env : Surroundings Json Nat) : Prop where
  calm : env.Calm Frame.marshaller
  reliable : env.Reliable
  discreet : env.Discreet
  placed : env.Observes (World.Placed stores.metadata stores.names stores.attributes)

theorem surroundings_smooth (stores : StoreSections) (schedule : Schedule)
    (draw : Nat → AttributeId) : Smooth stores (surroundings schedule draw) :=
  ⟨surroundings_calm schedule draw, surroundings_reliable schedule draw,
    surroundings_discreet schedule draw,
    surroundings_observes schedule draw World.placed_lasting⟩

structure Stands (stores : StoreSections) (stock : SessionId → Stock) (metrics : Metrics)
    (w : SimulatedWorld) : Prop where
  sound : w.Sound
  placed : w.Placed stores.metadata stores.names stores.attributes
  isOpen : (w.factory? factory).map Factory.isOpen = some true
  deeds : w.deeds factory = some metrics
  known : ∀ session, (w.plain.metadata session).isSome = (stock session).known
  stocked : ∀ session, (w.plain.scope session ⟨factory, none⟩).Stocked Frame.marshaller
    (stock session).size (stock session).intact

variable {stores : StoreSections} {stock : SessionId → Stock} {metrics metrics' : Metrics}
  {w w' : SimulatedWorld} {env : Surroundings Json Nat} {session : SessionId} {attributes : Nat}

namespace Stands

/-- What does not show does not matter. -/
theorem unseen (h : Stands stores stock metrics w) (hk : w.Keeps w')
    (hp : w'.Placed stores.metadata stores.names stores.attributes) (hd : w.Uncounted w') :
    Stands stores stock metrics w' := by
  obtain ⟨hs, hplain⟩ := hk h.sound
  refine ⟨hs, hp, World.isOpen_of_factories (congrArg PlainWorld.factories hplain) h.isOpen,
    (congrFun hd _).trans h.deeds, ?_, ?_⟩
  · rw [hplain]
    exact h.known
  · rw [hplain]
    exact h.stocked

/-- A step on one session leaves all others alone. -/
theorem step (h : Stands stores stock metrics w) (hs : w'.Sound)
    (hp : w'.Placed stores.metadata stores.names stores.attributes)
    (hd : w'.deeds factory = some metrics') (hf : w'.plain.factories = w.plain.factories)
    (hothers : ∀ other, other ≠ session → w.plain.SameAt other w'.plain) {new : Stock}
    (hknown : (w'.plain.metadata session).isSome = new.known)
    (hstocked : (w'.plain.scope session ⟨factory, none⟩).Stocked Frame.marshaller new.size
      new.intact) :
    Stands stores (Function.update stock session new) metrics' w' := by
  refine ⟨hs, hp, World.isOpen_of_factories hf h.isOpen, hd, fun other => ?_, fun other => ?_⟩
  · by_cases hother : other = session
    · rw [hother, Function.update_self]
      exact hknown
    · rw [Function.update_of_ne hother, (hothers other hother).metadata]
      exact h.known other
  · by_cases hother : other = session
    · rw [hother, Function.update_self]
      exact hstocked
    · rw [Function.update_of_ne hother]
      exact (h.stocked other).congr (hothers other hother).names
        (funext (hothers other hother).attributes)

/-- A procedure on one session without its views. -/
theorem procedure {α : Type} (h : Stands stores stock metrics w) (he : Smooth stores env)
    {p : Procedure Json α} (hp : p.Asks (Action.On session false)) {answer : α} {s : Scope Json}
    (hrun : p.runWith (Scope.perform Frame.marshaller env.draw session)
      (w.plain.scope session ⟨factory, none⟩) = (answer, s))
    {post : α → List Measure → Prop} (hcounts : p.Secures Rule.counting post [])
    (hmetrics : ∀ measures, post answer measures → metrics' = metrics.tally measures)
    (new : Stock) (hknown : new.known = (stock session).known)
    (hstocked : s.Stocked Frame.marshaller new.size new.intact) :
    (w.carryOut env ⟨factory, none⟩ p).1 = answer ∧
      Stands stores (Function.update stock session new) metrics'
        (w.carryOut env ⟨factory, none⟩ p).2 := by
  obtain ⟨hs, ha, hplain, hscope⟩ :=
    World.carryOut_scope he.calm he.reliable h.sound ⟨factory, none⟩ hp nofun
  obtain ⟨measures, hpost, hcounted⟩ :=
    World.carryOut_counts he.discreet ⟨factory, none⟩ hcounts w
  rw [hrun] at ha hplain hscope
  rw [ha, List.nil_append] at hpost
  have hplaced := World.placed_lasting.carryOut he.placed
    (fun _ number measure hw => hw.record number measure) ⟨factory, none⟩ p h.placed
  refine ⟨ha, h.step hs hplaced ?_ ?_ (fun other hne => ?_) ?_ ?_⟩
  · rw [hcounted factory, if_pos rfl, h.deeds, hmetrics measures hpost]
    rfl
  · rw [hplain]
    rfl
  · rw [hplain]
    exact w.plain.withScope_sameAt hne _ _
  · rw [hplain, hknown]
    exact h.known session
  · rw [hscope]
    exact hstocked

end Stands

section Steps

theorem evictSession_stands (h : Stands stores stock metrics w) (he : Smooth stores env)
    (session : SessionId) :
    ∃ w', evictSession env w session = .ok w' ∧ Stands stores stock metrics w' := by
  have hanswers := World.callMetadata_answers he.calm h.sound (.evict session)
  obtain ⟨-, ha, -⟩ := hanswers.ok (World.guarded_reliable he.reliable _ _)
  refine ⟨(w.callMetadata env (.evict session)).2, ?_, h.unseen ?_ ?_ ?_⟩
  · simp only [evictSession, ha]
    rfl
  · exact World.Answers.keeps fun hs => World.callMetadata_answers he.calm hs (.evict session)
  · exact World.placed_lasting.callMetadata he.placed _ h.placed
  · exact (World.deeds_lasting w.deeds).callMetadata (he.discreet.observes _) _ rfl

/-- A load finds all attributes of an intact session. -/
theorem reloadSession_intact {written corrupt loaded total : Nat} (reloaded : Nat)
    (h : Stands stores stock (counters written corrupt loaded total 0) w) (he : Smooth stores env)
    (hi : (stock session).intact = true) :
    ∃ w', reloadSession env (reloaded, w) session =
        .ok (if 0 < (stock session).size then reloaded + 1 else reloaded, w') ∧
      Stands stores stock
        (counters written corrupt (loaded + 1) (total + (stock session).size) 0) w' := by
  have hopen : (w.plain.scope session ⟨factory, none⟩).isOpen = true :=
    (World.isOpen_scope factory none).mpr h.isOpen
  have hstocked := h.stocked session
  rw [hi] at hstocked
  obtain ⟨b, hb, hsize⟩ := hstocked.loaded session
  have hrun := Session.load_acts Frame.marshaller env.draw session true
    (w.plain.scope session ⟨factory, none⟩)
  simp only [Scope.load, hopen, hb, Scope.settled, reduceCtorEq, and_false, if_false] at hrun
  obtain ⟨ha, hw⟩ := h.procedure he (Session.load_on session true) hrun
    (Session.load_counts session true)
    (fun measures (hm : measures = _) => by rw [hm, hsize]) (stock session) rfl (h.stocked session)
  rw [Function.update_eq_self] at hw
  refine ⟨_, ?_, hw⟩
  have hempty : b.isEmpty = decide ((stock session).size = 0) := by
    rw [← hsize]
    cases hn : b.names.entries <;> simp [Bundle.isEmpty, Dict.isEmpty, Dict.size, hn]
  simp only [reloadSession, Session.find, ha]
  change Except.ok (if (!b.isEmpty) = true then _ else _, _) = _
  simp [hempty, Nat.pos_iff_ne_zero]

/-- A load finds nothing of a corrupt session, and nothing is left of its attributes. -/
theorem reloadSession_corrupt {written corrupt reloaded : Nat}
    (h : Stands stores stock (counters written corrupt 0 0 0) w) (he : Smooth stores env)
    (hi : (stock session).intact = false) :
    ∃ w', reloadSession env (reloaded, w) session = .ok (reloaded, w') ∧
      Stands stores (Function.update stock session ⟨(stock session).known, 0, true⟩)
        (counters written (corrupt + 1) 0 0 0) w' := by
  have hopen : (w.plain.scope session ⟨factory, none⟩).isOpen = true :=
    (World.isOpen_scope factory none).mpr h.isOpen
  have hstocked := h.stocked session
  rw [hi] at hstocked
  have hrun := Session.load_acts Frame.marshaller env.draw session true
    (w.plain.scope session ⟨factory, none⟩)
  simp only [Scope.load, hopen, hstocked.lost session, Scope.settled, and_self, if_true] at hrun
  obtain ⟨ha, hw⟩ := h.procedure he (Session.load_on session true) hrun
    (Session.load_counts session true)
    (fun measures (hm : measures = _) => by rw [hm]) ⟨(stock session).known, 0, true⟩ rfl
    hstocked.purged
  refine ⟨_, ?_, hw⟩
  simp only [reloadSession, Session.find, ha]
  rfl

theorem removeSession_stands {written corrupt loaded total removed : Nat}
    (h : Stands stores stock (counters written corrupt loaded total removed) w)
    (he : Smooth stores env) (session : SessionId) :
    ∃ w', removeSession env (removed, w) session = .ok (removed + 1, w') ∧
      Stands stores (Function.update stock session ⟨(stock session).known, 0, true⟩)
        (counters written corrupt loaded total (removed + 1)) w' := by
  have hopen : (w.plain.scope session ⟨factory, none⟩).isOpen = true :=
    (World.isOpen_scope factory none).mpr h.isOpen
  have hrun := Session.delete_acts Frame.marshaller env.draw session .remove
    (w.plain.scope session ⟨factory, none⟩)
  simp only [Scope.delete, hopen] at hrun
  have hcounts : (Session.remove session : Attempt Json Bool).run.Secures Rule.counting
      (fun r measures => r = .ok true → measures = [.sessionDeleted false]) [] := by
    rw [Attempt.secures_run]
    exact Session.delete_counts .remove (fun _ => rfl) fun _ => nofun
  obtain ⟨ha, hw⟩ := h.procedure he (Session.delete_on session .remove) hrun hcounts
    (fun measures hm => by rw [hm rfl]) ⟨(stock session).known, 0, true⟩ rfl
    (h.stocked session).purged
  refine ⟨_, ?_, hw⟩
  simp only [removeSession, Session.remove, ha]
  rfl

/-- The names of a session tell which of its entries is the first. -/
theorem corruptSession_reads (h : Stands stores stock metrics w) (he : Smooth stores env)
    (session : SessionId) :
    let found := w.callNames env (.get session)
    found.1 = .ok (w.plain.names session) ∧ found.2.plain = w.plain ∧
      Stands stores stock metrics found.2 := by
  have hanswers := World.callNames_answers he.calm h.sound (.get session)
  obtain ⟨-, ha, hplain⟩ := hanswers.ok (World.guarded_reliable he.reliable _ _)
  refine ⟨ha, hplain, h.unseen ?_ ?_ ?_⟩
  · exact World.Answers.keeps fun hs => World.callNames_answers he.calm hs (.get session)
  · exact World.placed_lasting.callNames he.placed _ h.placed
  · exact (World.deeds_lasting w.deeds).callNames (he.discreet.observes _) _ rfl

/-- A session without attributes has nothing that could be spoiled. -/
theorem corruptSession_nothing {corrupted : Nat} (h : Stands stores stock metrics w)
    (he : Smooth stores env) (hz : (stock session).size = 0) :
    ∃ w', corruptSession env (corrupted, w) session = .ok (corrupted, w') ∧
      Stands stores stock metrics w' := by
  obtain ⟨ha, -, hw⟩ := corruptSession_reads h he session
  have hstocked := h.stocked session
  have hnone : w.plain.names session = none := hstocked.absent hz
  refine ⟨_, ?_, hw⟩
  simp only [corruptSession, ha, hnone]
  rfl

theorem corruptSession_spoils {corrupted size : Nat} (h : Stands stores stock metrics w)
    (he : Smooth stores env) (hsize : (stock session).size = size + 1) :
    ∃ w', corruptSession env (corrupted, w) session = .ok (corrupted + 1, w') ∧
      Stands stores (Function.update stock session
        ⟨(stock session).known, (stock session).size, false⟩) metrics w' := by
  obtain ⟨ha, hplain, hw⟩ := corruptSession_reads h he session
  obtain ⟨fault, hgarbage⟩ := garbage_unreadable
  have hstocked := h.stocked session
  rw [hsize] at hstocked
  obtain ⟨id, hfirst, hspoiled⟩ := hstocked.spoil hgarbage
  let read := (w.callNames env (.get session)).2
  let call : StoreCall AttributeKey Bytes := .put ⟨session, id⟩ garbage .silent
  have hanswers := World.callAttributes_answers he.calm hw.sound call
  obtain ⟨hs, hput, hwritten⟩ := hanswers.ok (World.guarded_reliable he.reliable _ _)
  refine ⟨(read.callAttributes env call).2, ?_, ?_⟩
  · have hbind : (w.plain.names session).bind (fun names => names.values.head?) = some id := hfirst
    have hstored : (read.callAttributes env (.put ⟨session, id⟩ garbage .silent)).1 = .ok _ := hput
    simp only [corruptSession, ha, bind, Except.bind, hbind, read, hstored]
    rfl
  · refine hw.step hs (World.placed_lasting.callAttributes he.placed _ hw.placed) ?_ ?_ ?_ ?_ ?_
    · exact (congrFun ((World.deeds_lasting read.deeds).callAttributes (he.discreet.observes _)
        call rfl) _).trans hw.deeds
    · rw [hwritten]
    · intro other hne
      rw [hwritten]
      refine ⟨rfl, rfl, fun k => Function.update_of_ne (fun hk => hne ?_) _ _⟩
      exact congrArg AttributeKey.session hk
    · rw [hwritten]
      exact hw.known session
    · rw [hwritten, hsize]
      refine hspoiled.congr ?_ (funext fun k => ?_)
      · exact congrFun (congrArg PlainWorld.names hplain) session
      · change Function.update read.plain.attributes ⟨session, id⟩ (some garbage) ⟨session, k⟩ =
          Function.update (fun k => w.plain.attributes ⟨session, k⟩) id (some garbage) k
        rw [hplain]
        by_cases hk : k = id <;> simp [hk]

end Steps

section Writing
variable {p : PlainWorld Json} {view first written count : Nat}

/-- A view fills a session. The world is as it was when the view was opened, but for the session. -/
structure Fills (stores : StoreSections) (draw : Nat → AttributeId) (p : PlainWorld Json)
    (session : SessionId) (view first written count : Nat) (w : SimulatedWorld) : Prop where
  sound : w.Sound
  placed : w.Placed stores.metadata stores.names stores.attributes
  deeds : w.deeds factory = some (counters (written + count) 0 0 0 0)
  seat : ∃ v, p.views[view]? = some v ∧ v.view.session = session ∧ v.factory = factory
  filled : ∃ s : Scope Json, s.Filled draw first count ∧
    w.plain = p.withScope session ⟨factory, some view⟩ s ∧
    w.plain.scope session ⟨factory, some view⟩ = s

theorem writeAttribute_fills (h : Fills stores env.draw p session view first written count w)
    (he : Smooth stores env)
    (hd : ∀ n < count, env.draw (first + n) ≠ env.draw (first + count)) :
    ∃ w', writeAttribute env view w count = .ok w' ∧
      Fills stores env.draw p session view first written (count + 1) w' := by
  obtain ⟨v, hv, rfl, hfactory⟩ := h.seat
  obtain ⟨s, hs, hp, hscope⟩ := h.filled
  have hview : w.plain.views[view]? = some { v with state := s.state } := by
    rw [hp]
    exact PlainWorld.withScope_view hv _ _ s
  have hlive := hview
  rw [World.plain_view] at hlive
  obtain ⟨live, hl, hplain⟩ := Option.map_eq_some_iff.mp hlive
  have hw : live.view = v.view := congrArg PlainView.view hplain
  obtain ⟨hsound, ha, activated, hp', hscope'⟩ :=
    World.call_effect he.calm he.reliable h.sound hview
      (.set (attributeName count) (attributeValue count))
  dsimp only at hsound ha hp' hscope'
  rw [hfactory, hscope] at ha hp' hscope'
  rw [hfactory] at hsound
  obtain ⟨hnew, hs'⟩ := hs.set hd v.view.immutability
  obtain ⟨measures, hcounted, hcounts⟩ := World.carryOut_counts he.discreet ⟨factory, some view⟩
    (View.set_counts v.view (attributeName count) (attributeValue count)) w
  have hanswer : (w.carryOut env ⟨factory, some view⟩
      (v.view.set (attributeName count) (attributeValue count)).run).1 = .ok none := ha.trans hnew
  have hmeasures : [] ++ measures = [Measure.attributeWritten] := hcounted hanswer
  rw [List.nil_append] at hmeasures
  have hplaced := World.placed_lasting.carryOut he.placed
    (fun _ number measure hw => hw.record number measure) ⟨factory, some view⟩
    (v.view.set (attributeName count) (attributeValue count)).run h.placed
  refine ⟨_, ?_, hsound, hplaced, ?_, ⟨v, hv, rfl, hfactory⟩, _, hs'.announcing activated, ?_,
    hscope'⟩
  · simp only [writeAttribute, hl, hw, hanswer]
    rfl
  · have hdeeds := hcounts factory
    rw [if_pos rfl, hmeasures, h.deeds] at hdeeds
    exact hdeeds
  · rw [hp', hp, PlainWorld.withScope_withScope]
    rfl

/-- What a step makes of each number in turn. -/
theorem foldlM_range {S : Type} {step : S → Nat → Except SessionError S} {I : Nat → S → Prop}
    {limit : Nat} (hstep : ∀ n < limit, ∀ state, I n state →
      ∃ state', step state n = .ok state' ∧ I (n + 1) state') {state : S} (h : I 0 state) :
    ∃ state', (List.range limit).foldlM step state = .ok state' ∧ I limit state' := by
  induction limit with
  | zero => exact ⟨state, rfl, h⟩
  | succ limit ih =>
    obtain ⟨middle, hrun, hmiddle⟩ := ih fun n hn => hstep n (Nat.lt_succ_of_lt hn)
    obtain ⟨last, hlast, hend⟩ := hstep limit (Nat.lt_succ_self _) middle hmiddle
    refine ⟨last, ?_, hend⟩
    rw [List.range_succ, List.foldlM_append, hrun]
    change List.foldlM step middle [limit] = _
    rw [List.foldlM_cons, hlast]
    rfl

theorem Stands.putMetadata (h : Stands stores stock metrics w) (he : Smooth stores env)
    (session : SessionId) :
    let r := w.callMetadata env (.put session metadata .writeOnly)
    (∃ answer, r.1 = .ok answer) ∧ r.2.drawn = w.drawn ∧
      Stands stores (Function.update stock session { stock session with known := true }) metrics
        r.2 := by
  let call : StoreCall SessionId Metadata := .put session metadata .writeOnly
  obtain ⟨hs, hput, hp⟩ := (World.callMetadata_answers he.calm h.sound call).ok
    (World.guarded_reliable he.reliable _ _)
  have hplaced := World.placed_lasting.callMetadata he.placed call h.placed
  have hdeeds := (World.deeds_lasting w.deeds).callMetadata (he.discreet.observes _) call rfl
  refine ⟨⟨_, hput⟩, (congrArg PlainWorld.drawn hp).trans rfl, ?_⟩
  refine h.step hs hplaced ((congrFun hdeeds _).trans h.deeds) ?_ (fun other hne => ?_) ?_ ?_
  · rw [hp]
  · rw [hp]
    exact ⟨Function.update_of_ne hne _ _, rfl, fun _ => rfl⟩
  · rw [hp]
    simp [call, StoreCall.onMap]
  · rw [hp]
    exact h.stocked session

/-- A view is opened over nothing. -/
theorem Stands.opens (h : Stands stores stock (counters written 0 0 0 0) w)
    (hnew : (stock session).size = 0) (draw : Nat → AttributeId) :
    ∃ view w', w.openView factory session Bundle.empty metadata "" = .ok (view, w') ∧
      w'.plain = { w.plain with views := w'.plain.views } ∧
      Fills stores draw w'.plain session view w.drawn written 0 w' := by
  obtain ⟨f, hf, ho⟩ := Option.map_eq_some_iff.mp h.isOpen
  have hplain : w.plain.factories[factory]? = some f.plain := by
    rw [World.factory?] at hf
    simp [World.plain, hf]
  obtain ⟨v, w', hv, hopened, hp⟩ :=
    World.openView_ok hplain ho session Bundle.empty metadata ""
  have hstocked := h.stocked session
  rw [hnew] at hstocked
  obtain ⟨hstored, hentries⟩ := hstocked.nothing
  refine ⟨_, w', hopened, ?_, World.openView_sound hopened h.sound,
    World.placed_lasting.openView hopened h.placed, ?_,
    ⟨⟨v, factory, ⟨Bundle.empty, []⟩⟩, ?_, hv, rfl⟩, _, ?_,
    (PlainWorld.withScope_scope ..).symm, rfl⟩
  · rw [hp]
  · exact (congrFun ((World.deeds_lasting w.deeds).openView hopened rfl) _).trans h.deeds
  · rw [hp]
    exact List.getElem?_concat_length
  · rw [World.scope_opened hp]
    exact .start hstored hentries rfl rfl

theorem Fills.closes {w₁ : SimulatedWorld} (h : Stands stores stock metrics w₁)
    (hp : p = { w₁.plain with views := p.views })
    (hf : Fills stores env.draw p session view first written count w) :
    (w.closeView view).drawn = first + count ∧
      Stands stores (Function.update stock session ⟨(stock session).known, count, true⟩)
        (counters (written + count) 0 0 0 0) (w.closeView view) := by
  obtain ⟨s, hs, hplain, -⟩ := hf.filled
  obtain ⟨hsound, hclosed⟩ := w.closeView_keeps view hf.sound
  have hlast : (w.closeView view).plain = p.withScope session ⟨factory, some view⟩ s :=
    hclosed.trans hplain
  have hdrawn : (w.closeView view).plain.drawn = first + count := by
    rw [hlast]
    exact hs.drawn
  refine ⟨hdrawn, h.step hsound (World.placed_lasting.rest _ _ _ hf.placed) hf.deeds ?_
    (fun other hne => ?_) ?_ ?_⟩
  · rw [hlast, hp]
    rfl
  · have hsame : w₁.plain.SameAt other p := by
      rw [hp]
      exact ⟨rfl, rfl, fun _ => rfl⟩
    rw [hlast]
    exact hsame.trans (p.withScope_sameAt hne _ s)
  · rw [hlast, hp]
    exact h.known session
  · rw [hlast]
    refine hs.stocked.congr ?_ (funext fun id => ?_)
    · exact p.names_withScope session ⟨factory, some view⟩ s
    · exact p.attributes_withScope session ⟨factory, some view⟩ s id

/-- A new session gets its attributes. -/
theorem writeSession_stands
    (h : Stands stores stock (counters written 0 0 0 0) w) (he : Smooth stores env)
    (hnew : (stock session).size = 0)
    (hd : ∀ n k, n < k → k < attributes → env.draw (w.drawn + n) ≠ env.draw (w.drawn + k)) :
    ∃ w', writeSession env attributes w session = .ok w' ∧ w'.drawn = w.drawn + attributes ∧
      Stands stores (Function.update stock session ⟨true, attributes, true⟩)
        (counters (written + attributes) 0 0 0 0) w' := by
  obtain ⟨⟨answer, hput⟩, hdrawn, h₁⟩ := h.putMetadata he session
  generalize hr : w.callMetadata env (.put session metadata .writeOnly) = r at hput hdrawn h₁
  obtain ⟨_, w₁⟩ := r
  dsimp only at hput hdrawn h₁
  subst hput
  have hempty : (Function.update stock session { stock session with known := true } session).size =
      0 := by
    rw [Function.update_self]
    exact hnew
  obtain ⟨view, w₂, hopen, hp, hf⟩ := h₁.opens hempty env.draw
  have hstep : ∀ count < attributes, ∀ w,
      Fills stores env.draw w₂.plain session view w₁.drawn written count w →
      ∃ w', writeAttribute env view w count = .ok w' ∧
        Fills stores env.draw w₂.plain session view w₁.drawn written (count + 1) w' := by
    intro count hlt w hw
    refine writeAttribute_fills hw he fun n hn => ?_
    rw [hdrawn]
    exact hd n count hn hlt
  obtain ⟨w₃, hrun, hfilled⟩ := foldlM_range hstep hf
  obtain ⟨hlast, hstands⟩ := Fills.closes h₁ hp hfilled
  refine ⟨w₃.closeView view, ?_, hlast.trans (congrArg (· + attributes) hdrawn), ?_⟩
  · simp only [writeSession, hr, hopen, bind, Except.bind] at hrun ⊢
    rw [hrun]
    rfl
  · rw [Function.update_self, Function.update_idem] at hstands
    exact hstands

end Writing

end Simulation
end SessionAttributes
