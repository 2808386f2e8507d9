import SessionAttributes.Proofs.Session.Opened
import SessionAttributes.Proofs.View.Touches
import SessionAttributes.Proofs.World.Lasting
import SessionAttributes.Proofs.World.Tasks

namespace SessionAttributes

variable {V σ α : Type}

/-- A view that is watched: its number and its factory, how often the provider of the factory has
been called, and a journal of the store calls and callbacks. -/
structure Watch (V σ : Type) where
  view : Nat
  factory : Nat
  received : σ → Direction → Nat
  read : σ → List (Line V)

namespace World

/-- The counters of the factory are the numbers of callbacks that its provider has received. -/
def Audited (x : Watch V σ) (w : World V σ) : Prop :=
  ∀ {f counters}, w.factory? x.factory = some f → f.metrics = some counters →
    counters.notified = x.received w.scene

structure Bypasses (x : Watch V σ) (w w' : World V σ) (lines : List (Line V)) : Prop where
  view : w'.view? x.view = w.view? x.view
  drawn : w.drawn ≤ w'.drawn
  persistent : w'.attributes.store.persistent = w.attributes.store.persistent
  read : x.read w'.scene = x.read w.scene ++ lines

/-- Whatever has happened, the watched view was left alone and the counters are still right. -/
structure Spares (x : Watch V σ) (w w' : World V σ) (lines : List (Line V)) : Prop
    extends Bypasses x w w' lines where
  audited : w.Audited x → w'.Audited x

structure Hands (x : Watch V σ) (w w' : World V σ) (callback : Callback V) : Prop
    extends Bypasses x w w' [.called callback] where
  received : w.Audited x → ∀ {f counters}, w'.factory? x.factory = some f →
    f.metrics = some counters → ∀ direction, x.received w'.scene direction =
      counters.notified direction +
        if Line.tells x.factory direction (.called callback) then 1 else 0

end World

/-- Surroundings that may do whatever they like but use the watched view and write in its journal.
The journal is kept, and a provider receives each of its callbacks once. -/
structure Surroundings.Heeds (env : Surroundings V σ) (m : Marshaller V) (x : Watch V σ) :
    Prop where
  before : ∀ request (w : World V σ),
    w.Spares x (env.before request w).2 [.asked request (env.before request w).1]
  after : ∀ request (w : World V σ), w.Spares x (env.after request w) []
  encode : ∀ value (w : World V σ),
    (env.encode value w).1 = m.write value ∧ w.Spares x (env.encode value w).2 []
  decode : ∀ bytes (w : World V σ), w.Spares x (env.decode bytes w).2 []
  hear : ∀ number heard (w : World V σ),
    w.Spares x (env.hear number heard w) [.heard number heard]
  callback : ∀ callback (w : World V σ), w.Hands x (env.callback callback w) callback

/-- A view that is watched by a journal in which every callback is written down. -/
def Watch.over (read : σ → List (Line V)) (view factory : Nat) : Watch V σ where
  view := view
  factory := factory
  received scene direction := (read scene).countP (Line.tells factory direction)
  read := read

theorem World.Written.spares {read : σ → List (Line V)} {view factory : Nat} {w w' : World V σ}
    {lines : List (Line V)} (h : w.Written read w' lines) (hl : Line.Mute lines) :
    w.Spares (.over read view factory) w' lines := by
  obtain ⟨scene, rfl, hread⟩ := h
  refine ⟨⟨rfl, Nat.le_refl _, rfl, hread⟩, fun ha {f counters} hf hcounters => ?_⟩
  refine (ha hf hcounters).trans (funext fun direction => ?_)
  have hnone : lines.countP (Line.tells factory direction) = 0 := by
    refine List.countP_eq_zero.mpr fun line hm => ?_
    have hline := hl line hm
    cases line with
    | called callback => cases hline
    | _ => exact Bool.false_ne_true
  change _ = (read scene).countP _
  rw [hread, List.countP_append, hnone, Nat.add_zero]
  rfl

/-- Surroundings that keep a journal and do nothing else heed every view. -/
theorem Surroundings.Journals.heeds {env : Surroundings V σ} {m : Marshaller V}
    {read : σ → List (Line V)} (h : env.Journals m read) (view factory : Nat) :
    env.Heeds m (.over read view factory) where
  before request w := (h.before request w).spares (List.forall_mem_singleton.mpr rfl)
  after request w := (h.after request w).spares .nil
  encode value w := ⟨(h.encode value w).1, (h.encode value w).2.spares .nil⟩
  decode bytes w := (h.decode bytes w).2.spares .nil
  hear number heard w := (h.hear number heard w).spares (List.forall_mem_singleton.mpr rfl)
  callback callback w := by
    obtain ⟨scene, hw, hread⟩ := h.callback callback w
    rw [hw]
    refine ⟨⟨rfl, Nat.le_refl _, rfl, hread⟩, fun ha {f counters} hf hcounters direction => ?_⟩
    rw [ha hf hcounters]
    change (read scene).countP _ = (read w.scene).countP _ + _
    rw [hread, List.countP_append, List.countP_singleton]
    rfl

namespace World

variable {env : Surroundings V σ} {m : Marshaller V} {x : Watch V σ} {w w' w'' : World V σ}
  {lines lines' : List (Line V)}

theorem Spares.refl (x : Watch V σ) (w : World V σ) : w.Spares x w [] :=
  ⟨⟨rfl, Nat.le_refl _, rfl, (List.append_nil _).symm⟩, fun h => h⟩

theorem Spares.trans (h : w.Spares x w' lines) (h' : w'.Spares x w'' lines') :
    w.Spares x w'' (lines ++ lines') := by
  refine ⟨⟨h'.view.trans h.view, h.drawn.trans h'.drawn, h'.persistent.trans h.persistent, ?_⟩,
    fun ha => h'.audited (h.audited ha)⟩
  rw [h'.read, h.read, List.append_assoc]

/-- A factory changes in what has nothing to do with callbacks. -/
theorem Spares.change (x : Watch V σ) (w : World V σ) (number : Nat)
    {change : Factory V → Factory V}
    (hc : ∀ f, (change f).metrics.map Metrics.notified = f.metrics.map Metrics.notified) :
    w.Spares x (w.changeFactory number change) [] := by
  refine ⟨⟨rfl, Nat.le_refl _, rfl, (List.append_nil _).symm⟩, ?_⟩
  intro ha f counters hf hcounters
  rw [factory?_changeFactory] at hf
  split at hf
  · obtain ⟨g, hg, rfl⟩ := Option.map_eq_some_iff.mp hf
    have hsame := hc g
    rw [hcounters] at hsame
    obtain ⟨old, hold, heq⟩ := Option.map_eq_some_iff.mp hsame.symm
    exact heq.symm.trans (ha hg hold)
  · exact ha hf hcounters

theorem Spares.record (x : Watch V σ) (w : World V σ) (number : Nat) {measure : Measure}
    (hm : ∀ direction, measure ≠ .activationNotified direction) :
    w.Spares x (w.record number measure) [] := by
  refine .change x w number fun f => ?_
  rw [Option.map_map]
  exact congrArg (Option.map · _) (funext fun counters => counters.notified_record_other hm)

/-- A callback that is raised is received once and counted once. -/
theorem raise_spares (hx : env.Heeds m x) (w : World V σ) (callback : Callback V) :
    w.Spares x (w.raise env callback) [.called callback] := by
  have h := hx.callback callback w
  -- When the provider is called the counters are one behind; only then the callback is counted.
  refine ⟨⟨h.view, h.drawn, h.persistent, h.read⟩, fun ha {f counters} hf hcounters => ?_⟩
  unfold raise at hf
  rw [World.record, factory?_changeFactory] at hf
  funext direction
  by_cases hk : callback.factory = x.factory
  · rw [if_pos hk] at hf
    obtain ⟨g, hg, rfl⟩ := Option.map_eq_some_iff.mp hf
    obtain ⟨old, hold, rfl⟩ := Option.map_eq_some_iff.mp hcounters
    rw [Metrics.notified_record]
    refine Eq.trans ?_ (h.received ha hg hold direction).symm
    simp [Line.tells, hk]
  · rw [if_neg hk] at hf
    refine Eq.trans ?_ (h.received ha hf hcounters direction).symm
    simp [Line.tells, hk]

section Calls

theorem schedule_spares (x : Watch V σ) (number : Nat) (session : SessionId) (w : World V σ)
    (id : AttributeId) : w.Spares x (schedule number session w id) [] := by
  have hscheduled : w.Spares x (w.changeFactory number fun f =>
      { f with executor := f.executor.execute ⟨session, id⟩ }) [] := .change x w number fun _ => rfl
  exact hscheduled.trans (.record x _ number fun _ => nofun)

/-- Only lines without callbacks are written, and the watched view is left alone. -/
def Murmurs (x : Watch V σ) (w w' : World V σ) : Prop :=
  ∃ lines, Line.Mute lines ∧ w.Spares x w' lines

theorem Murmurs.trans (h : w.Murmurs x w') (h' : w'.Murmurs x w'') : w.Murmurs x w'' := by
  obtain ⟨lines, hlines, h⟩ := h
  obtain ⟨lines', hlines', h'⟩ := h'
  exact ⟨_, hlines.append hlines', h.trans h'⟩

theorem Spares.murmurs (h : w.Spares x w' []) : w.Murmurs x w' := ⟨[], .nil, h⟩

/-- A call is asked for, and if it does not fail it is served. -/
theorem guarded_spares {A : Type} {request : Request} {serve : World V σ → A × World V σ}
    (hx : env.Heeds m x)
    (hs : ∀ w₁, w.Spares x w₁ [.asked request none] → w₁.Murmurs x (serve w₁).2) :
    ∃ fault heard, Line.Mute heard ∧
      w.Spares x (w.guarded env request serve).2 (.asked request fault :: heard) := by
  have hbefore := hx.before request w
  unfold guarded
  generalize env.before request w = r at hbefore
  obtain ⟨fault, w₁⟩ := r
  cases fault with
  | some fault => exact ⟨some fault, [], .nil, hbefore⟩
  | none =>
    obtain ⟨heard, hheard, hserve⟩ := hs w₁ hbefore
    have hall := (hbefore.trans hserve).trans (hx.after request (serve w₁).2)
    rw [List.append_nil] at hall
    exact ⟨none, heard, hheard, hall⟩

theorem heard_murmurs (hx : env.Heeds m x) (number : Nat) (heard : Heard) (w : World V σ) :
    w.Murmurs x (env.hear number heard w) :=
  ⟨[.heard number heard], List.forall_mem_singleton.mpr rfl, hx.hear number heard w⟩

theorem callNames_spares (hx : env.Heeds m x) (w : World V σ) (call : StoreCall SessionId Names) :
    ∃ fault heard, Line.Mute heard ∧
      w.Spares x (w.callNames env call).2 (.asked (.names call) fault :: heard) := by
  refine guarded_spares hx fun w₁ _ => ?_
  refine namesPlace.serve_lasting (I := w₁.Murmurs x) (fun w store _ h => ?_)
    (fun hearer event w h => ?_) call (Spares.refl x w₁).murmurs
  · have hput : w.Spares x (namesPlace.set w { namesPlace.get w with store }) [] :=
      ⟨⟨rfl, Nat.le_refl _, rfl, (List.append_nil _).symm⟩, fun ha => ha⟩
    exact h.trans hput.murmurs
  · cases hearer with
    | observer number => exact h.trans (heard_murmurs hx number (.names event) w)
    | factory number =>
      cases event with
      | prePassivate session names =>
        exact foldl_lasting (fun w id h => h.trans (schedule_spares x number session w id).murmurs)
          names.values h
      | _ => exact h

/-- Listeners of a persistent attribute store do not hear of what it passivates, and so no factory
raises a callback. -/
theorem callAttributes_spares (hx : env.Heeds m x) (hp : w.attributes.store.persistent = true)
    (call : StoreCall AttributeKey Bytes) :
    ∃ fault heard, Line.Mute heard ∧
      w.Spares x (w.callAttributes env call).2 (.asked (.attributes call) fault :: heard) := by
  refine guarded_spares hx fun w₁ hasked => ?_
  have hp₁ : w₁.attributes.store.persistent = true := hasked.persistent.trans hp
  have hkept : ∀ {w : World V σ}, w₁.Murmurs x w → w.attributes.store.persistent = true := by
    rintro w ⟨lines, -, h⟩
    exact h.persistent.trans hp₁
  refine attributesPlace.serve_heeding (I := w₁.Murmurs x)
    (fun event => (∃ key value, event = .modified key value) ∨ ∃ key, event = .removed key)
    (fun w store hadvance h => ?_) (fun {w notice} h hannounced => ?_)
    (fun hearer event w hevent h => ?_) call (Spares.refl x w₁).murmurs
  · have hpersistent : store.persistent = w.attributes.store.persistent := by
      cases hadvance with
      | still => rfl
      | step call => exact (w.attributes.store.settled_persistent call).1
      | count notice => exact w.attributes.store.count_persistent notice
    have hput : w.Spares x (attributesPlace.set w { attributesPlace.get w with store }) [] :=
      ⟨⟨rfl, Nat.le_refl _, hpersistent, (List.append_nil _).symm⟩, fun ha => ha⟩
    exact h.trans hput.murmurs
  · have hpersistent : (attributesPlace.get w).store.persistent = true := hkept h
    cases notice with
    | passivated key value => simp [Store.announces, hpersistent] at hannounced
    | activated key value => simp [Store.announces, hpersistent] at hannounced
    | modified key value => exact List.forall_mem_singleton.mpr (.inl ⟨key, value, rfl⟩)
    | removed key => exact List.forall_mem_singleton.mpr (.inr ⟨key, rfl⟩)
  · cases hearer with
    | observer number => exact h.trans (heard_murmurs hx number (.attributes event) w)
    | factory number =>
      rcases hevent with ⟨key, value, rfl⟩ | ⟨key, rfl⟩ <;> exact h

end Calls

/-- A world in which the watched view is as a desk says, and lines were written since some
moment. -/
structure Shows (x : Watch V σ) (v : View V) (n : Notifier V) (base : List (Line V)) (w : World V σ)
    (s : Desk V) : Prop where
  live : ∃ locked, w.view? x.view = some ⟨v, x.factory, s.state, locked, some n⟩
  drawn : s.drawn ≤ w.drawn
  persistent : w.attributes.store.persistent = true
  audited : w.Audited x
  read : x.read w.scene = base ++ s.said

section Performing
variable {v : View V} {n : Notifier V} {base : List (Line V)} {s : Desk V}

theorem Shows.spares (h : w.Shows x v n base s) (hs : w.Spares x w' lines) :
    w'.Shows x v n base { s with said := s.said ++ lines } := by
  obtain ⟨locked, hlive⟩ := h.live
  refine ⟨⟨locked, hs.view.trans hlive⟩, h.drawn.trans hs.drawn, hs.persistent.trans h.persistent,
    hs.audited h.audited, ?_⟩
  rw [hs.read, h.read, List.append_assoc]

theorem Shows.still (h : w.Shows x v n base s) (hs : w.Spares x w' []) :
    w'.Shows x v n base s := by
  have hsame := h.spares hs
  rw [List.append_nil] at hsame
  exact hsame

theorem Shows.changeView (h : w.Shows x v n base s) {change : LiveView V → LiveView V}
    {state : ViewState V} (hc : ∀ locked, ∃ locked',
      change ⟨v, x.factory, s.state, locked, some n⟩ = ⟨v, x.factory, state, locked', some n⟩) :
    (w.changeView x.view change).Shows x v n base { s with state } := by
  obtain ⟨locked, hlive⟩ := h.live
  obtain ⟨locked', hchange⟩ := hc locked
  refine ⟨⟨locked', ?_⟩, h.drawn, h.persistent, h.audited, h.read⟩
  rw [view?_changeView, if_pos rfl, hlive, Option.map_some, hchange]

def sender (x : Watch V σ) (n : Notifier V) : Sender V := ⟨x.factory, n.session, n.context⟩

/-- An action that is carried out for the watched view does on the desk what the rule says. -/
theorem perform_shows (hx : env.Heeds m x) (h : w.Shows x v n base s) (action : Action V)
    {post : action.Answer → Desk V → Prop}
    (hp : Rule.desk m env.draw ((sender x n).raised n.isClosed) action s post) :
    ∃ s', post (w.perform env ⟨x.factory, some x.view⟩ action).1 s' ∧
      (w.perform env ⟨x.factory, some x.view⟩ action).2.Shows x v n base s' := by
  cases action with
  | isOpen => exact ⟨s, hp _, h⟩
  | encode value =>
    obtain ⟨hanswer, hs⟩ := hx.encode value w
    refine ⟨s, ?_, h.still hs⟩
    change post (env.encode value w).1 s
    rw [hanswer]
    exact hp
  | decode bytes => exact ⟨s, hp _, h.still (hx.decode bytes w)⟩
  -- The desk allows any answer, so what the store answers here does not matter.
  | names call =>
    obtain ⟨fault, heard, hheard, hs⟩ := callNames_spares hx w call
    exact ⟨_, hp _ fault heard hheard, h.spares hs⟩
  | attributes call =>
    obtain ⟨fault, heard, hheard, hs⟩ := callAttributes_spares hx h.persistent call
    exact ⟨_, hp _ fault heard hheard, h.spares hs⟩
  | draw =>
    exact ⟨_, hp w.drawn h.drawn, h.live, Nat.le_refl _, h.persistent, h.audited, h.read⟩
  | lock =>
    obtain ⟨locked, hlive⟩ := h.live
    refine ⟨s, ?_, h.changeView fun locked => ⟨true, rfl⟩⟩
    change post ((((some x.view).bind w.view?).map LiveView.state).getD ⟨Bundle.empty, []⟩) s
    rw [Option.bind_some, hlive]
    exact hp
  | unlock state => exact ⟨_, hp, h.changeView fun locked => ⟨false, rfl⟩⟩
  | record measure => exact ⟨s, hp.2, h.still (.record x w x.factory hp.1)⟩
  | notify direction value =>
    obtain ⟨locked, hlive⟩ := h.live
    refine ⟨_, hp, ?_⟩
    change (w.notifyView env x.view direction value).Shows x v n base _
    unfold notifyView Sender.raised
    rw [hlive]
    dsimp only
    cases n.isClosed with
    | true =>
      rw [if_pos rfl, if_pos rfl, List.append_nil]
      exact h
    | false => exact h.spares (raise_spares hx w _)

/-- What is secured on the desk comes about in the world. -/
theorem carryOut_shows (hx : env.Heeds m x) {q : Procedure V α} {post : α → Desk V → Prop}
    (h : w.Shows x v n base s)
    (hp : q.Secures (Rule.desk m env.draw ((sender x n).raised n.isClosed)) post s) :
    ∃ s', post (w.carryOut env ⟨x.factory, some x.view⟩ q).1 s' ∧
      (w.carryOut env ⟨x.factory, some x.view⟩ q).2.Shows x v n base s' := by
  induction q generalizing w s with
  | done result => exact ⟨s, hp, h⟩
  | act action next ih =>
    obtain ⟨s', hnext, h'⟩ := perform_shows hx h action hp
    exact ih _ h' hnext

end Performing

def bundle (w : World V σ) (number : Nat) : Bundle V :=
  ((w.view? number).map fun live => live.state.bundle).getD Bundle.empty

end World

/-- The calls that were made on the watched view since some moment, one after the other, and what
its ledger tells of them. Meanwhile anything else may have happened. The identifiers that the calls
draw are different as long as there is a supply. -/
inductive Watch.Served [BEq V] (x : Watch V σ) (env : Surroundings V σ) (ids : Supply)
    (w : World V σ) : World V σ → Ledger → Prop
  | opened : Served x env ids w w ⟨[], false⟩
  | call {w' : World V σ} {l : Ledger} (h : Served x env ids w w' l) {live : LiveView V}
      (hlive : w'.view? x.view = some live) (call : ViewCall V) {answer : call.Answer}
      {w'' : World V σ} (hc : w'.carryOut env ⟨live.factory, some x.view⟩
        (call.procedure live.view) = (answer, w'')) (hi : w''.drawn ≤ ids.limit) :
      Served x env ids w w'' (l.after live.view live.state.bundle (w''.bundle x.view) call answer)
  | close {w' : World V σ} {l : Ledger} (h : Served x env ids w w' l) :
      Served x env ids w (w'.closeView x.view) { l with closed := true }
  | meanwhile {w' w'' : World V σ} {l : Ledger} {lines : List (Line V)}
      (h : Served x env ids w w' l) (hs : w'.Spares x w'' lines) : Served x env ids w w'' l

namespace World

variable {env : Surroundings V σ} {m : Marshaller V} {x : Watch V σ} {w w' : World V σ}

structure Tracks (x : Watch V σ) (ids : Supply) (v : View V) (n : Notifier V)
    (l : Ledger) (w : World V σ) (state : ViewState V) : Prop where
  shows : w.Shows x v { n with isClosed := l.closed } (x.read w.scene) ⟨state, w.drawn, []⟩
  keeps : (⟨state, w.drawn, []⟩ : Desk V).Keeps ids l.touched

namespace Tracks

variable {ids : Supply} {v : View V} {n : Notifier V} {l : Ledger} {state : ViewState V}

theorem live (h : w.Tracks x ids v n l state) : ∃ locked, w.view? x.view =
    some ⟨v, x.factory, state, locked, some { n with isClosed := l.closed }⟩ := h.shows.live

/-- A desk tells the same of a world if lines were written or identifiers drawn in between. -/
theorem of_shows {base : List (Line V)} {s : Desk V}
    (h : w.Shows x v { n with isClosed := l.closed } base s) (hk : s.Keeps ids l.touched) :
    w.Tracks x ids v n l s.state := by
  refine ⟨⟨h.live, Nat.le_refl _, h.persistent, h.audited, (List.append_nil _).symm⟩, hk.tidy,
    fun k hd => hk.fresh k (h.drawn.trans hd), hk.marks⟩

theorem spares (h : w.Tracks x ids v n l state) (hs : w.Spares x w' lines) :
    w'.Tracks x ids v n l state :=
  .of_shows (h.shows.spares hs) ⟨h.keeps.tidy, h.keeps.fresh, h.keeps.marks⟩

theorem close (h : w.Tracks x ids v n l state) :
    (w.closeView x.view).Tracks x ids v n { l with closed := true } state := by
  obtain ⟨locked, hlive⟩ := h.live
  refine ⟨⟨⟨locked, ?_⟩, h.shows.drawn, h.shows.persistent, h.shows.audited, h.shows.read⟩, h.keeps⟩
  unfold closeView
  rw [view?_changeView, if_pos rfl, hlive]
  rfl

variable [BEq V]

/-- One call of the watched view. -/
theorem call (h : w.Tracks x ids v n l state) (hx : env.Heeds m x)
    (hd : env.draw = ids.draw) (hv : v.notifies = true) (call : ViewCall V) :
    let r := w.carryOut env ⟨x.factory, some x.view⟩ (call.procedure v)
    ∃ lines state', x.read r.2.scene = x.read w.scene ++ lines ∧
      call.Brings m (sender x n) v state.bundle l lines ∧ (r.2.drawn ≤ ids.limit →
        r.2.Tracks x ids v n (l.after v state.bundle (r.2.bundle x.view) call r.1) state') := by
  intro r
  have hdesk := View.procedure_desk (m := m) (x := sender x n) hv h.keeps call
  rw [← hd] at hdesk
  obtain ⟨s', ⟨lines, hsaid, hbrings, hkeeps⟩, hshows⟩ := carryOut_shows hx h.shows hdesk
  obtain ⟨locked, hlive⟩ := hshows.live
  have hbundle : r.2.bundle x.view = s'.state.bundle := by
    unfold World.bundle
    rw [hlive]
    rfl
  refine ⟨lines, s'.state, ?_, hbrings, fun hlimit =>
    hbundle ▸ .of_shows hshows (hkeeps (hshows.drawn.trans hlimit))⟩
  rw [hshows.read, hsaid]
  rfl

/-- Whatever is called, and whatever happens meanwhile. -/
theorem served (hx : env.Heeds m x) (hd : env.draw = ids.draw)
    (hv : v.notifies = true) {w₁ : World V σ} {opened : ViewState V}
    (h : w₁.Tracks x ids v n ⟨[], false⟩ opened) (hs : x.Served env ids w₁ w l) :
    ∃ state, w.Tracks x ids v n l state := by
  induction hs with
  | opened => exact ⟨opened, h⟩
  | call hs hlive call hc hlimit ih =>
    obtain ⟨state, htracks⟩ := ih
    -- The ledger follows the bundle that the live view shows, which is the tracked one.
    obtain ⟨locked, hknown⟩ := htracks.live
    cases hlive.symm.trans hknown
    obtain ⟨lines, state', -, -, hafter⟩ := htracks.call hx hd hv call
    rw [hc] at hafter
    exact ⟨state', hafter hlimit⟩
  | close hs ih =>
    obtain ⟨state, htracks⟩ := ih
    exact ⟨state, htracks.close⟩
  | meanwhile hs hspares ih =>
    obtain ⟨state, htracks⟩ := ih
    exact ⟨state, htracks.spares hspares⟩

end Tracks

/-- A factory that was just opened has counted nothing. -/
theorem openFactory_audited {options : FactoryOptions} {immutability : Immutability V}
    {context : String} {counts : Bool}
    (ho : w.openFactory options immutability context counts = .ok (x.factory, w'))
    (hr : ∀ direction, x.received w.scene direction = 0) : w'.Audited x := by
  obtain ⟨hnumber, -, hscene, f, hentered, -, hmetrics, -⟩ := openFactory_shape ho
  intro g counters hg hcounters
  rw [hentered.factory?, if_pos hnumber] at hg
  cases hg
  rw [hmetrics] at hcounters
  funext direction
  rw [hscene, hr]
  cases counts with
  | false => cases hcounters
  | true =>
    cases hcounters
    cases direction <;> rfl

section Opening
variable {ids : Supply} {session : SessionId} {bundle : Bundle V} {metadata : Metadata}
  {context : String}

/-- A view that was just opened over a persistent attribute store. No name was touched yet. -/
theorem openView_tracks (hp : w.attributes.store.persistent = true) (ha : w.Audited x)
    (ht : bundle.Tidy) (hf : ∀ n, w.drawn ≤ n → n < ids.limit → ids.draw n ∉ bundle.names.values)
    (ho : w.openView x.factory session bundle metadata context = .ok (x.view, w')) :
    ∃ v : View V, v.session = session ∧ v.notifies = true ∧ w'.Tracks x ids v
      ⟨⟨session, some metadata, some bundle⟩, context, false⟩ ⟨[], false⟩ ⟨bundle, []⟩ := by
  unfold openView at ho
  cases hfactory : w.factory? x.factory with
  | none =>
    rw [hfactory] at ho
    cases ho
  | some f =>
    rw [hfactory] at ho
    cases hopen : f.isOpen with
    | false =>
      simp only [hopen, Bool.not_false, if_true, reduceCtorEq] at ho
    | true =>
      simp only [hopen, hp, Bool.not_true, Bool.false_eq_true, if_false, if_true, Except.ok.injEq,
        Prod.mk.injEq] at ho
      obtain ⟨hview, rfl⟩ := ho
      refine ⟨⟨session, true, f.immutability⟩, rfl, rfl, ⟨⟨false, ?_⟩, Nat.le_refl _, hp, ha,
        (List.append_nil _).symm⟩, ht, hf, ?_⟩
      · unfold view?
        rw [← hview]
        exact List.getElem?_concat_length
      · intro name id _
        simp

/-- A view over a persistent attribute store raises its callbacks by itself, and every one of them
tells what was true when the view was opened. Whatever was called and whatever has failed since, the
next call brings about what the ledger of the view tells; and the callbacks are counted. What the
view holds stays tidy, as the bundle of a new session is and any that a load finds. -/
theorem callbacks_scheduled [BEq V] (hx : env.Heeds m x)
    (hd : env.draw = ids.draw) {w₀ w₁ : World V σ}
    (hp : w₀.attributes.store.persistent = true) (ha : w₀.Audited x) (ht : bundle.Tidy)
    (hf : ∀ n, w₀.drawn ≤ n → n < ids.limit → ids.draw n ∉ bundle.names.values)
    (ho : w₀.openView x.factory session bundle metadata context = .ok (x.view, w₁)) {l : Ledger}
    (hs : x.Served env ids w₁ w l) :
    w.Audited x ∧ ∃ live, w.view? x.view = some live ∧ live.view.session = session ∧
      live.state.bundle.Tidy ∧ ∀ call : ViewCall V,
        let r := w.carryOut env ⟨live.factory, some x.view⟩ (call.procedure live.view)
        ∃ lines, x.read r.2.scene = x.read w.scene ++ lines ∧
          call.Brings m ⟨x.factory, ⟨session, some metadata, some bundle⟩, context⟩ live.view
            live.state.bundle l lines := by
  obtain ⟨v, hsession, hv, hopened⟩ := openView_tracks hp ha ht hf ho
  obtain ⟨state, htracks⟩ := hopened.served hx hd hv hs
  obtain ⟨locked, hlive⟩ := htracks.live
  refine ⟨htracks.shows.audited, _, hlive, hsession, htracks.keeps.tidy, fun call => ?_⟩
  obtain ⟨lines, -, hread, hbrings, -⟩ := htracks.call hx hd hv call
  exact ⟨lines, hread, hbrings⟩

end Opening

/-- A factory over a persistent attribute store. One identifier was drawn. -/
def lender : World Bool (List (Line Bool)) :=
  let w := { blank true [] with drawn := 1 }
  w.opened (w.openFactory { workers := 1 } Immutability.never "c" true)

def lent : Bundle Bool := (Bundle.empty.bindName "a" (.ofNat 0)).setValue (.ofNat 0) true

/-- A value that was read is not announced again when it is read again, and what is announced later
still tells of the bundle that the view was opened over. -/
theorem callbacks_scheduled_once :
    let env := Surroundings.journaling Marshaller.bits AttributeId.ofNat
    let w₁ := lender.opened (lender.openView 0 "s" lent ⟨0, 0, 0⟩ "request")
    let view : View Bool := ⟨"s", true, Immutability.never⟩
    let after (call : ViewCall Bool) (w : World Bool (List (Line Bool))) :=
      (w.carryOut env ⟨0, some 0⟩ (call.procedure view)).2
    let w := after (.get "a") w₁
    w.scene.countP (Line.tells 0 .activate) = 1 ∧ w.Audited (.over id 0 0) ∧
      (after (.get "a") w).scene = w.scene ∧
      ∃ rest, Line.Mute rest ∧ (after (.set "a" false) w).scene = w.scene ++
        .called ⟨0, .passivate, ⟨"s", some ⟨0, 0, 0⟩, some lent⟩, "request", false⟩ :: rest := by
  intro env w₁ view after w
  have hx : env.Heeds .bits (.over id 0 0) := (Surroundings.journaling_journals _ _).heeds 0 0
  have hopened : ({ blank true [] with drawn := 1 } : World Bool (List (Line Bool))).openFactory
      { workers := 1 } Immutability.never "c" true = .ok (0, lender) := rfl
  have ha : lender.Audited (.over id 0 0) := openFactory_audited hopened fun _ => rfl
  have ht : lent.Tidy := Bundle.empty_tidy.create rfl List.not_mem_nil true
  have hf : ∀ n, lender.drawn ≤ n → n < Supply.counting.limit →
      Supply.counting.draw n ∉ lent.names.values := by
    intro n hn hlt hm
    exact Supply.counting.distinct 0 n hn hlt (List.mem_singleton.mp hm).symm
  have ho : lender.openView 0 "s" lent ⟨0, 0, 0⟩ "request" = .ok (0, w₁) := rfl
  have hs : (Watch.over id 0 0).Served env .counting w₁ w ⟨["a"], false⟩ :=
    .call .opened (rfl : w₁.view? 0 = some _) (.get "a") rfl (by decide +kernel)
  obtain ⟨haudited, live, hlive, -, -, hcalls⟩ :=
    callbacks_scheduled hx rfl rfl ha ht hf ho hs
  have hview : (w.view? 0).map LiveView.view = some view := rfl
  have hfactory : (w.view? 0).map LiveView.factory = some 0 := rfl
  have hvalue : (w.view? 0).map (fun live => live.state.bundle.get? "a") = some (some true) := by
    decide +kernel
  replace hlive : w.view? 0 = some live := hlive
  rw [hlive, Option.map_some, Option.some.injEq] at hview hfactory hvalue
  rw [hview, hfactory] at hcalls
  dsimp only [Watch.over, id_eq] at hcalls
  refine ⟨by decide +kernel, haudited, ?_, ?_⟩
  · obtain ⟨lines, hread, hbrings⟩ := hcalls (.get "a")
    have hnothing : lines = [] := by
      refine hbrings.trans ?_
      rw [hvalue]
      rfl
    rw [hnothing, List.append_nil] at hread
    exact hread
  · obtain ⟨lines, hread, hbrings⟩ := hcalls (.set "a" false)
    have hskips : view.skips live.state.bundle "a" false = false := by
      unfold View.skips
      rw [hvalue]
      rfl
    replace hbrings : ViewCall.Writes Marshaller.bits _ view live.state.bundle _ "a" false lines :=
      hbrings
    unfold ViewCall.Writes at hbrings
    rw [hskips] at hbrings
    obtain ⟨entry, fault, rest, hrest, hlines⟩ := hbrings
    have hraised : lines = .called ⟨0, .passivate, ⟨"s", some ⟨0, 0, 0⟩, some lent⟩, "request",
        false⟩ :: .asked (.attributes (.put ⟨"s", entry⟩ [0] .writeOnly)) fault :: rest := hlines
    rw [hraised] at hread
    exact ⟨_, hrest.asked _ fault, hread⟩

end World
end SessionAttributes
