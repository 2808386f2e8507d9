import SessionAttributes.Proofs.Session.Verdict
import SessionAttributes.Proofs.World.Narrowing

namespace SessionAttributes

variable {V : Type}

namespace Scope

/-- What an operation does with its scope, and what it draws: at most one identifier. -/
structure Draws {α : Type} (draw draw' : Nat → AttributeId) (s : Scope V) (drawn : Nat)
    (r r' : α × Scope V) (n : Nat) : Prop where
  first : r.2.drawn = s.drawn + n
  second : r'.2.drawn = drawn + n
  same : ((List.range' s.drawn n).map draw = (List.range' drawn n).map draw') →
    r'.1 = r.1 ∧ r'.2 = { r.2 with drawn := drawn + n }

theorem Draws.nothing {α : Type} {draw draw' : Nat → AttributeId} {s : Scope V} {drawn : Nat}
    {r r' : α × Scope V} (hr : r.2.drawn = s.drawn) (ha : r'.1 = r.1)
    (hs : r'.2 = { r.2 with drawn }) : Draws draw draw' s drawn r r' 0 :=
  ⟨hr, congrArg Scope.drawn hs, fun _ => ⟨ha, hs⟩⟩

theorem create_redrawn (s : Scope V) (drawn : Nat) (name : String) (value : V) (id : AttributeId)
    (bytes : Bytes) :
    ({ s with drawn }.create name value id bytes) =
      { s.create name value id bytes with drawn } := by
  have hk : ({ s with drawn } : Scope V).known = s.known := rfl
  unfold create
  rw [hk]
  cases (s.known.get? name).filter (· != id) <;> rfl

variable [BEq V] (m : Marshaller V) (draw draw' : Nat → AttributeId)
  (immutability : Immutability V)

theorem set_draws (name : String) (value : V) (s : Scope V) (drawn : Nat) :
    ∃ n, Draws draw draw' s drawn (s.set m draw immutability name value)
      ({ s with drawn }.set m draw' immutability name value) n := by
  have hb : ({ s with drawn } : Scope V).bundle = s.bundle := rfl
  unfold set
  cases m.write value with
  | error fault => exact ⟨0, .nothing rfl rfl rfl⟩
  | ok bytes =>
    simp only [hb]
    split
    · exact ⟨0, .nothing rfl rfl rfl⟩
    · cases s.bundle.attributeId? name with
      | some id => exact ⟨0, .nothing rfl rfl rfl⟩
      | none =>
        dsimp only
        refine ⟨1, ?_, ?_, fun hdraw => ?_⟩
        · rw [create_redrawn s (s.drawn + 1)]
        · rw [create_redrawn s (drawn + 1)]
        · have hid : draw' drawn = draw s.drawn := by simpa using hdraw.symm
          rw [hid, create_redrawn s (s.drawn + 1), create_redrawn s (drawn + 1)]
          exact ⟨rfl, rfl⟩

/-- An operation of a view depends on what is drawn for it, and not on what was drawn before. -/
theorem carryOut_draws (call : ViewCall V) (s : Scope V) (drawn : Nat) :
    ∃ n, Draws draw draw' s drawn (s.carryOut m draw immutability call)
      ({ s with drawn }.carryOut m draw' immutability call) n := by
  have hb : ({ s with drawn } : Scope V).bundle = s.bundle := rfl
  cases call with
  | get name => exact ⟨0, .nothing rfl rfl rfl⟩
  | names => exact ⟨0, .nothing rfl rfl rfl⟩
  | snapshot => exact ⟨0, .nothing rfl rfl rfl⟩
  | set name value => exact set_draws m draw draw' immutability name value s drawn
  | update name change =>
    simp only [carryOut, update, hb]
    cases s.bundle.get? name with
    | none => exact ⟨0, .nothing rfl rfl rfl⟩
    | some value =>
      obtain ⟨n, h⟩ := set_draws m draw draw' immutability name (change value) s drawn
      refine ⟨n, h.first, h.second, fun hdraw => ?_⟩
      obtain ⟨ha, hs⟩ := h.same hdraw
      exact ⟨congrArg (Except.map fun _ => true) ha, hs⟩
  | remove name =>
    simp only [carryOut, remove, hb]
    cases s.bundle.attributeId? name with
    | none => exact ⟨0, .nothing rfl rfl rfl⟩
    | some id => exact ⟨0, .nothing rfl rfl rfl⟩

end Scope

namespace Scope

def load (m : Marshaller V) (session : SessionId) (repair : Bool) (s : Scope V) :
    Except SessionError (Option (Bundle V)) × Scope V :=
  match s.isOpen with
  | true => (.ok (s.loaded m session), s.settled m session repair)
  | false => (.error .factoryClosed, s)

def delete (s : Scope V) : Except SessionError Bool × Scope V :=
  match s.isOpen with
  | true => (.ok true, s.purged)
  | false => (.error .factoryClosed, s)

theorem load_drawn (m : Marshaller V) (session : SessionId) (repair : Bool) (s : Scope V)
    (drawn : Nat) : ({ s with drawn } : Scope V).load m session repair =
      ((s.load m session repair).1, { (s.load m session repair).2 with drawn }) := by
  have hloaded : ({ s with drawn } : Scope V).loaded m session = s.loaded m session := rfl
  obtain ⟨isOpen, stored, entries, state, before⟩ := s
  cases isOpen with
  | false => rfl
  | true =>
    simp only [load, settled, hloaded]
    split <;> rfl

theorem delete_drawn (s : Scope V) (drawn : Nat) :
    ({ s with drawn } : Scope V).delete = (s.delete.1, { s.delete.2 with drawn }) := by
  obtain ⟨isOpen, stored, entries, state, before⟩ := s
  cases isOpen <;> rfl

end Scope

namespace Session

variable (m : Marshaller V) (draw : Nat → AttributeId) (session : SessionId)

/-- Without failing calls a load acts as the function of its scope. -/
theorem load_acts (repair : Bool) (s : Scope V) :
    (load session repair).run.runWith (Scope.perform m draw session) s =
      s.load m session repair := by
  have hrun : (load session repair).run.Secures ((Terms.plain draw).rule m session)
      (fun r s' => (r, s') = s.load m session repair) s := by
    unfold Scope.load
    cases ho : s.isOpen with
    | true =>
      refine Procedure.Secures.mono (Terms.rule_monotone _ m session) ?_
        (load_settles draw session repair ho)
      rintro r s' ⟨rfl, rfl⟩
      rfl
    | false =>
      rw [Attempt.secures_run]
      unfold load
      simp only [Attempt.secures_bind, Attempt.secures_ensureOpen, Terms.rule, ho]
      exact trivial
  exact Terms.secures_runWith hrun trivial fun _ => rfl

/-- Without failing calls a deletion acts as the function of its scope. -/
theorem delete_acts (deletion : Deletion) (s : Scope V) :
    (delete session deletion).run.runWith (Scope.perform m draw session) s = s.delete := by
  have hrun : (delete session deletion).run.Secures ((Terms.plain draw).rule m session)
      (fun r s' => (r, s') = s.delete) s := by
    rw [Attempt.secures_run]
    unfold Scope.delete
    cases ho : s.isOpen with
    | true => exact delete_secures draw deletion ho rfl
    | false =>
      unfold delete
      simp only [Attempt.secures_bind, Attempt.secures_ensureOpen, Terms.rule, ho]
      exact trivial
  exact Terms.secures_runWith hrun trivial fun _ => rfl

end Session

section Lists
variable {α : Type} {q : α → Bool} {l : List α} {n : Nat} {a : α}

/-- An element that is kept stands behind the kept ones before it. -/
theorem getElem?_filter_countP (h : l[n]? = some a) (hq : q a) :
    (l.filter q)[(l.take n).countP q]? = some a := by
  induction l generalizing n with
  | nil => cases h
  | cons b l ih =>
    cases n with
    | zero =>
      obtain rfl : b = a := by simpa using h
      simp [hq]
    | succ n =>
      have hrest := ih (n := n) (by simpa using h)
      by_cases hb : q b <;> simp [hb, hrest]

theorem filter_modify (f : α → α) (hf : ∀ a, q (f a) = q a) (h : l[n]? = some a) (hq : q a) :
    (l.modify n f).filter q = (l.filter q).modify ((l.take n).countP q) f := by
  induction l generalizing n with
  | nil => cases h
  | cons b l ih =>
    cases n with
    | zero =>
      obtain rfl : b = a := by simpa using h
      simp [hq, hf]
    | succ n =>
      have hrest := ih (n := n) (by simpa using h)
      by_cases hb : q b <;> simp [hb, hrest]

theorem filter_modify_other (f : α → α) (hf : ∀ a, q (f a) = q a)
    (h : ∀ a, l[n]? = some a → q a = false) : (l.modify n f).filter q = l.filter q := by
  induction l generalizing n with
  | nil => simp
  | cons b l ih =>
    cases n with
    | zero => simp [hf, h b rfl]
    | succ n =>
      have hrest := ih (n := n) (by simpa using h)
      by_cases hb : q b <;> simp [hb, hrest]

end Lists

namespace PlainWorld

/-- The sessions of the views, in the order in which these were handed out. -/
def sessions (p : PlainWorld V) : List SessionId := p.views.map fun v => v.view.session

/-- One world shows of a session, and of the factories, what another does, and has the views of that
session only. -/
structure Slices (session : SessionId) (p p' : PlainWorld V) : Prop where
  metadata : p'.metadata session = p.metadata session
  names : p'.names session = p.names session
  attributes : ∀ id, p'.attributes ⟨session, id⟩ = p.attributes ⟨session, id⟩
  factories : p'.factories = p.factories
  views : p'.views = p.views.filter fun v => v.view.session == session

/-- What an operation does, as an entry of the history. -/
def enter [BEq V] (m : Marshaller V) (draw : Nat → AttributeId) (op : Operation V)
    (p : PlainWorld V) : Entry V × PlainWorld V :=
  let r := p.operate m draw op
  (⟨op, r.1, drawnBetween draw p.drawn r.2.drawn⟩, r.2)

variable {session : SessionId} {p p' : PlainWorld V}

theorem rank_sessions (session : SessionId) (p : PlainWorld V) (view : Nat) :
    Entry.rank session p.sessions view =
      (p.views.take view).countP fun v => v.view.session == session := by
  unfold Entry.rank sessions
  rw [← List.map_take, List.count, List.countP_map]
  rfl

/-- Views of the session are found under their new numbers. -/
theorem Slices.view (h : Slices session p p') {view : Nat}
    (hv : p.sessions[view]? = some session) :
    ∃ v, v.view.session = session ∧ p.views[view]? = some v ∧
      p'.views[Entry.rank session p.sessions view]? = some v := by
  unfold sessions at hv
  rw [List.getElem?_map] at hv
  obtain ⟨v, hview, howner⟩ := Option.map_eq_some_iff.mp hv
  refine ⟨v, howner, hview, ?_⟩
  rw [rank_sessions, h.views]
  exact getElem?_filter_countP hview (by simp [howner])

/-- The scope is the same but for the identifiers drawn elsewhere. -/
theorem Slices.scope (h : Slices session p p') {actor actor' : World.Actor}
    (hf : actor'.factory = actor.factory) (hs : p'.stateOf actor' = p.stateOf actor) :
    p'.scope session actor' = { p.scope session actor with drawn := p'.drawn } := by
  have he : (fun id => p'.attributes ⟨session, id⟩) = fun id => p.attributes ⟨session, id⟩ :=
    funext h.attributes
  simp only [PlainWorld.scope, hf, hs, he, h.names, h.factories]

/-- A procedure of the session leaves the same of it. -/
theorem Slices.withScope (h : Slices session p p') {actor actor' : World.Actor}
    {s : Scope V} {drawn : Nat}
    (hviews : (p'.withScope session actor' { s with drawn }).views =
      (p.withScope session actor s).views.filter fun v => v.view.session == session) :
    Slices session (p.withScope session actor s)
      (p'.withScope session actor' { s with drawn }) := by
  refine ⟨h.metadata, ?_, fun id => ?_, h.factories, hviews⟩
  · rw [names_withScope, names_withScope]
  · rw [attributes_withScope, attributes_withScope]

/-- A procedure of another session leaves all of this one. -/
theorem Slices.withScope_other (h : Slices session p p') {other : SessionId}
    (hne : other ≠ session) {actor : World.Actor} {s : Scope V}
    (hviews : (p.withScope other actor s).views.filter (fun v => v.view.session == session) =
      p.views.filter fun v => v.view.session == session) :
    Slices session (p.withScope other actor s) p' := by
  refine ⟨h.metadata, ?_, fun id => ?_, h.factories, h.views.trans hviews.symm⟩
  · exact h.names.trans (Function.update_of_ne hne.symm _ _).symm
  · exact (h.attributes id).trans (if_neg hne.symm).symm

section Steps

variable {m : Marshaller V} {draw draw' : Nat → AttributeId}

/-- An operation answers alike in both worlds, up to the numbers of views, draws nothing in either,
and leaves the same of the session. -/
structure Quiet {α : Type} (session : SessionId) (p p' : PlainWorld V) (shorten : α → α)
    (r r' : α × PlainWorld V) : Prop where
  answer : r'.1 = shorten r.1
  first : r.2.drawn = p.drawn
  second : r'.2.drawn = p'.drawn
  slices : Slices session r.2 r'.2

theorem Slices.openFactory (h : Slices session p p') (options : FactoryOptions)
    (immutability : Immutability V) :
    Quiet session p p' id (p.taken (p.openFactory options immutability))
      (p'.taken (p'.openFactory options immutability)) := by
  unfold PlainWorld.openFactory
  cases options.validate with
  | error fault => exact ⟨rfl, rfl, rfl, h⟩
  | ok _ =>
    cases Executor.spawn (T := AttributeKey) options.workers with
    | error fault => exact ⟨rfl, rfl, rfl, h⟩
    | ok executor =>
      refine ⟨congrArg (fun factories => Except.ok (List.length factories)) h.factories, rfl, rfl,
        h.metadata, h.names, h.attributes, ?_, h.views⟩
      exact congrArg (· ++ [⟨true, immutability⟩]) h.factories

theorem Slices.closeFactory (h : Slices session p p') (factory : Nat) :
    Slices session (p.closeFactory factory) (p'.closeFactory factory) :=
  ⟨h.metadata, h.names, h.attributes,
    congrArg (fun factories : List (PlainFactory V) =>
      factories.modify factory fun f => { f with isOpen := false }) h.factories, h.views⟩

theorem Slices.openView (h : Slices session p p') (factory : Nat) (bundle : Bundle V) :
    Quiet session p p' (Except.map (Entry.rank session p.sessions))
      (p.taken (p.openView false factory session bundle))
      (p'.taken (p'.openView false factory session bundle)) := by
  unfold PlainWorld.openView
  rw [h.factories]
  cases p.factories[factory]? with
  | none => exact ⟨rfl, rfl, rfl, h⟩
  | some f =>
    cases ho : f.isOpen with
    | false => exact ⟨by simp [taken, ho, Except.map], by simp [taken, ho], by simp [taken, ho],
        by simpa [taken, ho] using h⟩
    | true =>
      have hlength : p'.views.length = Entry.rank session p.sessions p.views.length := by
        rw [rank_sessions, List.take_length, h.views, List.countP_eq_length_filter]
      simp only [ho, taken, Bool.not_true, Bool.false_eq_true, if_false]
      refine ⟨congrArg Except.ok hlength, rfl, rfl, h.metadata, h.names, h.attributes, rfl, ?_⟩
      simp [h.views]

theorem Slices.openView_other (h : Slices session p p') {other : SessionId} (hne : other ≠ session)
    (factory : Nat) (bundle : Bundle V) :
    Slices session (p.taken (p.openView false factory other bundle)).2 p' := by
  unfold PlainWorld.openView
  cases p.factories[factory]? with
  | none => exact h
  | some f =>
    cases ho : f.isOpen with
    | false => simpa [taken, ho] using h
    | true =>
      simp only [ho, taken, Bool.not_true, Bool.false_eq_true, if_false]
      exact ⟨h.metadata, h.names, h.attributes, h.factories, by simp [h.views, hne]⟩

/-- A procedure that works for no view and draws nothing. -/
theorem Slices.carryOut {α : Type} {q : Procedure V α} {f : Scope V → α × Scope V}
    (h : Slices session p p')
    (hrun : ∀ draw s, q.runWith (Scope.perform m draw session) s = f s)
    (hf : ∀ s drawn, f { s with drawn } = ((f s).1, { (f s).2 with drawn })) (factory : Nat) :
    Quiet session p p' id (p.carryOut m draw session factory q)
      (p'.carryOut m draw' session factory q) := by
  have hdrawn : ∀ s, (f s).2.drawn = s.drawn := by
    intro s
    have hsame := congrArg (fun r => r.2.drawn) (hf s s.drawn)
    exact hsame
  have hscope : p'.scope session ⟨factory, none⟩ =
      { p.scope session ⟨factory, none⟩ with drawn := p'.drawn } := h.scope rfl rfl
  have hsecond := hf (p.scope session ⟨factory, none⟩) p'.drawn
  unfold PlainWorld.carryOut
  rw [hrun, hrun, hscope, hsecond]
  refine ⟨rfl, hdrawn _, rfl, ?_⟩
  dsimp only
  refine h.withScope ?_
  exact h.views

theorem Slices.carryOut_other {α : Type} (h : Slices session p p') {other : SessionId}
    (hne : other ≠ session) (q : Procedure V α) (factory : Nat) :
    Slices session (p.carryOut m draw other factory q).2 p' := by
  unfold PlainWorld.carryOut
  dsimp only
  refine h.withScope_other hne ?_
  rfl

/-- An operation of a view of the session answers alike and leaves the same of the session, if it
draws the same. -/
theorem Slices.callView [BEq V] (m : Marshaller V) (draw draw' : Nat → AttributeId)
    (h : Slices session p p') {view : Nat} (hv : p.sessions[view]? = some session)
    (call : ViewCall V) :
    let r := p.callView m draw view call
    let r' := p'.callView m draw' (Entry.rank session p.sessions view) call
    ∃ n, r.2.drawn = p.drawn + n ∧ r'.2.drawn = p'.drawn + n ∧
      ((List.range' p.drawn n).map draw = (List.range' p'.drawn n).map draw' →
        r'.1 = r.1 ∧ Slices session r.2 r'.2) := by
  obtain ⟨v, rfl, hview, hview'⟩ := h.view hv
  have hscope : p'.scope v.view.session
      ⟨v.factory, some (Entry.rank v.view.session p.sessions view)⟩ =
        { p.scope v.view.session ⟨v.factory, some view⟩ with drawn := p'.drawn } :=
    h.scope rfl (by simp [stateOf, hview, hview'])
  rw [callView_some hview, callView_some hview', hscope]
  obtain ⟨n, hfirst, hsecond, hsame⟩ := Scope.carryOut_draws m draw draw' v.view.immutability call
    (p.scope v.view.session ⟨v.factory, some view⟩) p'.drawn
  refine ⟨n, hfirst, hsecond, fun hdraw => ?_⟩
  obtain ⟨ha, hs⟩ := hsame hdraw
  refine ⟨congrArg some ha, ?_⟩
  dsimp only
  rw [hs]
  refine h.withScope ?_
  rw [rank_sessions]
  simp only [PlainWorld.withScope, h.views]
  refine Eq.symm ?_
  exact filter_modify _ (fun _ => rfl) hview (beq_self_eq_true v.view.session)

theorem Slices.callView_other [BEq V] (h : Slices session p p') {view : Nat}
    (hv : p.sessions[view]? ≠ some session) (call : ViewCall V) :
    Slices session (p.callView m draw view call).2 p' := by
  cases hview : p.views[view]? with
  | none =>
    rw [callView_none hview]
    exact h
  | some v =>
    have hne : v.view.session ≠ session := by
      rintro rfl
      refine hv ?_
      unfold sessions
      rw [List.getElem?_map, hview]
      rfl
    rw [callView_some hview]
    dsimp only
    refine h.withScope_other hne ?_
    refine filter_modify_other _ (fun _ => rfl) fun a ha => ?_
    cases ha.symm.trans hview
    simp [hne]

variable [BEq V]

theorem enter_eq {op : Operation V} {answer : op.Answer} {ids : List AttributeId}
    (ha : (p.operate m draw op).1 = answer)
    (hids : drawnBetween draw p.drawn (p.operate m draw op).2.drawn = ids) :
    (p.enter m draw op).1 = ⟨op, answer, ids⟩ := by
  subst ha hids
  rfl

theorem drawn_nothing {op : Operation V} (h : (p.operate m draw op).2.drawn = p.drawn) :
    drawnBetween draw p.drawn (p.operate m draw op).2.drawn = [] := by
  rw [h, drawnBetween, Nat.sub_self]
  rfl

/-- What is left of an entry is what the narrowed operation does in a world that shows the same of
the session, if the same is drawn for it. -/
def Narrows (session : SessionId) (m : Marshaller V) (draw draw' : Nat → AttributeId)
    (p p' : PlainWorld V) (op : Operation V) : Option (Entry V) → Prop
  | none => Slices session (p.operate m draw op).2 p'
  | some e => ∀ ids, (p.enter m draw op).1.ids <+: ids → (p'.enter m draw' e.op).1.ids <+: ids →
      (p'.enter m draw' e.op).1 = e ∧
        Slices session (p.operate m draw op).2 (p'.operate m draw' e.op).2

theorem Narrows.quiet {op op' : Operation V} {answer : op'.Answer}
    (ha : (p'.operate m draw' op').1 = answer)
    (hfirst : (p.operate m draw op).2.drawn = p.drawn)
    (hsecond : (p'.operate m draw' op').2.drawn = p'.drawn)
    (hs : Slices session (p.operate m draw op).2 (p'.operate m draw' op').2) :
    Narrows session m draw draw' p p' op (some ⟨op', answer, (p.enter m draw op).1.ids⟩) := by
  refine fun ids _ _ => ⟨enter_eq ha ?_, hs⟩
  exact (drawn_nothing hsecond).trans (drawn_nothing hfirst).symm

theorem Slices.narrows_view (h : Slices session p p') (view : Nat) (call : ViewCall V) :
    Narrows session m draw draw' p p' (.view view call)
      ((p.enter m draw (.view view call)).1.narrowed session p.sessions) := by
  simp only [enter, Entry.narrowed]
  split
  · rename_i hv
    obtain ⟨n, hfirst, hsecond, hsame⟩ := h.callView m draw draw' hv call
    intro ids hids hids'
    have hdrawn : drawnBetween draw p.drawn (p.operate m draw (.view view call)).2.drawn = _ :=
      drawnBetween_of_add draw hfirst
    have hdrawn' : drawnBetween draw' p'.drawn (p'.operate m draw'
        (.view (Entry.rank session p.sessions view) call)).2.drawn = _ :=
      drawnBetween_of_add draw' hsecond
    -- both draw `n` identifiers, and both lists begin the same one
    have hsameids : (List.range' p.drawn n).map draw = (List.range' p'.drawn n).map draw' := by
      change drawnBetween .. <+: ids at hids hids'
      rw [hdrawn] at hids
      rw [hdrawn'] at hids'
      refine (List.prefix_of_prefix_length_le hids hids' ?_).eq_of_length ?_ <;> simp
    obtain ⟨ha, hs⟩ := hsame hsameids
    exact ⟨enter_eq ha (hdrawn'.trans (hsameids.symm.trans hdrawn.symm)), hs⟩
  · exact h.callView_other ‹_› call

theorem Slices.narrows_metadata (h : Slices session p p') (call : StoreCall SessionId Metadata) :
    Narrows session m draw draw' p p' (.metadata call)
      ((p.enter m draw (.metadata call)).1.narrowed session p.sessions) := by
  simp only [enter, Entry.narrowed]
  cases hc : call.narrowed (· = session) with
  | none =>
    refine ⟨?_, h.names, h.attributes, h.factories, h.views⟩
    exact h.metadata.trans (StoreCall.onMap_narrowed_none hc p.metadata (by simp)).symm
  | some r =>
    have hsame : ∀ k, decide (k = session) → p'.metadata k = p.metadata k :=
      fun k hk => of_decide_eq_true hk ▸ h.metadata
    obtain ⟨ha, hmap⟩ := StoreCall.onMap_narrowed hc hsame
    exact .quiet (congrArg Except.ok ha) rfl rfl
      ⟨hmap session (by simp), h.names, h.attributes, h.factories, h.views⟩

theorem Slices.narrows_names (h : Slices session p p') (call : StoreCall SessionId Names) :
    Narrows session m draw draw' p p' (.names call)
      ((p.enter m draw (.names call)).1.narrowed session p.sessions) := by
  simp only [enter, Entry.narrowed]
  cases hc : call.narrowed (· = session) with
  | none =>
    refine ⟨h.metadata, ?_, h.attributes, h.factories, h.views⟩
    exact h.names.trans (StoreCall.onMap_narrowed_none hc p.names (by simp)).symm
  | some r =>
    have hsame : ∀ k, decide (k = session) → p'.names k = p.names k :=
      fun k hk => of_decide_eq_true hk ▸ h.names
    obtain ⟨ha, hmap⟩ := StoreCall.onMap_narrowed hc hsame
    exact .quiet (congrArg Except.ok ha) rfl rfl
      ⟨h.metadata, hmap session (by simp), h.attributes, h.factories, h.views⟩

theorem Slices.narrows_attributes (h : Slices session p p')
    (call : StoreCall AttributeKey Bytes) :
    Narrows session m draw draw' p p' (.attributes call)
      ((p.enter m draw (.attributes call)).1.narrowed session p.sessions) := by
  simp only [enter, Entry.narrowed]
  cases hc : call.narrowed (·.session = session) with
  | none =>
    refine ⟨h.metadata, h.names, fun id => ?_, h.factories, h.views⟩
    exact (h.attributes id).trans
      (StoreCall.onMap_narrowed_none hc p.attributes (k := ⟨session, id⟩) (by simp)).symm
  | some r =>
    have hsame : ∀ k : AttributeKey, decide (k.session = session) →
        p'.attributes k = p.attributes k := by
      rintro ⟨owner, id⟩ hk
      obtain rfl : owner = session := of_decide_eq_true hk
      exact h.attributes id
    obtain ⟨ha, hmap⟩ := StoreCall.onMap_narrowed hc hsame
    exact .quiet (congrArg Except.ok ha) rfl rfl
      ⟨h.metadata, h.names, fun id => hmap ⟨session, id⟩ (by simp), h.factories, h.views⟩

/-- What of an operation concerns the session does the same in both worlds. -/
theorem Slices.narrows (h : Slices session p p') (op : Operation V) :
    Narrows session m draw draw' p p' op
      ((p.enter m draw op).1.narrowed session p.sessions) := by
  cases op with
  | openFactory options immutability context counts =>
    obtain ⟨ha, hfirst, hsecond, hs⟩ := h.openFactory options immutability
    exact .quiet ha hfirst hsecond hs
  | closeFactory factory => exact .quiet rfl rfl rfl (h.closeFactory factory)
  | openView factory owner bundle metadata context =>
    simp only [enter, Entry.narrowed]
    split
    · rename_i ho
      subst ho
      obtain ⟨ha, hfirst, hsecond, hs⟩ := h.openView factory bundle
      exact .quiet ha hfirst hsecond hs
    · exact h.openView_other ‹_› factory bundle
  | closeView view =>
    simp only [enter, Entry.narrowed]
    split
    · exact .quiet rfl rfl rfl h
    · exact h
  | load factory owner repair =>
    simp only [enter, Entry.narrowed]
    split
    · rename_i ho
      subst ho
      obtain ⟨ha, hfirst, hsecond, hs⟩ := h.carryOut
        (fun draw s => Session.load_acts m draw owner repair s)
        (Scope.load_drawn m owner repair) factory
      exact .quiet ha hfirst hsecond hs
    · exact h.carryOut_other ‹_› _ factory
  | delete factory owner deletion =>
    simp only [enter, Entry.narrowed]
    split
    · rename_i ho
      subst ho
      obtain ⟨ha, hfirst, hsecond, hs⟩ := h.carryOut
        (fun draw s => Session.delete_acts m draw owner deletion s) Scope.delete_drawn factory
      exact .quiet ha hfirst hsecond hs
    · exact h.carryOut_other ‹_› _ factory
  | view view call => exact h.narrows_view view call
  | metadata call => exact h.narrows_metadata call
  | names call => exact h.narrows_names call
  | attributes call => exact h.narrows_attributes call

theorem enter_sessions (p : PlainWorld V) (op : Operation V) :
    (p.enter m draw op).2.sessions = p.sessions ++ (p.enter m draw op).1.handed := by
  cases op with
  | openFactory options immutability context counts =>
    have hviews : (p.taken (p.openFactory options immutability)).2.views = p.views := by
      unfold PlainWorld.openFactory
      cases options.validate with
      | error fault => rfl
      | ok _ => cases Executor.spawn (T := AttributeKey) options.workers <;> rfl
    refine (congrArg (List.map fun v => v.view.session) hviews).trans ?_
    exact (List.append_nil _).symm
  | openView factory owner bundle metadata context =>
    change (p.taken (p.openView false factory owner bundle)).2.sessions =
      p.sessions ++ Entry.handed ⟨.openView factory owner bundle metadata context,
        (p.taken (p.openView false factory owner bundle)).1, _⟩
    unfold PlainWorld.openView
    cases p.factories[factory]? with
    | none => exact (List.append_nil _).symm
    | some f => cases ho : f.isOpen <;> simp [taken, sessions, Entry.handed, ho]
  | view view call =>
    have hsame : (p.callView m draw view call).2.sessions = p.sessions := by
      cases hview : p.views[view]? with
      | none => rw [callView_none hview]
      | some v =>
        rw [callView_some hview]
        simp only [sessions, PlainWorld.withScope]
        refine (map_modify id (fun w => ?_) p.views view).trans (by rw [List.modify_id])
        rfl
    exact hsame.trans (List.append_nil _).symm
  | _ => exact (List.append_nil _).symm

def play (m : Marshaller V) (draw : Nat → AttributeId) :
    List (Operation V) → PlainWorld V → List (Entry V) × PlainWorld V
  | [], p => ([], p)
  | op :: rest, p =>
    let later := (p.enter m draw op).2.play m draw rest
    ((p.enter m draw op).1 :: later.1, later.2)

theorem play_append (ops : List (Operation V)) (op : Operation V) (p : PlainWorld V) :
    p.play m draw (ops ++ [op]) =
      ((p.play m draw ops).1 ++ [((p.play m draw ops).2.enter m draw op).1],
        ((p.play m draw ops).2.enter m draw op).2) := by
  induction ops generalizing p with
  | nil => rfl
  | cons first rest ih => simp only [List.cons_append, play, ih]

/-- A whole history: what is left of it when other sessions are left out is what the operations that
are left do by themselves, if the same is drawn for the session. -/
theorem Slices.play (h : Slices session p p') (ops : List (Operation V)) {ids : List AttributeId}
    (hids : (Entry.narrowedFrom session p.sessions (p.play m draw ops).1).flatMap Entry.ids <+: ids)
    (hids' : (p'.play m draw' ((Entry.narrowedFrom session p.sessions
      (p.play m draw ops).1).map Entry.op)).1.flatMap Entry.ids <+: ids) :
    let kept := Entry.narrowedFrom session p.sessions (p.play m draw ops).1
    (p'.play m draw' (kept.map Entry.op)).1 = kept ∧
      Slices session (p.play m draw ops).2 (p'.play m draw' (kept.map Entry.op)).2 := by
  induction ops generalizing p p' ids with
  | nil => exact ⟨rfl, h⟩
  | cons op rest ih =>
    have hstep : Narrows session m draw draw' p p' op _ := h.narrows op
    simp only [PlainWorld.play, Entry.narrowedFrom, ← enter_sessions] at hids hids' ⊢
    cases hn : (p.enter m draw op).1.narrowed session p.sessions with
    | none =>
      simp only [hn, Option.toList_none, List.nil_append] at hstep hids hids' ⊢
      exact ih hstep hids hids'
    | some e =>
      rw [hn] at hstep
      simp only [hn, Option.toList_some, List.cons_append, List.nil_append, List.map_cons,
        PlainWorld.play, List.flatMap_cons] at hids hids' ⊢
      have hsame := Entry.narrowed_ids hn
      obtain ⟨hentry, hs⟩ := hstep ids (hsame ▸ (List.prefix_append _ _).trans hids)
        ((List.prefix_append _ _).trans hids')
      obtain ⟨later, rfl⟩ := (List.prefix_append _ _).trans hids
      rw [hentry] at hids' ⊢
      rw [List.prefix_append_right_inj] at hids hids'
      obtain ⟨hrest, hend⟩ := ih hs hids hids'
      exact ⟨congrArg _ hrest, hend⟩

end Steps
end PlainWorld

end SessionAttributes
