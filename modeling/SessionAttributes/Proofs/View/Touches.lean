import SessionAttributes.Proofs.Bundle
import SessionAttributes.Proofs.Session.Ownership
import SessionAttributes.Proofs.View.Effects
import SessionAttributes.Proofs.World.Journal

namespace SessionAttributes

variable {V α : Type}

namespace Line

def isCallback : Line V → Bool
  | .called _ => true
  | _ => false

def Mute (lines : List (Line V)) : Prop := ∀ line ∈ lines, line.isCallback = false

theorem Mute.nil : Mute ([] : List (Line V)) := List.forall_mem_nil _

theorem Mute.append {lines lines' : List (Line V)} (h : Mute lines) (h' : Mute lines') :
    Mute (lines ++ lines') := List.forall_mem_append.mpr ⟨h, h'⟩

theorem Mute.asked (request : Request) (fault : Option SessionError) {lines : List (Line V)}
    (h : Mute lines) : Mute (.asked request fault :: lines) :=
  List.forall_mem_cons.mpr ⟨rfl, h⟩

end Line

structure Sender (V : Type) where
  factory : Nat
  session : Described V
  context : String

/-- The callback of a view, unless it has been closed. -/
def Sender.raised (x : Sender V) (closed : Bool) (direction : Direction) (value : V) :
    List (Line V) :=
  if closed then [] else [.called ⟨x.factory, direction, x.session, x.context, value⟩]

/-- What is known of a view from the calls that were made on it: the names whose present binding was
touched, and whether the view was closed. -/
structure Ledger where
  touched : List String
  closed : Bool

def View.skips [BEq V] (v : View V) (b : Bundle V) (name : String) (value : V) : Bool :=
  b.get? name == some value && v.immutability value

namespace ViewCall

variable [BEq V]

/-- The name that a call touches: a read, and a write that succeeds and is not skipped. -/
def touches (v : View V) (b : Bundle V) : (call : ViewCall V) → call.Answer → List String
  | .get name, _ => [name]
  | .set name value, .ok _ => if v.skips b name value then [] else [name]
  | .update name change, .ok _ =>
    match b.get? name with
    | none => []
    | some value => if v.skips b name (change value) then [] else [name]
  | _, _ => []

/-- What a write brings about: nothing if the value cannot be encoded or the write is skipped, else
one callback with the new value before the entry is written, whether or not that fails. -/
def Writes (m : Marshaller V) (x : Sender V) (v : View V) (b : Bundle V) (l : Ledger)
    (name : String) (value : V) (lines : List (Line V)) : Prop :=
  match m.write value with
  | .error _ => lines = []
  | .ok bytes =>
    if v.skips b name value then lines = []
    else ∃ id fault rest, Line.Mute rest ∧ lines = x.raised l.closed .passivate value ++
      .asked (.attributes (.put ⟨v.session, id⟩ bytes .writeOnly)) fault :: rest

/-- What a call brings about. The first read of a binding raises a callback with the bound value. -/
def Brings (m : Marshaller V) (x : Sender V) (v : View V) (b : Bundle V) (l : Ledger) :
    ViewCall V → List (Line V) → Prop
  | .get name, lines => lines =
    match b.get? name with
    | none => []
    | some value => if name ∈ l.touched then [] else x.raised l.closed .activate value
  | .set name value, lines => Writes m x v b l name value lines
  | .update name change, lines =>
    match b.get? name with
    | none => lines = []
    | some value => Writes m x v b l name (change value) lines
  | .remove _, lines => Line.Mute lines
  | .names, lines | .snapshot, lines => lines = []

end ViewCall

/-- The ledger after a call, which may have unbound a name. -/
def Ledger.after [BEq V] (l : Ledger) (v : View V) (b b' : Bundle V) (call : ViewCall V)
    (answer : call.Answer) : Ledger where
  touched := (call.touches v b answer ++ l.touched).filter fun name => (b'.attributeId? name).isSome
  closed := l.closed

/-- What an operation of a view can change by itself, and the lines it has led to. -/
structure Desk (V : Type) where
  state : ViewState V
  /-- Identifiers below this number were drawn. -/
  drawn : Nat
  said : List (Line V)

/-- The rule of a desk. Store calls may answer anything, and others may draw identifiers. -/
def Rule.desk (m : Marshaller V) (draw : Nat → AttributeId)
    (raised : Direction → V → List (Line V)) : Rule V (Desk V)
  | .isOpen, s, post => ∀ isOpen, post isOpen s
  | .encode value, s, post => post (m.write value) s
  | .decode _, s, post => ∀ answer, post answer s
  | .names call, s, post => ∀ answer fault heard, Line.Mute heard →
    post answer { s with said := s.said ++ .asked (.names call) fault :: heard }
  | .attributes call, s, post => ∀ answer fault heard, Line.Mute heard →
    post answer { s with said := s.said ++ .asked (.attributes call) fault :: heard }
  | .draw, s, post => ∀ n, s.drawn ≤ n → post (draw n) { s with drawn := n + 1 }
  | .lock, s, post => post s.state s
  | .unlock state, s, post => post () { s with state }
  | .record measure, s, post =>
    (∀ direction, measure ≠ .activationNotified direction) ∧ post () s
  | .notify direction value, s, post => post () { s with said := s.said ++ raised direction value }

theorem Rule.desk_monotone (m : Marshaller V) (draw : Nat → AttributeId)
    (raised : Direction → V → List (Line V)) : (Rule.desk m draw raised).Monotone := by
  intro action s post post' h hp
  cases action with
  | isOpen => exact fun isOpen => h _ _ (hp isOpen)
  | decode bytes => exact fun answer => h _ _ (hp answer)
  | names call => exact fun answer fault heard hh => h _ _ (hp answer fault heard hh)
  | attributes call => exact fun answer fault heard hh => h _ _ (hp answer fault heard hh)
  | draw => exact fun n hn => h _ _ (hp n hn)
  | record measure => exact ⟨hp.1, h _ _ hp.2⟩
  | _ => exact h _ _ hp

/-- An action that leaves the view alone and raises no callback. -/
def Action.Mild : Action V → Prop
  | .names _ | .attributes _ => True
  | .record measure => ∀ direction, measure ≠ .activationNotified direction
  | _ => False

section Desk
variable {m : Marshaller V} {draw : Nat → AttributeId} {raised : Direction → V → List (Line V)}
  {post : α → Desk V → Prop} {fails : SessionError → Desk V → Prop} {s : Desk V}

theorem Attempt.desk_record (measure : Measure) (post : Unit → Desk V → Prop) :
    (Attempt.record measure : Attempt V Unit).Secures (Rule.desk m draw raised) post fails s =
      ((∀ direction, measure ≠ .activationNotified direction) ∧ post () s) := rfl

theorem Attempt.desk_mild {x : Attempt V α} (h : x.Asks Action.Mild)
    (hp : ∀ a rest, Line.Mute rest → post a { s with said := s.said ++ rest })
    (hf : ∀ e rest, Line.Mute rest → fails e { s with said := s.said ++ rest }) :
    x.Secures (Rule.desk m draw raised) post fails s := by
  have hall : ∀ q : Procedure V (Except SessionError α), q.Asks Action.Mild → ∀ lines,
      Line.Mute lines → q.Secures (Rule.desk m draw raised) (Ends post fails)
        { s with said := s.said ++ lines } := by
    intro q hq
    induction q with
    | done result =>
      intro lines hlines
      cases result with
      | error e => exact hf e lines hlines
      | ok a => exact hp a lines hlines
    | act action next ih =>
      intro lines hlines
      have hnext : ∀ answer request fault heard, Line.Mute heard →
          (next answer).Secures (Rule.desk m draw raised) (Ends post fails)
            { s with said := s.said ++ lines ++ .asked request fault :: heard } := by
        intro answer request fault heard hheard
        rw [List.append_assoc]
        exact ih answer (hq.2 answer) _ (hlines.append (hheard.asked request fault))
      cases action with
      | names call => exact fun answer fault heard => hnext answer (.names call) fault heard
      | attributes call =>
        exact fun answer fault heard => hnext answer (.attributes call) fault heard
      | record measure => exact ⟨hq.1, ih () (hq.2 ()) lines hlines⟩
      | _ => exact hq.1.elim
  have hfirst := hall x.run h [] .nil
  rw [List.append_nil] at hfirst
  exact hfirst

end Desk

namespace Index

variable {session : SessionId}

theorem load_mild : (load session : Attempt V _).Asks Action.Mild := Attempt.asks_names trivial

theorem save_mild (names : Names) : (save session names : Attempt V _).Asks Action.Mild :=
  Attempt.asks_bind (Attempt.asks_names trivial) fun _ => Attempt.asks_pure ()

theorem bind_mild (known : Names) (name : String) (id : AttributeId) :
    (bind session known name id : Attempt V _).Asks Action.Mild :=
  Attempt.asks_bind load_mild fun _ => Attempt.asks_bind (save_mild _) fun _ => Attempt.asks_pure _

theorem unbind_mild (known : Names) (name : String) :
    (unbind session known name : Attempt V _).Asks Action.Mild :=
  Attempt.asks_bind load_mild fun _ => save_mild _

theorem removeEntry_mild (id : AttributeId) :
    (removeEntry session id : Attempt V _).Asks Action.Mild :=
  Attempt.asks_bind (Attempt.asks_attributes trivial) fun _ => Attempt.asks_pure ()

theorem discardEntry_mild (id : AttributeId) :
    (discardEntry session id : Attempt V _).Asks Action.Mild := by
  refine Attempt.asks_bind (Attempt.asks_tryCatch ?_ fun _ => Attempt.asks_pure _) fun _ => ?_
  · exact Attempt.asks_bind (removeEntry_mild id) fun _ => Attempt.asks_pure _
  · rename_i e
    cases e <;> exact Attempt.asks_pure ()

end Index

/-- The view has one value for each name, identifiers that are still to be drawn are new to it, and
it remembers the names that were touched. -/
structure Desk.Keeps (ids : Supply) (touched : List String) (s : Desk V) : Prop where
  tidy : s.state.bundle.Tidy
  fresh : ∀ n, s.drawn ≤ n → n < ids.limit → ids.draw n ∉ s.state.bundle.names.values
  marks : ∀ {name id}, s.state.bundle.attributeId? name = some id →
    (id ∈ s.state.activated ↔ name ∈ touched)

namespace Desk.Keeps

variable {ids : Supply} {touched : List String} {s s' : Desk V} {name : String}
  {id : AttributeId}

/-- It matters only which of the bound names were touched. -/
theorem congr (h : s.Keeps ids touched) (hs : s'.state = s.state) (hd : s.drawn ≤ s'.drawn)
    {touched' : List String}
    (ht : ∀ name id, s.state.bundle.attributeId? name = some id →
      (name ∈ touched' ↔ name ∈ touched)) : s'.Keeps ids touched' := by
  refine ⟨hs ▸ h.tidy, fun n hn => hs ▸ h.fresh n (hd.trans hn), fun {name id} hb => ?_⟩
  rw [hs] at hb ⊢
  exact (h.marks hb).trans (ht name id hb).symm

/-- The view is left as it was. -/
theorem still (h : s.Keeps ids touched) (hs : s'.state = s.state) (hd : s.drawn ≤ s'.drawn) :
    s'.Keeps ids (touched.filter fun name => (s'.state.bundle.attributeId? name).isSome) := by
  refine h.congr hs hd fun name id hb => ?_
  rw [List.mem_filter, hs, hb, Option.isSome_some, and_iff_left rfl]

/-- The view is left as it was, and a name is touched that was touched already or is not bound. -/
theorem known (h : s.Keeps ids touched)
    (hn : ∀ id, s.state.bundle.attributeId? name = some id → name ∈ touched) :
    s.Keeps ids ((name :: touched).filter
      fun name => (s.state.bundle.attributeId? name).isSome) := by
  refine h.congr rfl (Nat.le_refl _) fun k id hb => ?_
  rw [List.mem_filter, hb, Option.isSome_some, and_iff_left rfl, List.mem_cons, or_iff_right_of_imp]
  rintro rfl
  exact hn id hb

/-- One name is touched, and perhaps its value is changed. -/
theorem touch (h : s.Keeps ids touched) {value : Option V} (s' : Desk V)
    (hb : s.state.bundle.Turns s'.state.bundle name (some id) value)
    (hd : ∀ n, s'.drawn ≤ n → n < ids.limit → ids.draw n ∉ s'.state.bundle.names.values)
    (ha : ∀ k, k ∈ s'.state.activated ↔ k = id ∨ k ∈ s.state.activated) :
    s'.Keeps ids ((name :: touched).filter
      fun name => (s'.state.bundle.attributeId? name).isSome) := by
  refine ⟨hb.tidy, hd, fun {k i} hk => ?_⟩
  rw [List.mem_filter, hk, Option.isSome_some, and_iff_left rfl, ha, List.mem_cons]
  by_cases hname : k = name
  · subst hname
    have hi : i = id := Option.some.inj (hk.symm.trans hb.id)
    simp [hi]
  · have hold : s.state.bundle.attributeId? k = some i := (hb.others k hname).id.symm.trans hk
    have hne : i ≠ id := by
      rintro rfl
      exact hname (hb.tidy.distinct hk hb.id)
    rw [or_iff_right hne, or_iff_right hname]
    exact h.marks hold

/-- One name is unbound and forgotten. -/
theorem drop (h : s.Keeps ids touched) (s' : Desk V)
    (hi : s.state.bundle.attributeId? name = some id)
    (hb : s.state.bundle.Turns s'.state.bundle name none none) (hd : s.drawn ≤ s'.drawn)
    (hn : ∀ k ∈ s'.state.bundle.names.values, k ∈ s.state.bundle.names.values)
    (ha : s'.state.activated = s.state.activated.filter (· != id)) :
    s'.Keeps ids (touched.filter fun name => (s'.state.bundle.attributeId? name).isSome) := by
  refine ⟨hb.tidy, fun n hle hlt hm => h.fresh n (hd.trans hle) hlt (hn _ hm), fun {k i} hk => ?_⟩
  have hname : k ≠ name := by
    rintro rfl
    cases hk.symm.trans hb.id
  have hold : s.state.bundle.attributeId? k = some i := (hb.others k hname).id.symm.trans hk
  have hne : i ≠ id := by
    rintro rfl
    exact hname (h.tidy.distinct hold hi)
  rw [List.mem_filter, hk, Option.isSome_some, and_iff_left rfl, ha, List.mem_filter,
    and_iff_left (bne_iff_ne.mpr hne)]
  exact h.marks hold

end Desk.Keeps

namespace View

variable [BEq V] {m : Marshaller V} {ids : Supply} {x : Sender V} {v : View V}
  {l : Ledger} {s : Desk V}

/-- What a call has brought about on a desk, and what is known after it. -/
def Settled (m : Marshaller V) (ids : Supply) (x : Sender V) (v : View V) (l : Ledger)
    (s : Desk V) (call : ViewCall V) (answer : call.Answer) (s' : Desk V) : Prop :=
  ∃ lines, s'.said = s.said ++ lines ∧ call.Brings m x v s.state.bundle l lines ∧
    (s'.drawn ≤ ids.limit →
      s'.Keeps ids (l.after v s.state.bundle s'.state.bundle call answer).touched)

theorem get_desk (hv : v.notifies = true) (hs : s.Keeps ids l.touched) (name : String) :
    (v.get name).Secures (Rule.desk m ids.draw (x.raised l.closed))
      (Settled m ids x v l s (.get name)) s := by
  unfold View.get
  refine (congrFun (Procedure.secures_bind _ _ _ _) s).mpr ?_
  dsimp only [Procedure.ask, Procedure.Secures, Rule.desk]
  cases hb : s.state.bundle.attributeId? name with
  | none =>
    have hg : s.state.bundle.get? name = none := Bundle.Tidy.get?_none hb
    change Settled m ids x v l s (.get name) none s
    refine ⟨[], (List.append_nil _).symm, ?_, fun _ => hs.known fun id hid => ?_⟩
    · simp only [ViewCall.Brings, hg]
    · cases hb.symm.trans hid
  | some id =>
    obtain ⟨value, hg, -⟩ := hs.tidy.get?_some hb
    rw [hg]
    dsimp only
    rw [hv, Bool.true_and]
    cases hc : s.state.activated.contains id with
    | true =>
      have htouched : name ∈ l.touched := (hs.marks hb).mp (List.contains_iff_mem.mp hc)
      change Settled m ids x v l s (.get name) (some value) s
      refine ⟨[], (List.append_nil _).symm, ?_, fun _ => hs.known fun _ _ => htouched⟩
      simp only [ViewCall.Brings, hg, if_pos htouched]
    | false =>
      have huntouched : name ∉ l.touched := by
        rw [← hs.marks hb, ← List.contains_iff_mem, hc]
        exact Bool.false_ne_true
      change Settled m ids x v l s (.get name) (some value)
        { s with
          state := ⟨s.state.bundle, id :: s.state.activated⟩
          said := s.said ++ x.raised l.closed .activate value }
      refine ⟨_, rfl, ?_,
        fun _ => hs.touch _ ⟨hs.tidy, hb, hg, fun k _ => .refl _ k⟩ hs.fresh fun k => ?_⟩
      · simp only [ViewCall.Brings, hg, if_neg huntouched]
      · exact List.mem_cons

section Write
variable {name : String} {value : V} {before : Option AttributeId} {id : AttributeId}
  {raised : Direction → V → List (Line V)}

/-- A bundle in which a name is bound that was free before. -/
def boundAs (b : Bundle V) (name : String) (before : Option AttributeId) (id : AttributeId) :
    Bundle V := before.elim (b.bindName name id) fun _ => b

/-- A write whose entry is stored binds the name or leaves the view as it was. -/
theorem commit_desk (s : Desk V) (hv : v.notifies = true)
    (hb : s.state.bundle.attributeId? name = before)
    (hid : before = none ∨ before = some id) (previous : Option V) :
    (v.commit name value before previous id).Secures (Rule.desk m ids.draw raised)
      (fun _ s' => ∃ rest, Line.Mute rest ∧ s' = { s with
        state := ⟨(boundAs s.state.bundle name before id).setValue id value,
          id :: s.state.activated.filter (· != id)⟩
        said := s.said ++ rest })
      (fun _ s' => ∃ rest, Line.Mute rest ∧ s' = { s with said := s.said ++ rest }) s := by
  unfold View.commit
  rw [Attempt.secures_bind, Attempt.secures_ask]
  dsimp only [Rule.desk]
  rw [hb]
  rcases hid with rfl | rfl
  · have hstanding : standing none none id = .free := rfl
    rw [hstanding]
    refine Attempt.Secures.bind ?_
    rw [Attempt.secures_tryCatch]
    refine Attempt.desk_mild ?_ (fun _ rest hrest => ?_) fun fault rest hrest => ?_
    · refine Attempt.asks_bind (Index.bind_mild _ name id) fun replaced => ?_
      cases replaced with
      | none => exact Attempt.asks_pure ()
      | some replaced => exact Index.discardEntry_mild replaced
    · rw [hv]
      exact ⟨rest, hrest, rfl⟩
    · refine Attempt.Secures.bind ?_
      refine Attempt.desk_mild (Index.discardEntry_mild id) (fun _ rest' hrest' => ?_)
        fun fault' rest' hrest' => ?_
      · refine ⟨rest ++ rest', hrest.append hrest', ?_⟩
        rw [← List.append_assoc]
      · refine ⟨rest ++ rest', hrest.append hrest', ?_⟩
        rw [← List.append_assoc]
  · have hstanding : standing (some id) (some id) id = .current := if_pos rfl
    rw [hstanding, hv]
    refine ⟨[], .nil, ?_⟩
    rw [List.append_nil]
    rfl

/-- What a write has brought about on a desk, and the names that it has touched. -/
def Wrote (m : Marshaller V) (ids : Supply) (x : Sender V) (v : View V) (l : Ledger)
    (s : Desk V) (name : String) (value : V) (touches : List String) (s' : Desk V) : Prop :=
  ∃ lines, s'.said = s.said ++ lines ∧
    ViewCall.Writes m x v s.state.bundle l name value lines ∧
    (s'.drawn ≤ ids.limit → s'.Keeps ids ((touches ++ l.touched).filter
      fun name => (s'.state.bundle.attributeId? name).isSome))

/-- The identifier that a write takes: the bound one, or one that was just drawn. -/
def Picks (ids : Supply) (b : Bundle V) (before : Option AttributeId) (id : AttributeId)
    (drawn : Nat) : Prop :=
  before = some id ∨ before = none ∧ (drawn ≤ ids.limit →
    id ∉ b.names.values ∧ ∀ n, drawn ≤ n → n < ids.limit → ids.draw n ≠ id)

omit [BEq V] in
/-- A name is written under the identifier that was picked, and so it is touched. -/
theorem bound_keeps {touched : List String} (hs : s.Keeps ids touched)
    (hb : s.state.bundle.attributeId? name = before) {drawn : Nat} (hd : s.drawn ≤ drawn)
    (hid : Picks ids s.state.bundle before id drawn) (hlimit : drawn ≤ ids.limit) (value : V)
    (said : List (Line V)) :
    Desk.Keeps ids
      ((name :: touched).filter fun k =>
        (((boundAs s.state.bundle name before id).setValue id value).attributeId? k).isSome)
      ⟨⟨(boundAs s.state.bundle name before id).setValue id value,
        id :: s.state.activated.filter (· != id)⟩, drawn, said⟩ := by
  have hactivated : ∀ k, k ∈ id :: s.state.activated.filter (· != id) ↔
      k = id ∨ k ∈ s.state.activated := by
    intro k
    rw [List.mem_cons, List.mem_filter, bne_iff_ne]
    by_cases hk : k = id <;> simp [hk]
  rcases hid with rfl | ⟨rfl, hnew⟩
  · exact hs.touch ⟨⟨s.state.bundle.setValue id value, _⟩, drawn, said⟩
      (hs.tidy.turns_setValue hb value) (fun n hn => hs.fresh n (hd.trans hn)) hactivated
  · obtain ⟨hnew, hlater⟩ := hnew hlimit
    refine hs.touch ⟨⟨(s.state.bundle.bindName name id).setValue id value, _⟩, drawn, said⟩
      (hs.tidy.turns_create hb hnew value) (fun n hn hlt hm => ?_) hactivated
    rcases (Bundle.mem_bindName hb).mp hm with hm | hm
    · exact hlater n hn hlt hm
    · exact hs.fresh n (hd.trans hn) hlt hm

/-- A write that is neither skipped nor refused by the marshaller. Whether its entry can be written
or not, its callback is raised first; if the write succeeds, the name is touched. -/
theorem store_desk (hv : v.notifies = true) (hs : s.Keeps ids l.touched) {bytes : Bytes}
    (hw : m.write value = .ok bytes) (hskip : v.skips s.state.bundle name value = false)
    (hb : s.state.bundle.attributeId? name = before) {drawn : Nat} (hd : s.drawn ≤ drawn)
    (hid : Picks ids s.state.bundle before id drawn) (previous : Option V) :
    Attempt.Secures (Rule.desk m ids.draw (x.raised l.closed))
      (fun _ => Wrote m ids x v l s name value [name])
      (fun _ => Wrote m ids x v l s name value []) (do
        if v.notifies then
          Attempt.ask (.notify .passivate value)
        Index.saveEntry v.session id bytes
        Attempt.record .attributeWritten
        v.commit name value before previous id)
      { s with drawn } := by
  have hwrites : ∀ fault rest, Line.Mute rest →
      ViewCall.Writes m x v s.state.bundle l name value (x.raised l.closed .passivate value ++
        .asked (.attributes (.put ⟨v.session, id⟩ bytes .writeOnly)) fault :: rest) := by
    intro fault rest hrest
    unfold ViewCall.Writes
    rw [hw]
    dsimp only
    rw [hskip]
    exact ⟨id, fault, rest, hrest, rfl⟩
  rw [hv, if_pos rfl]
  refine Attempt.Secures.bind ?_
  change Attempt.Secures _ _ _ _
    { s with drawn, said := s.said ++ x.raised l.closed .passivate value }
  unfold Index.saveEntry
  refine Attempt.Secures.bind ?_
  refine Attempt.Secures.bind ?_
  rw [Attempt.secures_attributes]
  intro answer fault heard hheard
  cases answer with
  | error e =>
    refine ⟨_, ?_, hwrites fault heard hheard, fun _ => hs.still rfl hd⟩
    rw [← List.append_assoc]
  | ok a =>
    simp only [Attempt.Ends, Attempt.secures_pure]
    rw [Attempt.secures_bind, Attempt.desk_record]
    refine ⟨nofun, ?_⟩
    refine Attempt.Secures.mono (Rule.desk_monotone m ids.draw _) ?_ ?_
      (commit_desk ⟨s.state, drawn, _⟩ hv hb (hid.symm.imp And.left fun h => h) previous)
    · rintro _ _ ⟨rest, hrest, rfl⟩
      refine ⟨_, ?_, hwrites fault (heard ++ rest) (hheard.append hrest),
        fun hlimit => bound_keeps hs hb hd hid hlimit value _⟩
      simp only [List.append_assoc, List.cons_append]
    · rintro _ _ ⟨rest, hrest, rfl⟩
      refine ⟨_, ?_, hwrites fault (heard ++ rest) (hheard.append hrest),
        fun _ => hs.still rfl hd⟩
      simp only [List.append_assoc, List.cons_append]

theorem set_desk (hv : v.notifies = true) (hs : s.Keeps ids l.touched) (name : String) (value : V) :
    (v.set name value).Secures (Rule.desk m ids.draw (x.raised l.closed))
      (fun _ => Wrote m ids x v l s name value
        (if v.skips s.state.bundle name value then [] else [name]))
      (fun _ => Wrote m ids x v l s name value []) s := by
  have hnothing : ViewCall.Writes m x v s.state.bundle l name value [] →
      Wrote m ids x v l s name value [] s := fun hwrites =>
    ⟨[], (List.append_nil _).symm, hwrites, fun _ => hs.still rfl (Nat.le_refl _)⟩
  unfold View.set
  rw [Attempt.secures_bind, Attempt.secures_encode]
  dsimp only [Rule.desk]
  cases hw : m.write value with
  | error fault =>
    refine hnothing ?_
    simp only [ViewCall.Writes, hw]
  | ok bytes =>
    simp only [Attempt.Ends]
    rw [Attempt.secures_bind, Attempt.secures_lift]
    change Attempt.Secures _ _ _ _ s
    by_cases hif : (s.state.bundle.get? name == some value && v.immutability value) = true
    · have hskip : v.skips s.state.bundle name value = true := hif
      rw [if_pos hif, if_pos hskip, Attempt.secures_bind, Attempt.desk_record]
      refine ⟨nofun, hnothing ?_⟩
      simp only [ViewCall.Writes, hw, hskip, if_true]
    · have hskip : v.skips s.state.bundle name value = false := Bool.eq_false_iff.mpr hif
      rw [if_neg hif, hskip, if_neg Bool.false_ne_true]
      split
      · rename_i id hb
        rw [Attempt.secures_bind, Attempt.secures_pure]
        exact store_desk hv hs hw hskip rfl (Nat.le_refl _) (.inl hb) _
      · rename_i hb
        -- Others may have drawn in between, so any number may come that was not drawn before.
        refine Attempt.Secures.bind fun n hn => ?_
        refine store_desk hv hs hw hskip rfl (Nat.le_succ_of_le hn) (.inr ⟨hb, fun hlt => ?_⟩) _
        exact ⟨hs.fresh n hn hlt, fun k hk hk' he => ids.distinct n k hk hk' he.symm⟩

end Write

theorem remove_desk (hs : s.Keeps ids l.touched) (name : String) :
    (v.remove name).run.Secures (Rule.desk m ids.draw (x.raised l.closed))
      (Settled m ids x v l s (.remove name)) s := by
  have hstill : ∀ (answer : Except SessionError (Option V)) rest, Line.Mute rest →
      Settled m ids x v l s (.remove name) answer { s with said := s.said ++ rest } := by
    intro answer rest hrest
    refine ⟨rest, rfl, hrest, ?_⟩
    cases answer <;> exact fun _ => hs.still rfl (Nat.le_refl _)
  refine (congrFun (Attempt.secures_run _ _) s).mpr ?_
  unfold View.remove
  rw [Attempt.secures_bind, Attempt.secures_ask]
  dsimp only [Rule.desk]
  cases hb : s.state.bundle.attributeId? name with
  | none =>
    have hsame := hstill (.ok none) [] .nil
    rw [List.append_nil] at hsame
    exact hsame
  | some id =>
    dsimp only
    rw [Attempt.secures_bind, Attempt.secures_tryCatch]
    refine Attempt.desk_mild (Index.unbind_mild _ name) (fun _ rest hrest => ?_)
      fun fault rest hrest => hstill (.error fault) rest hrest
    -- From here on the name is unbound, whether or not its entry can be removed.
    have hdropped : ∀ (answer : Except SessionError (Option V)) rest', Line.Mute rest' →
        Settled m ids x v l s (.remove name) answer
          ⟨⟨(s.state.bundle.dropName name).dropValue id, s.state.activated.filter (· != id)⟩,
            s.drawn, s.said ++ rest ++ rest'⟩ := by
      intro answer rest' hrest'
      have hkeeps := hs.drop ⟨⟨(s.state.bundle.dropName name).dropValue id,
        s.state.activated.filter (· != id)⟩, s.drawn, s.said ++ rest ++ rest'⟩ hb
        (hs.tidy.turns_drop hb) (Nat.le_refl _)
        (fun k hk => ((hs.tidy.mem_dropName hb).mp hk).1) rfl
      refine ⟨rest ++ rest', List.append_assoc .., hrest.append hrest', ?_⟩
      cases answer <;> exact fun _ => hkeeps
    refine Attempt.Secures.bind ?_
    refine Attempt.Secures.bind ?_
    exact Attempt.desk_mild (Index.removeEntry_mild id)
      (fun _ rest' hrest' => hdropped (.ok _) rest' hrest')
      fun fault rest' hrest' => hdropped (.error fault) rest' hrest'

theorem update_desk (hv : v.notifies = true) (hs : s.Keeps ids l.touched) (name : String)
    (change : V → V) :
    (v.update name change).run.Secures (Rule.desk m ids.draw (x.raised l.closed))
      (Settled m ids x v l s (.update name change)) s := by
  refine (congrFun (Attempt.secures_run _ _) s).mpr ?_
  unfold View.update
  rw [Attempt.secures_bind, Attempt.secures_lift]
  change Attempt.Secures _ _ _ _ s
  cases hg : s.state.bundle.get? name with
  | none =>
    refine ⟨[], (List.append_nil _).symm, ?_, ?_⟩
    · simp only [ViewCall.Brings, hg]
    · simp only [Ledger.after, ViewCall.touches, hg]
      exact fun _ => hs.still rfl (Nat.le_refl _)
  | some value =>
    have hsettled : ∀ (answer : Except SessionError Bool) touches s',
        ViewCall.touches v s.state.bundle (.update name change) answer = touches →
        Wrote m ids x v l s name (change value) touches s' →
        Settled m ids x v l s (.update name change) answer s' := by
      rintro answer touches s' rfl ⟨lines, hsaid, hwrites, hkeeps⟩
      refine ⟨lines, hsaid, ?_, hkeeps⟩
      simp only [ViewCall.Brings, hg]
      exact hwrites
    refine Attempt.Secures.bind ?_
    refine Attempt.Secures.mono (Rule.desk_monotone m ids.draw _) ?_ ?_
      (set_desk hv hs name (change value))
    · intro answer s' hwrote
      refine hsettled (.ok true) _ s' ?_ hwrote
      simp only [ViewCall.touches, hg]
    · intro fault s' hwrote
      exact hsettled (.error fault) [] s' rfl hwrote

/-- Whatever its store calls answer, an operation of a view brings about what its ledger tells. -/
theorem procedure_desk (hv : v.notifies = true) (hs : s.Keeps ids l.touched) (call : ViewCall V) :
    (call.procedure v).Secures (Rule.desk m ids.draw (x.raised l.closed))
      (Settled m ids x v l s call) s := by
  have hstill := fun _ : s.drawn ≤ ids.limit =>
    hs.still (rfl : s.state = s.state) (Nat.le_refl s.drawn)
  cases call with
  | get name => exact get_desk hv hs name
  | names => exact ⟨[], (List.append_nil _).symm, rfl, hstill⟩
  | snapshot => exact ⟨[], (List.append_nil _).symm, rfl, hstill⟩
  | set name value =>
    exact (congrFun (Attempt.secures_run _ _) s).mpr (set_desk hv hs name value)
  | update name change => exact update_desk hv hs name change
  | remove name => exact remove_desk hs name

end View
end SessionAttributes
