import Mathlib.Data.Fintype.Basic
import SessionAttributes.Proofs.Session.Opened
import SessionAttributes.Proofs.Session.Sharing

namespace SessionAttributes

variable {V σ : Type}

/-- What was written last under each name when an operation of a view with this bundle has answered.
A removal counts if it returned a value. -/
def ViewCall.marks (b : Bundle V) (latest : String → Option V) :
    (call : ViewCall V) → call.Answer → String → Option V
  | .set name value, (.ok _ : Except SessionError (Option V)) =>
    Function.update latest name (some value)
  | .update name change, (.ok true : Except SessionError Bool) =>
    Function.update latest name ((b.get? name).map change)
  | .remove name, (.ok (some _) : Except SessionError (Option V)) =>
    Function.update latest name none
  | _, _ => latest

namespace Scope

def listed (s : Scope V) : Names := s.stored.getD Dict.empty

/-- The bundle of the view is well formed, and each identifier belongs to one name, in the view and
in the store. -/
structure Filed (x : Supply) (owner : AttributeId → String) (s : Scope V) : Prop where
  tidy : s.bundle.Tidy
  held : Issued x owner s.drawn s.bundle.names
  listed : Issued x owner s.drawn s.listed

section Create
variable (s : Scope V) (name : String) (value : V) (id : AttributeId) (bytes : Bytes)

theorem create_stored :
    (s.create name value id bytes).stored = some (s.known.insert name id) := by
  unfold create
  cases (s.known.get? name).filter (· != id) <;> rfl

theorem create_bundle :
    (s.create name value id bytes).bundle = (s.bundle.bindName name id).setValue id value := rfl

theorem create_drawn : (s.create name value id bytes).drawn = s.drawn := by
  unfold create
  cases (s.known.get? name).filter (· != id) <;> rfl

/-- A new entry is written, and the one that it replaces is deleted. -/
theorem create_entries (k : AttributeId) :
    (s.create name value id bytes).entries k =
      if s.known.get? name = some k ∧ k ≠ id then none
      else if k = id then some bytes else s.entries k := by
  have hwritten : (s.setEntry id (some bytes)).entries k =
      if k = id then some bytes else s.entries k := by
    by_cases hk : k = id
    · rw [if_pos hk, hk]
      exact Function.update_self ..
    · rw [if_neg hk]
      exact Function.update_of_ne hk _ _
  unfold create
  cases hr : (s.known.get? name).filter (· != id) with
  | none =>
    have hno : ¬ (s.known.get? name = some k ∧ k ≠ id) := by
      rintro ⟨hk, hne⟩
      simp [hk, hne] at hr
    rw [if_neg hno]
    exact hwritten
  | some replaced =>
    obtain ⟨hold, hne⟩ := Option.filter_eq_some_iff.mp hr
    have hne : replaced ≠ id := by simpa using hne
    change Function.update (s.setEntry id (some bytes)).entries replaced none k = _
    by_cases hk : k = replaced
    · subst hk
      rw [Function.update_self, if_pos ⟨hold, hne⟩]
    · rw [Function.update_of_ne hk, if_neg, hwritten]
      rintro ⟨hk', -⟩
      exact hk (Option.some.inj (hk'.symm.trans hold))

end Create

section Filing
variable {x : Supply} {owner : AttributeId → String} {s : Scope V}

theorem Filed.known (h : s.Filed x owner) : Issued x owner s.drawn s.known := by
  have hlisted := h.listed
  unfold Scope.known
  unfold Scope.listed at hlisted
  cases hs : s.stored with
  | none => exact h.held
  | some names =>
    rw [hs] at hlisted
    exact hlisted

theorem Filed.announcing (h : s.Filed x owner) (activated : List AttributeId) :
    (s.announcing activated).Filed x owner := ⟨h.tidy, h.held, h.listed⟩

theorem Filed.create (h : s.Filed x owner) {name : String}
    (hb : s.bundle.attributeId? name = none) (hlt : s.drawn < x.limit)
    (hname : owner (x.draw s.drawn) = name) (value : V) (bytes : Bytes) :
    Filed x owner ({ s with drawn := s.drawn + 1 }.create name value (x.draw s.drawn) bytes) := by
  refine ⟨?_, ?_, ?_⟩
  · rw [create_bundle]
    exact h.tidy.create hb (h.held.fresh hlt) value
  · rw [create_bundle, create_drawn]
    exact h.held.insert hname
  · unfold Scope.listed
    rw [create_stored, create_drawn, Option.getD_some]
    exact h.known.insert hname

theorem Filed.remove (h : s.Filed x owner) (name : String) : (s.remove name).2.Filed x owner := by
  unfold Scope.remove
  cases hb : s.bundle.attributeId? name with
  | none => exact h
  | some id => exact ⟨h.tidy.drop hb, h.held.erase name, h.known.erase name⟩

variable [BEq V] {m : Marshaller V} {immutability : Immutability V}

theorem Filed.set (h : s.Filed x owner) {name : String} (hlt : s.drawn < x.limit)
    (hname : owner (x.draw s.drawn) = name) (value : V) :
    (s.set m x.draw immutability name value).2.Filed x owner := by
  unfold Scope.set
  split
  · exact h
  · split
    · exact h
    · split
      · rename_i id hb
        exact ⟨h.tidy.setValue hb value, h.held, h.listed⟩
      · rename_i hb
        exact h.create hb hlt hname value _

/-- An operation leaves what the view holds well formed if what it may draw belongs to the name that
it writes. -/
theorem Filed.carryOut (h : s.Filed x owner) (m : Marshaller V) (immutability : Immutability V)
    (call : ViewCall V) (hlt : s.drawn < x.limit)
    (hname : ∀ name, call.binds = some name → owner (x.draw s.drawn) = name) :
    (s.carryOut m x.draw immutability call).2.Filed x owner := by
  cases call with
  | get name => exact h
  | names => exact h
  | snapshot => exact h
  | set name value => exact h.set hlt (hname name rfl) value
  | update name change =>
    simp only [Scope.carryOut, Scope.update]
    split
    · exact h
    · exact h.set hlt (hname name rfl) _
  | remove name => exact h.remove name

omit [BEq V] in
theorem listed_of_names {p : PlainWorld V} {session : SessionId} (actor : World.Actor)
    {names : Names} (hn : p.names session = some names) :
    (p.scope session actor).listed = names := by
  rw [listed, show (p.scope session actor).stored = some names from hn, Option.getD_some]

omit [BEq V] in
/-- Stored names whose entries decode are loaded with their values. -/
theorem loaded_listed (hd : s.listed.values.Nodup)
    (hr : ∀ id ∈ s.listed.values, ∃ value, Readable m (s.entries id) value) (session : SessionId) :
    ∃ b, s.loaded m session = some b ∧ b.names = s.listed ∧
      ∀ {name id value}, s.listed.get? name = some id → Readable m (s.entries id) value →
        b.get? name = some value := by
  obtain ⟨b, hb, hread⟩ : ∃ b, s.loaded m session = some b ∧
      ∀ e ∈ b.values, Readable m (s.entries e.1) e.2 := by
    cases hs : s.stored with
    | none => exact ⟨Bundle.empty, by simp only [Scope.loaded, hs], nofun⟩
    | some names =>
      rw [listed, hs, Option.getD_some] at hd hr
      obtain ⟨b, hb, -, -, hread⟩ := (Healthy.mk hr hd).loaded hs session
      exact ⟨b, hb, hread⟩
  have hnames : b.names = s.listed := loaded_names hb
  refine ⟨b, hb, hnames, fun {name id value} hn hv => ?_⟩
  obtain ⟨found, hget, hfound⟩ :=
    (World.tidy_of_loaded hb).get?_some (show b.names.get? name = some id from hnames ▸ hn)
  rw [hget, hv.unique (hread _ (mem_of_lookup hfound))]

end Filing

section Stored
variable [BEq V] {m : Marshaller V} {draw : Nat → AttributeId} {immutability : Immutability V}
  {s : Scope V}

theorem set_unstored {name : String} {value : V} :
    (s.set m draw immutability name value).2.stored = none → s.stored = none ∧
      (s.set m draw immutability name value).2.bundle.names = s.bundle.names := by
  unfold Scope.set
  split
  · exact fun hs => ⟨hs, rfl⟩
  · split
    · exact fun hs => ⟨hs, rfl⟩
    · split
      · exact fun hs => ⟨hs, rfl⟩
      · dsimp only
        rw [create_stored]
        exact nofun

/-- An operation that leaves no names stored has changed none. -/
theorem carryOut_unstored {call : ViewCall V} :
    (s.carryOut m draw immutability call).2.stored = none → s.stored = none ∧
      (s.carryOut m draw immutability call).2.bundle.names = s.bundle.names := by
  cases call with
  | get name => exact fun hs => ⟨hs, rfl⟩
  | names => exact fun hs => ⟨hs, rfl⟩
  | snapshot => exact fun hs => ⟨hs, rfl⟩
  | set name value => exact set_unstored
  | update name change =>
    simp only [Scope.carryOut, Scope.update]
    split
    · exact fun hs => ⟨hs, rfl⟩
    · exact set_unstored
  | remove name =>
    simp only [Scope.carryOut, Scope.remove]
    split
    · exact fun hs => ⟨hs, rfl⟩
    · exact fun hs => absurd hs (Option.some_ne_none _)

end Stored
end Scope

/-- A world with the views of a session that may be used, the bundles that views may be opened over,
and what was written last under each name. -/
structure Chronicle (V σ : Type) where
  world : World V σ
  views : List Nat
  bundles : List (Bundle V)
  latest : String → Option V

/-- The views of a session do one operation after the other, each of them fit for what is stored and
what the view holds, and no call of theirs fails. Identifiers come from one supply, and the values
that are written are encoded and read back as equal ones. Whether the policy of the views may take
values for immutable is left open. -/
inductive Writes [BEq V] (m : Marshaller V) (session : SessionId) (x : Supply) (never : Prop)
    (fits : Option Names → Bundle V → ViewCall V → Prop) (c₀ : Chronicle V σ) :
    Chronicle V σ → Prop
  | start : Writes m session x never fits c₀ c₀
  | passive {c : Chronicle V σ} {w : World V σ} (h : Writes m session x never fits c₀ c)
      (hp : World.Passive m c.world w) : Writes m session x never fits c₀ { c with world := w }
  | load {c : Chronicle V σ} {w : World V σ} {env : Surroundings V σ} {factory : Nat}
      {repair : Bool} {answer : Except SessionError (Option (Bundle V))}
      (h : Writes m session x never fits c₀ c) (hc : env.Calm m)
      (hl : c.world.carryOut env ⟨factory, none⟩ (Session.load session repair).run = (answer, w)) :
      Writes m session x never fits c₀
        { c with world := w, bundles := returned answer ++ c.bundles }
  | openView {c : Chronicle V σ} {w : World V σ} {factory number : Nat} {b : Bundle V}
      {metadata : Metadata} {context : String} (h : Writes m session x never fits c₀ c)
      (hb : b = Bundle.empty ∨ b ∈ c.bundles)
      (ho : c.world.openView factory session b metadata context = .ok (number, w)) :
      Writes m session x never fits c₀ { c with world := w, views := number :: c.views }
  | call {c : Chronicle V σ} {env : Surroundings V σ} {view : Nat} {live : LiveView V}
      (h : Writes m session x never fits c₀ c) (hc : env.Calm m) (hr : env.Reliable)
      (hx : env.draw = x.draw) (hd : c.world.drawn < x.limit) (hv : view ∈ c.views)
      (hl : c.world.view? view = some live) (call : ViewCall V)
      (hw : ∀ value, call.written live.state.bundle = some value → Faithful m value)
      (hi : never → ∀ value, live.view.immutability value = false)
      (hf : fits (c.world.names.store.find? session) live.state.bundle call) :
      Writes m session x never fits c₀ { c with
        world := (c.world.carryOut env ⟨live.factory, some view⟩ (call.procedure live.view)).2
        latest := call.marks live.state.bundle c.latest
          (c.world.carryOut env ⟨live.factory, some view⟩ (call.procedure live.view)).1 }

namespace Chronicle

variable [BEq V]

def turn (env : Surroundings V σ) (c : Chronicle V σ) (t : Nat × ViewCall V) : Chronicle V σ :=
  match c.world.view? t.1 with
  | none => c
  | some live =>
    let r := c.world.carryOut env ⟨live.factory, some t.1⟩ (t.2.procedure live.view)
    { c with world := r.2, latest := t.2.marks live.state.bundle c.latest r.1 }

def Allows (session : SessionId) (x : Supply) (never : Prop)
    (fits : Option Names → Bundle V → ViewCall V → Prop) (c : Chronicle V σ)
    (t : Nat × ViewCall V) : Prop :=
  t.1 ∈ c.views ∧ c.world.drawn < x.limit ∧ ∀ live ∈ c.world.view? t.1,
    (never → ∀ value, live.view.immutability value = false) ∧
      fits (c.world.names.store.find? session) live.state.bundle t.2

/-- Whether views may do these operations one after the other. -/
def Follows (env : Surroundings V σ) (session : SessionId) (x : Supply) (never : Prop)
    (fits : Option Names → Bundle V → ViewCall V → Prop) :
    Chronicle V σ → List (Nat × ViewCall V) → Prop
  | _, [] => True
  | c, t :: turns =>
    c.Allows session x never fits t ∧ Follows env session x never fits (c.turn env t) turns

instance decidableFollows [Fintype V] (env : Surroundings V σ) (session : SessionId) (x : Supply)
    (never : Prop) [Decidable never] (fits : Option Names → Bundle V → ViewCall V → Prop)
    [∀ stored b call, Decidable (fits stored b call)] :
    (c : Chronicle V σ) → (turns : List (Nat × ViewCall V)) →
      Decidable (Follows env session x never fits c turns)
  | _, [] => isTrue trivial
  | c, t :: turns =>
    have := decidableFollows env session x never fits (c.turn env t) turns
    inferInstanceAs
      (Decidable ((_ ∧ _ ∧ _) ∧ Follows env session x never fits (c.turn env t) turns))

end Chronicle

namespace PlainWorld

structure Filed (session : SessionId) (x : Supply) (owner : AttributeId → String)
    (p : PlainWorld V) (views : List Nat) (bundles : List (Bundle V)) : Prop where
  seen : ∀ b, p.Holds views bundles b → (p.seen session b).Filed x owner
  seats : ∀ view ∈ views, ∃ v, p.views[view]? = some v ∧ v.view.session = session

variable {session : SessionId} {x : Supply} {owner : AttributeId → String} {p : PlainWorld V}
  {views : List Nat} {bundles : List (Bundle V)} {b : Bundle V}

theorem listed_withScope (p : PlainWorld V) (session : SessionId) (actor : World.Actor)
    (s : Scope V) (b : Bundle V) :
    Scope.listed ((p.withScope session actor s).seen session b) = s.listed :=
  congrArg (Option.getD · Dict.empty) (Function.update_self ..)

namespace Filed

/-- Stored names that may go on to be used. -/
theorem start (hnames : ∀ names, p.names session = some names → names.values.Nodup ∧
      ∀ id ∈ names.values, ∀ k, p.drawn ≤ k → k < x.limit → x.draw k ≠ id) :
    ∃ owner, p.Filed session x owner [] [] := by
  obtain ⟨owner, ho⟩ : ∃ owner, Issued x owner p.drawn ((p.names session).getD Dict.empty) := by
    cases hn : p.names session with
    | none => exact ⟨fun _ => "", .empty⟩
    | some names => exact Issued.of_distinct (hnames names hn).1 (hnames names hn).2
  refine ⟨owner, fun b hheld => ?_, nofun⟩
  rcases hheld with rfl | ⟨⟨⟩⟩ | ⟨_, ⟨⟩, _⟩
  exact ⟨Bundle.empty_tidy, .empty, ho⟩

/-- The scope of a view is what its bundle sees. -/
theorem scope (h : p.Filed session x owner views bundles) {view : Nat} (hv : view ∈ views)
    (factory : Nat) : (p.scope session ⟨factory, some view⟩).Filed x owner := by
  obtain ⟨v, hview, -⟩ := h.seats view hv
  have hb := scope_bundle hview session factory
  obtain ⟨htidy, hheld, hlisted⟩ := h.seen _ (.inr (.inr ⟨view, hv, v, hview, rfl⟩))
  refine ⟨?_, ?_, hlisted⟩
  · rw [hb]
    exact htidy
  · rw [hb]
    exact hheld

theorem listed (h : p.Filed session x owner views bundles) (actor : World.Actor) :
    Issued x owner p.drawn (p.scope session actor).listed := (h.seen _ (.inl rfl)).listed

theorem belongs {w : World V σ} (h : w.plain.Filed session x owner views bundles) {view : Nat}
    (hv : view ∈ views) {live : LiveView V} (hl : w.view? view = some live) :
    live.view.session = session := by
  obtain ⟨v, hview, howner⟩ := h.seats view hv
  rw [World.plain_view, hl] at hview
  obtain rfl := Option.some.inj hview
  exact howner

/-- What is drawn next may be promised to any name. -/
theorem claim (h : p.Filed session x owner views bundles) (hlt : p.drawn < x.limit)
    (name : String) :
    p.Filed session x (Function.update owner (x.draw p.drawn) name) views bundles := by
  refine ⟨fun b hb => ?_, h.seats⟩
  obtain ⟨htidy, hheld, hlisted⟩ := h.seen b hb
  exact ⟨htidy, hheld.claim hlt name, hlisted.claim hlt name⟩

/-- A bundle with the stored names may be opened. -/
theorem load (h : p.Filed session x owner views bundles) {m : Marshaller V} (actor : World.Actor)
    {new : List (Bundle V)}
    (hb : ∀ b ∈ new, (p.scope session actor).loaded m session = some b) :
    p.Filed session x owner views (new ++ bundles) := by
  have hlisted := h.listed actor
  refine ⟨fun b hheld => ?_, h.seats⟩
  rcases hheld with he | hmem | hview
  · exact h.seen b (.inl he)
  · rcases List.mem_append.mp hmem with hnew | hold
    · refine ⟨World.tidy_of_loaded (hb b hnew), ?_, hlisted⟩
      change Issued x owner p.drawn b.names
      rw [Scope.loaded_names (hb b hnew)]
      exact hlisted
    · exact h.seen b (.inr (.inl hold))
  · exact h.seen b (.inr (.inr hview))

theorem openView (h : p.Filed session x owner views bundles) (hb : b = Bundle.empty ∨ b ∈ bundles)
    {view : View V} (hv : view.session = session) (factory : Nat) :
    Filed session x owner { p with views := p.views ++ [⟨view, factory, ⟨b, []⟩⟩] }
      (p.views.length :: views) bundles := by
  have hlt : ∀ n ∈ views, n < p.views.length := fun n hn =>
    (List.getElem?_eq_some_iff.mp (h.seats n hn).choose_spec.1).1
  exact ⟨fun b' hheld => h.seen b' (hheld.of_openView hlt hb),
    seats_openView h.seats hv factory b⟩

theorem forget (h : p.Filed session x owner views bundles) :
    p.Filed session x owner views [] := by
  refine ⟨fun b hheld => h.seen b ?_, h.seats⟩
  rcases hheld with he | ⟨⟨⟩⟩ | hview
  · exact .inl he
  · exact .inr (.inr hview)

/-- What is held stays well formed when the stored names are taken away. -/
theorem cleared (h : p.Filed session x owner views bundles) {factory : Nat} {s : Scope V}
    (hs : s.stored = none ∨ s = p.scope session ⟨factory, none⟩) (hd : p.drawn ≤ s.drawn) :
    (p.withScope session ⟨factory, none⟩ s).Filed session x owner views bundles := by
  rcases hs with hs | rfl
  · refine ⟨fun b hheld => ?_, h.seats⟩
    obtain ⟨htidy, hheld, -⟩ := h.seen b hheld
    refine ⟨htidy, hheld.mono hd, ?_⟩
    rw [listed_withScope, Scope.listed, hs, Option.getD_none]
    exact .empty
  · rw [withScope_scope]
    exact h

/-- An operation of a view keeps what the others hold as well. -/
theorem withScope (h : p.Filed session x owner views bundles) (view factory : Nat) {s : Scope V}
    (hs : s.Filed x owner) (hd : p.drawn ≤ s.drawn) :
    (p.withScope session ⟨factory, some view⟩ s).Filed session x owner views bundles := by
  refine ⟨fun b hheld => ?_, seats_withScope h.seats view factory s⟩
  have hstored : Issued x owner s.drawn
      (Scope.listed ((p.withScope session ⟨factory, some view⟩ s).seen session b)) := by
    rw [listed_withScope]
    exact hs.listed
  rcases hheld.of_withScope with rfl | hheld
  · exact ⟨hs.tidy, hs.held, hstored⟩
  · obtain ⟨htidy, hheld, -⟩ := h.seen b hheld
    exact ⟨htidy, hheld.mono hd, hstored⟩

end Filed
end PlainWorld

namespace World

variable {m : Marshaller V} {session : SessionId} {w w' : World V σ} {env : Surroundings V σ}

/-- A load leaves a session as it was or without names. -/
theorem load_leaves (hc : env.Calm m) (hs : w.Sound) {factory : Nat} {repair : Bool}
    {answer : Except SessionError (Option (Bundle V))}
    (hl : w.carryOut env ⟨factory, none⟩ (Session.load session repair).run = (answer, w')) :
    w'.Sound ∧ w.drawn ≤ w'.drawn ∧ ∃ s : Scope V,
      w'.plain = w.plain.withScope session ⟨factory, none⟩ s ∧
      (s.stored = none ∨ s = w.plain.scope session ⟨factory, none⟩) := by
  have hdrawn := drawn_carryOut hc hs ⟨factory, none⟩ (Session.load session repair).run
  obtain ⟨hs', s, hstored, hp, -⟩ := carryOut_secures hc (.inl trivial) hs
    (Session.load_on session repair) nofun (Session.load_clears repair _) (.inr rfl)
    fun _ => trivial
  rw [hl] at hs' hp hdrawn
  exact ⟨hs', hdrawn, s, hp, hstored⟩

/-- An operation of a live view. -/
theorem call_live [BEq V] (hc : env.Calm m) (hr : env.Reliable) (hs : w.Sound) {number : Nat}
    {live : LiveView V} (hl : w.view? number = some live) (call : ViewCall V) :
    let actor : Actor := ⟨live.factory, some number⟩
    let r := w.carryOut env actor (call.procedure live.view)
    let s := w.plain.scope live.view.session actor
    let s' := s.carryOut m env.draw live.view.immutability call
    s.bundle = live.state.bundle ∧ r.2.Sound ∧ w.drawn ≤ r.2.drawn ∧ r.1 = s'.1 ∧
      ∃ activated, r.2.plain =
        w.plain.withScope live.view.session actor (s'.2.announcing activated) := by
  have hv : w.plain.views[number]? = some live.plain := plain_live hl
  obtain ⟨hs', ha, activated, hp, -⟩ := call_effect hc hr hs hv call
  exact ⟨PlainWorld.scope_bundle hv _ _, hs', drawn_carryOut hc hs _ _, ha, activated, hp⟩

end World

namespace Writes

variable [BEq V] {m : Marshaller V} {session : SessionId} {x : Supply} {never : Prop}
  {fits : Option Names → Bundle V → ViewCall V → Prop} {c₀ c : Chronicle V σ}

/-- Whatever the views do, what they hold stays well formed. -/
theorem filed (h : Writes m session x never fits c₀ c) (hs : c₀.world.Sound)
    (h₀ : ∃ owner, c₀.world.plain.Filed session x owner c₀.views c₀.bundles) :
    c.world.Sound ∧ ∃ owner, c.world.plain.Filed session x owner c.views c.bundles := by
  induction h with
  | start => exact ⟨hs, h₀⟩
  | passive _ hp ih =>
    obtain ⟨hs, hfiled⟩ := ih
    obtain ⟨hs', hplain⟩ := hp.keeps hs
    exact ⟨hs', hplain.symm ▸ hfiled⟩
  | @load c w env factory repair answer _ hc hl ih =>
    obtain ⟨hs, owner, hfiled⟩ := ih
    obtain ⟨hs', hdrawn, s, hp, hstored⟩ := World.load_leaves hc hs hl
    refine ⟨hs', owner, ?_⟩
    have hcleared : w.plain.Filed session x owner c.views c.bundles := by
      have hdrawn : c.world.plain.drawn ≤ w.plain.drawn := hdrawn
      rw [hp] at hdrawn ⊢
      exact hfiled.cleared hstored hdrawn
    refine hcleared.load (m := m) ⟨factory, none⟩ fun b hb => ?_
    rw [mem_returned hb] at hl
    obtain ⟨-, hsame, hfound⟩ := World.found_of_load hc hs hl
    rw [hsame]
    exact hfound
  | openView _ hb ho ih =>
    obtain ⟨hs, owner, hfiled⟩ := ih
    obtain ⟨rfl, view, hv, hp⟩ := World.openView_shape ho
    refine ⟨World.openView_sound ho hs, owner, ?_⟩
    rw [hp]
    exact hfiled.openView hb hv _
  | @call c env view live _ hc hr hx hd hv hl call _ _ _ ih =>
    obtain ⟨hs, owner, hfiled⟩ := ih
    obtain rfl : live.view.session = session := hfiled.belongs hv hl
    obtain ⟨-, hs', hdrawn, -, activated, hp⟩ := World.call_live hc hr hs hl call
    have hfiled := hfiled.claim hd (call.binds.getD "")
    have hscope := (hfiled.scope hv live.factory).carryOut m live.view.immutability call hd
      fun name hname => by
        rw [hname, Option.getD_some]
        exact Function.update_self ..
    rw [hx] at hp
    have hle := hdrawn.trans (Nat.le_of_eq (congrArg PlainWorld.drawn hp))
    have hdone := hfiled.withScope view live.factory (hscope.announcing activated) hle
    rw [← hp] at hdone
    exact ⟨hs', _, hdone⟩

/-- Views may do one operation after the other, as long as each of them is allowed. -/
theorem follow {env : Surroundings V σ} (h : Writes m session x never fits c₀ c) (hc : env.Calm m)
    (hr : env.Reliable) (hx : env.draw = x.draw) (hw : ∀ value, Faithful m value)
    {turns : List (Nat × ViewCall V)} (hturns : c.Follows env session x never fits turns) :
    Writes m session x never fits c₀ (turns.foldl (Chronicle.turn env) c) := by
  induction turns generalizing c with
  | nil => exact h
  | cons t turns ih =>
    obtain ⟨⟨hv, hd, hlive⟩, hturns⟩ := hturns
    refine ih ?_ hturns
    unfold Chronicle.turn
    split
    · exact h
    · rename_i live hl
      obtain ⟨hi, hf⟩ := hlive live hl
      exact h.call hc hr hx hd hv hl t.2 (fun value _ => hw value) hi hf

end Writes
end SessionAttributes
