import SessionAttributes.Proofs.Session.Chronicle
import SessionAttributes.Proofs.Session.Errands

namespace SessionAttributes

variable {V σ : Type}

namespace PlainWorld

def listed (p : PlainWorld V) (session : SessionId) : Names := (p.names session).getD Dict.empty

def save (p : PlainWorld V) (session : SessionId) (names : Names) : PlainWorld V :=
  { p with names := Function.update p.names session (some names) }

def setEntry (p : PlainWorld V) (session : SessionId) (id : AttributeId) (entry : Option Bytes) :
    PlainWorld V :=
  { p with attributes := Function.update p.attributes ⟨session, id⟩ entry }

@[simp] theorem listed_save (p : PlainWorld V) (session : SessionId) (names : Names) :
    (p.save session names).listed session = names := by
  simp only [save, listed, Function.update_self, Option.getD_some]

theorem names_save (p : PlainWorld V) (session : SessionId) (names : Names) :
    (p.save session names).names session ≠ none := by
  simp only [save, Function.update_self]
  exact nofun

theorem setEntry_same (p : PlainWorld V) (session : SessionId) (id : AttributeId)
    (entry : Option Bytes) : (p.setEntry session id entry).attributes ⟨session, id⟩ = entry :=
  Function.update_self ..

theorem setEntry_other (p : PlainWorld V) (session : SessionId) {id k : AttributeId}
    (hk : k ≠ id) (entry : Option Bytes) :
    (p.setEntry session id entry).attributes ⟨session, k⟩ = p.attributes ⟨session, k⟩ :=
  Function.update_of_ne (fun he => hk (congrArg AttributeKey.id he)) _ _

def namesOf (p : PlainWorld V) (view : Nat) : Names := (p.stateOf ⟨0, some view⟩).bundle.names

theorem namesOf_view {p : PlainWorld V} {view : Nat} {v : PlainView V}
    (hv : p.views[view]? = some v) : p.namesOf view = v.state.bundle.names := by
  simp only [namesOf, stateOf, Option.bind_some, hv, Option.map_some, Option.getD_some]

/-- What the views hold when one of them gives its lock back. -/
theorem namesOf_unlock (m : Marshaller V) (draw : Nat → AttributeId) (p : PlainWorld V)
    (factory : Nat) {view : Nat} (hview : view < p.views.length) (state : ViewState V)
    (other : Nat) :
    (p.perform m draw ⟨factory, some view⟩ (.unlock state)).2.namesOf other =
      if other = view then state.bundle.names else p.namesOf other := by
  simp only [perform, namesOf, stateOf, Option.bind_some, List.getElem?_modify]
  by_cases he : view = other
  · subst he
    simp [hview]
  · rw [if_neg (Ne.symm he)]
    simp [he]

end PlainWorld

variable [BEq V] {m : Marshaller V} {session : SessionId} {x : Supply}
  {owner owner' : AttributeId → String} {locks locks' : Locks} {p p' : PlainWorld V} {i : Nat}
  {c : Course V}

theorem Errand.Kept.legible {e : Errand V} {entry : Option Bytes} (h : e.Kept m entry) :
    Legible m True entry := by
  obtain ⟨-, -, value, ⟨bytes, hbytes, hread⟩, -⟩ := h
  exact ⟨bytes, hbytes, fun _ => ⟨value, hread⟩⟩

def Stage.Stands (m : Marshaller V) (session : SessionId) (x : Supply)
    (owner : AttributeId → String) (e : Errand V) (p : PlainWorld V) : Stage → Prop
  | .begun => True
  | .drawn id => x.Given owner p.drawn e.name id
  | .written id => x.Given owner p.drawn e.name id ∧ e.Kept m (p.attributes ⟨session, id⟩)
  | .bound id old =>
    (p.listed session).get? e.name = some id ∧ x.Given owner p.drawn e.name id ∧
      e.Kept m (p.attributes ⟨session, id⟩) ∧ ∀ k, old = some k → x.Given owner p.drawn e.name k
  | .dropped => p.names session ≠ none ∧ (p.listed session).get? e.name = none

/-- What happens under other names does not touch a stage. -/
theorem Stage.Stands.mono {e : Errand V} {stage : Stage}
    (h : stage.Stands m session x owner e p)
    (hgiven : ∀ {id}, x.Given owner p.drawn e.name id → x.Given owner' p'.drawn e.name id)
    (hentry : ∀ {id}, owner id = e.name →
      p'.attributes ⟨session, id⟩ = p.attributes ⟨session, id⟩)
    (hlisted : (p'.listed session).get? e.name = (p.listed session).get? e.name)
    (hnames : p.names session ≠ none → p'.names session ≠ none) :
    stage.Stands m session x owner' e p' := by
  cases stage with
  | begun => trivial
  | drawn id => exact hgiven h
  | written id =>
    obtain ⟨hid, hkept⟩ := h
    exact ⟨hgiven hid, hentry hid.1 ▸ hkept⟩
  | bound id old =>
    obtain ⟨hbound, hid, hkept, hold⟩ := h
    exact ⟨hlisted.trans hbound, hgiven hid, hentry hid.1 ▸ hkept,
      fun k hk => hgiven (hold k hk)⟩
  | dropped => exact ⟨hnames h.1, hlisted.trans h.2⟩

namespace Course

structure Fits (m : Marshaller V) (session : SessionId) (x : Supply)
    (owner : AttributeId → String) (locks : Locks) (i : Nat) (c : Course V) (p : PlainWorld V) :
    Prop where
  seat : c.errand.view < p.views.length
  held : Issued x owner p.drawn (p.namesOf c.errand.view)
  bare : p.names session = none → p.namesOf c.errand.view = Dict.empty
  knows : c.stage.Open → (p.namesOf c.errand.view).get? c.errand.name = c.errand.held
  owned : ∀ {id}, c.errand.held = some id → x.Given owner p.drawn c.errand.name id
  grip : ∀ {names}, c.grip = some names →
    locks.holder c.errand.view = some i ∧ p.namesOf c.errand.view = names
  seen : ∀ {names}, c.seen = some names → locks.merging = some i ∧ p.listed session = names
  stage : c.stage.Stands m session x owner c.errand p

namespace Fits

variable (h : c.Fits m session x owner locks i p)
include h

/-- What happens in the stores under other names, and to the locks of others, does not touch an
operation. -/
theorem mono (hviews : p'.views = p.views)
    (hgiven : ∀ {name id}, x.Given owner p.drawn name id → x.Given owner' p'.drawn name id)
    (hentry : ∀ {id}, owner id = c.errand.name →
      p'.attributes ⟨session, id⟩ = p.attributes ⟨session, id⟩)
    (hlisted : (p'.listed session).get? c.errand.name = (p.listed session).get? c.errand.name)
    (hnames : p.names session ≠ none → p'.names session ≠ none)
    (hholder : c.grip ≠ none → locks'.holder c.errand.view = locks.holder c.errand.view)
    (hseen : c.seen ≠ none →
      locks'.merging = locks.merging ∧ p'.listed session = p.listed session) :
    c.Fits m session x owner' locks' i p' := by
  have hsame : p'.namesOf c.errand.view = p.namesOf c.errand.view := by
    simp only [PlainWorld.namesOf, PlainWorld.stateOf, hviews]
  refine ⟨hviews ▸ h.seat, ?_, fun hn => ?_, fun ho => ?_, fun hid => hgiven (h.owned hid),
    fun {names} hg => ?_, fun {names} hs => ?_, h.stage.mono hgiven hentry hlisted hnames⟩
  · rw [hsame]
    exact .of_given fun hb => hgiven (h.held.given hb)
  · rw [hsame]
    exact h.bare (by_contra fun hne => hnames hne hn)
  · rw [hsame]
    exact h.knows ho
  · rw [hsame, hholder (hg ▸ Option.some_ne_none _)]
    exact h.grip hg
  · obtain ⟨hmerging, hkeep⟩ := hseen (hs ▸ Option.some_ne_none _)
    rw [hmerging, hkeep]
    exact h.seen hs

theorem turn {stage : Stage} (hopen : stage.Open → c.stage.Open)
    (hs : stage.Stands m session x owner c.errand p) :
    Fits m session x owner locks i { c with stage } p :=
  { h with knows := fun ho => h.knows (hopen ho), stage := hs }

/-- Nobody but the one who is merging has read names. -/
theorem unseen {j : Nat} (hj : i ≠ j) (hm : locks.merging = none ∨ locks.merging = some j) :
    c.seen = none := by
  cases hs : c.seen with
  | none => rfl
  | some names =>
    have hmerging := (h.seen hs).1
    rcases hm with hm | hm
    · cases hmerging.symm.trans hm
    · exact absurd (Option.some.inj (hmerging.symm.trans hm)) hj

/-- What is stored when the lock is held is what is known of it. -/
theorem stored {names : Names} (hg : c.grip = some names) :
    (p.names session).getD names = p.listed session := by
  unfold PlainWorld.listed
  cases hn : p.names session with
  | none => rw [Option.getD_none, Option.getD_none, ← (h.grip hg).2, h.bare hn]
  | some stored => rfl

/-- What a view is to hold when the lock is given back. -/
theorem edited {names : Names} (hg : c.grip = some names) :
    Issued x owner p.drawn (c.stage.edit c.errand.name names) ∧
      (p.names session = none → c.stage.edit c.errand.name names = Dict.empty) ∧
      (c.stage.Open → (c.stage.edit c.errand.name names).get? c.errand.name = c.errand.held) := by
  obtain ⟨-, rfl⟩ := h.grip hg
  have hstands := h.stage
  have hknows := h.knows
  generalize c.stage = stage at hstands hknows ⊢
  cases stage with
  | begun => exact ⟨h.held, h.bare, hknows⟩
  | drawn id => exact ⟨h.held, h.bare, hknows⟩
  | written id => exact ⟨h.held, h.bare, hknows⟩
  | bound id old =>
    obtain ⟨hbound, hid, -⟩ := hstands
    refine ⟨h.held.bind hid, fun hn => ?_, nofun⟩
    rw [PlainWorld.listed, hn] at hbound
    cases hbound
  | dropped => exact ⟨h.held.erase _, fun hn => absurd hn hstands.1, nofun⟩

/-- The view of an operation holds other names. -/
theorem reviewed {views : List (PlainView V)} {names : Names}
    (hlength : views.length = p.views.length)
    (hnames : PlainWorld.namesOf { p with views } c.errand.view = names)
    (hheld : Issued x owner p.drawn names) (hbare : p.names session = none → names = Dict.empty)
    (hknows : c.stage.Open → names.get? c.errand.name = c.errand.held)
    (hgrip : ∀ {names'}, c.grip = some names' →
      locks'.holder c.errand.view = some i ∧ names = names')
    (hmerging : locks'.merging = locks.merging) :
    c.Fits m session x owner locks' i { p with views } := by
  subst hnames
  refine ⟨hlength ▸ h.seat, hheld, hbare, hknows, h.owned, hgrip, fun hs => ?_, ?_⟩
  · rw [hmerging]
    exact h.seen hs
  · exact h.stage.mono id (fun _ => rfl) rfl id

end Fits
end Course

/-- Operations on their way in a world. The names that are none of theirs stay as they were. -/
structure Merging (m : Marshaller V) (session : SessionId) (x : Supply) (count : Nat)
    (errands : Nat → Errand V) (p₀ : PlainWorld V) (owner : AttributeId → String) (locks : Locks)
    (part : Nat → Course V) (p : PlainWorld V) : Prop where
  errand : ∀ j, (part j).errand = errands j
  listed : Issued x owner p.drawn (p.listed session)
  present : ∀ {name id}, (p.listed session).get? name = some id →
    Legible m True (p.attributes ⟨session, id⟩)
  parts : ∀ j < count, (part j).Fits m session x owner locks j p
  others : ∀ name, (∀ j < count, (errands j).name ≠ name) →
    (p.listed session).get? name = (p₀.listed session).get? name ∧
      ∀ id, (p.listed session).get? name = some id →
        p.attributes ⟨session, id⟩ = p₀.attributes ⟨session, id⟩

namespace Merging

variable {count : Nat} {errands : Nat → Errand V} {p₀ : PlainWorld V} {part : Nat → Course V}
  (h : Merging m session x count errands p₀ owner locks part p)
include h

/-- One operation has acted. -/
theorem step {r : Course V} (hr : r.errand = errands i)
    (hown : r.Fits m session x owner' locks' i p')
    (hrest : ∀ j < count, j ≠ i → (part j).Fits m session x owner' locks' j p')
    (hlisted : Issued x owner' p'.drawn (p'.listed session))
    (hpresent : ∀ {name id}, (p'.listed session).get? name = some id →
      Legible m True (p'.attributes ⟨session, id⟩))
    (hothers : ∀ name, (∀ j < count, (errands j).name ≠ name) →
      (p'.listed session).get? name = (p.listed session).get? name ∧
        ∀ id, (p.listed session).get? name = some id →
          p'.attributes ⟨session, id⟩ = p.attributes ⟨session, id⟩) :
    Merging m session x count errands p₀ owner' locks' (Function.update part i r) p' := by
  refine ⟨fun j => ?_, hlisted, hpresent, fun j hj => ?_, fun name hname => ?_⟩
  · by_cases he : j = i
    · rw [he, Function.update_self, hr]
    · rw [Function.update_of_ne he, h.errand]
  · by_cases he : j = i
    · rw [he, Function.update_self]
      exact hown
    · rw [Function.update_of_ne he]
      exact hrest j hj he
  · obtain ⟨hold, hentry⟩ := h.others name hname
    obtain ⟨hold', hentry'⟩ := hothers name hname
    refine ⟨hold'.trans hold, fun id hid => ?_⟩
    rw [hold'] at hid
    exact (hentry' id hid).trans (hentry id hid)

variable (hi : i < count) (hapart : ∀ j < count, j ≠ i → (errands j).name ≠ (errands i).name)

include hi

theorem draw (hs : (part i).stage = .begun) (hlt : p.drawn < x.limit) :
    Merging m session x count errands p₀
      (Function.update owner (x.draw p.drawn) (errands i).name) locks
      (Function.update part i { part i with stage := .drawn (x.draw p.drawn) })
      { p with drawn := p.drawn + 1 } := by
  have hmono : ∀ j < count, (part j).Fits m session x
      (Function.update owner (x.draw p.drawn) (errands i).name) locks j
      { p with drawn := p.drawn + 1 } := fun j hj =>
    (h.parts j hj).mono rfl (fun hid => (hid.claim hlt _).mono (Nat.le_succ _)) (fun _ => rfl) rfl
      id (fun _ => rfl) fun _ => ⟨rfl, rfl⟩
  refine h.step (h.errand i) ((hmono i hi).turn ?_ ?_) (fun j hj _ => hmono j hj)
    ((h.listed.claim hlt _).mono (Nat.le_succ _)) h.present fun _ _ => ⟨rfl, fun _ _ => rfl⟩
  · rw [hs]
    exact id
  · rw [h.errand]
    exact .fresh x (Function.update_self ..)

theorem lock (hfree : locks.holder (errands i).view = none) :
    Merging m session x count errands p₀ owner (locks.after i (errands i).view (.lock : Action V))
      (Function.update part i { part i with grip := some (p.namesOf (errands i).view) }) p := by
  have hmono : ∀ j < count, (part j).grip = none ∨ (part j).errand.view ≠ (errands i).view →
      (part j).Fits m session x owner (locks.after i (errands i).view (.lock : Action V)) j p := by
    intro j hj hor
    refine (h.parts j hj).mono rfl id (fun _ => rfl) rfl id (fun hg => ?_) fun _ => ⟨rfl, rfl⟩
    exact Function.update_of_ne (hor.resolve_left hg) _ _
  have hother : ∀ j < count, (part j).grip = none ∨ (part j).errand.view ≠ (errands i).view := by
    intro j hj
    cases hg : (part j).grip with
    | none => exact .inl rfl
    | some names =>
      refine .inr fun he => ?_
      have hholder := ((h.parts j hj).grip hg).1
      rw [he] at hholder
      cases hholder.symm.trans hfree
  refine h.step (h.errand i) ?_ (fun j hj _ => hmono j hj (hother j hj)) h.listed h.present
    fun _ _ => ⟨rfl, fun _ _ => rfl⟩
  refine { hmono i hi (hother i hi) with grip := ?_ }
  rintro _ ⟨⟩
  rw [h.errand]
  exact ⟨Function.update_self .., rfl⟩

theorem read {names : Names} (hg : (part i).grip = some names) (key : SessionId)
    (hm : locks.merging = none ∨ locks.merging = some i) :
    Merging m session x count errands p₀ owner
      (locks.after i (errands i).view (.names (.get key) : Action V))
      (Function.update part i
        { part i with seen := some ((p.names session).getD names) }) p := by
  have hmono : ∀ j < count, (part j).seen = none → (part j).Fits m session x owner
      (locks.after i (errands i).view (.names (.get key) : Action V)) j p := fun j hj hs =>
    (h.parts j hj).mono rfl id (fun _ => rfl) rfl id (fun _ => rfl) fun hne => absurd hs hne
  refine h.step (h.errand i) ?_ (fun j hj hne => hmono j hj ((h.parts j hj).unseen hne hm))
    h.listed h.present fun _ _ => ⟨rfl, fun _ _ => rfl⟩
  refine { h.parts i hi with seen := ?_ }
  rintro _ ⟨⟩
  exact ⟨rfl, ((h.parts i hi).stored hg).symm⟩

/-- What is written back has its entries. -/
theorem turned {stage : Stage} (ht : (part i).Turns (p.listed session) stage) :
    let names := stage.edit (errands i).name (p.listed session)
    ¬ stage.Open ∧ stage.Stands m session x owner (errands i) (p.save session names) ∧
      Issued x owner p.drawn names ∧
      ∀ {name id}, names.get? name = some id → Legible m True (p.attributes ⟨session, id⟩) := by
  have hstands := (h.parts i hi).stage
  rw [h.errand] at hstands
  cases ht with
  | @bind fresh hs =>
    rw [hs] at hstands
    obtain ⟨hfresh, hkept⟩ := hstands
    rw [h.errand]
    refine ⟨nofun, ⟨?_, hfresh, hkept, fun k hk => h.listed.given hk⟩, h.listed.bind hfresh,
      fun {k j} hb => ?_⟩
    · rw [PlainWorld.listed_save]
      exact Dict.get?_insert_eq_some.mpr (.inl ⟨rfl, rfl⟩)
    · rcases Dict.get?_insert_eq_some.mp hb with ⟨-, rfl⟩ | ⟨-, hb⟩
      · exact hkept.legible
      · exact h.present hb
  | drop hs hid =>
    refine ⟨nofun, ⟨p.names_save _ _, ?_⟩, h.listed.erase _, fun {k j} hb => ?_⟩
    · rw [PlainWorld.listed_save, Stage.edit, Dict.get?_erase, if_pos rfl]
    · exact h.present (Dict.get?_erase_eq_some.mp hb).2

include hapart

/-- Stored names are written back with the name of the operation changed. -/
theorem write {seen : Names} {stage : Stage} (hs : (part i).seen = some seen)
    (ht : (part i).Turns seen stage) (key : SessionId) (names : Names) (mode : AccessMode) :
    Merging m session x count errands p₀ owner
      (locks.after i (errands i).view (.names (.put key names mode) : Action V))
      (Function.update part i { part i with stage, seen := none })
      (p.save session (stage.edit (errands i).name seen)) := by
  have hfits := h.parts i hi
  obtain ⟨hmerging, rfl⟩ := hfits.seen hs
  obtain ⟨hclosed, hstands, hissued, hpresent⟩ := h.turned hi ht
  refine h.step (h.errand i) ?_ (fun j hj hne => ?_) ?_ ?_ fun name hname => ⟨?_, fun _ _ => rfl⟩
  · refine { hfits with
      bare := fun hn => absurd hn (p.names_save _ _)
      knows := fun ho => absurd ho hclosed
      seen := nofun
      stage := ?_ }
    rw [h.errand]
    exact hstands
  · have hunseen := (h.parts j hj).unseen hne (.inr hmerging)
    refine (h.parts j hj).mono rfl id (fun _ => rfl) ?_ (fun _ => p.names_save _ _)
      (fun _ => rfl) fun hne' => absurd hunseen hne'
    rw [PlainWorld.listed_save, h.errand]
    exact stage.edit_other (hapart j hj hne) _
  · rw [PlainWorld.listed_save]
    exact hissued
  · rw [PlainWorld.listed_save]
    exact hpresent
  · rw [PlainWorld.listed_save]
    exact stage.edit_other (hname i hi).symm _

/-- The entry of an identifier that was given out for the name of an operation does not matter to
the others. -/
theorem rest_setEntry {fresh : AttributeId} (hid : owner fresh = (errands i).name)
    (entry : Option Bytes) :
    (∀ j < count, j ≠ i →
      (part j).Fits m session x owner locks j (p.setEntry session fresh entry)) ∧
      ∀ name, (∀ j < count, (errands j).name ≠ name) →
        ((p.setEntry session fresh entry).listed session).get? name =
            (p.listed session).get? name ∧
          ∀ k, (p.listed session).get? name = some k →
            (p.setEntry session fresh entry).attributes ⟨session, k⟩ =
              p.attributes ⟨session, k⟩ := by
  refine ⟨fun j hj hne => ?_, fun name hname => ⟨rfl, fun k hk => ?_⟩⟩
  · refine (h.parts j hj).mono rfl id (fun {k} hk => ?_) rfl id (fun _ => rfl) fun _ => ⟨rfl, rfl⟩
    refine p.setEntry_other session ?_ entry
    rintro rfl
    rw [h.errand] at hk
    exact hapart j hj hne (hk.symm.trans hid)
  · refine p.setEntry_other session ?_ entry
    rintro rfl
    exact hname i hi (hid.symm.trans (h.listed.owned hk))

/-- The entry of a new attribute is stored. -/
theorem store {fresh : AttributeId} {bytes : Bytes} (hs : (part i).stage = .drawn fresh)
    (hkept : (part i).errand.Kept m (some bytes)) :
    Merging m session x count errands p₀ owner locks
      (Function.update part i { part i with stage := .written fresh })
      (p.setEntry session fresh (some bytes)) := by
  have hfits := h.parts i hi
  have hid := hfits.stage
  rw [hs] at hid
  have howner : owner fresh = (errands i).name := by
    rw [← h.errand]
    exact hid.1
  obtain ⟨hrest, hothers⟩ := h.rest_setEntry hi hapart howner (some bytes)
  refine h.step (h.errand i) ?_ hrest h.listed (fun {name k} hb => ?_) hothers
  · refine { hfits with knows := fun _ => hfits.knows (by rw [hs]; trivial), stage := ⟨hid, ?_⟩ }
    rw [p.setEntry_same]
    exact hkept
  · by_cases he : k = fresh
    · rw [he, p.setEntry_same]
      exact hkept.legible
    · rw [p.setEntry_other session he]
      exact h.present hb

/-- An entry is deleted that the stored names do not refer to any more. -/
theorem discard {old : AttributeId} (hd : (part i).Discards old) :
    Merging m session x count errands p₀ owner locks part (p.setEntry session old none) := by
  have hfits := h.parts i hi
  have hstands := hfits.stage
  -- The identifier is one of the operation, and its name is bound to another one or to none.
  obtain ⟨hid, hgone, hstage⟩ : owner old = (part i).errand.name ∧
      (p.listed session).get? (part i).errand.name ≠ some old ∧
      (part i).stage.Stands m session x owner (part i).errand (p.setEntry session old none) := by
    cases hd with
    | @replaced new hs hne =>
      rw [hs] at hstands ⊢
      obtain ⟨hbound, hnew, hkept, hold⟩ := hstands
      refine ⟨(hold old rfl).1, fun he => hne (Option.some.inj (he.symm.trans hbound)), hbound,
        hnew, ?_, hold⟩
      rw [p.setEntry_other session hne.symm]
      exact hkept
    | dropped hs hheld =>
      rw [hs] at hstands ⊢
      refine ⟨(hfits.owned hheld).1, ?_, hstands⟩
      rw [hstands.2]
      exact nofun
  have howner : owner old = (errands i).name := by
    rw [← h.errand]
    exact hid
  obtain ⟨hrest, hothers⟩ := h.rest_setEntry hi hapart howner none
  rw [← Function.update_eq_self i part]
  refine h.step (h.errand i) { hfits with stage := hstage } hrest h.listed (fun {name k} hb => ?_)
    hothers
  have hne : k ≠ old := by
    rintro rfl
    have howned := h.listed.owned hb
    rw [hid] at howned
    exact hgone (howned ▸ hb)
  rw [p.setEntry_other session hne]
  exact h.present hb

/-- A view holds what the operation that had its lock has changed. -/
theorem unlock (draw : Nat → AttributeId) (factory : Nat) {names : Names} {state : ViewState V}
    (hg : (part i).grip = some names)
    (hstate : state.bundle.names = (part i).stage.edit (errands i).name names) :
    Merging m session x count errands p₀ owner
      (locks.after i (errands i).view (.unlock state : Action V))
      (Function.update part i { part i with grip := none })
      (p.perform m draw ⟨factory, some (errands i).view⟩ (.unlock state)).2 := by
  have hfits := h.parts i hi
  obtain ⟨hissued, hbare, hknows⟩ := hfits.edited hg
  rw [h.errand, ← hstate] at hissued hbare hknows
  obtain ⟨hholder, hnames⟩ := hfits.grip hg
  rw [h.errand] at hholder hnames
  have hlength : ∀ change, (p.views.modify (errands i).view change).length = p.views.length :=
    fun change => List.length_modify change ..
  have hviews := PlainWorld.namesOf_unlock m draw p factory (h.errand i ▸ hfits.seat) state
  refine h.step (h.errand i) ?_ (fun j hj hne => ?_) h.listed h.present
    fun _ _ => ⟨rfl, fun _ _ => rfl⟩
  · have hself := hviews (errands i).view
    rw [if_pos rfl] at hself
    have hreleased : Course.Fits m session x owner locks i { part i with grip := none } p :=
      { hfits with grip := nofun }
    rw [← h.errand] at hknows
    exact hreleased.reviewed (hlength _) ((h.errand i).symm ▸ hself) hissued hbare hknows nofun rfl
  · have hother := h.parts j hj
    by_cases he : (part j).errand.view = (errands i).view
    · have hself := hviews (part j).errand.view
      rw [if_pos he] at hself
      refine hother.reviewed (hlength _) hself hissued hbare (fun ho => ?_) (fun {_} hlocked => ?_)
        rfl
      · have hold := hother.knows ho
        rw [he, hnames] at hold
        rw [hstate, Stage.edit_other]
        · exact hold
        · rw [h.errand]
          exact hapart j hj hne
      · have hheld := (hother.grip hlocked).1
        rw [he] at hheld
        exact absurd (Option.some.inj (hheld.symm.trans hholder)) hne
    · have hsame := hviews (part j).errand.view
      rw [if_neg he] at hsame
      refine hother.reviewed (hlength _) hsame hother.held hother.bare hother.knows
        (fun {_} hlocked => ?_) rfl
      obtain ⟨hheld, hgrip⟩ := hother.grip hlocked
      exact ⟨(Function.update_of_ne he _ _).trans hheld, hgrip⟩

omit h hi hapart in
/-- Each operation keeps to its part, as long as stored names are not changed between the time that
it reads them and the time that it writes them back. -/
theorem upholds {calls : List (Pending V)}
    (hview : ∀ {i q}, calls[i]? = some q → (errands i).view = q.view)
    (hapart : ∀ i < calls.length, ∀ j < calls.length, j ≠ i →
      (errands j).name ≠ (errands i).name) :
    (Course.rule m).Upholds m session x False calls fun locks part p =>
      ∃ owner, Merging m session x calls.length errands p₀ owner locks part p := by
  rintro i q locks part p action post hq ⟨owner, h⟩ hon ha hrule
  have hi : i < calls.length := (List.getElem?_eq_some_iff.mp hq).1
  have hapart := hapart i hi
  have hsame : ∃ owner, Merging m session x calls.length errands p₀ owner locks
      (Function.update part i (part i)) p := by
    rw [Function.update_eq_self]
    exact ⟨owner, h⟩
  rw [← hview hq] at ha ⊢
  cases action with
  | isOpen => exact hrule.elim
  | decode bytes => exact hrule.elim
  | encode value => exact ⟨part i, hrule, hsame⟩
  | record measure => exact ⟨part i, hrule, hsame⟩
  | notify direction value => exact ⟨part i, hrule, hsame⟩
  | draw => exact ⟨_, hrule.2 _, _, h.draw hi hrule.1 ha⟩
  | lock =>
    obtain ⟨-, hopen, hpost⟩ := hrule
    have hknows := (h.parts i hi).knows hopen
    rw [h.errand] at hknows
    exact ⟨_, hpost (p.stateOf ⟨0, some (errands i).view⟩) (h.errand i ▸ hknows), owner,
      h.lock hi ha⟩
  | unlock state =>
    obtain ⟨names, hg, hstate, hpost⟩ := hrule
    rw [h.errand] at hstate
    exact ⟨_, hpost, owner, h.unlock hi hapart x.draw q.factory hg hstate⟩
  | names call =>
    have hm := ha.resolve_left id
    cases call with
    | get key =>
      obtain rfl : key = session := hon.1 key rfl
      obtain ⟨names, hg, hpost⟩ := hrule
      exact ⟨_, hpost _, owner, h.read hi hg key hm⟩
    | put key names mode =>
      obtain rfl : key = session := hon.1 key rfl
      obtain ⟨seen, stage, hs, ht, rfl, hpost⟩ := hrule
      rw [h.errand]
      exact ⟨_, hpost _, owner, h.write hi hapart hs ht key _ mode⟩
    | getAll keys => exact hrule.elim
    | remove key mode => exact hrule.elim
    | evict key => exact hrule.elim
  | attributes call =>
    cases call with
    | put key bytes mode =>
      obtain ⟨_, id⟩ := key
      obtain rfl := hon _ rfl
      obtain ⟨hs, hkept, hpost⟩ := hrule
      exact ⟨_, hpost _, owner, h.store hi hapart hs hkept⟩
    | remove key mode =>
      obtain ⟨_, id⟩ := key
      obtain rfl := hon _ rfl
      obtain ⟨hd, hpost⟩ := hrule
      refine ⟨part i, hpost _, owner, ?_⟩
      rw [Function.update_eq_self]
      exact h.discard hi hapart hd
    | get key => exact hrule.elim
    | getAll keys => exact hrule.elim
    | evict key => exact hrule.elim

end Merging
end SessionAttributes
