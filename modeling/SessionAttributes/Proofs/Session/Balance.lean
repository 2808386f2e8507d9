import SessionAttributes.Proofs.Session.Upkeep

namespace SessionAttributes

variable {V : Type}

/-- What is stored of the names of a view while a change of them is under way. -/
def Change.Stored (names : Names) (stored : Option Names) : Change → Prop
  | .keep => stored = some names ∨ stored = none ∧ names = Dict.empty
  | change => stored = some (change.apply names)

/-- The names and entries of a session while operations of its only view look after some of them.
The one that has the lock may have changed the stored names already. -/
structure Balanced (x : Supply) (holder : Option Nat) (care : Nat → Care) (change : Change)
    (s : Scope V) : Prop where
  distinct : s.bundle.names.Injective
  stored : change.Stored s.bundle.names s.stored
  idle : holder = none → change = .keep
  pending : ∀ {i}, holder = some i → change.Fits s.bundle.names (care i)
  fits : ∀ i, (care i).Fits s.bundle.names
  own : ∀ {i j id stored}, care i = .fresh id stored → (care j).id? = some id → i = j
  past : ∀ {id}, id ∈ s.bundle.names.values ∨ (∃ i, (care i).id? = some id) →
    ∀ k, s.drawn ≤ k → k < x.limit → x.draw k ≠ id
  present : ∀ {id}, id ∈ s.bundle.names.values → s.entries id ≠ none
  written : ∀ {i id}, care i = .fresh id true → s.entries id ≠ none
  kept : ∀ {id}, s.entries id ≠ none → id ∈ s.bundle.names.values ∨ ∃ i, (care i).id? = some id

theorem update_shape {care : Nat → Care} {i j : Nat} {c d : Care}
    (h : Function.update care i c j = d) : j = i ∧ c = d ∨ j ≠ i ∧ care j = d := by
  by_cases he : j = i
  · subst he
    rw [Function.update_self] at h
    exact .inl ⟨rfl, h⟩
  · rw [Function.update_of_ne he] at h
    exact .inr ⟨he, h⟩

theorem update_id {care : Nat → Care} {i j : Nat} {c : Care} {id : AttributeId}
    (h : (Function.update care i c j).id? = some id) :
    j = i ∧ c.id? = some id ∨ j ≠ i ∧ (care j).id? = some id := by
  by_cases he : j = i
  · subst he
    rw [Function.update_self] at h
    exact .inl ⟨rfl, h⟩
  · rw [Function.update_of_ne he] at h
    exact .inr ⟨he, h⟩

/-- What is looked after when one of them does not any more. -/
theorem update_nothing {care : Nat → Care} {i j : Nat} {id : AttributeId}
    (h : (Function.update care i .nothing j).id? = some id) : j ≠ i ∧ (care j).id? = some id := by
  rcases update_id h with ⟨-, ⟨⟩⟩ | h
  exact h

/-- What was fresh before, if what is looked after now is not. -/
theorem update_fresh {care : Nat → Care} {i j : Nat} {c : Care} {id : AttributeId} {stored : Bool}
    (h : Function.update care i c j = .fresh id stored) (hc : ∀ id stored, c ≠ .fresh id stored) :
    j ≠ i ∧ care j = .fresh id stored := by
  rcases update_shape h with ⟨-, he⟩ | h
  · exact absurd he (hc id stored)
  · exact h

/-- What was looked after still is, if the one whose part changes looked after nothing. -/
theorem update_still {care : Nat → Care} {i j : Nat} {c : Care} {id : AttributeId}
    (hi : care i = .nothing) (hj : (care j).id? = some id) :
    (Function.update care i c j).id? = some id := by
  have hne : j ≠ i := by
    rintro rfl
    rw [hi] at hj
    cases hj
  rw [Function.update_of_ne hne]
  exact hj

/-- What the others look after they go on to. -/
theorem update_others {care : Nat → Care} {i : Nat} {c : Care} {id k : AttributeId}
    (hi : (care i).id? = some id) (hk : k ≠ id) (h : ∃ j, (care j).id? = some k) :
    ∃ j, (Function.update care i c j).id? = some k := by
  obtain ⟨j, hj⟩ := h
  refine ⟨j, ?_⟩
  rw [Function.update_of_ne]
  · exact hj
  · rintro rfl
    exact hk (Option.some.inj (hj.symm.trans hi))

theorem update_fits {care : Nat → Care} {i : Nat} {c : Care} {names : Names}
    (h : ∀ j, (care j).Fits names) (hc : c.Fits names) (j : Nat) :
    (Function.update care i c j).Fits names := by
  rcases update_shape (j := j) rfl with ⟨-, he⟩ | ⟨-, he⟩
  · rw [← he]
    exact hc
  · rw [← he]
    exact h j

theorem Care.Fits.mono {names names' : Names} {c : Care} (h : c.Fits names)
    (hout : ∀ {id}, c.id? = some id → id ∉ names.values → id ∉ names'.values)
    (hb : ∀ {name id}, names.get? name = some id →
      names'.get? name = some id ∨ id ∉ names'.values) : c.Fits names' := by
  cases c with
  | nothing => trivial
  | fresh id stored => exact hout rfl h
  | loose id => exact hout rfl h
  | bound name id =>
    rcases h with h | h
    · exact hb h
    · exact .inr (hout rfl h)

namespace Balanced

variable {x : Supply} {holder : Option Nat} {care : Nat → Care} {change : Change} {s : Scope V}
  {i : Nat}

/-- The stored names never refer to an entry that is not there. -/
theorem intact (h : Balanced x holder care change s) {names : Names} (hs : s.stored = some names)
    {id : AttributeId} (hm : id ∈ names.values) : s.entries id ≠ none := by
  have hstored := h.stored
  cases change with
  | keep =>
    rcases hstored with hstored | ⟨hstored, -⟩
    · cases hs.symm.trans hstored
      exact h.present hm
    · cases hs.symm.trans hstored
  | bind name fresh =>
    cases hs.symm.trans hstored
    rcases Dict.mem_values_insert hm with rfl | hm
    · cases hholder : holder with
      | none => cases h.idle hholder
      | some i => exact h.written (h.pending hholder).2
    · exact h.present hm
  | unbind name loose =>
    cases hs.symm.trans hstored
    exact h.present (Dict.mem_values_erase hm)

/-- An identifier that is drawn next is nobody else's. -/
theorem draw (h : Balanced x holder care change s) (hlt : s.drawn < x.limit)
    (hi : care i = .nothing) (hholder : holder ≠ some i) :
    Balanced x holder (Function.update care i (.fresh (x.draw s.drawn) false)) change
      { s with drawn := s.drawn + 1 } where
  distinct := h.distinct
  stored := h.stored
  idle := h.idle
  pending {j} hj := by
    have hne : j ≠ i := fun he => hholder (he ▸ hj)
    rw [Function.update_of_ne hne]
    exact h.pending hj
  fits := update_fits h.fits fun hm => h.past (.inl hm) s.drawn (Nat.le_refl _) hlt rfl
  own {a b id stored} ha hb := by
    have hfresh : ∀ {j}, (care j).id? = some (x.draw s.drawn) → False :=
      fun {j} hj => h.past (.inr ⟨j, hj⟩) s.drawn (Nat.le_refl _) hlt rfl
    rcases update_shape ha with ⟨hai, he⟩ | ⟨-, hold⟩
    · rcases update_id hb with ⟨hbi, -⟩ | ⟨-, hid⟩
      · rw [hai, hbi]
      · cases he
        exact (hfresh hid).elim
    · rcases update_id hb with ⟨-, he⟩ | ⟨-, hid⟩
      · cases he
        exact (hfresh (j := a) (by rw [hold]; rfl)).elim
      · exact h.own hold hid
  past {id} hid k hk hlt' := by
    have hold : id ∈ s.bundle.names.values ∨ (∃ i, (care i).id? = some id) → x.draw k ≠ id :=
      fun hid => h.past hid k (Nat.le_of_succ_le hk) hlt'
    rcases hid with hid | ⟨j, hj⟩
    · exact hold (.inl hid)
    · rcases update_id hj with ⟨-, hj⟩ | ⟨-, hj⟩
      · cases hj
        exact (x.distinct s.drawn k hk hlt').symm
      · exact hold (.inr ⟨j, hj⟩)
  present := h.present
  written {j id} hj := by
    rcases update_shape hj with ⟨-, he⟩ | ⟨-, hj⟩
    · cases he
    · exact h.written hj
  kept hid := (h.kept hid).imp_right fun ⟨j, hj⟩ => ⟨j, update_still hi hj⟩

theorem lock (h : Balanced x none care change s) (i : Nat) :
    change = .keep ∧ Balanced x (some i) care .keep s := by
  have hkeep := h.idle rfl
  subst hkeep
  exact ⟨rfl, { h with idle := nofun, pending := fun _ => trivial }⟩

/-- Under the lock the names are changed in the store. -/
theorem merge (h : Balanced x (some i) care .keep s) (hf : change.Fits s.bundle.names (care i)) :
    Balanced x (some i) care change (s.save (change.apply s.bundle.names)) where
  distinct := h.distinct
  stored := by
    cases change with
    | keep => exact .inl rfl
    | bind name id => rfl
    | unbind name id => rfl
  idle := nofun
  pending := by
    rintro j ⟨⟩
    exact hf
  fits := h.fits
  own := h.own
  past := h.past
  present := h.present
  written := h.written
  kept := h.kept

/-- An entry that is looked after may be written. -/
theorem setEntry (h : Balanced x holder care change s) {id : AttributeId}
    (hi : (care i).id? = some id) (bytes : Bytes) :
    Balanced x holder care change (s.setEntry id (some bytes)) := by
  have hentry : ∀ {k}, s.entries k ≠ none → (s.setEntry id (some bytes)).entries k ≠ none := by
    intro k hk
    change Function.update s.entries id (some bytes) k ≠ none
    by_cases he : k = id
    · rw [he, Function.update_self]
      exact nofun
    · rw [Function.update_of_ne he]
      exact hk
  refine { h with
    present := fun hm => hentry (h.present hm)
    written := fun hj => hentry (h.written hj)
    kept := fun {k} hk => ?_ }
  by_cases he : k = id
  · exact .inr ⟨i, he ▸ hi⟩
  · change Function.update s.entries id (some bytes) k ≠ none at hk
    rw [Function.update_of_ne he] at hk
    exact h.kept hk

theorem mark (h : Balanced x holder care change s) {id : AttributeId} {stored : Bool}
    (hi : care i = .fresh id stored) (he : s.entries id ≠ none) :
    Balanced x holder (Function.update care i (.fresh id true)) change s := by
  have hid : ∀ {j k}, (Function.update care i (.fresh id true) j).id? = some k →
      (care j).id? = some k := by
    intro j k hj
    rcases update_id hj with ⟨rfl, hk⟩ | ⟨-, hk⟩
    · rw [hi]
      exact hk
    · exact hk
  have hnew : Care.Fits s.bundle.names (.fresh id true) := by
    have hfits := h.fits i
    rw [hi] at hfits
    exact hfits
  refine { h with
    pending := fun {j} hj => ?_
    fits := update_fits h.fits hnew
    own := fun {a b k stored'} ha hb => ?_
    past := fun {k} hk => h.past (hk.imp_right fun ⟨j, hj⟩ => ⟨j, hid hj⟩)
    written := fun {j k} hj => ?_
    kept := fun {k} hk => ?_ }
  · have hpending := h.pending hj
    by_cases hji : j = i
    · subst hji
      rw [Function.update_self]
      rw [hi] at hpending
      cases change with
      | keep => trivial
      | bind name fresh =>
        obtain ⟨hn, ⟨⟩⟩ := hpending
        exact ⟨hn, rfl⟩
      | unbind name loose => cases hpending.2
    · rw [Function.update_of_ne hji]
      exact hpending
  · rcases update_shape ha with ⟨rfl, hc⟩ | ⟨-, hc⟩
    · cases hc
      exact h.own hi (hid hb)
    · exact h.own hc (hid hb)
  · rcases update_shape hj with ⟨-, hc⟩ | ⟨-, hc⟩
    · cases hc
      exact he
    · exact h.written hc
  · refine (h.kept hk).imp_right ?_
    rintro ⟨j, hj⟩
    refine ⟨j, ?_⟩
    by_cases hji : j = i
    · subst hji
      rw [hi] at hj
      rw [Function.update_self]
      exact hj
    · rw [Function.update_of_ne hji]
      exact hj

/-- An entry that is looked after may be deleted if the view does not bind it. -/
theorem drop (h : Balanced x holder care change s) {id : AttributeId}
    (hi : (care i).id? = some id) (hn : id ∉ s.bundle.names.values)
    (hp : holder = some i → change = .keep) :
    Balanced x holder (Function.update care i .nothing) change (s.setEntry id none) := by
  have hentry : ∀ {k}, k ≠ id → (s.setEntry id none).entries k = s.entries k :=
    fun hne => Function.update_of_ne hne _ _
  refine { h with
    pending := fun {j} hj => ?_
    fits := update_fits h.fits trivial
    own := fun ha hb => h.own (update_fresh ha nofun).2 (update_nothing hb).2
    past := fun {k} hk => h.past (hk.imp_right fun ⟨j, hj⟩ => ⟨j, (update_nothing hj).2⟩)
    present := fun {k} hm => ?_
    written := fun {j k} hj => ?_
    kept := fun {k} hk => ?_ }
  · by_cases hji : j = i
    · subst hji
      rw [hp hj]
      trivial
    · rw [Function.update_of_ne hji]
      exact h.pending hj
  · rw [hentry fun he => hn (he ▸ hm)]
    exact h.present hm
  · obtain ⟨hne, hj⟩ := update_fresh hj nofun
    rw [hentry]
    · exact h.written hj
    · rintro rfl
      exact hne (h.own hj hi)
  · have hne : k ≠ id := by
      rintro rfl
      exact hk (Function.update_self ..)
    rw [hentry hne] at hk
    exact (h.kept hk).imp_right (update_others hi hne)

/-- The lock is given back with the names as they were. -/
theorem release (h : Balanced x (some i) care .keep s) {state : ViewState V}
    (hstate : state.bundle.names = s.bundle.names) :
    Balanced x none care .keep { s with state } := by
  have hnames : (Scope.bundle { s with state }).names = s.bundle.names := hstate
  constructor
  · exact hnames ▸ h.distinct
  · exact hnames ▸ h.stored
  · exact fun _ => rfl
  · exact fun _ => trivial
  · exact hnames ▸ h.fits
  · exact h.own
  · exact hnames ▸ h.past
  · exact hnames ▸ h.present
  · exact h.written
  · exact hnames ▸ h.kept

/-- An attribute that the view binds is not fresh to anyone. -/
theorem own_bound (h : Balanced x holder care change s)
    (hfresh : ∀ id stored, c ≠ .fresh id stored)
    (hc : ∀ id, c.id? = some id → id ∈ s.bundle.names.values) {j k : Nat} {id : AttributeId}
    {stored : Bool} (hj : Function.update care i c j = .fresh id stored)
    (hk : (Function.update care i c k).id? = some id) : j = k := by
  obtain ⟨-, hj⟩ := update_fresh hj hfresh
  rcases update_id hk with ⟨-, hk⟩ | ⟨-, hk⟩
  · have hfits := h.fits j
    rw [hj] at hfits
    exact absurd (hc _ hk) hfits
  · exact h.own hj hk

/-- Whoever looks after an attribute that the view binds has not drawn it from now on. -/
theorem past_bound (h : Balanced x holder care change s)
    (hc : ∀ id, c.id? = some id → id ∈ s.bundle.names.values) {id : AttributeId}
    (hid : id ∈ s.bundle.names.values ∨ ∃ j, (Function.update care i c j).id? = some id) :
    ∀ k, s.drawn ≤ k → k < x.limit → x.draw k ≠ id := by
  rcases hid with hid | ⟨j, hj⟩
  · exact h.past (.inl hid)
  · rcases update_id hj with ⟨-, hid⟩ | ⟨-, hj⟩
    · exact h.past (.inl (hc _ hid))
    · exact h.past (.inr ⟨j, hj⟩)

theorem learn (h : Balanced x none care .keep s) (hi : care i = .nothing) {name : String}
    {id : AttributeId} (hb : s.bundle.names.get? name = some id) :
    Balanced x none (Function.update care i (.bound name id)) .keep s := by
  have hbound : ∀ k, (Care.bound name id).id? = some k → k ∈ s.bundle.names.values := by
    rintro _ ⟨⟩
    exact Dict.mem_values.mpr ⟨name, hb⟩
  exact { h with
    pending := fun _ => trivial
    fits := update_fits h.fits (.inl hb)
    own := h.own_bound (c := .bound name id) nofun hbound
    past := h.past_bound hbound
    written := fun hj => h.written (update_fresh hj nofun).2
    kept := fun hk => (h.kept hk).imp_right fun ⟨j, hj⟩ => ⟨j, update_still hi hj⟩ }

/-- An attribute that the view binds need not be looked after. -/
theorem settle (h : Balanced x none care .keep s) {id : AttributeId}
    (hi : (care i).id? = some id) (hm : id ∈ s.bundle.names.values) :
    Balanced x none (Function.update care i .nothing) .keep s := by
  refine { h with
    pending := fun _ => trivial
    fits := update_fits h.fits trivial
    own := fun ha hb => h.own (update_fresh ha nofun).2 (update_nothing hb).2
    past := fun {k} hk => h.past (hk.imp_right fun ⟨j, hj⟩ => ⟨j, (update_nothing hj).2⟩)
    written := fun hj => h.written (update_fresh hj nofun).2
    kept := fun {k} hk => ?_ }
  by_cases he : k = id
  · exact .inl (he ▸ hm)
  · exact (h.kept hk).imp_right (update_others hi he)

/-- A new attribute is bound in the view as well. -/
theorem bind {name : String} {id : AttributeId} (h : Balanced x (some i) care (.bind name id) s)
    {state : ViewState V} (hstate : state.bundle.names = s.bundle.names.insert name id) :
    Balanced x none (Function.update care i .nothing) .keep { s with state } := by
  obtain ⟨hfree, hi⟩ := h.pending rfl
  have hnames : (Scope.bundle { s with state }).names = s.bundle.names.insert name id := hstate
  have hiid : (care i).id? = some id := by rw [hi]; rfl
  have hnew : id ∉ s.bundle.names.values := by
    have hfits := h.fits i
    rw [hi] at hfits
    exact hfits
  have hmem : ∀ {k}, k ∈ (s.bundle.names.insert name id).values ↔
      k = id ∨ k ∈ s.bundle.names.values := Dict.mem_values_insert_free hfree
  -- Nobody else looks after the attribute that is bound.
  have hne : ∀ {j k}, (Function.update care i .nothing j).id? = some k → k ≠ id := by
    rintro j k hj rfl
    obtain ⟨hji, hj⟩ := update_nothing hj
    exact hji (h.own hi hj).symm
  refine ⟨?_, ?_, fun _ => rfl, fun _ => trivial, fun j => ?_,
    fun ha hb => h.own (update_fresh ha nofun).2 (update_nothing hb).2, fun {k} hk => ?_,
    fun {k} hk => ?_, fun hj => h.written (update_fresh hj nofun).2, fun {k} hk => ?_⟩
  · rw [hnames]
    exact h.distinct.insert hnew
  · rw [hnames]
    exact .inl h.stored
  · rw [hnames]
    have hold : (Function.update care i .nothing j).Fits s.bundle.names :=
      update_fits h.fits (c := .nothing) trivial j
    refine hold.mono (fun hj hk hm => (hmem.mp hm).elim (hne hj) hk) fun {n k} hn => .inl ?_
    refine Dict.get?_insert_eq_some.mpr (.inr ⟨?_, hn⟩)
    rintro rfl
    cases hfree.symm.trans hn
  · rw [hnames, hmem] at hk
    rcases hk with (rfl | hk) | ⟨j, hj⟩
    · exact h.past (.inr ⟨i, hiid⟩)
    · exact h.past (.inl hk)
    · exact h.past (.inr ⟨j, (update_nothing hj).2⟩)
  · rw [hnames, hmem] at hk
    rcases hk with rfl | hk
    · exact h.written hi
    · exact h.present hk
  · rw [hnames, hmem]
    by_cases he : k = id
    · exact .inl (.inl he)
    · exact (h.kept hk).imp .inr (update_others hiid he)

/-- A name is dropped in the view as well, and its attribute is left to be deleted. -/
theorem unbind {name : String} {id : AttributeId}
    (h : Balanced x (some i) care (.unbind name id) s) {state : ViewState V}
    (hstate : state.bundle.names = s.bundle.names.erase name) :
    Balanced x none (Function.update care i (.loose id)) .keep { s with state } := by
  obtain ⟨hb, hi⟩ := h.pending rfl
  have hnames : (Scope.bundle { s with state }).names = s.bundle.names.erase name := hstate
  have hloose : ∀ k, (Care.loose id).id? = some k → k ∈ s.bundle.names.values := by
    rintro _ ⟨⟩
    exact Dict.mem_values.mpr ⟨name, hb⟩
  have hmem : ∀ {k}, k ∈ (s.bundle.names.erase name).values ↔
      k ∈ s.bundle.names.values ∧ k ≠ id := h.distinct.mem_values_erase_bound hb
  refine ⟨?_, ?_, fun _ => rfl, fun _ => trivial, fun j => ?_,
    h.own_bound (c := .loose id) nofun hloose, fun {k} hk => ?_, fun {k} hk => ?_,
    fun hj => h.written (update_fresh hj nofun).2, fun {k} hk => ?_⟩
  · rw [hnames]
    exact h.distinct.erase name
  · rw [hnames]
    exact .inl h.stored
  · rw [hnames]
    have hold : ∀ j, (care j).Fits (s.bundle.names.erase name) := fun j => by
      refine (h.fits j).mono (fun _ hk hm => hk (hmem.mp hm).1) fun {n k} hn => ?_
      by_cases hname : n = name
      · subst hname
        cases hn.symm.trans hb
        exact .inr fun hk => (hmem.mp hk).2 rfl
      · exact .inl (Dict.get?_erase_eq_some.mpr ⟨hname, hn⟩)
    exact update_fits hold (c := .loose id) (fun hk => (hmem.mp hk).2 rfl) j
  · rw [hnames, hmem] at hk
    exact h.past_bound hloose (hk.imp_left And.left)
  · rw [hnames, hmem] at hk
    exact h.present hk.1
  · rw [hnames, hmem]
    rcases h.kept hk with hk | ⟨j, hj⟩
    · by_cases hkid : k = id
      · exact .inr ⟨i, by rw [Function.update_self, hkid]; rfl⟩
      · exact .inl ⟨hk, hkid⟩
    · exact .inr ⟨j, update_still hi hj⟩

end Balanced

namespace Upkeep

def all (holder : Option Nat) (care : Nat → Care) (change : Change) (names : Names) (i : Nat) :
    Upkeep :=
  ⟨care i, if holder = some i then some (names, change) else none⟩

/-- The parts that operations have in a balanced session. -/
def Holds (x : Supply) (holder : Option Nat) (part : Nat → Upkeep) (s : Scope V) : Prop :=
  ∃ care change, part = all holder care change s.bundle.names ∧ Balanced x holder care change s

variable {x : Supply} {holder : Option Nat} {care : Nat → Care} {change change' : Change}
  {names names' : Names} {i number : Nat} {c : Care} {session : SessionId}

theorem all_grip (h : (all holder care change names i).grip = some (names', change')) :
    holder = some i ∧ names' = names ∧ change' = change := by
  unfold all at h
  dsimp only at h
  split at h
  · cases h
    exact ⟨‹_›, rfl, rfl⟩
  · cases h

theorem all_care (c : Care) :
    Function.update (all holder care change names) i
        { all holder care change names i with care := c } =
      all holder (Function.update care i c) change names := by
  funext j
  by_cases hj : j = i
  · subst hj
    simp [all]
  · simp [all, hj]

theorem all_locked (h : holder = none ∨ holder = some i) (change' : Change) :
    Function.update (all holder care change names) i ⟨care i, some (names, change')⟩ =
      all (some i) care change' names := by
  funext j
  by_cases hj : j = i
  · subst hj
    simp [all]
  · have hne : i ≠ j := Ne.symm hj
    rcases h with rfl | rfl <;> simp [all, hj, hne]

theorem all_unlocked (c : Care) (names' : Names) :
    Function.update (all (some i) care change names) i ⟨c, none⟩ =
      all none (Function.update care i c) change' names' := by
  funext j
  by_cases hj : j = i
  · subst hj
    simp [all]
  · have hne : i ≠ j := Ne.symm hj
    simp [all, hj, hne]

namespace Holds

variable {part : Nat → Upkeep} {s : Scope V}

/-- Under the lock, as long as they are not changed, the stored names are those of the view. -/
theorem known (h : Holds x holder part s) {names : Names}
    (hgrip : (part i).grip = some (names, .keep)) :
    names = s.bundle.names ∧ s.stored.getD names = names := by
  obtain ⟨care, change, rfl, hb⟩ := h
  obtain ⟨-, rfl, rfl⟩ := all_grip hgrip
  refine ⟨rfl, ?_⟩
  rcases hb.stored with hs | ⟨hs, -⟩
  · rw [hs, Option.getD_some]
  · rw [hs, Option.getD_none]

/-- An operation that has the lock gives it back. -/
theorem unlock (h : Holds x holder part s) {state : ViewState V} {names : Names} {change : Change}
    {c : Care} (hgrip : (part i).grip = some (names, change))
    (hstate : state.bundle.names = change.apply names)
    (hleaves : (part i).care.Leaves names change c) :
    Holds x none (Function.update part i ⟨c, none⟩) { s with state } := by
  obtain ⟨care, change', rfl, hb⟩ := h
  obtain ⟨rfl, rfl, rfl⟩ := all_grip hgrip
  have hcare : (care i).Leaves s.bundle.names change c := hleaves
  refine ⟨Function.update care i c, .keep, all_unlocked c _, ?_⟩
  generalize hc : care i = before at hcare
  cases hcare with
  | same =>
    rw [← hc, Function.update_eq_self]
    exact hb.release hstate
  | learn hn => exact (hb.release hstate).learn hc (by exact hstate ▸ hn)
  | @settle name id hn =>
    have hm : id ∈ (Scope.bundle { s with state }).names.values :=
      Dict.mem_values.mpr ⟨name, by exact hstate ▸ hn⟩
    exact (hb.release hstate).settle (by rw [hc]; rfl) hm
  | bind name id => exact hb.bind hstate
  | unbind name id => exact hb.unbind hstate

/-- An operation that looks after nothing draws an identifier and looks after that. -/
theorem draw (h : Holds x holder part s) (hlt : s.drawn < x.limit) (hrest : part i = rest) :
    Holds x holder (Function.update part i { part i with care := .fresh (x.draw s.drawn) false })
      { s with drawn := s.drawn + 1 } := by
  obtain ⟨care, change, rfl, hb⟩ := h
  have hi : care i = .nothing := congrArg Upkeep.care hrest
  have hholder : holder ≠ some i := by
    intro he
    have hgrip := congrArg Upkeep.grip hrest
    simp [all, he, rest] at hgrip
  exact ⟨_, change, all_care _, hb.draw hlt hi hholder⟩

/-- An operation takes the lock that nobody has. What it looks after is as the names tell. -/
theorem lock (h : Holds x none part s) (i : Nat) :
    (part i).care.Fits s.bundle.names ∧ Holds x (some i)
      (Function.update part i { part i with grip := some (s.bundle.names, .keep) }) s := by
  obtain ⟨care, change, rfl, hb⟩ := h
  obtain ⟨rfl, hlocked⟩ := hb.lock i
  exact ⟨hlocked.fits i, care, .keep, all_locked (.inl rfl) .keep, hlocked⟩

/-- The operation that has the lock stores the names with its change. -/
theorem save (h : Holds x holder part s) {names : Names} {change : Change}
    (hgrip : (part i).grip = some (names, .keep)) (hfits : change.Fits names (part i).care) :
    Holds x holder (Function.update part i { part i with grip := some (names, change) })
      (s.save (change.apply names)) := by
  obtain ⟨care, change', rfl, hb⟩ := h
  obtain ⟨rfl, rfl, rfl⟩ := all_grip hgrip
  exact ⟨care, change, all_locked (.inr rfl) change, hb.merge hfits⟩

/-- An operation stores the entry of what it looks after. -/
theorem store (h : Holds x holder part s) {id : AttributeId} {c : Care}
    (hstores : (part i).care.Stores id c) (bytes : Bytes) :
    Holds x holder (Function.update part i { part i with care := c })
      (s.setEntry id (some bytes)) := by
  obtain ⟨care, change, rfl, hb⟩ := h
  refine ⟨Function.update care i c, change, all_care c, ?_⟩
  have hcare : (care i).Stores id c := hstores
  generalize hc : care i = before at hcare
  cases hcare with
  | fresh stored =>
    refine (hb.setEntry (i := i) (by rw [hc]; rfl) bytes).mark hc ?_
    exact fun he => absurd ((Function.update_self ..).symm.trans he) (Option.some_ne_none _)
  | bound name =>
    rw [← hc, Function.update_eq_self]
    exact hb.setEntry (i := i) (by rw [hc]; rfl) bytes

/-- An operation deletes the entry of what it looks after, if the view does not bind it. -/
theorem delete (h : Holds x holder part s) {id : AttributeId} (hdrops : (part i).Drops id) :
    Holds x holder (Function.update part i { part i with care := .nothing })
      (s.setEntry id none) := by
  obtain ⟨care, change, rfl, hb⟩ := h
  refine ⟨Function.update care i .nothing, change, all_care .nothing, ?_⟩
  rcases hdrops with hloose | ⟨hid, names, hgrip, hn⟩
  · have hi : care i = .loose id := hloose
    have hfits := hb.fits i
    rw [hi] at hfits
    refine hb.drop (by rw [hi]; rfl) hfits fun hholder => ?_
    have hpending := hb.pending hholder
    rw [hi] at hpending
    cases change with
    | keep => rfl
    | bind name fresh => cases hpending.2
    | unbind name loose => cases hpending.2
  · obtain ⟨-, rfl, rfl⟩ := all_grip hgrip
    exact hb.drop hid hn fun _ => rfl

/-- What an operation does by its rule keeps the session balanced. -/
theorem act {l : Locks} (h : Holds x (l.holder number) part s) {action : Action V}
    {post : action.Answer → Upkeep → Prop} (m : Marshaller V) (hon : action.On session true)
    (ha : l.Admits x True s.drawn i number action) (hrule : rule action (part i) post) :
    ∃ r, post (s.perform m x.draw session action).1 r ∧
      Holds x ((l.after i number action).holder number) (Function.update part i r)
        (s.perform m x.draw session action).2 := by
  have hsame : Holds x (l.holder number) (Function.update part i (part i)) s := by
    rw [Function.update_eq_self]
    exact h
  cases action with
  | isOpen => exact hrule.elim
  | decode bytes => exact hrule.elim
  | encode value => exact ⟨part i, hrule _, hsame⟩
  | record measure => exact ⟨part i, hrule, hsame⟩
  | notify direction value => exact ⟨part i, hrule, hsame⟩
  | draw =>
    obtain ⟨hrest, hpost⟩ := hrule
    exact ⟨_, hpost _, h.draw ha hrest⟩
  | lock =>
    obtain ⟨-, hpost⟩ := hrule
    change l.holder number = none at ha
    rw [ha] at h
    obtain ⟨hfits, hlocked⟩ := h.lock i
    refine ⟨_, hpost _ hfits, ?_⟩
    change Holds x (Function.update l.holder number (some i) number) _ s
    rw [Function.update_self]
    exact hlocked
  | unlock state =>
    obtain ⟨names, change, c, hgrip, hstate, hleaves, hpost⟩ := hrule
    refine ⟨_, hpost, ?_⟩
    change Holds x (Function.update l.holder number none number) _ { s with state }
    rw [Function.update_self]
    exact h.unlock hgrip hstate hleaves
  | names call =>
    cases call with
    | get key =>
      obtain ⟨names, hgrip, hpost⟩ := hrule
      obtain ⟨rfl, hstored⟩ := h.known hgrip
      exact ⟨part i, hpost _ hstored, hsame⟩
    | put key names' mode =>
      obtain rfl : key = session := hon.1 key rfl
      obtain ⟨names, change, hgrip, hfits, rfl, hpost⟩ := hrule
      simp only [Scope.perform, Scope.callNames_put]
      exact ⟨_, hpost _, h.save hgrip hfits⟩
    | getAll keys => exact hrule.elim
    | remove key mode => exact hrule.elim
    | evict key => exact hrule.elim
  | attributes call =>
    cases call with
    | put key bytes mode =>
      obtain ⟨owner, id⟩ := key
      obtain rfl : owner = session := hon ⟨owner, id⟩ rfl
      obtain ⟨c, hstores, hpost⟩ := hrule
      simp only [Scope.perform, Scope.callAttributes_put]
      exact ⟨_, hpost _, h.store hstores bytes⟩
    | remove key mode =>
      obtain ⟨owner, id⟩ := key
      obtain rfl : owner = session := hon ⟨owner, id⟩ rfl
      obtain ⟨hdrops, hpost⟩ := hrule
      simp only [Scope.perform, Scope.callAttributes_remove]
      exact ⟨_, hpost _, h.delete hdrops⟩
    | get key => exact hrule.elim
    | getAll keys => exact hrule.elim
    | evict key => exact hrule.elim

end Holds
end Upkeep
end SessionAttributes
