import SessionAttributes.Proofs.Session.Loads
import SessionAttributes.Proofs.View.OnMap

namespace SessionAttributes

variable {V : Type}

/-- Where identifiers come from. Up to a limit no two that are drawn are the same. -/
structure Supply where
  draw : Nat → AttributeId
  limit : Nat
  distinct : ∀ i j, i < j → j < limit → draw i ≠ draw j

def Supply.counting : Supply where
  draw := AttributeId.ofNat
  limit := 2 ^ 128
  distinct i j hij hj := by
    intro he
    have hbits : BitVec.ofNat 128 i = BitVec.ofNat 128 j := congrArg AttributeId.bits he
    have hnat := congrArg BitVec.toNat hbits
    rw [BitVec.toNat_ofNat, BitVec.toNat_ofNat, Nat.mod_eq_of_lt hj,
      Nat.mod_eq_of_lt (Nat.lt_trans hij hj)] at hnat
    omega

def Supply.Given (x : Supply) (owner : AttributeId → String) (drawn : Nat) (name : String)
    (id : AttributeId) : Prop :=
  owner id = name ∧ ∀ k, drawn ≤ k → k < x.limit → x.draw k ≠ id

namespace Supply.Given

variable {x : Supply} {owner : AttributeId → String} {drawn : Nat} {name : String}
  {id : AttributeId}

theorem mono (h : x.Given owner drawn name id) {drawn' : Nat} (hle : drawn ≤ drawn') :
    x.Given owner drawn' name id := ⟨h.1, fun k hk => h.2 k (Nat.le_trans hle hk)⟩

/-- What is drawn next may be promised to any name. -/
theorem claim (h : x.Given owner drawn name id) (hlt : drawn < x.limit) (other : String) :
    x.Given (Function.update owner (x.draw drawn) other) drawn name id := by
  refine ⟨?_, h.2⟩
  rw [Function.update_of_ne (h.2 drawn (Nat.le_refl _) hlt).symm]
  exact h.1

/-- What is drawn is not drawn again. -/
theorem fresh (x : Supply) {drawn : Nat} (hname : owner (x.draw drawn) = name) :
    x.Given owner (drawn + 1) name (x.draw drawn) :=
  ⟨hname, fun k hk hlt => (x.distinct drawn k hk hlt).symm⟩

end Supply.Given

/-- Names bind each identifier as its owner says, and none that is still to be drawn. -/
structure Issued (x : Supply) (owner : AttributeId → String) (drawn : Nat) (names : Names) :
    Prop where
  owned : ∀ {name id}, names.get? name = some id → owner id = name
  past : ∀ {name id}, names.get? name = some id → ∀ k, drawn ≤ k → k < x.limit → x.draw k ≠ id

namespace Issued

variable {x : Supply} {owner : AttributeId → String} {drawn : Nat} {names : Names}

theorem empty : Issued x owner drawn Dict.empty := ⟨nofun, nofun⟩

/-- Distinct identifiers have an owner each. -/
theorem of_distinct (hd : names.values.Nodup)
    (hp : ∀ id ∈ names.values, ∀ k, drawn ≤ k → k < x.limit → x.draw k ≠ id) :
    ∃ owner, Issued x owner drawn names := by
  classical
  refine ⟨fun id => if h : ∃ name, names.get? name = some id then h.choose else "", ?_, ?_⟩
  · intro name id hb
    have h : ∃ name, names.get? name = some id := ⟨name, hb⟩
    rw [dif_pos h]
    exact Dict.injective_of_nodup hd h.choose_spec hb
  · exact fun {name id} hb => hp id (Dict.mem_values.mpr ⟨name, hb⟩)

theorem given (h : Issued x owner drawn names) {name : String} {id : AttributeId}
    (hb : names.get? name = some id) : x.Given owner drawn name id := ⟨h.owned hb, h.past hb⟩

theorem of_given (h : ∀ {name id}, names.get? name = some id → x.Given owner drawn name id) :
    Issued x owner drawn names := ⟨fun hb => (h hb).1, fun hb => (h hb).2⟩

theorem mono (h : Issued x owner drawn names) {drawn' : Nat} (hle : drawn ≤ drawn') :
    Issued x owner drawn' names := of_given fun hb => (h.given hb).mono hle

theorem injective (h : Issued x owner drawn names) : names.Injective := by
  intro name name' id hb hb'
  rw [← h.owned hb, ← h.owned hb']

theorem distinct (h : Issued x owner drawn names) : names.values.Nodup := h.injective.values_nodup

theorem fresh (h : Issued x owner drawn names) (hlt : drawn < x.limit) :
    x.draw drawn ∉ names.values := by
  intro hm
  obtain ⟨name, hb⟩ := Dict.mem_values.mp hm
  exact h.past hb drawn (Nat.le_refl _) hlt rfl

theorem erase (h : Issued x owner drawn names) (name : String) :
    Issued x owner drawn (names.erase name) :=
  of_given fun hb => h.given (Dict.get?_erase_eq_some.mp hb).2

theorem bind (h : Issued x owner drawn names) {name : String} {id : AttributeId}
    (hid : x.Given owner drawn name id) : Issued x owner drawn (names.insert name id) := by
  refine of_given fun {k j} hb => ?_
  rcases Dict.get?_insert_eq_some.mp hb with ⟨rfl, rfl⟩ | ⟨-, hb⟩
  · exact hid
  · exact h.given hb

/-- An identifier that is drawn for its owner may be bound. -/
theorem insert (h : Issued x owner drawn names) {name : String}
    (hname : owner (x.draw drawn) = name) :
    Issued x owner (drawn + 1) (names.insert name (x.draw drawn)) :=
  (h.mono (Nat.le_succ _)).bind (.fresh x hname)

/-- What is drawn next may be given to any owner. -/
theorem claim (h : Issued x owner drawn names) (hlt : drawn < x.limit) (name : String) :
    Issued x (Function.update owner (x.draw drawn) name) drawn names :=
  of_given fun hb => (h.given hb).claim hlt name

end Issued

def Legible (m : Marshaller V) (reads : Prop) (entry : Option Bytes) : Prop :=
  ∃ bytes, entry = some bytes ∧ (reads → ∃ value, m.read bytes = .ok value)

namespace Scope

/-- The stored names have their entries, each identifier belongs to one name, and a view holds no
names if none are stored. -/
structure Intact (m : Marshaller V) (reads : Prop) (x : Supply) (owner : AttributeId → String)
    (s : Scope V) : Prop where
  present : ∀ {names}, s.stored = some names → ∀ id ∈ names.values, Legible m reads (s.entries id)
  stored : ∀ {names}, s.stored = some names → Issued x owner s.drawn names
  held : Issued x owner s.drawn s.bundle.names
  bare : s.stored = none → s.bundle.names = Dict.empty

namespace Intact

variable {m : Marshaller V} {reads : Prop} {x : Supply} {owner : AttributeId → String}
  {s : Scope V} {id : AttributeId} {bytes : Bytes}

theorem known (h : s.Intact m reads x owner) :
    Issued x owner s.drawn s.known ∧ ∀ id ∈ s.known.values, Legible m reads (s.entries id) := by
  unfold Scope.known
  cases hs : s.stored with
  | none =>
    rw [Option.getD_none, h.bare hs]
    exact ⟨.empty, nofun⟩
  | some names => exact ⟨h.stored hs, h.present hs⟩

theorem setEntry (h : s.Intact m reads x owner)
    (hb : reads → ∃ value, m.read bytes = .ok value) (id : AttributeId) :
    (s.setEntry id (some bytes)).Intact m reads x owner := by
  refine ⟨fun hs k hk => ?_, h.stored, h.held, h.bare⟩
  change Legible m reads (Function.update s.entries id (some bytes) k)
  by_cases he : k = id
  · subst he
    rw [Function.update_self]
    exact ⟨bytes, rfl, hb⟩
  · rw [Function.update_of_ne he]
    exact h.present hs k hk

theorem dropEntry (h : s.Intact m reads x owner)
    (hid : ∀ {names}, s.stored = some names → id ∉ names.values) :
    (s.setEntry id none).Intact m reads x owner := by
  refine ⟨fun hs k hk => ?_, h.stored, h.held, h.bare⟩
  change Legible m reads (Function.update s.entries id none k)
  have he : k ≠ id := fun he => hid hs (he ▸ hk)
  rw [Function.update_of_ne he]
  exact h.present hs k hk

theorem save (h : s.Intact m reads x owner) {names : Names} (hi : Issued x owner s.drawn names)
    (hp : ∀ id ∈ names.values, Legible m reads (s.entries id)) :
    (s.save names).Intact m reads x owner := by
  refine ⟨fun hs => ?_, fun hs => ?_, h.held, nofun⟩
  · cases hs
    exact hp
  · cases hs
    exact hi

theorem hold (h : s.Intact m reads x owner) {b : Bundle V} (hb : Issued x owner s.drawn b.names)
    (hs : s.stored = none → b.names = Dict.empty) : (s.hold b).Intact m reads x owner :=
  ⟨h.present, h.stored, hb, hs⟩

theorem announcing (h : s.Intact m reads x owner) (activated : List AttributeId) :
    (s.announcing activated).Intact m reads x owner := ⟨h.present, h.stored, h.held, h.bare⟩

theorem draw (h : s.Intact m reads x owner) :
    Intact m reads x owner { s with drawn := s.drawn + 1 } :=
  ⟨h.present, fun hs => (h.stored hs).mono (Nat.le_succ _), h.held.mono (Nat.le_succ _), h.bare⟩

/-- Names that keep the entries of others may be stored with a new one. -/
theorem bind (h : s.Intact m reads x owner) {name : String}
    (hi : Issued x owner s.drawn (s.known.insert name id))
    (hid : Legible m reads (s.entries id)) :
    (s.save (s.known.insert name id)).Intact m reads x owner := by
  refine h.save hi fun k hk => ?_
  rcases Dict.mem_values_insert hk with rfl | hk
  · exact hid
  · exact h.known.2 k hk

theorem unbind (h : s.Intact m reads x owner) (name : String) :
    (s.save (s.known.erase name)).Intact m reads x owner :=
  h.save (h.known.1.erase name) fun k hk => h.known.2 k (Dict.mem_values_erase hk)

end Intact
end Scope

/-- The name that an operation may bind to a new identifier. -/
def ViewCall.binds : ViewCall V → Option String
  | .set name _ | .update name _ => some name
  | _ => none

def Terms.guarding (m : Marshaller V) (reads : Prop) (x : Supply) (owner : AttributeId → String) :
    Terms V where
  failing := True
  draws s id := s.drawn < x.limit ∧ id = x.draw s.drawn
  permits _ _ := True
  keeps := Scope.Intact m reads x owner

namespace View

variable [BEq V] {m : Marshaller V} {reads : Prop} {x : Supply} {owner : AttributeId → String}
  {s : Scope V} {w : View V} {name : String} {value : V}

/-- A write over an entry of the view leaves the names as they are. -/
theorem overwrite_intact (h : s.Intact m reads x owner) {previous : Option V} {id : AttributeId}
    {bytes : Bytes} (hb : s.bundle.attributeId? name = some id)
    (hr : reads → ∃ value, m.read bytes = .ok value) :
    Writes (Terms.guarding m reads x owner) m w name value (fun _ _ => True) (fun _ _ => True)
      (some id) previous id bytes s := by
  have hs := h.setEntry hr id
  refine (Index.secures_saveEntry id bytes _).mpr ⟨trivial, fun _ _ => trivial, hs, ?_⟩
  refine commit_current hb fun activated => ⟨?_, trivial⟩
  exact Scope.Intact.announcing (hs.hold (b := s.bundle.setValue id value) hs.held hs.bare)
    activated

/-- A write of a new name deletes an entry that the name had in the store, which no other name
refers to, and its own one if it cannot be bound. -/
theorem create_intact (h : s.Intact m reads x owner) {previous : Option V} {id : AttributeId}
    {bytes : Bytes} (hb : s.bundle.attributeId? name = none)
    (hknown : Issued x owner s.drawn (s.known.insert name id))
    (hheld : Issued x owner s.drawn (s.bundle.names.insert name id))
    (hfresh : ∀ {names}, s.stored = some names → id ∉ names.values)
    (hr : reads → ∃ value, m.read bytes = .ok value) :
    Writes (Terms.guarding m reads x owner) m w name value (fun _ _ => True) (fun _ _ => True)
      none previous id bytes s := by
  let written := s.setEntry id (some bytes)
  let bound := written.save (s.known.insert name id)
  have hentry : written.Intact m reads x owner := h.setEntry hr id
  have hbound : bound.Intact m reads x owner :=
    hentry.bind hknown ⟨bytes, Function.update_self .., hr⟩
  have hdiscard : ∀ replaced, (s.known.get? name).filter (· != id) = some replaced →
      (bound.setEntry replaced none).Intact m reads x owner := by
    intro replaced hr
    obtain ⟨hold, hne⟩ := Option.filter_eq_some_iff.mp hr
    refine hbound.dropEntry fun hs hm => ?_
    cases hs
    obtain ⟨n, hn⟩ := Dict.mem_values.mp hm
    rcases Dict.get?_insert_eq_some.mp hn with ⟨_, rfl⟩ | ⟨hother, hn⟩
    · simp at hne
    · exact hother ((h.known.1.owned hn).symm.trans (h.known.1.owned hold))
  have hfinish : ∀ s' : Scope V, s'.Intact m reads x owner → s'.stored ≠ none →
      s'.drawn = s.drawn → Finishes (Terms.guarding m reads x owner) (fun _ _ => True) value id
        (s.bundle.bindName name id) s' := by
    intro s' hs' hstored hdrawn activated
    refine ⟨Scope.Intact.announcing (hs'.hold ?_ fun hn => absurd hn hstored) activated, trivial⟩
    rw [hdrawn]
    exact hheld
  refine (Index.secures_saveEntry id bytes _).mpr ⟨trivial, fun _ _ => trivial, hentry, ?_⟩
  refine commit_free hb hentry hbound ?_ ?_ ?_
  · exact fun _ _ => ⟨trivial, trivial, hentry.dropEntry hfresh, trivial⟩
  · exact fun replaced hr => ⟨trivial, hdiscard replaced hr, fun _ => hfinish _ hbound nofun rfl⟩
  · change Finishes _ _ _ _ _ (bound.discard ((s.known.get? name).filter (· != id)))
    cases hr : (s.known.get? name).filter (· != id) with
    | none => exact hfinish _ hbound nofun rfl
    | some replaced => exact hfinish _ (hdiscard replaced hr) nofun rfl

theorem set_intact (h : s.Intact m reads x owner)
    (hname : s.drawn < x.limit → owner (x.draw s.drawn) = name)
    (hr : reads → ∀ bytes, m.write value = .ok bytes → ∃ value, m.read bytes = .ok value) :
    (w.set name value).Secures ((Terms.guarding m reads x owner).rule m w.session)
      (fun _ _ => True) (fun _ _ => True) s := by
  refine set_secures h (fun _ _ => trivial) (fun _ _ _ => trivial) ?_ ?_
  · exact fun bytes id hw _ hb => overwrite_intact h hb fun hreads => hr hreads bytes hw
  · rintro bytes id hw - hb ⟨hlt, rfl⟩
    refine ⟨h.draw, create_intact h.draw hb (h.known.1.insert (hname hlt))
      (h.held.insert (hname hlt)) (fun hs => (h.stored hs).fresh hlt)
      fun hreads => hr hreads bytes hw⟩

omit [BEq V] in
/-- A removal deletes an entry after its name, and no other name refers to it. -/
theorem remove_intact (h : s.Intact m reads x owner) :
    (w.remove name).Secures ((Terms.guarding m reads x owner).rule m w.session)
      (fun _ _ => True) (fun _ _ => True) s := by
  refine remove_secures h (fun _ => trivial) fun id hb => ⟨fun _ _ => trivial, h.unbind name, ?_⟩
  intro activated
  have hdrop : (Scope.hold (s.save (s.known.erase name))
      ((s.bundle.dropName name).dropValue id)).Intact m reads x owner :=
    (h.unbind name).hold (h.held.erase name) nofun
  have hgone : id ∉ (s.known.erase name).values := by
    intro hm
    obtain ⟨n, hn⟩ := Dict.mem_values.mp hm
    obtain ⟨hne, hn⟩ := Dict.get?_erase_eq_some.mp hn
    exact hne ((h.known.1.owned hn).symm.trans (h.held.owned hb))
  refine ⟨hdrop.announcing activated, trivial, fun _ _ => trivial, ?_, trivial⟩
  refine (hdrop.announcing activated).dropEntry fun hs => ?_
  cases hs
  exact hgone

/-- An operation of a view keeps its session intact, whichever of its calls fail, if what it may
draw belongs to the name that it writes. -/
theorem procedure_intact (h : s.Intact m reads x owner) {call : ViewCall V}
    (hname : s.drawn < x.limit → ∀ name, call.binds = some name → owner (x.draw s.drawn) = name)
    (hr : reads → ∀ value bytes, call.written s.bundle = some value → m.write value = .ok bytes →
      ∃ value, m.read bytes = .ok value) :
    (call.procedure w).Secures ((Terms.guarding m reads x owner).rule m w.session)
      (fun _ _ => True) s := by
  cases call with
  | get name => exact get_secures fun activated => ⟨h.announcing activated, trivial⟩
  | names => exact names_secures h trivial
  | snapshot => exact snapshot_secures h trivial
  | set name value =>
    exact Attempt.Secures.run (set_intact h (fun hlt => hname hlt name rfl) fun hreads bytes hw =>
      hr hreads value bytes rfl hw)
  | update name change =>
    refine Attempt.Secures.run (update_secures h (fun _ => trivial) fun value hg => ?_)
    refine set_intact h (fun hlt => hname hlt name rfl) fun hreads bytes hw =>
      hr hreads (change value) bytes ?_ hw
    simp only [ViewCall.written, hg, Option.map_some]
  | remove name => exact Attempt.Secures.run (remove_intact h)

end View
end SessionAttributes
