import SessionAttributes.Proofs.Session.Reloading

namespace SessionAttributes

variable {V : Type}

/-- One value, or two equal ones. A value need not be equal to itself. -/
def Same {α : Type} [BEq α] (a b : α) : Prop := a = b ∨ a == b

namespace Same

variable {α : Type} [BEq α]

theorem refl (a : α) : Same a a := .inl rfl

theorem symm [PartialEquivBEq α] {a b : α} (h : Same a b) : Same b a := by
  rcases h with rfl | h
  · exact .refl a
  · exact .inr (BEq.symm h)

theorem trans [PartialEquivBEq α] {a b c : α} (h : Same a b) (h' : Same b c) : Same a c := by
  rcases h with rfl | h
  · exact h'
  · rcases h' with rfl | h'
    · exact .inr h
    · exact .inr (BEq.trans h h')

theorem some_iff {a b : α} : Same (some a) (some b) ↔ Same a b :=
  or_congr_left (Option.some.injEq a b).to_iff

theorem of_none {b : Option α} (h : Same none b) : b = none := by
  rcases h with rfl | h
  · rfl
  · cases b with
    | none => rfl
    | some _ => cases h

theorem of_some {a : α} {b : Option α} (h : Same (some a) b) : ∃ b', b = some b' ∧ Same a b' := by
  rcases h with rfl | h
  · exact ⟨a, rfl, .refl a⟩
  · cases b with
    | none => cases h
    | some b' => exact ⟨b', rfl, .inr h⟩

theorem isSome_eq {a b : Option α} (h : Same a b) : a.isSome = b.isSome := by
  cases a with
  | none => rw [h.of_none]
  | some a =>
    obtain ⟨b', rfl, -⟩ := h.of_some
    rfl

end Same

instance partialEquivOption {α : Type} [BEq α] [PartialEquivBEq α] :
    PartialEquivBEq (Option α) where
  symm {a b} h := by
    cases a with
    | none =>
      cases b with
      | none => rfl
      | some _ => cases h
    | some _ =>
      cases b with
      | none => cases h
      | some _ =>
        rw [Option.some_beq_some] at h ⊢
        exact BEq.symm h
  trans {a b c} h h' := by
    cases b with
    | none =>
      cases a with
      | none => exact h'
      | some _ => cases h
    | some _ =>
      cases a with
      | none => cases h
      | some _ =>
        cases c with
        | none => cases h'
        | some _ =>
          rw [Option.some_beq_some] at h h' ⊢
          exact BEq.trans h h'

namespace Marshaller

/-- What a value is read as once it is stored: nothing if it cannot be encoded, and nothing that can
be read if its bytes cannot be decoded. -/
def readBack (m : Marshaller V) (value : V) : Option (Option V) :=
  (m.write value).toOption.map fun bytes => m.decoded (some bytes)

theorem readBack_ok {m : Marshaller V} {value : V} {bytes : Bytes} (h : m.write value = .ok bytes) :
    m.readBack value = some (m.decoded (some bytes)) := by
  rw [readBack, h]
  rfl

theorem readBack_error {m : Marshaller V} {value : V} {fault : SessionError}
    (h : m.write value = .error fault) : m.readBack value = none := by
  rw [readBack, h]
  rfl

def Respects [BEq V] (m : Marshaller V) : Prop :=
  ∀ value value', (value == value') = true → Same (m.readBack value) (m.readBack value')

theorem Respects.same [BEq V] {m : Marshaller V} (hm : m.Respects) {value value' : V}
    (h : Same value value') : Same (m.readBack value) (m.readBack value') := by
  rcases h with rfl | h
  · exact .refl _
  · exact hm value value' h

theorem respects_of_lawful [BEq V] [LawfulBEq V] (m : Marshaller V) : m.Respects :=
  fun _ _ h => .inl (congrArg m.readBack (eq_of_beq h))

/-- Of two values that are read back alike, both can be encoded or none. -/
theorem write_alike [BEq V] {m : Marshaller V} {value value' : V}
    (h : Same (m.readBack value) (m.readBack value')) :
    (∃ fault fault', m.write value = .error fault ∧ m.write value' = .error fault') ∨
      ∃ bytes bytes', m.write value = .ok bytes ∧ m.write value' = .ok bytes' ∧
        Same (m.decoded (some bytes)) (m.decoded (some bytes')) := by
  have hsome := h.isSome_eq
  cases hw : m.write value with
  | error fault =>
    cases hw' : m.write value' with
    | error fault' => exact .inl ⟨fault, fault', rfl, rfl⟩
    | ok bytes' =>
      rw [readBack_error hw, readBack_ok hw'] at hsome
      cases hsome
  | ok bytes =>
    cases hw' : m.write value' with
    | error fault' =>
      rw [readBack_ok hw, readBack_error hw'] at hsome
      cases hsome
    | ok bytes' =>
      rw [readBack_ok hw, readBack_ok hw', Same.some_iff] at h
      exact .inr ⟨bytes, bytes', rfl, rfl, h⟩

end Marshaller

namespace Bundle

structure Like [BEq V] (b b' : Bundle V) : Prop where
  names : b'.names = b.names
  values : ∀ id, Same (b.value? id) (b'.value? id)

namespace Like

variable [BEq V] {b b' : Bundle V}

theorem refl (b : Bundle V) : b.Like b := ⟨rfl, fun _ => .refl _⟩

theorem attributeId? (h : b.Like b') (name : String) : b'.attributeId? name = b.attributeId? name :=
  congrArg (·.get? name) h.names

theorem get? (h : b.Like b') (name : String) : Same (b.get? name) (b'.get? name) := by
  rw [get?_eq, get?_eq, h.attributeId?]
  cases b.attributeId? name with
  | none => exact .refl _
  | some id => exact h.values id

theorem setValue (h : b.Like b') (id : AttributeId) {value value' : V} (hv : Same value value') :
    (b.setValue id value).Like (b'.setValue id value') := by
  refine ⟨h.names, fun k => ?_⟩
  rw [value?_setValue, value?_setValue]
  by_cases hk : k = id
  · rw [if_pos hk, if_pos hk]
    exact Same.some_iff.mpr hv
  · rw [if_neg hk, if_neg hk]
    exact h.values k

/-- A value is set to what it equals already. -/
theorem setValue_right [PartialEquivBEq V] (h : b.Like b') {id : AttributeId} {held value' : V}
    (hb : b.value? id = some held) (hv : Same held value') : b.Like (b'.setValue id value') := by
  refine ⟨h.names, fun k => ?_⟩
  rw [value?_setValue]
  by_cases hk : k = id
  · rw [if_pos hk, hk, hb]
    exact Same.some_iff.mpr hv
  · rw [if_neg hk]
    exact h.values k

theorem bindName (h : b.Like b') (name : String) (id : AttributeId) :
    (b.bindName name id).Like (b'.bindName name id) :=
  ⟨congrArg (·.insert name id) h.names, h.values⟩

theorem drop (h : b.Like b') (name : String) (id : AttributeId) :
    ((b.dropName name).dropValue id).Like ((b'.dropName name).dropValue id) := by
  refine ⟨congrArg (·.erase name) h.names, fun k => ?_⟩
  rw [value?_dropValue, value?_dropValue]
  by_cases hk : k = id
  · rw [if_pos hk, if_pos hk]
    exact .refl _
  · rw [if_neg hk, if_neg hk]
    exact h.values k

end Like
end Bundle

namespace Scope

/-- The attributes whose last write was skipped while they had another value stored, after a write
of one more. -/
def missed [BEq V] (m : Marshaller V) (draw : Nat → AttributeId) (immutability : Immutability V)
    (name : String) (value : V) (s : Scope V) (before : List AttributeId) : List AttributeId :=
  match m.readBack value with
  | none => before
  | some written =>
    let id := (s.bundle.attributeId? name).getD (draw s.drawn)
    if s.bundle.get? name == some value && immutability value &&
        !(m.decoded (s.entries id) == written) then id :: before
    else before.filter (· != id)

section Set
variable [BEq V] {m : Marshaller V} {draw : Nat → AttributeId} {immutability : Immutability V}
  {name : String} {value : V} {id : AttributeId} {s : Scope V} {before : List AttributeId}
  {written : Option V}

theorem missed_free (hb : s.bundle.attributeId? name = none)
    (hw : m.readBack value = some written) :
    s.missed m draw immutability name value before = before.filter (· != draw s.drawn) := by
  have hg : s.bundle.get? name = none := by rw [Bundle.get?_eq, hb, Option.bind_none]
  have hskip : (none == some value) = false := rfl
  simp [missed, hw, hb, hg, hskip]

theorem missed_bound (hb : s.bundle.attributeId? name = some id)
    (hw : m.readBack value = some written) :
    s.missed m draw immutability name value before =
      if s.bundle.value? id == some value && immutability value &&
        !(m.decoded (s.entries id) == written) then id :: before else before.filter (· != id) := by
  have hg : s.bundle.get? name = s.bundle.value? id := by
    rw [Bundle.get?_eq, hb, Option.bind_some]
  rw [missed, hw, hb, hg, Option.getD_some]

theorem set_bound {bytes : Bytes} (hb : s.bundle.attributeId? name = some id)
    (hw : m.write value = .ok bytes) :
    (s.set m draw immutability name value).2 =
      if s.bundle.value? id == some value && immutability value then s
      else s.overwrite value id bytes := by
  have hg : s.bundle.get? name = s.bundle.value? id := by
    rw [Bundle.get?_eq, hb, Option.bind_some]
  simp only [set, hw, hb, hg]
  split <;> rfl

theorem set_refused {fault : SessionError} (hw : m.write value = .error fault) :
    s.set m draw immutability name value = (.error fault, s) := by
  rw [set, hw]

theorem missed_refused {fault : SessionError} (hw : m.write value = .error fault) :
    s.missed m draw immutability name value before = before := by
  rw [missed, Marshaller.readBack_error hw]

end Set

/-- Two scopes with the same names, whose view holds equal values and whose entries decode to equal
ones, but for some attributes. -/
structure Beside [BEq V] (m : Marshaller V) (missed : List AttributeId) (s s' : Scope V) :
    Prop where
  stored : s'.stored = s.stored
  drawn : s'.drawn = s.drawn
  bundle : s.bundle.Like s'.bundle
  entries : ∀ id, id ∉ missed → Same (m.decoded (s.entries id)) (m.decoded (s'.entries id))

namespace Beside

variable [BEq V] {m : Marshaller V} {missed : List AttributeId} {s s' : Scope V}

theorem known (h : s.Beside m missed s') : s'.known = s.known := by
  unfold Scope.known
  rw [h.stored, h.bundle.names]

theorem listed (h : s.Beside m missed s') : s'.listed = s.listed :=
  congrArg (Option.getD · Dict.empty) h.stored

theorem announcing (h : s.Beside m missed s') (activated activated' : List AttributeId) :
    (s.announcing activated).Beside m missed (s'.announcing activated') :=
  ⟨h.stored, h.drawn, h.bundle, h.entries⟩

/-- Both entries of an attribute are written, or only one of them to what the other has already. -/
theorem entries_update {f f' : AttributeId → Option Bytes}
    (h : ∀ k, k ∉ missed → Same (m.decoded (f k)) (m.decoded (f' k))) {id : AttributeId}
    {entry entry' : Option Bytes} (he : Same (m.decoded entry) (m.decoded entry')) (k : AttributeId)
    (hk : k ∉ missed.filter (· != id)) :
    Same (m.decoded (Function.update f id entry k))
      (m.decoded (Function.update f' id entry' k)) := by
  by_cases hid : k = id
  · rw [hid, Function.update_self, Function.update_self]
    exact he
  · rw [Function.update_of_ne hid, Function.update_of_ne hid]
    refine h k fun hm => hk (List.mem_filter.mpr ⟨hm, ?_⟩)
    simpa using hid

theorem overwrite (h : s.Beside m missed s') (id : AttributeId) {value value' : V}
    (hv : Same value value') {bytes bytes' : Bytes}
    (he : Same (m.decoded (some bytes)) (m.decoded (some bytes'))) :
    (s.overwrite value id bytes).Beside m (missed.filter (· != id))
      (s'.overwrite value' id bytes') :=
  ⟨h.stored, h.drawn, h.bundle.setValue id hv, entries_update h.entries he⟩

theorem create (h : s.Beside m missed s') (name : String) (id : AttributeId) {value value' : V}
    (hv : Same value value') {bytes bytes' : Bytes}
    (he : Same (m.decoded (some bytes)) (m.decoded (some bytes'))) :
    (s.create name value id bytes).Beside m (missed.filter (· != id))
      (s'.create name value' id bytes') := by
  refine ⟨?_, ?_, (h.bundle.bindName name id).setValue id hv, fun k hk => ?_⟩
  · rw [create_stored, create_stored, h.known]
  · rw [create_drawn, create_drawn, h.drawn]
  · have hwritten := entries_update h.entries he k hk
    rw [create_entries, create_entries, h.known]
    split
    · exact .refl _
    · split
      · exact he
      · rename_i hne
        rw [Function.update_of_ne hne, Function.update_of_ne hne] at hwritten
        exact hwritten

/-- The write is skipped on one side. What is stored there from an earlier write counts as missed
unless it is read as the value that is written on the other side. -/
theorem skip [PartialEquivBEq V] (h : s.Beside m missed s') {id : AttributeId} {held value' : V}
    (hb : s.bundle.value? id = some held) (hv : Same held value') {bytes bytes' : Bytes}
    (he : Same (m.decoded (some bytes)) (m.decoded (some bytes'))) :
    s.Beside m
      (if m.decoded (s.entries id) == m.decoded (some bytes) then missed.filter (· != id)
        else id :: missed) (s'.overwrite value' id bytes') := by
  refine ⟨h.stored, h.drawn, h.bundle.setValue_right hb hv, fun k hk => ?_⟩
  split at hk
  · rename_i hsame
    have hupdate := entries_update h.entries (Same.trans (.inr hsame) he) k hk
    rw [Function.update_eq_self] at hupdate
    exact hupdate
  · obtain ⟨hne, hk⟩ := not_or.mp (mt List.mem_cons.mpr hk)
    rw [show (s'.overwrite value' id bytes').entries k = s'.entries k from
      Function.update_of_ne hne _ _]
    exact h.entries k hk

variable [PartialEquivBEq V] {draw : Nat → AttributeId} {immutability : Immutability V}

/-- One value is written on both sides, or two equal ones. Only the first side may skip it. -/
theorem set (h : s.Beside m missed s') {value value' : V} (hv : Same value value')
    (hr : Same (m.readBack value) (m.readBack value')) (name : String) :
    (s.set m draw immutability name value).2.Beside m
      (s.missed m draw immutability name value missed)
      (s'.set m draw Immutability.never name value').2 := by
  rcases Marshaller.write_alike hr with ⟨fault, fault', hw, hw'⟩ | ⟨bytes, bytes', hw, hw', he⟩
  · rw [set_refused hw, set_refused hw', missed_refused hw]
    exact h
  · have hwritten := Marshaller.readBack_ok hw
    have hnames := h.bundle.attributeId? name
    cases hb : s.bundle.attributeId? name with
    | none =>
      rw [set_free hb hw, set_free (hnames.trans hb) hw', missed_free hb hwritten, h.drawn]
      have hdrawn : Beside m missed { s with drawn := s.drawn + 1 }
          { s' with drawn := s.drawn + 1 } := ⟨h.stored, rfl, h.bundle, h.entries⟩
      exact hdrawn.create name (draw s.drawn) hv he
    | some id =>
      rw [set_bound hb hw, set_bound (hnames.trans hb) hw', missed_bound hb hwritten,
        Immutability.never, Bool.and_false, if_neg Bool.false_ne_true]
      cases hskip : s.bundle.value? id == some value && immutability value with
      | false => exact h.overwrite id hv he
      | true =>
        obtain ⟨hequal, -⟩ := Bool.and_eq_true_iff.mp hskip
        obtain ⟨held, hheld, hequal⟩ := Same.of_some (Same.symm (.inr hequal))
        have hbeside := h.skip hheld (hequal.symm.trans hv) he
        rw [Bool.true_and, if_pos rfl]
        cases hread : m.decoded (s.entries id) == m.decoded (some bytes) with
        | true =>
          rw [hread] at hbeside
          exact hbeside
        | false =>
          rw [hread] at hbeside
          exact hbeside

end Beside
end Scope

namespace ViewCall

/-- The attributes whose last write was skipped while they had another value stored, after one more
operation of a view. -/
def missed [BEq V] (m : Marshaller V) (draw : Nat → AttributeId) (immutability : Immutability V)
    (s : Scope V) (before : List AttributeId) : ViewCall V → List AttributeId
  | .set name value => s.missed m draw immutability name value before
  | .update name change =>
    match s.bundle.get? name with
    | none => before
    | some value => s.missed m draw immutability name (change value) before
  | _ => before

def Congruent [BEq V] : ViewCall V → Prop
  | .update _ change => ∀ value value', (value == value') = true →
    Same (change value) (change value')
  | _ => True

theorem congruent_of_lawful [BEq V] [LawfulBEq V] (call : ViewCall V) : call.Congruent := by
  cases call with
  | update name change => exact fun _ _ h => .inl (congrArg change (eq_of_beq h))
  | get name => trivial
  | names => trivial
  | snapshot => trivial
  | set name value => trivial
  | remove name => trivial

end ViewCall

namespace Scope.Beside

variable [BEq V] {m : Marshaller V} {missed : List AttributeId} {s s' : Scope V}

theorem remove (h : s.Beside m missed s') (name : String) :
    (s.remove name).2.Beside m missed (s'.remove name).2 := by
  unfold Scope.remove
  rw [h.bundle.attributeId?]
  cases s.bundle.attributeId? name with
  | none => exact h
  | some id =>
    have hstored : some (s'.known.erase name) = some (s.known.erase name) := by rw [h.known]
    refine ⟨hstored, h.drawn, h.bundle.drop name id, fun k hk => ?_⟩
    exact entries_update h.entries (.refl _) k fun hm => hk (List.mem_filter.mp hm).1

/-- An operation of a view leaves the two sides as they were beside each other, but for the writes
that one of them misses. -/
theorem carryOut [PartialEquivBEq V] (h : s.Beside m missed s') (hm : m.Respects)
    (draw : Nat → AttributeId) (immutability : Immutability V) {call : ViewCall V}
    (hx : call.Congruent) :
    (s.carryOut m draw immutability call).2.Beside m (call.missed m draw immutability s missed)
      (s'.carryOut m draw Immutability.never call).2 := by
  cases call with
  | get name => exact h
  | names => exact h
  | snapshot => exact h
  | set name value => exact h.set (.refl _) (.refl _) name
  | remove name => exact h.remove name
  | update name change =>
    have hget := h.bundle.get? name
    simp only [Scope.carryOut, Scope.update, ViewCall.missed]
    cases hg : s.bundle.get? name with
    | none =>
      rw [hg] at hget
      rw [hget.of_none]
      exact h
    | some value =>
      rw [hg] at hget
      obtain ⟨value', hg', hvalue⟩ := hget.of_some
      have hv : Same (change value) (change value') := by
        rcases hvalue with rfl | he
        · exact .refl _
        · exact hx value value' he
      rw [hg']
      exact h.set hv (hm.same hv) name

end Scope.Beside

namespace Scope

variable {m : Marshaller V} {session : SessionId} {s s' : Scope V}

/-- A load takes each value from its entry. -/
theorem loaded_value? {b : Bundle V} (hl : s.loaded m session = some b) (id : AttributeId) :
    b.value? id = if id ∈ s.listed.values then m.decoded (s.entries id) else none := by
  have hverdict := s.loaded_verdict m session
  cases hs : s.stored with
  | none =>
    rw [hverdict.absent hs] at hl
    rw [← Option.some.inj hl, listed, hs, Option.getD_none]
    exact (if_neg List.not_mem_nil).symm
  | some names =>
    rw [listed, hs, Option.getD_some]
    refine Option.ext fun value => (hverdict.values names b hs hl id value).trans ?_
    by_cases hm : id ∈ names.values
    · rw [if_pos hm, Marshaller.decoded_eq_some, and_iff_right hm]
    · rw [if_neg hm]
      refine ⟨fun h => absurd h.1 hm, fun h => ?_⟩
      cases h

/-- A load leaves the stored names or none. -/
theorem mem_settled {repair : Bool} {id : AttributeId}
    (h : id ∈ (s.settled m session repair).listed.values) : id ∈ s.listed.values := by
  unfold settled at h
  split at h
  · cases h
  · exact h

namespace Beside

variable [BEq V] {missed : List AttributeId}

/-- Stored names that refer to nothing that was missed are loaded with equal values. -/
theorem loaded (h : s.Beside m missed s') (hl : ∀ id ∈ missed, id ∉ s.listed.values)
    (session : SessionId) :
    Option.Rel Bundle.Like (s.loaded m session) (s'.loaded m session) := by
  have hread : ∀ id ∈ s.listed.values,
      Same (m.decoded (s.entries id)) (m.decoded (s'.entries id)) :=
    fun id hid => h.entries id fun hm => hl id hm hid
  have hname : ∀ name, (s.reads m name).isSome = (s'.reads m name).isSome := by
    intro name
    cases hn : s.listed.get? name with
    | none => simp [reads, h.listed, hn]
    | some id =>
      rw [reads_of_listed hn, reads_of_listed (h.listed ▸ hn)]
      exact (hread id (Dict.mem_values.mpr ⟨name, hn⟩)).isSome_eq
  have hfound : (s.loaded m session).isSome ↔ (s'.loaded m session).isSome := by
    rw [loaded_isSome_iff, loaded_isSome_iff, h.listed]
    simp only [hname]
  cases hb : s.loaded m session with
  | none =>
    cases hb' : s'.loaded m session with
    | none => exact .none
    | some b' =>
      rw [hb, hb'] at hfound
      exact absurd (hfound.mpr rfl) Bool.false_ne_true
  | some b =>
    cases hb' : s'.loaded m session with
    | none =>
      rw [hb, hb'] at hfound
      exact absurd (hfound.mp rfl) Bool.false_ne_true
    | some b' =>
      refine .some ⟨?_, fun id => ?_⟩
      · rw [loaded_names hb, loaded_names hb', h.stored]
      · rw [loaded_value? hb, loaded_value? hb', h.listed]
        split
        · exact hread id ‹_›
        · exact .refl _

/-- What a load leaves behind is the same on both sides as well. -/
theorem settled (h : s.Beside m missed s') (hl : ∀ id ∈ missed, id ∉ s.listed.values)
    (session : SessionId) (repair : Bool) :
    (s.settled m session repair).Beside m missed (s'.settled m session repair) := by
  have hnone : s.loaded m session = none ↔ s'.loaded m session = none := by
    have hfound := h.loaded hl session
    revert hfound
    generalize s.loaded m session = found, s'.loaded m session = found'
    rintro (_ | _)
    · exact ⟨nofun, nofun⟩
    · exact Iff.rfl
  unfold Scope.settled
  by_cases hc : repair = true ∧ s.loaded m session = none
  · rw [if_pos hc, if_pos ⟨hc.1, hnone.mp hc.2⟩]
    refine ⟨rfl, h.drawn, h.bundle, fun id hid => ?_⟩
    unfold Scope.purged
    dsimp only
    rw [h.stored]
    split
    · exact .refl _
    · exact h.entries id hid
  · rw [if_neg hc, if_neg fun hc' => hc ⟨hc'.1, hnone.mpr hc'.2⟩]
    exact h

end Beside
end Scope

end SessionAttributes
