import SessionAttributes.Proofs.Session.Mirror

namespace SessionAttributes

variable {V : Type} [BEq V]

namespace ViewCall

/-- What a plain map answers to an operation, and what it becomes. -/
def OnMap : (call : ViewCall V) → call.Answer → (String → Option V) → (String → Option V) → Prop
  | .get name, (answer : Option V), f, f' => answer == f name ∧ f' = f
  | .names, (answer : List String), f, f' =>
    answer.Pairwise (· < ·) ∧ (∀ name, name ∈ answer ↔ (f name).isSome) ∧ f' = f
  | .snapshot, (answer : Bundle V), f, f' => (∀ name, answer.get? name == f name) ∧ f' = f
  | .set name value, (answer : Except SessionError (Option V)), f, f' =>
    (∃ previous, answer = .ok previous ∧ previous == f name) ∧
      f' = Function.update f name (some value)
  | .update name change, (answer : Except SessionError Bool), f, f' =>
    match f name with
    | none => answer = .ok false ∧ f' = f
    | some bound => answer = .ok true ∧
        ∃ value, value == bound ∧ f' = Function.update f name (some (change value))
  | .remove name, (answer : Except SessionError (Option V)), f, f' =>
    (∃ previous, answer = .ok previous ∧ previous == f name) ∧ f' = Function.update f name none

def written (b : Bundle V) : ViewCall V → Option V
  | .set _ value => some value
  | .update name change => (b.get? name).map change
  | _ => none

/-- Whether an operation with such an answer has written. -/
def Stores : (call : ViewCall V) → call.Answer → Prop
  | .set _ _, _ => True
  | .update _ _, (answer : Except SessionError Bool) => answer = .ok true
  | _, _ => False

end ViewCall

def Bundle.Follows (b : Bundle V) (f : String → Option V) : Prop := ∀ name, b.get? name == f name

theorem Faithful.keeps {m : Marshaller V} {value : V} {bytes : Bytes} (h : Faithful m value)
    (hw : m.write value = .ok bytes) : Scope.Keeps m (some bytes) value := by
  obtain ⟨bytes', value', hw', hr, he⟩ := h
  cases hw.symm.trans hw'
  exact ⟨value', ⟨bytes, rfl, hr⟩, he⟩

theorem Faithful.self [PartialEquivBEq V] {m : Marshaller V} {value : V} (h : Faithful m value) :
    value == value := by
  obtain ⟨_, _, _, _, he⟩ := h
  exact PartialEquivBEq.trans (PartialEquivBEq.symm he) he

namespace Bundle

variable {b b' : Bundle V} {f : String → Option V}

theorem Follows.none (h : b.Follows f) {name : String} (hb : b.get? name = none) :
    f name = none := by
  have hf := h name
  rw [hb] at hf
  cases hn : f name with
  | none => rfl
  | some _ =>
    rw [hn] at hf
    cases hf

theorem Follows.some (h : b.Follows f) {name : String} {value : V} (hb : b.get? name = some value) :
    ∃ bound, f name = some bound ∧ value == bound := by
  have hf := h name
  rw [hb] at hf
  cases hn : f name with
  | none =>
    rw [hn] at hf
    cases hf
  | some bound =>
    rw [hn] at hf
    exact ⟨bound, rfl, hf⟩

theorem Follows.update (h : b.Follows f) {name : String} {value value' : Option V}
    (hg : ∀ k, b'.get? k = if k = name then value else b.get? k) (hv : value == value') :
    b'.Follows (Function.update f name value') := by
  intro k
  rw [hg k]
  by_cases hk : k = name
  · rw [if_pos hk, hk, Function.update_self]
    exact hv
  · rw [if_neg hk, Function.update_of_ne hk]
    exact h k

end Bundle

namespace Scope

variable {m : Marshaller V} {s : Scope V} {f : String → Option V}

def Exact (s : Scope V) : Prop := ∀ id, s.entries id ≠ none → id ∈ s.bundle.names.values

/-- What an operation leaves behind: a mirrored session that follows its map. -/
structure Leaves (m : Marshaller V) (s s' : Scope V) (f : String → Option V) (stores : Prop) :
    Prop where
  mirrors : s'.Mirrors m
  follows : s'.bundle.Follows f
  exact : s.Exact → s'.Exact
  stored : s'.stored = none → s.stored = none ∧ ¬ stores

theorem Mirrors.stored_of_bound (h : s.Mirrors m) {name : String} {id : AttributeId}
    (hb : s.bundle.attributeId? name = some id) : s.stored ≠ none := by
  intro hn
  rcases h.stored with hs | ⟨_, he⟩
  · rw [hn] at hs
    cases hs
  · rw [he] at hb
    cases hb

theorem Leaves.refl (h : s.Mirrors m) (hf : s.bundle.Follows f) : Leaves m s s f False :=
  ⟨h, hf, id, fun hs => ⟨hs, not_false⟩⟩

theorem Leaves.alike {s₁ s₂ : Scope V} {stores : Prop} (h : Leaves m s s₁ f stores)
    (ha : s₁.Alike s₂) : Leaves m s s₂ f stores := by
  obtain ⟨activated, rfl⟩ := ha
  exact ⟨h.mirrors.announcing activated, h.follows, h.exact, h.stored⟩

section Set
variable {name : String} {value : V} {id : AttributeId} {bytes : Bytes}

theorem leaves_overwrite [PartialEquivBEq V] (h : s.Mirrors m) (hf : s.bundle.Follows f)
    (hb : s.bundle.attributeId? name = some id) (hw : m.write value = .ok bytes)
    (hv : Faithful m value) :
    Leaves m s (s.overwrite value id bytes) (Function.update f name (some value)) True := by
  refine ⟨h.overwrite hb (hv.keeps hw), hf.update (h.tidy.get?_setValue hb) hv.self, ?_, ?_⟩
  · intro he k hk
    change Function.update s.entries id (some bytes) k ≠ none at hk
    by_cases hid : k = id
    · subst hid
      exact Dict.mem_values.mpr ⟨name, hb⟩
    · rw [Function.update_of_ne hid] at hk
      exact he k hk
  · intro hs
    exact absurd hs (h.stored_of_bound hb)

theorem leaves_create [PartialEquivBEq V] (h : s.Mirrors m) (hf : s.bundle.Follows f)
    (hb : s.bundle.attributeId? name = none) (hid : id ∉ s.bundle.names.values)
    (hw : m.write value = .ok bytes) (hv : Faithful m value) :
    Leaves m s (s.create name value id bytes) (Function.update f name (some value)) True := by
  refine ⟨h.create hb hid (hv.keeps hw), ?_, ?_, ?_⟩
  · rw [h.create_eq hb]
    exact hf.update (Bundle.get?_create hid) hv.self
  · rw [h.create_eq hb]
    intro he k hk
    change Function.update s.entries id (some bytes) k ≠ none at hk
    refine (Bundle.mem_bindName hb).mpr ?_
    by_cases hki : k = id
    · exact Or.inl hki
    · rw [Function.update_of_ne hki] at hk
      exact Or.inr (he k hk)
  · rw [h.create_eq hb]
    intro hs
    cases hs

theorem set_leaves [PartialEquivBEq V] (h : s.Mirrors m) (hf : s.bundle.Follows f)
    (draw : Nat → AttributeId) (immutability : Immutability V) (name : String)
    (hv : Faithful m value) (hd : draw s.drawn ∉ s.bundle.names.values) :
    (∃ previous, (s.set m draw immutability name value).1 = .ok previous ∧ previous == f name) ∧
      Leaves m s (s.set m draw immutability name value).2 (Function.update f name (some value))
        True := by
  obtain ⟨bytes, _, hw, _⟩ := id hv
  unfold Scope.set
  rw [hw]
  dsimp only
  split
  · rename_i hskip
    obtain ⟨hg, _⟩ := Bool.and_eq_true_iff.mp hskip
    refine ⟨⟨_, rfl, hf name⟩, h, ?_, id, ?_⟩
    · refine hf.update (fun k => ?_) hg
      by_cases hk : k = name <;> simp [hk]
    · intro hs
      exfalso
      cases hb : s.bundle.attributeId? name with
      | none =>
        rw [Bundle.Tidy.get?_none hb] at hg
        cases hg
      | some id => exact h.stored_of_bound hb hs
  · cases hb : s.bundle.attributeId? name with
    | some id =>
      refine ⟨⟨_, rfl, ?_⟩, leaves_overwrite h hf hb hw hv⟩
      have hg := hf name
      rw [Bundle.get?_eq, hb] at hg
      exact hg
    | none =>
      refine ⟨⟨_, rfl, ?_⟩, ?_⟩
      · have hn : s.bundle.value? (draw s.drawn) = none :=
          (lookup_none_iff _ _).mpr fun hm => hd ((h.tidy.bound _).mp hm)
        rw [hn, hf.none (Bundle.Tidy.get?_none hb)]
        rfl
      · have h' : ({ s with drawn := s.drawn + 1 } : Scope V).Mirrors m :=
          ⟨h.tidy, h.stored, h.read⟩
        obtain ⟨hm, hfo, he, hs⟩ := leaves_create (f := f) h' hf hb hd hw hv
        exact ⟨hm, hfo, he, hs⟩

end Set

theorem remove_leaves (h : s.Mirrors m) (hf : s.bundle.Follows f) (name : String) :
    (∃ previous, (s.remove name).1 = .ok previous ∧ previous == f name) ∧
      Leaves m s (s.remove name).2 (Function.update f name none) False := by
  have hm := h.remove name
  unfold Scope.remove at hm ⊢
  cases hb : s.bundle.attributeId? name with
  | none =>
    have hn : f name = none := hf.none (Bundle.Tidy.get?_none hb)
    have hu : Function.update f name none = f := by rw [← hn, Function.update_eq_self]
    rw [hu, hn]
    exact ⟨⟨none, rfl, rfl⟩, Leaves.refl h hf⟩
  | some id =>
    rw [hb] at hm
    refine ⟨⟨_, rfl, ?_⟩, hm, hf.update (h.tidy.get?_drop hb) rfl, ?_, ?_⟩
    · have hg := hf name
      rw [Bundle.get?_eq, hb] at hg
      exact hg
    · intro he k hk
      change Function.update s.entries id none k ≠ none at hk
      refine (h.tidy.mem_dropName hb).mpr ?_
      by_cases hki : k = id
      · rw [hki, Function.update_self] at hk
        exact absurd rfl hk
      · rw [Function.update_of_ne hki] at hk
        exact ⟨he k hk, hki⟩
    · intro hs
      cases hs

/-- An operation of a mirroring view answers as a plain map, and the view still mirrors. -/
theorem carryOut_onMap [PartialEquivBEq V] (h : s.Mirrors m) (hf : s.bundle.Follows f)
    (draw : Nat → AttributeId) (immutability : Immutability V) (call : ViewCall V)
    (hv : ∀ value, call.written s.bundle = some value → Faithful m value)
    (hd : draw s.drawn ∉ s.bundle.names.values) :
    ∃ f', call.OnMap (s.carryOut m draw immutability call).1 f f' ∧
      Leaves m s (s.carryOut m draw immutability call).2 f'
        (call.Stores (s.carryOut m draw immutability call).1) := by
  cases call with
  | get name => exact ⟨f, ⟨hf name, rfl⟩, Leaves.refl h hf⟩
  | names =>
    refine ⟨f, ⟨?_, fun name => ?_, rfl⟩, Leaves.refl h hf⟩
    · exact (List.pairwise_map (l := s.bundle.names.entries)).mpr s.bundle.names.ordered
    · change name ∈ s.bundle.names.keys ↔ _
      rw [Dict.mem_keys, ← Option.isSome_iff_exists]
      change (s.bundle.attributeId? name).isSome ↔ _
      rw [← h.tidy.get?_isSome]
      cases hg : s.bundle.get? name with
      | none => rw [hf.none hg]
      | some value =>
        obtain ⟨bound, hb, _⟩ := hf.some hg
        rw [hb]
        simp
  | snapshot => exact ⟨f, ⟨hf, rfl⟩, Leaves.refl h hf⟩
  | set name value =>
    obtain ⟨ha, hl⟩ := set_leaves h hf draw immutability name (hv value rfl) hd
    exact ⟨_, ⟨ha, rfl⟩, hl⟩
  | remove name =>
    obtain ⟨ha, hl⟩ := remove_leaves h hf name
    exact ⟨_, ⟨ha, rfl⟩, hl⟩
  | update name change =>
    cases hg : s.bundle.get? name with
    | none =>
      have hu : s.update m draw immutability name change = (.ok false, s) := by
        simp only [Scope.update, hg]
      refine ⟨f, ?_, ?_⟩
      · simp only [ViewCall.OnMap, hf.none hg, carryOut, hu]
        exact ⟨trivial, trivial⟩
      · simp only [carryOut, hu, ViewCall.Stores]
        exact ⟨h, hf, id, fun hs => ⟨hs, by simp⟩⟩
    | some value =>
      obtain ⟨bound, hb, he⟩ := hf.some hg
      have hw : Faithful m (change value) :=
        hv _ (by simp only [ViewCall.written, hg, Option.map_some])
      obtain ⟨⟨previous, ha, _⟩, hl⟩ :=
        set_leaves h hf draw immutability name hw hd
      have hu : s.update m draw immutability name change =
          (.ok true, (s.set m draw immutability name (change value)).2) := by
        simp only [Scope.update, hg, ha]
        rfl
      refine ⟨Function.update f name (some (change value)), ?_, ?_⟩
      · simp only [ViewCall.OnMap, hb, carryOut, hu]
        exact ⟨trivial, value, he, rfl⟩
      · simp only [carryOut, hu, ViewCall.Stores]
        exact ⟨hl.mirrors, hl.follows, hl.exact, fun hs => absurd trivial (hl.stored hs).2⟩

end Scope
end SessionAttributes
