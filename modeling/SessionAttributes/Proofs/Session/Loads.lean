import SessionAttributes.Proofs.Dict
import SessionAttributes.Proofs.View.Parts
import SessionAttributes.Session

namespace SessionAttributes

variable {V : Type}

def Readable (m : Marshaller V) (entry : Option Bytes) (value : V) : Prop :=
  ∃ bytes, entry = some bytes ∧ m.read bytes = .ok value

theorem Readable.unique {m : Marshaller V} {entry : Option Bytes} {value value' : V}
    (h : Readable m entry value) (h' : Readable m entry value') : value = value' := by
  obtain ⟨bytes, he, hv⟩ := h
  obtain ⟨bytes', he', hv'⟩ := h'
  cases he.symm.trans he'
  exact Except.ok.inj (hv.symm.trans hv')

namespace Session

def decoded (m : Marshaller V) (session : SessionId) :
    List AttributeId → List (AttributeKey × Bytes) → List (AttributeId × V) →
      Option (List (AttributeId × V))
  | [], _, values => some values
  | id :: rest, entries, values =>
    match entries.lookup ⟨session, id⟩ with
    | none => none
    | some bytes =>
      match m.read bytes with
      | .error _ => none
      | .ok value =>
        decoded m session rest (Shard.without ⟨session, id⟩ entries) ((id, value) :: values)

/-- If every entry can be read, each identifier gets the value that its entry decodes to. -/
theorem decoded_of_readable {m : Marshaller V} {ids : List AttributeId} (session : SessionId)
    (entries : List (AttributeKey × Bytes)) (values : List (AttributeId × V)) (hn : ids.Nodup)
    (hr : ∀ id ∈ ids, ∃ value, Readable m (entries.lookup ⟨session, id⟩) value) :
    ∃ new, decoded m session ids entries values = some (new ++ values) ∧
      keysOf new = ids.reverse ∧
      ∀ e ∈ new, Readable m (entries.lookup ⟨session, e.1⟩) e.2 := by
  induction ids generalizing entries values with
  | nil => exact ⟨[], rfl, rfl, by simp⟩
  | cons id rest ih =>
    obtain ⟨hid, hn⟩ := List.nodup_cons.mp hn
    obtain ⟨value, bytes, hl, hv⟩ := hr id List.mem_cons_self
    have hother : ∀ k ∈ rest, (Shard.without ⟨session, id⟩ entries).lookup ⟨session, k⟩ =
        entries.lookup ⟨session, k⟩ := by
      intro k hk
      have hne : (⟨session, k⟩ : AttributeKey) ≠ ⟨session, id⟩ := by
        rintro ⟨⟩
        exact hid hk
      rw [lookup_without, if_neg hne]
    obtain ⟨new, hd, hkeys, hnew⟩ := ih (Shard.without ⟨session, id⟩ entries)
      ((id, value) :: values) hn fun k hk => by
        rw [hother k hk]
        exact hr k (List.mem_cons_of_mem _ hk)
    refine ⟨new ++ [(id, value)], ?_, ?_, ?_⟩
    · simp [decoded, hl, hv, hd]
    · simp [keysOf] at hkeys ⊢
      exact hkeys
    · intro e he
      rcases List.mem_append.mp he with he | he
      · have hk : e.1 ∈ rest := by
          have : e.1 ∈ keysOf new := List.mem_map.mpr ⟨e, he, rfl⟩
          rw [hkeys] at this
          exact List.mem_reverse.mp this
        rw [← hother e.1 hk]
        exact hnew e he
      · rw [List.mem_singleton.mp he]
        exact ⟨bytes, hl, hv⟩

/-- A missing entry makes the whole load fail. -/
theorem decoded_of_missing {m : Marshaller V} {session : SessionId} {ids : List AttributeId}
    {entries : List (AttributeKey × Bytes)} (values : List (AttributeId × V)) {id : AttributeId}
    (hm : id ∈ ids) (hl : entries.lookup ⟨session, id⟩ = none) :
    decoded m session ids entries values = none := by
  induction ids generalizing entries values with
  | nil => cases hm
  | cons head rest ih =>
    simp only [decoded]
    split
    · rfl
    · split
      · rfl
      · rename_i bytes hb _ _ _
        rcases List.mem_cons.mp hm with rfl | hm
        · rw [hl] at hb
          cases hb
        · apply ih _ hm
          rw [lookup_without, hl]
          split <;> rfl

/-- Conversely, what was decoded was read, and no identifier stands twice. -/
theorem readable_of_decoded {m : Marshaller V} {session : SessionId} {ids : List AttributeId}
    {entries : List (AttributeKey × Bytes)} {values out : List (AttributeId × V)}
    (h : decoded m session ids entries values = some out) :
    ids.Nodup ∧ ∀ id ∈ ids, ∃ value, Readable m (entries.lookup ⟨session, id⟩) value := by
  induction ids generalizing entries values with
  | nil => exact ⟨List.nodup_nil, nofun⟩
  | cons id rest ih =>
    simp only [decoded] at h
    split at h
    · cases h
    · rename_i bytes hl
      split at h
      · cases h
      · rename_i value hv
        obtain ⟨hn, hr⟩ := ih h
        have hid : id ∉ rest := by
          intro hm
          have hlost : (Shard.without ⟨session, id⟩ entries).lookup ⟨session, id⟩ = none := by
            rw [lookup_without, if_pos rfl]
          rw [decoded_of_missing _ hm hlost] at h
          cases h
        refine ⟨List.nodup_cons.mpr ⟨hid, hn⟩, fun k hk => ?_⟩
        rcases List.mem_cons.mp hk with rfl | hk
        · exact ⟨value, bytes, hl, hv⟩
        · obtain ⟨value', hr⟩ := hr k hk
          rw [lookup_without] at hr
          split at hr
          · obtain ⟨_, hnone, _⟩ := hr
            cases hnone
          · exact ⟨value', hr⟩

end Session

namespace Scope

def found (s : Scope V) (session : SessionId) (names : Names) : List (AttributeKey × Bytes) :=
  collect (fun key => s.entries key.id) (names.values.map fun id => ⟨session, id⟩) []

theorem lookup_found {s : Scope V} {session : SessionId} {names : Names} {id : AttributeId}
    (hm : id ∈ names.values) : (s.found session names).lookup ⟨session, id⟩ = s.entries id := by
  unfold found
  rw [lookup_collect, if_pos (List.mem_map.mpr ⟨id, hm, rfl⟩)]
  simp

/-- The bundle that a load of the session finds, if it is not corrupt. -/
def loaded (s : Scope V) (m : Marshaller V) (session : SessionId) : Option (Bundle V) :=
  match s.stored with
  | none => some Bundle.empty
  | some names =>
    (Session.decoded m session names.values (s.found session names) []).map (⟨names, ·⟩)

theorem loaded_names {s : Scope V} {m : Marshaller V} {session : SessionId} {b : Bundle V}
    (hl : s.loaded m session = some b) : b.names = s.stored.getD Dict.empty := by
  cases hs : s.stored with
  | none =>
    simp only [Scope.loaded, hs, Option.some.injEq] at hl
    rw [← hl]
    rfl
  | some names =>
    simp only [Scope.loaded, hs, Option.map_eq_some_iff] at hl
    obtain ⟨values, -, rfl⟩ := hl
    rfl

/-- Every attribute that the names refer to can be read, and stands under one name. -/
structure Healthy (m : Marshaller V) (names : Names) (entries : AttributeId → Option Bytes) :
    Prop where
  readable : ∀ id ∈ names.values, ∃ value, Readable m (entries id) value
  distinct : names.values.Nodup

/-- A load of a healthy session finds all its names, each with the value of its entry. -/
theorem Healthy.loaded {s : Scope V} {m : Marshaller V} {names : Names}
    (h : Healthy m names s.entries) (hs : s.stored = some names) (session : SessionId) :
    ∃ b, s.loaded m session = some b ∧ b.names = names ∧ keysOf b.values = names.values.reverse ∧
      ∀ e ∈ b.values, Readable m (s.entries e.1) e.2 := by
  obtain ⟨new, hd, hkeys, hnew⟩ := Session.decoded_of_readable (m := m) session
    (s.found session names) [] h.distinct fun id hm => by
      rw [lookup_found hm]
      exact h.readable id hm
  rw [List.append_nil] at hd
  refine ⟨⟨names, new⟩, by simp only [Scope.loaded, hs, hd, Option.map_some], rfl, hkeys, ?_⟩
  intro e he
  have hk : e.1 ∈ keysOf new := List.mem_map.mpr ⟨e, he, rfl⟩
  rw [hkeys] at hk
  rw [← lookup_found (List.mem_reverse.mp hk)]
  exact hnew e he

/-- A load that finds a bundle has found a healthy session. -/
theorem healthy_of_loaded {s : Scope V} {m : Marshaller V} {names : Names} {session : SessionId}
    {b : Bundle V} (hs : s.stored = some names) (hl : s.loaded m session = some b) :
    Healthy m names s.entries := by
  simp only [Scope.loaded, hs] at hl
  cases hd : Session.decoded m session names.values (s.found session names) [] with
  | none =>
    rw [hd] at hl
    cases hl
  | some values =>
    obtain ⟨hn, hr⟩ := Session.readable_of_decoded hd
    refine ⟨fun id hm => ?_, hn⟩
    obtain ⟨value, hr⟩ := hr id hm
    rw [lookup_found hm] at hr
    exact ⟨value, hr⟩

/-- The scope without its names and the entries that they refer to. -/
def purged (s : Scope V) : Scope V :=
  { s with
    stored := none
    entries := fun id =>
      if id ∈ (s.stored.map Dict.values).getD [] then none else s.entries id }

theorem purged_unstored {s : Scope V} (hs : s.stored = none) :
    s.purged = { s with stored := none } := by
  simp [purged, hs]

theorem purged_stored {s : Scope V} {names : Names} (hs : s.stored = some names) :
    s.purged = { s with
      stored := none
      entries := fun id => if id ∈ names.values then none else s.entries id } := by
  simp [purged, hs]

end Scope

namespace Session

variable {t : Terms V} {m : Marshaller V} {session : SessionId}
  {fails : SessionError → Scope V → Prop} {s : Scope V}

theorem secures_decode {σ α : Type} {rule : Rule V σ} {fails : SessionError → σ → Prop}
    (hr : ∀ bytes s post, rule (.decode bytes) s post ↔ post (m.read bytes) s) (bytes : Bytes)
    (f : Except SessionError V → Attempt V α) (post : α → σ → Prop) (s : σ) :
    (Attempt.ask (.decode bytes) >>= f).Secures rule post fails s ↔
      (f (m.read bytes)).Secures rule post fails s :=
  (iff_of_eq (Attempt.secures_bind post (Attempt.ask (.decode bytes)) f s)).trans (hr bytes s _)

/-- Where bytes are decoded by the marshaller, `decoded` says what becomes of the entries. -/
theorem secures_decodeEntries {σ : Type} {rule : Rule V σ} {fails : SessionError → σ → Prop}
    (hr : ∀ bytes s post, rule (.decode bytes) s post ↔ post (m.read bytes) s)
    (ids : List AttributeId) (entries : List (AttributeKey × Bytes))
    (values : List (AttributeId × V)) (post : Option (List (AttributeId × V)) → σ → Prop) (s : σ) :
    (decodeEntries session ids entries values).Secures rule post fails s ↔
      post (decoded m session ids entries values) s := by
  induction ids generalizing entries values with
  | nil => rfl
  | cons id rest ih =>
    unfold decodeEntries decoded
    dsimp only
    cases entries.lookup (⟨session, id⟩ : AttributeKey) with
    | none => rfl
    | some bytes =>
      refine (secures_decode hr bytes _ post s).trans ?_
      dsimp only
      cases m.read bytes with
      | error _ => rfl
      | ok value => exact ih _ _

/-- What has to hold before a load: it may fail, it may find a bundle, and it may find the session
corrupt, whereupon it purges it if it repairs. -/
theorem load_secures {repair : Bool} {post : Option (Bundle V) → Scope V → Prop} (hk : t.keeps s)
    (hp : ∀ keys, t.permits s (.getAll keys)) (hclosed : s.isOpen = false → fails .factoryClosed s)
    (hfail : t.failing → ∀ fault, fails fault s)
    (hfound : ∀ b, s.loaded m session = some b → post (some b) s)
    (hcorrupt : s.loaded m session = none →
      if repair then (purge session).Secures (t.rule m session) (fun _ => post none) fails s
      else post none s) :
    (load session repair).Secures (t.rule m session) post fails s := by
  unfold load
  simp only [Attempt.secures_bind, Attempt.secures_ensureOpen, Index.secures_load, Terms.rule]
  cases ho : s.isOpen with
  | false => exact hclosed ho
  | true =>
    refine ⟨hfail, hk, ?_⟩
    cases hs : s.stored with
    | none => exact hfound _ (by simp only [Scope.loaded, hs])
    | some names =>
      have hl : s.loaded m session =
          (decoded m session names.values (s.found session names) []).map (⟨names, ·⟩) := by
        simp only [Scope.loaded, hs]
      rw [hl] at hfound hcorrupt
      simp only [Attempt.secures_bind]
      refine ⟨hp _, hfail, hk, ?_⟩
      refine (secures_decodeEntries (fun _ _ _ => Iff.rfl) names.values (s.found session names) [] _
        _).mpr ?_
      cases hd : decoded m session names.values (s.found session names) [] with
      | some values => exact hfound _ (by rw [hd]; rfl)
      | none =>
        have hcorrupt := hcorrupt (by rw [hd]; rfl)
        cases repair with
        | false => exact hcorrupt
        | true =>
          change Attempt.Secures (t.rule m session) post fails (do
            let _ ← purge session
            return none) s
          simp only [Attempt.secures_bind, Attempt.secures_pure]
          exact hcorrupt

/-- Calls may fail, and a session is left as it was or without names. -/
def clearing (s₀ : Scope V) : Terms V where
  failing := True
  draws _ _ := True
  permits _ _ := True
  keeps s := s.stored = none ∨ s = s₀

theorem removeEntries_clears {s₀ : Scope V} (mode : AccessMode) (ids : List AttributeId)
    (hs : s.stored = none) :
    (Index.removeEntries session mode ids : Attempt V _).Secures ((clearing s₀).rule m session)
      (fun _ s => s.stored = none) (fun _ _ => True) s := by
  induction ids generalizing s with
  | nil => exact hs
  | cons id rest ih =>
    simp only [Index.removeEntries, Attempt.secures_bind, Attempt.secures_attributes, Terms.rule,
      Scope.callAttributes_remove]
    exact ⟨trivial, fun _ _ => trivial, Or.inl hs, ih hs⟩

/-- A deletion that does not fail leaves no names. -/
theorem delete_takes (deletion : Deletion) (s : Scope V) :
    (delete session deletion : Attempt V _).Secures ((clearing s).rule m session)
      (fun _ s => s.stored = none) (fun _ _ => True) s := by
  unfold delete
  simp only [Attempt.secures_bind, Attempt.secures_ensureOpen, Index.secures_take, Terms.rule]
  cases s.isOpen with
  | false => trivial
  | true =>
    refine ⟨fun _ _ => trivial, Or.inl rfl, ?_⟩
    cases s.stored with
    | none => rfl
    | some names =>
      simp only [Attempt.secures_bind]
      apply removeEntries_clears deletion.mode names.values
      rfl

theorem delete_clears (deletion : Deletion) (s : Scope V) :
    (delete session deletion : Attempt V _).Secures ((clearing s).rule m session)
      (fun _ _ => True) (fun _ _ => True) s := by
  refine Procedure.Secures.mono (Terms.rule_monotone _ m session) (fun answer _ _ => ?_)
    (delete_takes deletion s)
  cases answer <;> trivial

theorem removeEntries_secures (draw : Nat → AttributeId) (mode : AccessMode)
    (ids : List AttributeId) (s : Scope V) {post : Unit → Scope V → Prop}
    (hp : post () { s with entries := fun id => if id ∈ ids then none else s.entries id }) :
    (Index.removeEntries session mode ids : Attempt V _).Secures ((Terms.plain draw).rule m session)
      post fails s := by
  induction ids generalizing s with
  | nil => exact hp
  | cons id rest ih =>
    simp only [Index.removeEntries, Attempt.secures_bind, Attempt.secures_attributes, Terms.rule,
      Scope.callAttributes_remove]
    refine ⟨trivial, False.elim, trivial, ih _ ?_⟩
    have he : (fun k => if k ∈ rest then none else Function.update s.entries id none k) =
        fun k => if k ∈ id :: rest then none else s.entries k := by
      funext k
      by_cases hk : k = id <;> simp [hk]
    dsimp only
    rw [he]
    exact hp

/-- A deletion takes the names and the entries that they refer to, and no others. -/
theorem delete_secures (draw : Nat → AttributeId) (deletion : Deletion) {s : Scope V}
    (ho : s.isOpen = true) {post : Bool → Scope V → Prop} (hp : post true s.purged) :
    (delete session deletion : Attempt V _).Secures ((Terms.plain draw).rule m session)
      post fails s := by
  unfold delete
  simp only [Attempt.secures_bind, Attempt.secures_ensureOpen, Index.secures_take, Terms.rule]
  rw [Bool.cond_pos ho]
  refine ⟨False.elim, trivial, ?_⟩
  cases hs : s.stored with
  | none =>
    rw [Scope.purged_unstored hs] at hp
    exact hp
  | some names =>
    rw [Scope.purged_stored hs] at hp
    simp only [Attempt.secures_bind]
    exact removeEntries_secures draw deletion.mode names.values { s with stored := none } hp

/-- Without failing calls a deletion leaves neither the names nor the entries they refer to. -/
theorem delete_effect (draw : Nat → AttributeId) (deletion : Deletion) (ho : s.isOpen = true) :
    (delete session deletion : Attempt V _).Secures ((Terms.plain draw).rule m session)
      (fun _ s' => s'.stored = none ∧
        ∀ names, s.stored = some names → ∀ id ∈ names.values, s'.entries id = none) fails s := by
  refine delete_secures draw deletion ho ⟨rfl, fun names hs id hm => ?_⟩
  rw [Scope.purged_stored hs]
  exact if_pos hm

theorem load_clears (repair : Bool) (s : Scope V) :
    (load session repair : Attempt V _).Secures ((clearing s).rule m session)
      (fun _ _ => True) (fun _ _ => True) s := by
  refine load_secures (Or.inr rfl) (fun _ => trivial) (fun _ => trivial) (fun _ _ => trivial)
    (fun _ _ => trivial) fun _ => ?_
  split
  · exact delete_clears .purge s
  · trivial

end Session
end SessionAttributes
