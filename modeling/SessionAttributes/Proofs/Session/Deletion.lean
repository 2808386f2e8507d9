import SessionAttributes.Proofs.Store.Replay
import SessionAttributes.Proofs.World.Journal
import SessionAttributes.Proofs.World.Tasks

namespace SessionAttributes

variable {V σ K T : Type}

/-- To pick some of a list and to keep each of them once may be done in any order. -/
theorem eraseDups_filter [DecidableEq K] (p : K → Bool) (l : List K) :
    (l.filter p).eraseDups = l.eraseDups.filter p := by
  induction hn : l.length using Nat.strong_induction_on generalizing l with
  | _ n ih =>
    cases l with
    | nil => rfl
    | cons a l =>
      have hshort : (l.filter fun b => !b == a).length < n := by
        rw [← hn, List.length_cons]
        exact Nat.lt_succ_of_le (List.length_filter_le _ _)
      have hrest := ih _ hshort _ rfl
      rw [List.eraseDups_cons, List.filter_cons, List.filter_cons]
      cases hp : p a with
      | true =>
        rw [if_pos rfl, if_pos rfl, List.eraseDups_cons, ← hrest, List.filter_comm]
      | false =>
        have hsame : (l.filter fun b => !b == a).filter p = l.filter p := by
          rw [List.filter_filter]
          refine List.filter_congr fun b _ => ?_
          by_cases hb : b = a
          · simp [hb, hp]
          · simp [hb]
        rw [if_neg Bool.false_ne_true, if_neg Bool.false_ne_true, ← hrest, hsame]

namespace Store
variable [DecidableEq K] [ShardKey K] {s : Store K T}

/-- A removal takes a key out of both tiers, however it is told. -/
theorem Sound.slot_remove (h : s.Sound) (key : K) (mode : AccessMode) :
    (s.remove key mode).store.slot = Function.update s.slot key ⟨none, none⟩ := by
  unfold Store.remove
  dsimp only
  cases hf : (s.shard key).find? key with
  | none =>
    have hslot : s.slot key = ⟨none, none⟩ := Shard.slot_of_find_none hf
    rw [← hslot, Function.update_eq_self]
  | some value =>
    have hevent : ∀ event ∈ [Event.removed (V := T) key], s.index event.key = s.index key := by
      intro event hm
      rw [List.mem_singleton.mp hm]
      rfl
    exact h.slot_setShard hevent ((s.shard key).slot_erase key)

theorem Sound.settled_remove (h : s.Sound) (key : K) (mode : AccessMode) :
    (s.settled (.remove key mode)).Sound ∧
      (s.settled (.remove key mode)).slot = Function.update s.slot key ⟨none, none⟩ ∧
      (s.settled (.remove key mode)).find? = Function.update s.find? key none := by
  obtain ⟨-, hfind, hsound⟩ := h.remove key mode
  refine ⟨hsound.foldl_count _, ?_, ?_⟩
  · exact (slot_congr (foldl_count_shards _ _)).trans (h.slot_remove key mode)
  · exact (find_congr (foldl_count_shards _ _)).trans hfind

/-- After some removals their keys are gone, and all others are where they were. -/
theorem Sound.slot_removals (h : s.Sound) (keys : List K) (mode : AccessMode) (k : K) :
    (s.after (keys.map fun key => .remove key mode)).slot k =
      if k ∈ keys then ⟨none, none⟩ else s.slot k := by
  induction keys generalizing s with
  | nil => rfl
  | cons key keys ih =>
    obtain ⟨hsound, hslot, -⟩ := h.settled_remove key mode
    refine (ih hsound).trans ?_
    rw [hslot]
    by_cases hk : k = key
    · simp [hk]
    · simp [hk]

/-- Of a removal listeners hear if there was something to remove. -/
theorem announced_remove (s : Store K T) (key : K) (mode : AccessMode) :
    s.announced ((StoreCall.remove key mode).step s).2 =
      if mode.notifies ∧ (s.find? key).isSome then [.removed key] else [] := by
  unfold StoreCall.step Store.remove
  dsimp only
  change _ = if mode.notifies ∧ ((s.shard key).find? key).isSome then _ else _
  cases (s.shard key).find? key with
  | none => simp [announced]
  | some value =>
    cases mode with
    | silent => rfl
    | normal | writeOnly => exact s.announced_single (.removed key)

/-- Of some removals listeners hear once for each key that was there, in the order in which the keys
first come up. -/
theorem Sound.news_removals (h : s.Sound) {mode : AccessMode} (hm : mode.notifies = true)
    (keys : List K) :
    s.news (keys.map fun key => .remove key mode) =
      (keys.eraseDups.filter fun key => (s.find? key).isSome).map .removed := by
  induction keys generalizing s with
  | nil => rfl
  | cons key keys ih =>
    obtain ⟨hsound, -, hfind⟩ := h.settled_remove key mode
    have hrest : (keys.eraseDups.filter fun k =>
        ((s.settled (.remove key mode)).find? k).isSome) =
          ((keys.filter fun k => !k == key).eraseDups.filter fun k => (s.find? k).isSome) := by
      rw [eraseDups_filter, List.filter_filter, hfind]
      refine List.filter_congr fun k _ => ?_
      by_cases hk : k = key
      · simp [hk]
      · simp [hk]
    rw [List.map_cons, news, announced_remove, ih hsound, hrest, List.eraseDups_cons,
      List.filter_cons]
    cases s.find? key <;> simp [hm]

theorem news_removals_silent (s : Store K T) (keys : List K) :
    s.news (keys.map fun key => .remove key .silent) = [] := by
  induction keys generalizing s with
  | nil => rfl
  | cons key keys ih =>
    rw [List.map_cons, news, announced_remove, ih]
    rfl

end Store

/-- What the observers in a list write down of an event. -/
def Listeners.hearing (l : Listeners Subscriber) (heard : Heard) : List (Line V) :=
  l.snapshot.filterMap fun
    | .observer number => some (.heard number heard)
    | .factory _ => none

theorem Listeners.filter_hearing (l : Listeners Subscriber) (heard : Heard) :
    (l.hearing heard : List (Line V)).filter Line.isNews = l.hearing heard := by
  refine List.filter_eq_self.mpr fun line hm => ?_
  obtain ⟨hearer, -, hline⟩ := List.mem_filterMap.mp hm
  cases hearer <;> cases hline
  rfl

namespace World

variable {env : Surroundings V σ} {m : Marshaller V} {read : σ → List (Line V)} {w w' : World V σ}

theorem reactions_hearing {echo : Subscriber → Event K T → List (Line V)} {event : Event K T}
    {heard : Heard}
    (he : ∀ hearer, echo hearer event = match hearer with
      | .observer number => [.heard number heard]
      | .factory _ => []) (l : Listeners Subscriber) :
    (l.snapshot.flatMap fun hearer => echo hearer event) = l.hearing heard := by
  unfold Listeners.hearing
  induction l.snapshot with
  | nil => rfl
  | cons hearer hearers ih =>
    rw [List.flatMap_cons, ih, he, List.filterMap_cons]
    cases hearer <;> rfl

theorem namesLines_removed (l : Listeners Subscriber) (session : SessionId) :
    Place.reactions namesLine l.snapshot [.removed session] =
      (l.hearing (.names (.removed session)) : List (Line V)) := by
  refine (List.append_nil _).trans (reactions_hearing (fun hearer => ?_) l)
  cases hearer <;> rfl

theorem attributesLines_removed (context : Nat → String) (l : Listeners Subscriber)
    (keys : List AttributeKey) :
    Place.reactions (attributesEcho m context) l.snapshot (keys.map .removed) =
      keys.flatMap fun key => l.hearing (.attributes (.removed key)) := by
  unfold Place.reactions
  rw [List.flatMap_map]
  refine List.flatMap_congr fun key _ => reactions_hearing (fun hearer => ?_) l
  cases hearer <;> rfl

/-- The attribute entries that the stored names of a session refer to, in the order of the names. -/
def referenced (w : World V σ) (session : SessionId) : List AttributeKey :=
  match w.names.store.find? session with
  | none => []
  | some names => names.values.map fun id => ⟨session, id⟩

/-- What observers write down of the names of a session that are deleted. -/
def namesRemoved (w : World V σ) (session : SessionId) : List (Line V) :=
  if (w.names.store.find? session).isSome then
    w.names.listeners.hearing (.names (.removed session))
  else []

/-- What observers write down of entries that are deleted: of each that was there they hear once. -/
def entriesRemoved (w : World V σ) (keys : List AttributeKey) : Deletion → List (Line V)
  | .remove => (keys.eraseDups.filter fun key => (w.attributes.store.find? key).isSome).flatMap
      fun key => w.attributes.listeners.hearing (.attributes (.removed key))
  | .purge => []

theorem attributesLines_removals (hs : w.attributes.store.Sound) (keys : List AttributeKey)
    (deletion : Deletion) :
    w.attributesLines m (keys.map fun key => .remove key deletion.mode) =
      w.entriesRemoved keys deletion := by
  unfold attributesLines entriesRemoved
  cases deletion with
  | remove =>
    rw [hs.news_removals rfl]
    exact attributesLines_removed _ _ _
  | purge =>
    have hsilent := w.attributes.store.news_removals_silent keys
    rw [Deletion.mode, hsilent]
    rfl

/-- Entries are removed one after the other, and nothing else happens. -/
theorem removeEntries_noted (hj : env.Journals m read) (hr : env.Reliable) {actor : Actor}
    {session : SessionId} {mode : AccessMode} {ids : List AttributeId}
    {post : Unit → World V σ → Prop} {fails : SessionError → World V σ → Prop}
    (hs : w.attributes.store.Sound)
    (hend : ∀ w' lines,
      (attributesPlace.withStore w (w.attributes.store.after
        (ids.map fun id => .remove ⟨session, id⟩ mode))).Noted read w' lines →
      lines.filter Line.isNews =
        w.attributesLines m (ids.map fun id => .remove ⟨session, id⟩ mode) → post () w') :
    (Index.removeEntries session mode ids : Attempt V Unit).Secures (exactly env actor) post fails
      w := by
  induction ids generalizing w with
  | nil => exact hend w [] (.refl w) rfl
  | cons id ids ih =>
    have hreliable : (env.before (.attributes (.remove ⟨session, id⟩ mode)) w).1 = none := hr _ w
    have hfirst := callAttributes_noted hj hreliable
    have hsite : (w.callAttributes env (.remove ⟨session, id⟩ mode)).2.attributes =
        { w.attributes with store := w.attributes.store.settled (.remove ⟨session, id⟩ mode) } :=
      hfirst.attributes
    simp only [Index.removeEntries, Attempt.secures_bind, Attempt.secures_attributes, exactly,
      perform, callAttributes_answer hj hs hreliable]
    refine ih ?_ fun w' lines hrest hlines => ?_
    · rw [hsite]
      exact (hs.settled_remove _ _).1
    · rw [hsite] at hrest
      refine hend w' _ ((hfirst.withAttributes _).trans hrest) ?_
      have hfilter :=
        List.filter_eq_self.mpr (w.attributesLines_news m [.remove ⟨session, id⟩ mode])
      rw [attributesLines_congr m hfirst.attributes hfirst.context] at hlines
      rw [List.filter_append, hlines, List.map_cons, attributesLines_cons]
      exact congrArg (· ++ _) hfilter

/-- The names of a session are taken out of their store. -/
theorem take_noted (hj : env.Journals m read) (hr : env.Reliable) {actor : Actor}
    {session : SessionId} {post : Option Names → World V σ → Prop}
    {fails : SessionError → World V σ → Prop} (hs : w.names.store.Sound)
    (hend : ∀ w' lines,
      (namesPlace.withStore w (w.names.store.after [.remove session .normal])).Noted read w' lines →
      lines.filter Line.isNews = w.namesRemoved session →
      post (w.names.store.find? session) w') :
    (Index.take session : Attempt V (Option Names)).Secures (exactly env actor) post fails w := by
  have hreliable : (env.before (.names (.remove session .normal)) w).1 = none := hr _ w
  have hnews : w.namesLines [.remove session .normal] =
      (w.namesRemoved session : List (Line V)) := by
    unfold namesLines namesRemoved
    rw [Store.news_single, Store.announced_remove]
    cases w.names.store.find? session with
    | none => rfl
    | some names => exact namesLines_removed _ _
  have hfilter : (w.namesRemoved session : List (Line V)).filter Line.isNews =
      w.namesRemoved session := by
    unfold namesRemoved
    split
    · exact Listeners.filter_hearing _ _
    · rfl
  change Attempt.Ends post fails (w.callNames env (.remove session .normal)).1
    (w.callNames env (.remove session .normal)).2
  rw [callNames_answer hj hs hreliable]
  refine hend _ _ (callNames_noted hj hreliable) ?_
  change (w.namesLines [.remove session .normal]).filter Line.isNews = _
  rw [hnews, hfilter]

structure Deleted (read : σ → List (Line V)) (w w' : World V σ) (session : SessionId)
    (deletion : Deletion) : Prop where
  names : ∀ key, w'.names.store.slot key =
    if key = session then ⟨none, none⟩ else w.names.store.slot key
  entries : ∀ key, w'.attributes.store.slot key =
    if key ∈ w.referenced session then ⟨none, none⟩ else w.attributes.store.slot key
  metadata : w'.metadata = w.metadata
  told : ∃ lines, read w'.scene = read w.scene ++ lines ∧ lines.filter Line.isNews =
    w.namesRemoved session ++ w.entriesRemoved (w.referenced session) deletion

/-- The names are taken out first, and the entries that they refer to after that. -/
theorem Deleted.of_noted {w₁ : World V σ} {session : SessionId} {deletion : Deletion}
    {lines lines' : List (Line V)} (hs : w.Sound)
    (hnames : (namesPlace.withStore w (w.names.store.after [.remove session .normal])).Noted read w₁
      lines) (hl : lines.filter Line.isNews = w.namesRemoved session)
    (hentries : (attributesPlace.withStore w₁ (w₁.attributes.store.after
      ((w.referenced session).map fun key => .remove key deletion.mode))).Noted read w' lines')
    (hl' : lines'.filter Line.isNews =
      w₁.attributesLines m ((w.referenced session).map fun key => .remove key deletion.mode)) :
    Deleted read w w' session deletion := by
  have hattributes : w₁.attributes = w.attributes := hnames.attributes
  have hnamesSite : w'.names =
      { w.names with store := w.names.store.after [.remove session .normal] } :=
    hentries.names.trans hnames.names
  refine ⟨fun key => ?_, fun key => ?_, hentries.metadata.trans hnames.metadata, _,
    (hentries.read.trans (congrArg (· ++ lines') hnames.read)).trans (List.append_assoc _ _ _), ?_⟩
  · rw [hnamesSite]
    exact (hs.names.slot_removals [session] .normal key).trans (by simp)
  · have hstore : w'.attributes.store = w₁.attributes.store.after
        ((w.referenced session).map fun key => .remove key deletion.mode) :=
      congrArg Site.store hentries.attributes
    rw [hstore, hattributes]
    exact hs.attributes.slot_removals _ _ _
  · have hlines := attributesLines_removals (m := m) hs.attributes (w.referenced session) deletion
    rw [List.filter_append, hl, hl', attributesLines_congr m hattributes hnames.context, ← hlines]

theorem delete_noted (hj : env.Journals m read) (hr : env.Reliable) (hs : w.Sound) {number : Nat}
    {f : Factory V} (hf : w.factory? number = some f) (ho : f.isOpen = true) (session : SessionId)
    (deletion : Deletion) :
    (Session.delete session deletion).Secures (exactly env ⟨number, none⟩)
      (fun answer w' => answer = true ∧ w.Deleted read w' session deletion) (fun _ _ => False)
      w := by
  have hisOpen : ((w.factory? number).map Factory.isOpen).getD false = true := by rw [hf]; exact ho
  have hrecord : ∀ (w' : World V σ), w'.Noted read
      (w'.record number (.sessionDeleted deletion.isSilent)) [] := fun w' =>
    .record w' number fun _ => nofun
  unfold Session.delete
  refine Attempt.Secures.bind ?_
  rw [Attempt.secures_ensureOpen]
  simp only [exactly, perform, hisOpen, cond_true]
  refine Attempt.Secures.bind (take_noted hj hr hs.names fun w₁ lines hnames hl => ?_)
  have hend : ∀ w' lines',
      (attributesPlace.withStore w₁ (w₁.attributes.store.after
        ((w.referenced session).map fun key => .remove key deletion.mode))).Noted read w' lines' →
      lines'.filter Line.isNews = w₁.attributesLines m
        ((w.referenced session).map fun key => .remove key deletion.mode) →
      w.Deleted read (w'.record number (.sessionDeleted deletion.isSilent)) session deletion := by
    intro w' lines' hentries hl'
    have hall := hentries.trans (hrecord w')
    rw [List.append_nil] at hall
    exact .of_noted hs hnames hl hall hl'
  unfold referenced at hend
  cases hfind : w.names.store.find? session with
  | none =>
    rw [hfind] at hend
    exact ⟨rfl, hend w₁ [] (.refl w₁) rfl⟩
  | some names =>
    rw [hfind] at hend
    refine Attempt.Secures.bind (removeEntries_noted hj hr ?_ fun w' lines' hentries hl' => ?_)
    · have hattributes : w₁.attributes = w.attributes := hnames.attributes
      rw [hattributes]
      exact hs.attributes
    · rw [List.map_map] at hend
      exact ⟨rfl, hend w' lines' hentries hl'⟩

/-- With an open factory and no failing call a deletion always succeeds. It takes the names of the
session and all entries that they refer to out of both tiers, and every other key of the three
stores stays in its tier with its value. Observers hear of the names, if there were any, and then,
unless the deletion is silent, once of each entry that was there, in the order in which the names
refer to them first. Nobody is told of anything else. -/
theorem delete_exact (hj : env.Journals m read) (hr : env.Reliable) (hs : w.Sound) {number : Nat}
    {f : Factory V} (hf : w.factory? number = some f) (ho : f.isOpen = true) (session : SessionId)
    (deletion : Deletion) :
    ∃ w', w.carryOut env ⟨number, none⟩ (Session.delete session deletion).run = (.ok true, w') ∧
      w.Deleted read w' session deletion := by
  have hrun := delete_noted hj hr hs hf ho session deletion
  unfold Attempt.Secures at hrun
  rw [secures_exactly] at hrun
  generalize w.carryOut env ⟨number, none⟩ (Session.delete session deletion).run = r at hrun
  obtain ⟨answer, w'⟩ := r
  cases answer with
  | error fault => exact hrun.elim
  | ok answer =>
    obtain ⟨rfl, hdeleted⟩ := hrun
    exact ⟨w', rfl, hdeleted⟩

/-- Nothing fails, and all that is told is written down. -/
def minuted : Surroundings Unit (List (Line Unit)) :=
  .journaling ⟨fun _ => .ok [], fun _ => .ok ()⟩ AttributeId.ofNat

/-- Two names of a session share an entry that is passivated, one has an entry in primary memory and
one has none. Another session has an entry with the same identifier. Somebody listens. -/
def untidy : World Unit (List (Line Unit)) :=
  let names := ((((Dict.empty : Names).insert "a" (.ofNat 1)).insert "b" (.ofNat 2)).insert "c"
    (.ofNat 1)).insert "d" (.ofNat 3)
  let put (session : SessionId) (id : Nat) : Happening Unit :=
    .act ⟨0, none⟩ (.attributes (.put ⟨session, .ofNat id⟩ [] .silent))
  let happenings : List (Happening Unit) := [
    .openFactory { workers := 1 } Immutability.never "" true,
    .act ⟨0, none⟩ (.names (.put "s" names .silent)),
    put "s" 1, put "s" 2, put "t" 1,
    .act ⟨0, none⟩ (.attributes (.evict ⟨"s", .ofNat 1⟩)),
    .observe .names 7, .observe .attributes 7]
  happenings.foldl (happen minuted) (blank false [])

/-- Two entries are removed, and each is told once. -/
theorem delete_exact_untidy :
    ∃ (w w' : World Unit (List (Line Unit))) (f : Factory Unit), w.Sound ∧
      w.factory? 0 = some f ∧ f.isOpen = true ∧
      w.attributes.store.isPassivated ⟨"s", .ofNat 1⟩ = true ∧
      w.referenced "s" = ([1, 2, 1, 3].map fun id => ⟨"s", .ofNat id⟩) ∧
      w.carryOut minuted ⟨0, none⟩ (Session.delete "s" .remove).run = (.ok true, w') ∧
      w.Deleted id w' "s" .remove ∧
      (w.namesRemoved "s" : List (Line Unit)).length = 1 ∧
      (w.entriesRemoved (w.referenced "s") .remove : List (Line Unit)).length = 2 := by
  obtain ⟨w, hw⟩ : ∃ w, w = untidy := ⟨_, rfl⟩
  have hj : minuted.Journals _ id := Surroundings.journaling_journals _ _
  have hr : minuted.Reliable := Surroundings.journaling_reliable _ _
  have hs : w.Sound := by
    rw [hw]
    exact ((blank_reached false []).all hj.aloof _).wired.sound
  have hfactory : (w.factory? 0).map Factory.isOpen = some true := by rw [hw]; decide +kernel
  obtain ⟨f, hf, ho⟩ := Option.map_eq_some_iff.mp hfactory
  obtain ⟨w', hrun, hdeleted⟩ := delete_exact hj hr hs hf ho "s" .remove
  refine ⟨w, w', f, hs, hf, ho, ?_, ?_, hrun, hdeleted, ?_, ?_⟩
  · rw [hw]
    decide +kernel
  · rw [hw]
    decide +kernel
  · rw [hw]
    decide +kernel
  · rw [hw]
    decide +kernel

end World
end SessionAttributes
