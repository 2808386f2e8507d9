import SessionAttributes.Proofs.World.Transparency

namespace SessionAttributes

variable {V K T : Type}

namespace StoreCall

/-- What is left of a call when other keys are left out, and of its answer. -/
def narrowed (keep : K → Bool) : (call : StoreCall K T) →
    Option ((c : StoreCall K T) × (call.Answer → c.Answer))
  | .get key => if keep key then some ⟨.get key, id⟩ else none
  | .getAll keys =>
    if (keys.filter keep).isEmpty then none
    else some ⟨.getAll (keys.filter keep), List.filter fun e => keep e.1⟩
  | .put key value mode => if keep key then some ⟨.put key value mode, id⟩ else none
  | .remove key mode => if keep key then some ⟨.remove key mode, id⟩ else none
  | .evict key => if keep key then some ⟨.evict key, id⟩ else none

variable [DecidableEq K]

theorem filter_addFound (keep : K → Bool) (key : K) (value : T) (found : List (K × T)) :
    (addFound key value found).filter (fun e => keep e.1) =
      if keep key then addFound key value (found.filter fun e => keep e.1)
      else found.filter fun e => keep e.1 := by
  induction found with
  | nil => by_cases hk : keep key <;> simp [addFound, hk]
  | cons e rest ih =>
    obtain ⟨k, v⟩ := e
    simp only [addFound]
    by_cases he : k = key
    · subst he
      by_cases hk : keep k <;> simp [hk, addFound]
    · rw [if_neg he]
      by_cases hk : keep k <;> by_cases hkey : keep key <;>
        simp [hk, hkey, ih, addFound, he]

/-- A bulk read of some keys finds what the read of all finds under them. -/
theorem collect_filter {keep : K → Bool} {f f' : K → Option T}
    (h : ∀ k, keep k → f' k = f k) (keys : List K) (found : List (K × T)) :
    collect f' (keys.filter keep) (found.filter fun e => keep e.1) =
      (collect f keys found).filter fun e => keep e.1 := by
  induction keys generalizing found with
  | nil => rfl
  | cons key keys ih =>
    by_cases hk : keep key
    · rw [List.filter_cons_of_pos hk]
      simp only [collect, h key hk]
      cases f key with
      | none => exact ih found
      | some value =>
        have hfound := ih (addFound key value found)
        rw [filter_addFound, if_pos hk] at hfound
        exact hfound
    · rw [List.filter_cons_of_neg hk]
      simp only [collect]
      cases f key with
      | none => exact ih found
      | some value =>
        have hfound := ih (addFound key value found)
        rw [filter_addFound, if_neg hk] at hfound
        exact hfound

/-- A call that is left out as a whole writes nothing under the keys that are kept. -/
theorem onMap_narrowed_none {keep : K → Bool} {call : StoreCall K T}
    (h : call.narrowed keep = none) (f : K → Option T) {k : K} (hk : keep k) :
    (call.onMap f).2 k = f k := by
  refine call.onMap_other f fun hw => ?_
  cases call with
  | put key value mode =>
    cases hw
    simp [narrowed, hk] at h
  | remove key mode =>
    cases hw
    simp [narrowed, hk] at h
  | _ => cases hw

/-- What is left of a call answers and acts on the keys that are kept as the whole call does. -/
theorem onMap_narrowed {keep : K → Bool} {call c : StoreCall K T}
    {shorten : call.Answer → c.Answer} (h : call.narrowed keep = some ⟨c, shorten⟩)
    {f f' : K → Option T} (hf : ∀ k, keep k → f' k = f k) :
    (c.onMap f').1 = shorten (call.onMap f).1 ∧
      ∀ k, keep k → (c.onMap f').2 k = (call.onMap f).2 k := by
  have hwrite : ∀ {key : K} (entry : Option T) (k : K), keep k →
      Function.update f' key entry k = Function.update f key entry k := by
    intro key entry k hk
    by_cases he : k = key
    · rw [he, Function.update_self, Function.update_self]
    · rw [Function.update_of_ne he, Function.update_of_ne he, hf k hk]
  cases call with
  | getAll keys =>
    simp only [narrowed] at h
    split at h
    · cases h
    · cases h
      exact ⟨collect_filter hf keys [], hf⟩
  | get key =>
    simp only [narrowed] at h
    split at h
    · cases h
      exact ⟨hf key ‹_›, hf⟩
    · cases h
  | put key value mode =>
    simp only [narrowed] at h
    split at h
    · cases h
      exact ⟨congrArg mode.reveal (hf key ‹_›), hwrite _⟩
    · cases h
  | remove key mode =>
    simp only [narrowed] at h
    split at h
    · cases h
      exact ⟨congrArg mode.reveal (hf key ‹_›), hwrite _⟩
    · cases h
  | evict key =>
    simp only [narrowed] at h
    split at h
    · cases h
      exact ⟨rfl, hf⟩
    · cases h

end StoreCall

def drawnBetween (draw : Nat → AttributeId) (first last : Nat) : List AttributeId :=
  (List.range' first (last - first)).map draw

theorem drawnBetween_of_add (draw : Nat → AttributeId) {first last n : Nat}
    (h : last = first + n) : drawnBetween draw first last = (List.range' first n).map draw := by
  rw [drawnBetween, h, Nat.add_sub_cancel_left]

structure Entry (V : Type) where
  op : Operation V
  answer : op.Answer
  ids : List AttributeId

namespace Entry

/-- The session of the view that was handed out, if one was. -/
def handed : Entry V → List SessionId
  | ⟨.openView _ session _ _ _, .ok _, _⟩ => [session]
  | _ => []

/-- The number of a view among the views of its session. -/
def rank (session : SessionId) (views : List SessionId) (view : Nat) : Nat :=
  (views.take view).count session

/-- What is left of an entry when other sessions are left out. The sessions of the views that were
handed out before are given in their order. -/
def narrowed (session : SessionId) (views : List SessionId) : Entry V → Option (Entry V)
  | ⟨.openFactory options immutability context counts, answer, ids⟩ =>
    some ⟨.openFactory options immutability context counts, answer, ids⟩
  | ⟨.closeFactory factory, answer, ids⟩ => some ⟨.closeFactory factory, answer, ids⟩
  | ⟨.openView factory owner bundle metadata context, answer, ids⟩ =>
    if owner = session then
      some ⟨.openView factory owner bundle metadata context, answer.map (rank session views), ids⟩
    else none
  | ⟨.closeView view, answer, ids⟩ =>
    if views[view]? = some session then some ⟨.closeView (rank session views view), answer, ids⟩
    else none
  | ⟨.load factory owner repair, answer, ids⟩ =>
    if owner = session then some ⟨.load factory owner repair, answer, ids⟩ else none
  | ⟨.delete factory owner deletion, answer, ids⟩ =>
    if owner = session then some ⟨.delete factory owner deletion, answer, ids⟩ else none
  | ⟨.view view call, answer, ids⟩ =>
    if views[view]? = some session then some ⟨.view (rank session views view) call, answer, ids⟩
    else none
  | ⟨.metadata call, answer, ids⟩ =>
    (call.narrowed (· = session)).map fun r => ⟨.metadata r.1, answer.map r.2, ids⟩
  | ⟨.names call, answer, ids⟩ =>
    (call.narrowed (· = session)).map fun r => ⟨.names r.1, answer.map r.2, ids⟩
  | ⟨.attributes call, answer, ids⟩ =>
    (call.narrowed (·.session = session)).map fun r => ⟨.attributes r.1, answer.map r.2, ids⟩

theorem narrowed_ids {e e' : Entry V} {session : SessionId} {views : List SessionId}
    (h : e.narrowed session views = some e') : e'.ids = e.ids := by
  obtain ⟨op, answer, ids⟩ := e
  cases op with
  | openFactory => cases h; rfl
  | closeFactory => cases h; rfl
  | metadata call =>
    obtain ⟨r, -, rfl⟩ := Option.map_eq_some_iff.mp h
    rfl
  | names call =>
    obtain ⟨r, -, rfl⟩ := Option.map_eq_some_iff.mp h
    rfl
  | attributes call =>
    obtain ⟨r, -, rfl⟩ := Option.map_eq_some_iff.mp h
    rfl
  | _ =>
    simp only [narrowed] at h
    split at h
    · cases h
      rfl
    · cases h

/-- What is left of a history when other sessions are left out. -/
def narrowedFrom (session : SessionId) : List SessionId → List (Entry V) → List (Entry V)
  | _, [] => []
  | views, e :: rest =>
    (e.narrowed session views).toList ++ narrowedFrom session (views ++ e.handed) rest

end Entry

end SessionAttributes
