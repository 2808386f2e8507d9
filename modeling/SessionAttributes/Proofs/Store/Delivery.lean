import Mathlib.Data.List.Induction
import SessionAttributes.Store.Registry

namespace SessionAttributes

variable {α β L : Type}

/-- Where one item is replaced by one that counts for nothing, its part is left out. -/
theorem filterMap_set {f : α → Option β} {p : β → Bool} {x : α} (hx : f x = none) {items : List α}
    {n : Nat} (hp : ∀ {i a b}, items[i]? = some a → f a = some b → (p b = true ↔ i ≠ n)) :
    (items.set n x).filterMap f = (items.filterMap f).filter p := by
  have hkept : ∀ {items : List α}, (∀ a ∈ items, ∀ b, f a = some b → p b = true) →
      (items.filterMap f).filter p = items.filterMap f := by
    intro items h
    apply List.filter_eq_self.mpr
    intro b hb
    obtain ⟨a, ha, hab⟩ := List.mem_filterMap.mp hb
    exact h a ha b hab
  induction items generalizing n with
  | nil => rfl
  | cons a rest ih =>
    cases n with
    | zero =>
      have hrest : (rest.filterMap f).filter p = rest.filterMap f := by
        apply hkept
        intro a' ha' b hb
        obtain ⟨i, hi⟩ := List.mem_iff_getElem?.mp ha'
        exact (hp (i := i + 1) hi hb).mpr (Nat.succ_ne_zero i)
      cases ha : f a with
      | none => simp [hx, ha, hrest]
      | some b =>
        have hb : p b ≠ true := fun h => (hp (i := 0) rfl ha).mp h rfl
        simp [hx, ha, hb, hrest]
    | succ n =>
      have hrest := ih (n := n) fun {i a' b} hi hb =>
        (hp (i := i + 1) hi hb).trans (by omega)
      cases ha : f a with
      | none => simp [ha, hrest]
      | some b =>
        have hb : p b = true := (hp (i := 0) rfl ha).mpr (by omega)
        simp [ha, hb, hrest]

namespace Registry

/-- What is done with a set of listeners and its handles, outside of announcements. -/
inductive Deed (L : Type) where
  | register (listener : L)
  | close (number : Nat)
  | drop (number : Nat)
  | dropSet
  | announce
  /-- Somebody else takes a reference to a listener. -/
  | hold (listener : L)
  /-- Somebody else gives a reference back. -/
  | release (listener : L)

section Linked

variable {r : Registry L} {number : Nat}

/-- The entries of the set are the actions that its handles still have, each with an id of its
own. -/
structure Linked (r : Registry L) : Prop where
  numbered : ∀ {number : Nat} {h : Handle L} {id : Nat} {listener : L},
    r.handle? number = some h → h.action = some (id, listener) → id = number + 1
  listed : ∀ {set : Listeners L}, r.set = some set →
    set.entries = r.actions ∧ set.nextId = r.handles.length + 1

theorem empty_linked : (empty : Registry L).Linked := by
  refine ⟨fun h => ?_, fun h => ?_⟩
  · simp [handle?, empty] at h
  · obtain rfl := Option.some.inj h
    exact ⟨rfl, rfl⟩

theorem handle?_register {set : Listeners L} (hs : r.set = some set)
    (hid : set.nextId = r.handles.length + 1) (listener : L) (n : Nat) :
    (r.register listener).handle? n = if n = r.handles.length then
      some ⟨some (r.handles.length + 1, listener)⟩ else r.handle? n := by
  simp only [register, hs, Listeners.register, handle?, hid]
  split
  · rename_i h
    simp [h]
  · rename_i h
    by_cases hlt : n < r.handles.length
    · rw [List.getElem?_append_left hlt]
    · have hge : r.handles.length + 1 ≤ n := by omega
      rw [List.getElem?_eq_none (by simpa using hge), List.getElem?_eq_none (by omega)]

theorem handle?_close (r : Registry L) (number n : Nat) :
    (r.close number).handle? n =
      if n = number then (r.handle? n).map fun _ => ⟨none⟩ else r.handle? n := by
  unfold close
  cases ha : (r.handle? number).bind Handle.action with
  | none =>
    dsimp only
    split
    · rename_i h
      subst h
      cases hh : r.handle? n with
      | none => rfl
      | some h =>
        obtain ⟨action⟩ := h
        rw [hh] at ha
        exact congrArg (fun action => some (⟨action⟩ : Handle L)) ha
    · rfl
  | some action =>
    dsimp only
    obtain ⟨h, hh, -⟩ := Option.bind_eq_some_iff.mp ha
    have hlt : number < r.handles.length := by
      by_contra hge
      simp [handle?, List.getElem?_eq_none (Nat.le_of_not_lt hge)] at hh
    change (r.handles.set number (some ⟨none⟩))[n]?.join = _
    rw [List.getElem?_set]
    by_cases he : n = number
    · subst he
      rw [if_pos rfl, if_pos hlt, if_pos rfl, hh]
      rfl
    · rw [if_neg (Ne.symm he), if_neg he]
      rfl

theorem handle?_drop (r : Registry L) (number n : Nat) :
    (r.drop number).handle? n = if n = number then none else r.handle? n := by
  change ((r.close number).handles.set number none)[n]?.join = _
  rw [List.getElem?_set]
  by_cases he : n = number
  · subst he
    rw [if_pos rfl, if_pos rfl]
    split <;> rfl
  · rw [if_neg (Ne.symm he), if_neg he]
    exact (handle?_close r number n).trans (if_neg he)

theorem length_close (r : Registry L) (number : Nat) :
    (r.close number).handles.length = r.handles.length := by
  unfold close
  cases (r.handle? number).bind Handle.action <;> simp

theorem length_drop (r : Registry L) (number : Nat) :
    (r.drop number).handles.length = r.handles.length := by
  simp [drop, length_close]

theorem set_isSome_close (r : Registry L) (number : Nat) :
    (r.close number).set.isSome = r.set.isSome := by
  unfold close
  cases (r.handle? number).bind Handle.action <;> simp

/-- A handle without an action is not closed again. -/
theorem close_still (h : (r.handle? number).bind Handle.action = none) : r.close number = r := by
  simp only [close, h]

theorem Linked.register (h : r.Linked) (listener : L) : (r.register listener).Linked := by
  cases hs : r.set with
  | none =>
    simp only [Registry.register, hs]
    exact h
  | some set =>
    obtain ⟨hentries, hid⟩ := h.listed hs
    refine ⟨fun {n handle id l} hn ha => ?_, fun {set'} hs' => ?_⟩
    · rw [handle?_register hs hid] at hn
      split at hn
      · rename_i heq
        obtain rfl := Option.some.inj hn
        obtain ⟨rfl, rfl⟩ := Prod.mk.inj (Option.some.inj ha)
        omega
      · exact h.numbered hn ha
    · simp only [Registry.register, hs, Listeners.register] at hs' ⊢
      obtain rfl := Option.some.inj hs'
      simp [actions, hentries, hid]

/-- The entry of a handle that is closed leaves the set with its action. -/
theorem Linked.close (h : r.Linked) (number : Nat) : (r.close number).Linked := by
  refine ⟨fun {n handle id l} hn ha => ?_, fun {set'} hs' => ?_⟩
  · rw [handle?_close] at hn
    split at hn
    · obtain ⟨old, -, rfl⟩ := Option.map_eq_some_iff.mp hn
      cases ha
    · exact h.numbered hn ha
  · rw [length_close]
    cases haction : (r.handle? number).bind Handle.action with
    | none =>
      rw [close_still haction] at hs' ⊢
      exact h.listed hs'
    | some action =>
      obtain ⟨id, listener⟩ := action
      obtain ⟨handle, hhandle, haction'⟩ := Option.bind_eq_some_iff.mp haction
      obtain rfl := h.numbered hhandle haction'
      simp only [Registry.close, haction] at hs' ⊢
      obtain ⟨set, hs, rfl⟩ := Option.map_eq_some_iff.mp hs'
      obtain ⟨hentries, hid⟩ := h.listed hs
      refine ⟨?_, hid⟩
      unfold actions Listeners.unlink
      rw [filterMap_set (p := fun e => e.1 != number + 1) rfl]
      · exact congrArg _ hentries
      · intro i a b hi hb
        obtain ⟨old, rfl, hold⟩ := Option.bind_eq_some_iff.mp hb
        have hi' : r.handle? i = some old := by simp [handle?, hi]
        have hold : old.action = some (b.1, b.2) := hold
        have hid := h.numbered hi' hold
        simp [hid]

/-- A closed handle can go. -/
theorem Linked.drop (h : r.Linked) (number : Nat) : (r.drop number).Linked := by
  have hclosed := h.close number
  refine ⟨fun {n handle id l} hn ha => ?_, fun {set'} hs' => ?_⟩
  · rw [handle?_drop] at hn
    split at hn
    · cases hn
    · exact h.numbered hn ha
  · obtain ⟨hentries, hid⟩ := hclosed.listed hs'
    refine ⟨?_, by simpa [Registry.drop] using hid⟩
    rw [hentries]
    unfold actions Registry.drop
    rw [filterMap_set (p := fun _ => true) rfl, List.filter_eq_self.mpr fun _ _ => rfl]
    intro i a b hi hb
    simp only [true_iff]
    intro hi'
    subst hi'
    obtain ⟨old, rfl, hold⟩ := Option.bind_eq_some_iff.mp hb
    have hi' : (r.close i).handle? i = some old := by simp [handle?, hi]
    rw [handle?_close, if_pos rfl] at hi'
    obtain ⟨_, -, rfl⟩ := Option.map_eq_some_iff.mp hi'
    cases hold

variable [DecidableEq L]

theorem Linked.alive (h : r.Linked) {set : Listeners L} (hs : r.set = some set)
    {e : Nat × L} (he : e ∈ set.entries) : r.isAlive e.2 = true := by
  rw [(h.listed hs).1] at he
  have hcount : 0 < (r.actions.map Prod.snd).count e.2 :=
    List.count_pos_iff.mpr (List.mem_map_of_mem he)
  simp only [isAlive, strongCount, bne_iff_ne]
  omega

/-- No reference dangles: everyone in the set is reached and counted, and nobody is taken out. -/
theorem Linked.count (h : r.Linked) : r.count = r.set.map Listeners.count := by
  unfold Registry.count
  cases hs : r.set with
  | none => rfl
  | some set =>
    simp only [Option.map_some, Listeners.count, Option.some.injEq]
    exact List.countP_eq_length.mpr fun e he => h.alive hs he

theorem Linked.announce (h : r.Linked) :
    r.announce = ((r.set.map Listeners.snapshot).getD [], r) := by
  unfold Registry.announce
  cases hs : r.set with
  | none => rfl
  | some set =>
    have hlive : (set.entries.filter fun e => r.isAlive e.2) = set.entries :=
      List.filter_eq_self.mpr fun e he => h.alive hs he
    have hsame : { r with set := some set } = r := by rw [← hs]
    dsimp only
    rw [hlive]
    exact congrArg (Prod.mk _) hsame

end Linked

section History

/-- The listeners that were registered, in order. A set that was dropped takes no more. -/
def registered : List (Deed L) → List L
  | [] => []
  | .dropSet :: _ => []
  | .register listener :: history => listener :: registered history
  | _ :: history => registered history

/-- A deed was done after the registration with a number had been made. -/
def Since (history : List (Deed L)) (number : Nat) (deed : Deed L) : Prop :=
  ∃ made rest, history = made ++ deed :: rest ∧ number < (registered made).length

/-- A registration was made and neither closed nor dropped since. -/
def Open (history : List (Deed L)) (number : Nat) : Prop :=
  number < (registered history).length ∧ ¬ Since history number (.close number) ∧
    ¬ Since history number (.drop number)

variable {history : List (Deed L)} {number : Nat} {deed : Deed L}

theorem registered_append (h : .dropSet ∉ history) (deed : Deed L) :
    registered (history ++ [deed]) = registered history ++ registered [deed] := by
  induction history with
  | nil => rfl
  | cons first rest ih =>
    simp only [List.mem_cons, not_or] at h
    cases first <;> simp_all [registered]

theorem registered_dropped (h : .dropSet ∈ history) (deed : Deed L) :
    registered (history ++ [deed]) = registered history := by
  induction history with
  | nil => cases h
  | cons first rest ih => cases first <;> simp_all [registered]

theorem length_registered (history : List (Deed L)) (deed : Deed L) :
    (registered history).length ≤ (registered (history ++ [deed])).length := by
  by_cases h : .dropSet ∈ history
  · exact Nat.le_of_eq (congrArg List.length (registered_dropped h deed).symm)
  · rw [registered_append h, List.length_append]
    exact Nat.le_add_right _ _

theorem since_append (history : List (Deed L)) (number : Nat) (last deed : Deed L) :
    Since (history ++ [last]) number deed ↔
      Since history number deed ∨ number < (registered history).length ∧ last = deed := by
  constructor
  · rintro ⟨made, rest, heq, hlt⟩
    rcases List.eq_nil_or_concat rest with rfl | ⟨rest, last', rfl⟩
    · obtain ⟨rfl, hlast⟩ := List.append_inj' heq rfl
      exact .inr ⟨hlt, List.singleton_inj.mp hlast⟩
    · rw [List.concat_eq_append, ← List.cons_append, ← List.append_assoc] at heq
      exact .inl ⟨made, rest, (List.append_inj' heq rfl).1, hlt⟩
  · rintro (⟨made, rest, rfl, hlt⟩ | ⟨hlt, rfl⟩)
    · exact ⟨made, rest ++ [last], by simp, hlt⟩
    · exact ⟨history, [], rfl, hlt⟩

theorem Since.lt (h : Since history number deed) : number < (registered history).length := by
  obtain ⟨made, rest, rfl, hlt⟩ := h
  refine Nat.lt_of_lt_of_le hlt ?_
  induction rest using List.reverseRecOn with
  | nil => exact length_registered made deed
  | append_singleton rest last ih =>
    rw [← List.cons_append, ← List.append_assoc]
    exact Nat.le_trans ih (length_registered _ last)

/-- Only a registration adds to what is registered. -/
theorem registered_same (h : registered [deed] = []) :
    registered (history ++ [deed]) = registered history := by
  by_cases hd : .dropSet ∈ history
  · exact registered_dropped hd deed
  · rw [registered_append hd, h, List.append_nil]

end History

section Telling

structure Tells (history : List (Deed L)) (r : Registry L) : Prop extends r.Linked where
  length : r.handles.length = (registered history).length
  set : r.set.isSome = true ↔ .dropSet ∉ history
  held : ∀ {number listener}, Open history number →
    (registered history)[number]? = some listener →
    r.handle? number = some ⟨some (number + 1, listener)⟩
  closed : ∀ {number}, Since history number (.close number) → ¬ Since history number (.drop number) →
    r.handle? number = some ⟨none⟩
  dropped : ∀ {number}, Since history number (.drop number) → r.handle? number = none

variable {history : List (Deed L)} {r : Registry L} {number : Nat}

theorem empty_tells : Tells [] (empty : Registry L) := by
  refine { empty_linked with length := rfl, set := by simp [empty], held := ?_, closed := ?_, dropped := ?_ }
  · intro number listener hopen
    cases hopen.1
  · intro number hclosed
    cases hclosed.lt
  · intro number hdropped
    cases hdropped.lt

/-- A deed that touches no handle. -/
theorem Tells.aside (h : r.Tells history) {deed : Deed L} {r' : Registry L} (hlinked : r'.Linked)
    (hhandles : r'.handles = r.handles)
    (hset : r'.set.isSome = true ↔ .dropSet ∉ history ++ [deed])
    (hr : registered (history ++ [deed]) = registered history)
    (hc : ∀ number, deed ≠ .close number) (hd : ∀ number, deed ≠ .drop number) :
    r'.Tells (history ++ [deed]) := by
  have hhandle : r'.handle? = r.handle? := by
    funext number
    unfold handle?
    rw [hhandles]
  have hsince : ∀ {number other}, deed ≠ other →
      (Since (history ++ [deed]) number other ↔ Since history number other) := by
    intro number other hne
    simp [since_append, hne]
  refine { hlinked with
    length := by rw [hhandles, h.length, hr]
    set := hset
    held := fun {number listener} hopen hl => ?_
    closed := fun {number} hclosed hkept => ?_
    dropped := fun {number} hdropped => ?_ }
  · rw [hhandle]
    unfold Open at hopen
    rw [hr, hsince (hc number), hsince (hd number)] at hopen
    exact h.held hopen (hr ▸ hl)
  · rw [hhandle]
    exact h.closed ((hsince (hc number)).mp hclosed) (mt (hsince (hd number)).mpr hkept)
  · rw [hhandle]
    exact h.dropped ((hsince (hd number)).mp hdropped)

theorem Tells.register (h : r.Tells history) (listener : L) :
    (r.register listener).Tells (history ++ [.register listener]) := by
  cases hs : r.set with
  | none =>
    have hgone : .dropSet ∈ history := by
      have hset := h.set
      simpa [hs] using hset
    have hsame : r.register listener = r := by simp only [Registry.register, hs]
    rw [hsame]
    exact h.aside h.toLinked rfl (by simp [hs, hgone]) (registered_dropped hgone _) nofun nofun
  | some set =>
    have hstands : .dropSet ∉ history := h.set.mp (by rw [hs]; rfl)
    obtain ⟨-, hid⟩ := h.listed hs
    have hhandle := handle?_register hs hid listener
    have hregistered : registered (history ++ [.register listener]) =
        registered history ++ [listener] := registered_append hstands _
    have hsince : ∀ {number deed}, .register listener ≠ deed →
        (Since (history ++ [.register listener]) number deed ↔ Since history number deed) := by
      intro number deed hne
      simp [since_append, hne]
    have hclose : ∀ number, Since (history ++ [.register listener]) number (.close number) ↔
        Since history number (.close number) := fun _ => hsince nofun
    have hdrop : ∀ number, Since (history ++ [.register listener]) number (.drop number) ↔
        Since history number (.drop number) := fun _ => hsince nofun
    refine { h.toLinked.register listener with
      length := ?_
      set := ?_
      held := fun {number l} hopen hl => ?_
      closed := fun {number} hclosed hkept => ?_
      dropped := fun {number} hdropped => ?_ }
    · simp [Registry.register, hs, hregistered, h.length]
    · simp [Registry.register, hs, hstands]
    · rw [hhandle, h.length]
      unfold Open at hopen
      rw [hregistered, hclose, hdrop, List.length_append, List.length_singleton] at hopen
      rw [hregistered] at hl
      split
      · rename_i hlast
        subst hlast
        rw [List.getElem?_concat_length] at hl
        obtain rfl := Option.some.inj hl
        rfl
      · have hlt : number < (registered history).length := by omega
        rw [List.getElem?_append_left hlt] at hl
        exact h.held ⟨hlt, hopen.2⟩ hl
    · have hclosed := (hclose _).mp hclosed
      rw [hhandle, if_neg (by rw [h.length]; exact Nat.ne_of_lt hclosed.lt)]
      exact h.closed hclosed (mt (hdrop _).mpr hkept)
    · have hdropped := (hdrop _).mp hdropped
      rw [hhandle, if_neg (by rw [h.length]; exact Nat.ne_of_lt hdropped.lt)]
      exact h.dropped hdropped

theorem Tells.close (h : r.Tells history) (number : Nat) :
    (r.close number).Tells (history ++ [.close number]) := by
  have hr : registered (history ++ [.close number]) = registered history := registered_same rfl
  refine { h.toLinked.close number with
    length := by rw [length_close, h.length, hr]
    set := by simpa [set_isSome_close] using h.set
    held := fun {n l} hopen hl => ?_
    closed := fun {n} hclosed hkept => ?_
    dropped := fun {n} hdropped => ?_ }
  · unfold Open at hopen
    simp only [hr, since_append, Deed.close.injEq, reduceCtorEq, and_false, or_false, not_or,
      not_and] at hopen
    obtain ⟨hlt, ⟨hclosed, hne⟩, hdropped⟩ := hopen
    rw [handle?_close, if_neg (Ne.symm (hne hlt))]
    exact h.held ⟨hlt, hclosed, hdropped⟩ (hr ▸ hl)
  · have hkept : ¬ Since history n (.drop n) := by simpa [since_append] using hkept
    rcases (since_append ..).mp hclosed with hbefore | ⟨hlt, hlast⟩
    · rw [handle?_close, h.closed hbefore hkept]
      split <;> rfl
    · obtain rfl := Deed.close.inj hlast
      rw [handle?_close, if_pos rfl]
      by_cases hbefore : Since history number (.close number)
      · rw [h.closed hbefore hkept]
        rfl
      · rw [h.held ⟨hlt, hbefore, hkept⟩ (List.getElem?_eq_getElem hlt)]
        rfl
  · have hbefore : Since history n (.drop n) := by simpa [since_append] using hdropped
    rw [handle?_close, h.dropped hbefore]
    split <;> rfl

theorem Tells.drop (h : r.Tells history) (number : Nat) :
    (r.drop number).Tells (history ++ [.drop number]) := by
  have hr : registered (history ++ [.drop number]) = registered history := registered_same rfl
  refine { h.toLinked.drop number with
    length := by rw [length_drop, h.length, hr]
    set := ?_
    held := fun {n l} hopen hl => ?_
    closed := fun {n} hclosed hkept => ?_
    dropped := fun {n} hdropped => ?_ }
  · simpa [Registry.drop, set_isSome_close] using h.set
  · unfold Open at hopen
    simp only [hr, since_append, Deed.drop.injEq, reduceCtorEq, and_false, or_false, not_or,
      not_and] at hopen
    obtain ⟨hlt, hclosed, hdropped, hne⟩ := hopen
    rw [handle?_drop, if_neg (Ne.symm (hne hlt))]
    exact h.held ⟨hlt, hclosed, hdropped⟩ (hr ▸ hl)
  · have hbefore : Since history n (.close n) := by simpa [since_append] using hclosed
    have hne : n ≠ number := by
      intro hn
      subst hn
      exact hkept ((since_append ..).mpr (.inr ⟨hbefore.lt, rfl⟩))
    rw [handle?_drop, if_neg hne]
    apply h.closed hbefore
    intro hdropped
    exact hkept ((since_append ..).mpr (.inl hdropped))
  · rw [handle?_drop]
    split
    · rfl
    · rename_i hne
      rcases (since_append ..).mp hdropped with hbefore | ⟨-, hlast⟩
      · exact h.dropped hbefore
      · exact absurd (Deed.drop.inj hlast).symm hne

/-- What the handle of an open registration still holds, and of no other. -/
theorem Tells.action_eq_some (h : r.Tells history) {id : Nat} {listener : L} :
    (r.handle? number).bind Handle.action = some (id, listener) ↔
      id = number + 1 ∧ Open history number ∧ (registered history)[number]? = some listener := by
  have hopen : Open history number → ∃ listener, (registered history)[number]? = some listener ∧
      r.handle? number = some ⟨some (number + 1, listener)⟩ := by
    intro hopen
    have hl := List.getElem?_eq_getElem hopen.1
    exact ⟨_, hl, h.held hopen hl⟩
  constructor
  · intro haction
    have hlt : number < (registered history).length := by
      by_contra hge
      rw [← h.length] at hge
      simp [handle?, List.getElem?_eq_none (Nat.le_of_not_lt hge)] at haction
    have ho : Open history number := by
      have hkept : ¬ Since history number (.drop number) := by
        intro hdropped
        simp [h.dropped hdropped] at haction
      refine ⟨hlt, fun hclosed => ?_, hkept⟩
      simp [h.closed hclosed hkept] at haction
    obtain ⟨listener', hl, hhandle⟩ := hopen ho
    simp only [hhandle, Option.bind_some, Option.some.injEq, Prod.mk.injEq] at haction
    obtain ⟨rfl, rfl⟩ := haction
    exact ⟨rfl, ho, hl⟩
  · intro ⟨hid, ho, hl⟩
    simp [h.held ho hl, hid]

/-- The registrations whose handles still have their action. -/
def standing (r : Registry L) : List Nat :=
  (List.range r.handles.length).filter fun number =>
    ((r.handle? number).bind Handle.action).isSome

theorem standing_pairwise (r : Registry L) : r.standing.Pairwise (· < ·) :=
  List.pairwise_lt_range.filter _

theorem Tells.mem_standing (h : r.Tells history) : number ∈ r.standing ↔ Open history number := by
  simp only [standing, List.mem_filter, List.mem_range, h.length, Option.isSome_iff_exists,
    Prod.exists, h.action_eq_some]
  constructor
  · intro ⟨_, _, _, _, ho, _⟩
    exact ho
  · intro ho
    exact ⟨ho.1, _, _, rfl, ho, List.getElem?_eq_getElem ho.1⟩

theorem actions_eq (r : Registry L) :
    r.actions = (List.range r.handles.length).filterMap fun number =>
      (r.handle? number).bind Handle.action := by
  have hhandles : (List.range r.handles.length).map r.handle? = r.handles := by
    apply List.ext_getElem
    · simp
    · intro number _ hlt
      simp [handle?, List.getElem?_eq_getElem hlt]
  unfold actions
  conv => lhs; rw [← hhandles]
  rw [List.filterMap_map]
  rfl

/-- The actions hold the listeners of the open registrations, in their order. -/
theorem Tells.actions (h : r.Tells history) :
    r.actions.map (fun e => some e.2) = r.standing.map ((registered history)[·]?) := by
  rw [actions_eq, standing]
  induction List.range r.handles.length with
  | nil => rfl
  | cons number rest ih =>
    cases haction : (r.handle? number).bind Handle.action with
    | none => simpa [haction] using ih
    | some action => simpa [haction, (h.action_eq_some.mp haction).2.2] using ih

/-- Once the set is gone there is nobody to reach. -/
theorem Tells.gone (h : r.Tells history) (hset : .dropSet ∈ history) : r.set = none := by
  have hnone := h.set
  simpa [hset] using hnone

/-- A handle that nobody dropped is there. -/
theorem Tells.handle?_isSome (h : r.Tells history) : (r.handle? number).isSome = true ↔
    number < (registered history).length ∧ ¬ Since history number (.drop number) := by
  constructor
  · intro hhandle
    constructor
    · by_contra hge
      rw [← h.length] at hge
      simp [handle?, List.getElem?_eq_none (Nat.le_of_not_lt hge)] at hhandle
    · intro hdropped
      simp [h.dropped hdropped] at hhandle
  · intro ⟨hlt, hkept⟩
    by_cases hclosed : Since history number (.close number)
    · simp [h.closed hclosed hkept]
    · simp [h.held ⟨hlt, hclosed, hkept⟩ (List.getElem?_eq_getElem hlt)]

/-- A handle answers that it is closed from its first close on. -/
theorem Tells.isClosed (h : r.Tells history) {handle : Handle L}
    (hhandle : r.handle? number = some handle) :
    handle.isClosed = true ↔ Since history number (.close number) := by
  obtain ⟨hlt, hkept⟩ := h.handle?_isSome.mp (Option.isSome_of_eq_some hhandle)
  constructor
  · intro hclosed
    by_contra hopen
    rw [h.held ⟨hlt, hopen, hkept⟩ (List.getElem?_eq_getElem hlt)] at hhandle
    obtain rfl := Option.some.inj hhandle
    cases hclosed
  · intro hclosed
    rw [h.closed hclosed hkept] at hhandle
    obtain rfl := Option.some.inj hhandle
    rfl

/-- A handle that was closed or dropped is not closed again. -/
theorem Tells.close_again (h : r.Tells history)
    (hdone : Since history number (.close number) ∨ Since history number (.drop number)) :
    r.close number = r := by
  apply close_still
  rw [Option.eq_none_iff_forall_ne_some]
  intro action haction
  obtain ⟨-, hopen, -⟩ := h.action_eq_some.mp haction
  exact hdone.elim hopen.2.1 hopen.2.2

variable [DecidableEq L]

/-- Whom an announcement reaches while the set stands. -/
theorem Tells.announce (h : r.Tells history) (hset : .dropSet ∉ history) :
    r.announce.1.map some = r.standing.map ((registered history)[·]?) := by
  obtain ⟨set, hs⟩ := Option.isSome_iff_exists.mp (h.set.mpr hset)
  rw [← h.actions, h.toLinked.announce, hs]
  simp [Listeners.snapshot, (h.listed hs).1]

theorem Tells.count (h : r.Tells history) (hset : .dropSet ∉ history) :
    r.count = some r.standing.length := by
  obtain ⟨set, hs⟩ := Option.isSome_iff_exists.mp (h.set.mpr hset)
  have hlength := congrArg List.length h.actions
  simp only [List.length_map] at hlength
  rw [h.toLinked.count, hs, ← hlength]
  simp [Listeners.count, (h.listed hs).1]

def after (r : Registry L) : Deed L → Registry L
  | .register listener => r.register listener
  | .close number => r.close number
  | .drop number => r.drop number
  | .dropSet => r.dropSet
  | .announce => r.announce.2
  | .hold listener => { r with held := listener :: r.held }
  | .release listener => { r with held := r.held.erase listener }

/-- The set and its handles after a history that begins with an empty set. -/
def run (history : List (Deed L)) : Registry L := history.foldl after empty

/-- One deed. -/
theorem Tells.after (h : r.Tells history) (deed : Deed L) :
    (r.after deed).Tells (history ++ [deed]) := by
  have hlinked := h.toLinked
  have hset := h.set
  cases deed with
  | register listener => exact h.register listener
  | close number => exact h.close number
  | drop number => exact h.drop number
  | dropSet =>
    exact h.aside ⟨hlinked.numbered, nofun⟩ rfl (by simp [Registry.after, dropSet])
      (registered_same rfl) nofun nofun
  | announce =>
    have hsame : r.announce.2 = r := congrArg Prod.snd hlinked.announce
    simp only [Registry.after, hsame]
    exact h.aside hlinked rfl (by simpa using hset) (registered_same rfl) nofun nofun
  | hold listener =>
    exact h.aside ⟨hlinked.numbered, hlinked.listed⟩ rfl (by simpa [Registry.after] using hset)
      (registered_same rfl) nofun nofun
  | release listener =>
    exact h.aside ⟨hlinked.numbered, hlinked.listed⟩ rfl (by simpa [Registry.after] using hset)
      (registered_same rfl) nofun nofun

/-- A whole history. -/
theorem run_tells (history : List (Deed L)) : (run history).Tells history := by
  induction history using List.reverseRecOn with
  | nil => exact empty_tells
  | append_singleton history deed ih =>
    unfold run
    rw [List.foldl_append]
    exact ih.after deed

/-- An announcement reaches exactly the registrations that were neither closed nor dropped, each of
them once and in the order in which they were made, and as many are counted. A handle is closed from
its first close on, and one that is closed once more, or after its set, changes nothing else. -/
theorem delivers_open (history : List (Deed L)) :
    (∃ numbers : List Nat, numbers.Pairwise (· < ·) ∧
      (∀ number, number ∈ numbers ↔ Open history number) ∧
      (.dropSet ∉ history →
        (run history).announce.1.map some = numbers.map ((registered history)[·]?) ∧
        (run history).count = some numbers.length)) ∧
    (run history).announce.2 = run history ∧
    (.dropSet ∈ history → (run history).announce.1 = [] ∧ (run history).count = none) ∧
    (∀ number, ((run history).handle? number).isSome = true ↔
      number < (registered history).length ∧ ¬ Since history number (.drop number)) ∧
    (∀ number handle, (run history).handle? number = some handle →
      (handle.isClosed = true ↔ Since history number (.close number))) ∧
    (∀ number, Since history number (.close number) ∨ Since history number (.drop number) →
      (run history).close number = run history) ∧
    (∀ number, (.dropSet ∈ history → ((run history).close number).set = (run history).set) ∧
      ∀ other, other ≠ number →
        ((run history).close number).handle? other = (run history).handle? other) := by
  have h := run_tells history
  have hannounce := h.toLinked.announce
  refine ⟨⟨standing (run history), standing_pairwise _, fun _ => h.mem_standing,
    fun hset => ⟨h.announce hset, h.count hset⟩⟩, congrArg Prod.snd hannounce, ?_,
    fun _ => h.handle?_isSome, fun _ _ => h.isClosed, fun _ => h.close_again, ?_⟩
  · intro hset
    constructor
    · rw [hannounce, h.gone hset]
      rfl
    · rw [h.toLinked.count, h.gone hset]
      rfl
  · intro number
    constructor
    · intro hset
      have hnone := set_isSome_close (run history) number
      rw [h.gone hset] at hnone ⊢
      exact Option.isNone_iff_eq_none.mp (by simpa using hnone)
    · intro other hne
      exact (handle?_close _ _ _).trans (if_neg hne)

-- A listener that was registered twice stays with its second handle.
example : (run [.register 7, .register 8, .register 7, .close 0, .close 0]).announce.1 = [8, 7] := by
  decide

end Telling

end Registry
end SessionAttributes
