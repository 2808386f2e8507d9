import SessionAttributes.Proofs.Session.Merging

namespace SessionAttributes

variable {V σ : Type}

namespace ViewCall

def target : ViewCall V → Option String
  | .set name _ | .update name _ | .remove name => some name
  | _ => none

/-- What an operation of a view that knew these names leaves to be found: its value under its name,
or no name that it dropped. It has not failed. -/
def Shown [BEq V] (known : Names) (b : Bundle V) : (call : ViewCall V) → call.Answer → Prop
  | .set name value, (answer : Except SessionError (Option V)) =>
    (∃ previous, answer = .ok previous) ∧ ∃ value', b.get? name = some value' ∧ value' == value
  | .remove name, (answer : Except SessionError (Option V)) =>
    (∃ previous, answer = .ok previous) ∧ (known.get? name ≠ none → b.attributeId? name = none)
  | _, _ => True

/-- Whether a write or a removal is done and has not failed. -/
def succeeded : (call : ViewCall V) → Procedure V call.Answer → Bool
  | .set _ _, .done (.ok _ : Except SessionError (Option V)) => true
  | .remove _, .done (.ok _ : Except SessionError (Option V)) => true
  | _, _ => false

/-- What an operation is to do is what it says. -/
theorem Edits.errand [BEq V] {m : Marshaller V} {known : Names} {call : ViewCall V}
    (h : call.Edits m known) (view : Nat) (names : Names) :
    let e := call.errand view names
    e.view = view ∧ call.target = some e.name ∧ e.held = names.get? e.name := by
  cases call with
  | set name value => exact ⟨rfl, rfl, rfl⟩
  | remove name => exact ⟨rfl, rfl, rfl⟩
  | update name change => exact h.elim
  | get name => exact h.elim
  | names => exact h.elim
  | snapshot => exact h.elim

end ViewCall

/-- What operations are to do that begin in a plain world. -/
def PlainWorld.errands (p : PlainWorld V) (calls : List (Pending V)) (i : Nat) : Errand V :=
  ((calls[i]?).map fun q => q.call.errand q.view (p.namesOf q.view)).getD ⟨0, "", none, none⟩

theorem PlainWorld.errands_at (p : PlainWorld V) {calls : List (Pending V)} {i : Nat}
    {q : Pending V} (hq : calls[i]? = some q) :
    p.errands calls i = q.call.errand q.view (p.namesOf q.view) := by
  rw [errands, hq, Option.map_some, Option.getD_some]

section Starting
variable [BEq V] {m : Marshaller V} {session : SessionId} {x : Supply}
  {owner : AttributeId → String} {p : PlainWorld V} {views : List Nat} {bundles : List (Bundle V)}
  {calls : List (Pending V)}

/-- Operations may begin on the views of an intact session. -/
theorem PlainWorld.Kept.merging
    (h : p.Kept m session True x owner none views bundles)
    (hcalls : ∀ q ∈ calls, q.view ∈ views ∧ q.call.Edits m (p.namesOf q.view)) :
    Merging m session x calls.length (p.errands calls) p owner Locks.free
      (fun i => .start (p.errands calls i)) p := by
  have hi := h.intact _ (.inl rfl)
  refine ⟨fun _ => rfl, ?_, fun {name id} hb => ?_, fun i hlt => ?_,
    fun _ _ => ⟨rfl, fun _ _ => rfl⟩⟩
  · unfold listed
    cases hn : p.names session with
    | none => exact .empty
    | some names => exact hi.stored hn
  · unfold listed at hb
    cases hn : p.names session with
    | none =>
      rw [hn] at hb
      cases hb
    | some names =>
      rw [hn] at hb
      exact hi.present hn id (Dict.mem_values.mpr ⟨name, hb⟩)
  · obtain ⟨q, hq⟩ : ∃ q, calls[i]? = some q := ⟨_, List.getElem?_eq_getElem hlt⟩
    obtain ⟨hmem, hedits⟩ := hcalls q (List.mem_of_getElem? hq)
    obtain ⟨v, hv, -⟩ := h.seats q.view hmem
    have hview := h.intact v.state.bundle (.inr (.inr ⟨q.view, hmem, v, hv, rfl⟩))
    have hnames := namesOf_view hv
    obtain ⟨hseat, -, hheld⟩ := hedits.errand q.view (p.namesOf q.view)
    rw [p.errands_at hq]
    refine ⟨?_, ?_, fun hn => ?_, fun _ => ?_, fun {id} hid => ?_, nofun, nofun, trivial⟩
    · rw [Course.start, hseat]
      exact (List.getElem?_eq_some_iff.mp hv).1
    · rw [Course.start, hseat, hnames]
      exact hview.held
    · rw [Course.start, hseat, hnames]
      exact hview.bare hn
    · rw [Course.start, hseat]
      exact hheld.symm
    · refine hview.held.given ?_
      change v.state.bundle.names.get? _ = _
      rw [← hnames]
      exact hheld.symm.trans hid

omit [BEq V] in
/-- No two operations have the same name. -/
theorem Pending.names_apart {name : Nat → String}
    (hname : ∀ {i : Nat} (hi : i < calls.length), calls[i].call.target = some (name i))
    (hapart : calls.Pairwise fun q q' => q.call.target ≠ q'.call.target) :
    ∀ i < calls.length, ∀ j < calls.length, j ≠ i → name j ≠ name i := by
  have hlt : ∀ {i j : Nat}, i < j → (hj : j < calls.length) → name i ≠ name j := by
    intro i j hij hj he
    refine List.pairwise_iff_getElem.mp hapart i j (Nat.lt_trans hij hj) hj hij ?_
    rw [hname, hname, he]
  intro i hi j hj hne
  rcases Nat.lt_or_gt_of_ne hne with h | h
  · exact hlt h hi
  · exact (hlt h hj).symm

theorem PlainWorld.errands_apart (hedits : ∀ q ∈ calls, q.call.Edits m (p.namesOf q.view))
    (hapart : calls.Pairwise fun q q' => q.call.target ≠ q'.call.target) :
    ∀ i < calls.length, ∀ j < calls.length, j ≠ i →
      (p.errands calls j).name ≠ (p.errands calls i).name := by
  refine Pending.names_apart (fun {i} hi => ?_) hapart
  have hq : calls[i]? = some calls[i] := List.getElem?_eq_getElem hi
  rw [p.errands_at hq]
  exact ((hedits _ (List.mem_of_getElem? hq)).errand _ _).2.1

end Starting

section Ending
variable [BEq V] {m : Marshaller V} {session : SessionId} {x : Supply} {count : Nat}
  {errands : Nat → Errand V} {owner : AttributeId → String} {p₀ p : PlainWorld V} {locks : Locks}
  {part : Nat → Course V}

/-- What a load finds while operations are on their way. -/
theorem Merging.loaded (h : Merging m session x count errands p₀ owner locks part p)
    (actor : World.Actor) : ∃ b, (p.scope session actor).loaded m session = some b ∧
      b.names = p.listed session ∧ ∀ {name id value}, (p.listed session).get? name = some id →
        Readable m (p.attributes ⟨session, id⟩) value → b.get? name = some value := by
  refine Scope.loaded_listed (s := p.scope session actor) h.listed.distinct (fun id hid => ?_)
    session
  obtain ⟨name, hn⟩ := Dict.mem_values.mp hid
  obtain ⟨bytes, hbytes, hread⟩ := h.present hn
  obtain ⟨value, hvalue⟩ := hread trivial
  exact ⟨value, bytes, hbytes, hvalue⟩

/-- An operation that is done shows in what is loaded. -/
theorem Course.Fits.shown {i : Nat} {c : Course V} (h : c.Fits m session x owner locks i p)
    {b : Bundle V} (hnames : b.names = p.listed session)
    (hget : ∀ {name id value}, (p.listed session).get? name = some id →
      Readable m (p.attributes ⟨session, id⟩) value → b.get? name = some value)
    {call : ViewCall V} {view : Nat} {known : Names} (herrand : c.errand = call.errand view known)
    {answer : call.Answer} (hends : Course.Ends call answer c) : call.Shown known b answer := by
  have hstands := h.stage
  cases call with
  | get name => trivial
  | names => trivial
  | snapshot => trivial
  | update name change => trivial
  | set name value =>
    obtain ⟨hok, id, old, hs⟩ := hends
    rw [hs, herrand] at hstands
    obtain ⟨hbound, -, ⟨_, ⟨⟩, value', hread, he⟩, -⟩ := hstands
    exact ⟨hok, value', hget hbound hread, he⟩
  | remove name =>
    obtain ⟨hok, hdropped⟩ := hends
    refine ⟨hok, fun hne => ?_⟩
    rw [herrand] at hdropped
    rw [hdropped hne, herrand] at hstands
    rw [Bundle.attributeId?, hnames]
    exact hstands.2

end Ending

namespace World

/-- Any load without failing calls, by a factory that is open, finds a bundle. -/
def Finds (m : Marshaller V) (session : SessionId) (w : World V σ) (b : Bundle V) : Prop :=
  ∀ (env : Surroundings V σ) (factory : Nat) (repair : Bool), env.Calm m → env.Reliable →
    (w.factory? factory).map Factory.isOpen = some true →
    (w.carryOut env ⟨factory, none⟩ (Session.load session repair).run).1 = .ok (some b)

theorem finds_of_loaded {m : Marshaller V} {session : SessionId} {w : World V σ} {b : Bundle V}
    (hs : w.Sound) (hb : (w.plain.scope session ⟨0, none⟩).loaded m session = some b) :
    w.Finds m session b := by
  intro env factory repair hc hr hopen
  obtain ⟨-, -, -, hanswer⟩ := load_found hc hs factory repair
    (show (w.plain.scope session ⟨factory, none⟩).loaded m session = some b from hb)
  exact hanswer hr ((isOpen_scope factory none).mpr hopen)

end World

namespace Interleaves

variable [BEq V] {m : Marshaller V} {session : SessionId} {x : Supply}

/-- However operations overlap that change names of their own, if no two of them are about to write
names back at the same time, each keeps to its course. -/
theorem merging {w : World V σ} {views : List Nat} {bundles : List (Bundle V)}
    {owner : AttributeId → String} {calls : List (Pending V)} {probes : List (Probe V)}
    {c : Interleaving V σ} (hs : w.Sound)
    (hkept : w.plain.Kept m session True x owner none views bundles)
    (hcalls : ∀ q ∈ calls, q.view ∈ views ∧ q.Begins w ∧
      q.call.Edits m (w.plain.namesOf q.view))
    (hapart : calls.Pairwise fun q q' => q.call.target ≠ q'.call.target)
    (hprobes : ∀ q ∈ probes, q.Begins)
    (h : Interleaves m x False (.start w calls probes) c) :
    ∃ part, c.Led session (Course.rule m) Course.Ends
      (fun locks part p => ∃ owner, Merging m session x calls.length (w.plain.errands calls)
        w.plain owner locks part p) calls (fun i => .start (w.plain.errands calls i)) part := by
  have hedits : ∀ q ∈ calls, q.call.Edits m (w.plain.namesOf q.view) :=
    fun q hq => (hcalls q hq).2.2
  have hview : ∀ {i q}, calls[i]? = some q → (w.plain.errands calls i).view = q.view := by
    intro i q hq
    rw [w.plain.errands_at hq]
    exact ((hedits q (List.mem_of_getElem? hq)).errand _ _).1
  refine h.led (Merging.upholds hview (w.plain.errands_apart hedits hapart)) ?_
  refine Interleaving.led_start hs hprobes (fun q hq => ⟨(hcalls q hq).2.1, fun live hl => ?_⟩)
    ⟨owner, hkept.merging fun q hq => ⟨(hcalls q hq).1, hedits q hq⟩⟩ fun {i q} hq => ?_
  · obtain ⟨v, hv, howner⟩ := hkept.seats q.view (hcalls q hq).1
    rw [World.plain_view, hl] at hv
    obtain rfl := Option.some.inj hv
    exact howner
  · have hq : calls[i]? = some q := hq
    have hmem := List.mem_of_getElem? hq
    obtain ⟨live, -, -, hrest⟩ := (hcalls q hmem).2.1
    rw [hrest, w.plain.errands_at hq]
    exact View.procedure_turns (hedits q hmem)

/-- Views of a session add names and drop others at the same time, each operation a name of its own.
If no other one changes the stored names between the time that an operation reads them and the time
that it writes them back, then at no point do the stored names refer to an entry that is not there,
and in the end every load finds what each of the operations has left. -/
theorem merges {w₀ w : World V σ} {views : List Nat} {bundles : List (Bundle V)}
    {calls : List (Pending V)} {probes : List (Probe V)} {c : Interleaving V σ} (hs : w₀.Sound)
    (hhealthy : ∀ names, w₀.names.store.find? session = some names →
      Scope.Healthy m names fun id => w₀.attributes.store.find? ⟨session, id⟩)
    (hfresh : ∀ names, w₀.names.store.find? session = some names → ∀ id ∈ names.values,
      ∀ k, w₀.drawn ≤ k → k < x.limit → x.draw k ≠ id)
    (hreach : Shared.Reaches m session True x ⟨w₀, none, [], []⟩ ⟨w, none, views, bundles⟩)
    (hcalls : ∀ q ∈ calls, q.view ∈ views ∧ q.Begins w ∧
      q.call.Edits m (w.plain.namesOf q.view))
    (hapart : calls.Pairwise fun q q' => q.call.target ≠ q'.call.target)
    (hprobes : ∀ q ∈ probes, q.Begins)
    (h : Interleaves m x False (.start w calls probes) c) :
    (∀ names, c.world.names.store.find? session = some names → ∀ id ∈ names.values,
      (c.world.attributes.store.find? ⟨session, id⟩).isSome) ∧
    (c.Over → ∃ b : Bundle V, c.world.Finds m session b ∧
      b.names = (c.world.names.store.find? session).getD Dict.empty ∧
      (∀ (i : Nat) (q : Pending V), calls[i]? = some q → ∃ answer : q.call.Answer,
        c.calls[i]? = some { q with rest := .done answer } ∧
          q.call.Shown (w.plain.namesOf q.view) b answer) ∧
      ∀ name, (∀ q ∈ calls, q.call.target ≠ some name) →
        b.names.get? name = ((w.names.store.find? session).getD Dict.empty).get? name ∧
        ∀ id, b.names.get? name = some id → c.world.attributes.store.find? ⟨session, id⟩ =
          w.attributes.store.find? ⟨session, id⟩) := by
  obtain ⟨hs, owner, hkept⟩ := hreach.kept hs (PlainWorld.kept_of_healthy hhealthy hfresh)
  have hedits : ∀ q ∈ calls, q.call.Edits m (w.plain.namesOf q.view) :=
    fun q hq => (hcalls q hq).2.2
  obtain ⟨part, hled⟩ := h.merging hs hkept hcalls hapart hprobes
  obtain ⟨owner', hmerging⟩ := hled.holds
  refine ⟨fun names hn id hid => ?_, fun hover => ?_⟩
  · obtain ⟨name, hname⟩ := Dict.mem_values.mp hid
    have hlisted : c.world.plain.listed session = names :=
      congrArg (Option.getD · Dict.empty) hn
    obtain ⟨bytes, hbytes, -⟩ := hmerging.present (hlisted ▸ hname)
    exact Option.isSome_iff_exists.mpr ⟨bytes, hbytes⟩
  · obtain ⟨b, hb, hnames, hget⟩ := hmerging.loaded ⟨0, none⟩
    refine ⟨b, World.finds_of_loaded hled.sound hb, hnames, fun i q hq => ?_, fun name hname => ?_⟩
    · have hi : i < calls.length := (List.getElem?_eq_some_iff.mp hq).1
      obtain ⟨answer, hdone, hends⟩ := hled.done hover hq
      refine ⟨answer, hdone, ?_⟩
      exact (hmerging.parts i hi).shown hnames hget
        ((hmerging.errand i).trans (w.plain.errands_at hq)) hends
    · rw [hnames]
      refine hmerging.others name fun j hj he => ?_
      have hq : calls[j]? = some calls[j] := List.getElem?_eq_getElem hj
      have hmem := List.mem_of_getElem? hq
      rw [w.plain.errands_at hq] at he
      obtain ⟨-, htarget, -⟩ := (hedits _ hmem).errand calls[j].view
        (w.plain.namesOf calls[j].view)
      exact hname _ hmem (htarget.trans (congrArg some he))

/-- A run of two operations of two views of an empty session. -/
theorem paired_run (racing : Prop) [Decidable racing] (order : List Nat)
    (live live' : LiveView Bool)
    (hfollows : Interleaving.Follows (.quiet .bits AttributeId.ofNat) .counting racing order
      (.start World.paired [live.begin 0 (.set "a" true), live'.begin 1 (.set "b" true)] [])) :
    Interleaves .bits .counting racing
      (.start World.paired [live.begin 0 (.set "a" true), live'.begin 1 (.set "b" true)] [])
      (order.foldl (Interleaving.advance (.quiet .bits AttributeId.ofNat))
        (.start World.paired [live.begin 0 (.set "a" true), live'.begin 1 (.set "b" true)] [])) :=
  Interleaves.start.follow (Surroundings.quiet_calm _ _) (Surroundings.quiet_reliable _ _) rfl
    hfollows

/-- Each view stores an entry before the other one binds its name. -/
theorem merges_pair :
    ∃ (live live' : LiveView Bool) (c : Interleaving Bool Unit),
      World.paired.view? 0 = some live ∧ World.paired.view? 1 = some live' ∧
      Interleaves .bits .counting False (.start World.paired
        [live.begin 0 (.set "a" true), live'.begin 1 (.set "b" true)] []) c ∧ c.Over ∧
      ∃ b, c.world.Finds .bits "s" b ∧ b.get? "a" = some true ∧ b.get? "b" = some true := by
  let live : LiveView Bool :=
    ⟨⟨"s", false, Immutability.never⟩, 0, ⟨Bundle.empty, []⟩, false, none⟩
  let calls : List (Pending Bool) :=
    [live.begin 0 (.set "a" true), live.begin 1 (.set "b" true)]
  let order : List Nat := [0, 0, 0, 0, 0, 0, 1, 1, 1, 1, 1, 1, 0, 0, 0, 1, 1, 1, 1, 0]
  have hrun := paired_run False order live live (by decide +kernel)
  have hover : ∀ q ∈ (order.foldl (Interleaving.advance (.quiet .bits AttributeId.ofNat))
      (Interleaving.start World.paired calls [])).calls, q.rest.isDone = true := by decide +kernel
  have hempty : (World.single Bool).names.store.find? "s" = none :=
    congrFun (congrArg PlainWorld.names (World.single_plain Bool)) "s"
  have hreach : Shared.Reaches .bits "s" True .counting ⟨World.single Bool, none, [], []⟩
      ⟨World.paired, none, [1, 0], []⟩ :=
    (Shared.Reaches.start.openView (.inl rfl) World.viewed_open).openView (.inl rfl)
      World.paired_open
  have hcalls : ∀ q ∈ calls, q.view ∈ [1, 0] ∧ q.Begins World.paired ∧
      q.call.Edits .bits (World.paired.plain.namesOf q.view) := by
    intro q hq
    rcases List.mem_pair.mp hq with rfl | rfl
    · exact ⟨by decide, ⟨live, rfl, rfl, rfl⟩, rfl, bits_faithful true⟩
    · exact ⟨by decide, ⟨live, rfl, rfl, rfl⟩, rfl, bits_faithful true⟩
  have hapart : calls.Pairwise fun q q' => q.call.target ≠ q'.call.target :=
    List.pairwise_pair.mpr (by decide)
  have hprobes : ∀ q ∈ ([] : List (Probe Bool)), q.Begins := fun _ hq => nomatch hq
  obtain ⟨-, hend⟩ := merges (World.single_sound Bool) (fun _ hn => nomatch hempty.symm.trans hn)
    (fun _ hn => nomatch hempty.symm.trans hn) hreach hcalls hapart hprobes hrun
  obtain ⟨b, hfinds, -, hshown, -⟩ := hend hover
  obtain ⟨_, -, -, _, ha, he⟩ := hshown 0 _ rfl
  obtain ⟨_, -, -, _, hb, he'⟩ := hshown 1 _ rfl
  exact ⟨live, live, _, rfl, rfl, hrun, hover, b, hfinds, eq_of_beq he ▸ ha, eq_of_beq he' ▸ hb⟩

/-- The second view binds its name after the first one has read the stored names and before it
writes them back. Both succeed, and what the second one has bound is lost. -/
theorem merge_lost :
    ∃ (live live' : LiveView Bool) (c : Interleaving Bool Unit),
      World.paired.view? 0 = some live ∧ World.paired.view? 1 = some live' ∧
      Interleaves .bits .counting True (.start World.paired
        [live.begin 0 (.set "a" true), live'.begin 1 (.set "b" true)] []) c ∧
      (∀ q ∈ c.calls, q.call.succeeded q.rest = true) ∧
      c.world.names.store.find? "s" = some (Dict.empty.insert "a" (AttributeId.ofNat 0)) ∧
      (c.world.attributes.store.find? ⟨"s", AttributeId.ofNat 1⟩).isSome ∧
      ((c.world.carryOut (.quiet .bits AttributeId.ofNat) ⟨0, none⟩
        (Session.load "s" true).run).1.toOption.join.map (·.get? "b")) = some none := by
  let live : LiveView Bool :=
    ⟨⟨"s", false, Immutability.never⟩, 0, ⟨Bundle.empty, []⟩, false, none⟩
  let order : List Nat := [0, 0, 0, 0, 0, 0, 0, 0, 1, 1, 1, 1, 1, 1, 1, 1, 1, 1, 0, 0]
  have hrun := paired_run True order live live (by decide +kernel)
  exact ⟨live, live, _, rfl, rfl, hrun, by decide +kernel, by decide +kernel, by decide +kernel,
    by decide +kernel⟩

end Interleaves
end SessionAttributes
