import Mathlib.Data.List.Pairwise
import SessionAttributes.Proofs.Session.Apart

namespace SessionAttributes

variable {V σ : Type} [BEq V] {m : Marshaller V} {session : SessionId} {x : Supply} {number : Nat}

namespace ViewCall

theorem target_portion {call : ViewCall V} (h : call.Alters m) :
    call.target = some call.portion.name := by
  cases call with
  | set name value => rfl
  | remove name => rfl
  | get name => exact h.elim
  | names => exact h.elim
  | snapshot => exact h.elim
  | update name change => exact h.elim

end ViewCall

/-- What a name has come to, given what it was in a bundle before: it has this value, borne by its
entry, under the same attribute if it had one. -/
structure Scope.Ends (m : Marshaller V) (b₀ : Bundle V) (s : Scope V) (name : String)
    (result : Option V) : Prop where
  value : s.bundle.get? name = result
  bears : s.BearsOn m name
  kept : ∀ {id}, b₀.attributeId? name = some id → result ≠ none →
    s.bundle.attributeId? name = some id

section Ending
variable {owner : AttributeId → String} {b₀ : Bundle V} {s : Scope V} {name : String}

/-- A name that no operation has touched is as it was. -/
theorem Phase.Stands.ends_begun {value : Option V}
    (h : Phase.begun.Stands m x owner b₀ s name value) : s.Ends m b₀ name (b₀.get? name) :=
  ⟨h.1.value, h.2, fun hid _ => h.1.id.trans hid⟩

theorem Phase.Stands.ends_handed {value : Option V}
    (h : Phase.handed.Stands m x owner b₀ s name value) : s.Ends m b₀ name value :=
  ⟨h.1, h.2.1, fun hid hv => h.2.2.2 hv _ hid⟩

/-- An operation that is done leaves its outcome under its name. -/
theorem Phase.Stands.ends {immutability : Immutability V} {call : ViewCall V} (hc : call.Alters m)
    (h : (Portion.last immutability b₀ call).Stands m x owner b₀ s call.portion.name
      call.portion.value) :
    s.Ends m b₀ call.portion.name
      (call.outcome immutability (b₀.get? call.portion.name)) := by
  cases call with
  | get name => exact hc.elim
  | names => exact hc.elim
  | snapshot => exact hc.elim
  | update name change => exact hc.elim
  | set name value =>
    change s.Ends m b₀ name
      (if b₀.get? name == some value && immutability value then b₀.get? name else some value)
    simp only [Portion.last] at h
    split
    · rename_i hskip
      rw [if_pos hskip] at h
      exact h.ends_begun
    · rename_i hskip
      rw [if_neg hskip] at h
      exact h.ends_handed
  | remove name =>
    change s.Ends m b₀ name none
    simp only [Portion.last] at h
    cases hb : b₀.attributeId? name with
    | none =>
      rw [hb] at h
      rw [← Bundle.Tidy.get?_none hb]
      exact h.ends_begun
    | some id =>
      rw [hb] at h
      exact h.ends_handed

end Ending

namespace Pending

variable {calls : List (Pending V)} {live : LiveView V} {name : String} {q : Pending V}

/-- What each name stands for in the end: the outcome of its operation, or what it stood for before
if it has none. -/
def outcomes (live : LiveView V) (calls : List (Pending V)) (name : String) : Option V :=
  (calls.find? fun q => q.call.target = some name).elim (live.state.bundle.get? name) fun q =>
    q.call.outcome live.view.immutability (live.state.bundle.get? name)

theorem outcomes_other (h : ∀ q ∈ calls, q.call.target ≠ some name) :
    outcomes live calls name = live.state.bundle.get? name := by
  have hnone : (calls.find? fun q => q.call.target = some name) = none :=
    List.find?_eq_none.mpr fun q hq => by simpa using h q hq
  rw [outcomes, hnone, Option.elim_none]

theorem outcomes_target (hapart : calls.Pairwise fun q q' => q.call.target ≠ q'.call.target)
    (hq : q ∈ calls) (ht : q.call.target = some name) :
    outcomes live calls name =
      q.call.outcome live.view.immutability (live.state.bundle.get? name) := by
  obtain ⟨q', hfound⟩ : ∃ q', (calls.find? fun q => q.call.target = some name) = some q' := by
    refine Option.isSome_iff_exists.mp (List.find?_isSome.mpr ⟨q, hq, ?_⟩)
    simpa using ht
  have ht' : q'.call.target = some name := by simpa using List.find?_some hfound
  have : Std.Symm fun q q' : Pending V => q.call.target ≠ q'.call.target := ⟨fun _ _ => Ne.symm⟩
  have hsame : q' = q := by
    by_contra hne
    exact hapart.forall (List.mem_of_find?_eq_some hfound) hq hne (ht'.trans ht.symm)
  rw [outcomes, hfound, Option.elim_some, hsame]

def portions (calls : List (Pending V)) (i : Nat) : Portion V :=
  (calls[i]?.map fun q => q.call.portion).getD ⟨"", none, .begun, none⟩

omit [BEq V] in
theorem portions_at {i : Nat} (hq : calls[i]? = some q) : portions calls i = q.call.portion := by
  rw [portions, hq, Option.map_some, Option.getD_some]

omit [BEq V] in
/-- Nothing has happened in a part that has not begun. -/
theorem portions_start (calls : List (Pending V)) (i : Nat) :
    (portions calls i).phase = .begun ∧ (portions calls i).seen = none := by
  cases hq : calls[i]? with
  | none =>
    rw [portions, hq]
    exact ⟨rfl, rfl⟩
  | some q =>
    rw [portions_at hq]
    cases q.call <;> exact ⟨rfl, rfl⟩

end Pending

structure Apart.Holds (m : Marshaller V) (x : Supply) (session : SessionId) (number factory : Nat)
    (b₀ : Bundle V) (calls : List (Pending V)) (locks : Locks) (part : Nat → Portion V)
    (p : PlainWorld V) : Prop where
  view : ∃ v, p.views[number]? = some v ∧ v.view.session = session ∧ v.factory = factory
  apart : ∃ owner, Apart m x b₀ calls.length (Pending.portions calls) owner (locks.holder number)
    part (p.scope session ⟨factory, some number⟩)

section Running
variable {w : World V σ} {live : LiveView V} {calls : List (Pending V)} {probes : List (Probe V)}
  {c : Interleaving V σ}

/-- A view that agrees with its session does so before anything has begun. -/
theorem Apart.holds_start (hl : w.view? number = some live) (h : w.Agrees m session live)
    (ht : live.state.bundle.Tidy)
    (hfresh : ∀ id ∈ live.state.bundle.names.values, ∀ k, w.drawn ≤ k → k < x.limit →
      x.draw k ≠ id) :
    Apart.Holds m x session number live.factory live.state.bundle calls Locks.free
      (Pending.portions calls) w.plain := by
  have hv : w.plain.views[number]? = some live.plain := World.plain_live hl
  have hbundle : (w.plain.scope session ⟨live.factory, some number⟩).bundle = live.state.bundle :=
    PlainWorld.scope_bundle hv _ _
  obtain ⟨owner, hissued⟩ : ∃ owner, Issued x owner w.drawn live.state.bundle.names :=
    Issued.of_distinct h.distinct hfresh
  have hbegun : ∀ name value, Phase.begun.Stands m x owner live.state.bundle
      (w.plain.scope session ⟨live.factory, some number⟩) name value := by
    intro name value
    refine ⟨hbundle ▸ .refl _ _, fun id value hid hvalue => ?_⟩
    rw [hbundle] at hid hvalue
    obtain ⟨value', hvalue', hkeeps⟩ := h.values id (Dict.mem_values.mpr ⟨name, hid⟩)
    rw [Bundle.get?_eq, hid, Option.bind_some, hvalue'] at hvalue
    obtain rfl := Option.some.inj hvalue
    exact fun _ => hkeeps
  refine ⟨⟨live.plain, hv, h.owner, rfl⟩, owner, fun _ => ⟨rfl, rfl⟩, hbundle ▸ ht,
    hbundle ▸ hissued, hissued, fun {i b} hb => ?_, fun i _ => ?_, fun name _ => hbegun name none⟩
  · cases (Pending.portions_start calls i).2.symm.trans hb
  · rw [(Pending.portions_start calls i).1]
    exact hbegun _ _

/-- What one action keeps apart, a whole run does. -/
theorem Interleaves.apart (hs : w.Sound) (hl : w.view? number = some live)
    (h₀ : w.Agrees m session live) (ht : live.state.bundle.Tidy)
    (hfresh : ∀ id ∈ live.state.bundle.names.values, ∀ k, w.drawn ≤ k → k < x.limit →
      x.draw k ≠ id)
    (hcalls : ∀ q ∈ calls, q.view = number ∧ q.Begins w ∧ q.call.Alters m)
    (hapart : calls.Pairwise fun q q' => q.call.target ≠ q'.call.target)
    (hprobes : ∀ q ∈ probes, q.Begins)
    (h : Interleaves m x True (.start w calls probes) c) :
    ∃ part, c.Led session (Portion.rule m live.state.bundle)
      (Portion.Ends live.view.immutability live.state.bundle)
      (Apart.Holds m x session number live.factory live.state.bundle calls) calls
      (Pending.portions calls) part := by
  have hbegins : ∀ q ∈ calls, q.view = number ∧ q.Begins w :=
    fun q hq => ⟨(hcalls q hq).1, (hcalls q hq).2.1⟩
  have hnames : ∀ i < calls.length, ∀ j < calls.length, j ≠ i →
      (Pending.portions calls j).name ≠ (Pending.portions calls i).name := by
    refine Pending.names_apart (fun {i} hi => ?_) hapart
    have hq : calls[i]? = some calls[i] := List.getElem?_eq_getElem hi
    rw [Pending.portions_at hq]
    exact ViewCall.target_portion (hcalls _ (List.mem_of_getElem? hq)).2.2
  induction h with
  | start =>
    refine ⟨_, Interleaving.led_single hs hl h₀.owner hbegins hprobes
      (Apart.holds_start hl h₀ ht hfresh) fun {i q} hq => ?_⟩
    rw [Pending.portions_at hq]
    exact View.procedure_moves (hcalls q (List.mem_of_getElem? hq)).2.2
  | passive _ hp ih =>
    obtain ⟨part, hled⟩ := ih
    exact ⟨part, hled.passive hp⟩
  | probe _ hc hq ih =>
    obtain ⟨part, hled⟩ := ih
    exact ⟨part, hled.probe hc hq⟩
  | @act c env i view factory call action next hrun hc hr hx hq ha ih =>
    obtain ⟨part, hled⟩ := ih
    obtain ⟨upkeep, hupkeep⟩ := hrun.overlaps hs hl h₀.toSettled hfresh hbegins hprobes
    obtain ⟨rest, hq₀⟩ := hled.same hq
    obtain ⟨rfl, rfl⟩ := Pending.seats_single hl hbegins _ (List.mem_of_getElem? hq₀)
    refine hled.act hc hr hx hq fun hon post hrule => ?_
    obtain ⟨owner, hholds⟩ := hled.holds.apart
    have hstored : ∀ key, action = .names (.get key) →
        (c.world.plain.scope session ⟨live.factory, some view⟩).stored.getD
          (c.world.plain.scope session ⟨live.factory, some view⟩).bundle.names =
        (c.world.plain.scope session ⟨live.factory, some view⟩).bundle.names := by
      rintro key rfl
      obtain ⟨names, hgrip, -⟩ := hupkeep.secures hq
      obtain ⟨rfl, hknown⟩ := hupkeep.holds.parts.known hgrip
      exact hknown
    have hi : i < calls.length := (List.getElem?_eq_some_iff.mp hq₀).1
    obtain ⟨owner', r, hpost, hholds⟩ := hholds.act hi (hnames i hi) hon ha hstored hrule
    obtain ⟨p', hstep, hview, hscope⟩ := PlainWorld.perform_view hon m x.draw hled.holds.view
    rw [hstep]
    refine ⟨r, hpost, hview, owner', ?_⟩
    rw [hscope]
    exact hholds

/-- When all operations are done, every name has come to its end. -/
theorem Interleaving.Led.ends {part : Nat → Portion V}
    (h : c.Led session (Portion.rule m live.state.bundle)
      (Portion.Ends live.view.immutability live.state.bundle)
      (Apart.Holds m x session number live.factory live.state.bundle calls) calls
      (Pending.portions calls) part)
    (hapart : calls.Pairwise fun q q' => q.call.target ≠ q'.call.target)
    (halters : ∀ q ∈ calls, q.call.Alters m) (hover : c.Over) :
    (∀ (i : Nat) (q : Pending V), calls[i]? = some q → ∃ answer : q.call.Answer,
      c.calls[i]? = some { q with rest := .done answer } ∧
        q.call.Returns live.state.bundle answer) ∧
      ∀ name, (c.world.plain.scope session ⟨live.factory, some number⟩).Ends m live.state.bundle
        name (Pending.outcomes live calls name) := by
  obtain ⟨owner, hholds⟩ := h.holds.apart
  refine ⟨fun i q hq => ?_, fun name => ?_⟩
  · obtain ⟨answer, hanswer, hreturns, -⟩ := h.done hover hq
    exact ⟨answer, hanswer, hreturns⟩
  · by_cases htouched : ∃ q ∈ calls, q.call.target = some name
    · obtain ⟨q, hq, ht⟩ := htouched
      have halters := halters q hq
      obtain ⟨i, hi⟩ := List.getElem?_of_mem hq
      obtain ⟨answer, -, -, hphase⟩ := h.done hover hi
      have hstands := hholds.stands i (List.getElem?_eq_some_iff.mp hi).1
      obtain ⟨hname, hvalue⟩ := hholds.fixed i
      rw [Pending.portions_at hi] at hname hvalue
      rw [hphase, hname, hvalue] at hstands
      obtain rfl := Option.some.inj (ht.symm.trans (ViewCall.target_portion halters))
      rw [Pending.outcomes_target hapart hq ht]
      exact hstands.ends halters
    · have hother : ∀ q ∈ calls, q.call.target ≠ some name :=
        fun q hq ht => htouched ⟨q, hq, ht⟩
      rw [Pending.outcomes_other hother]
      refine (hholds.others name fun i hi he => ?_).ends_begun
      have hq : calls[i]? = some calls[i] := List.getElem?_eq_getElem hi
      have hm := List.mem_of_getElem? hq
      rw [Pending.portions_at hq] at he
      exact hother _ hm ((ViewCall.target_portion (halters _ hm)).trans (congrArg some he))

/-- Where every name has come to its end, the view still agrees with its session. -/
theorem World.Settled.agrees (h : w.Settled session live) {b₀ : Bundle V} {f : String → Option V}
    (ht : live.state.bundle.Tidy) (hl : w.view? number = some live)
    (hends : ∀ name, (w.plain.scope session ⟨live.factory, some number⟩).Ends m b₀ name (f name)) :
    w.Agrees m session live := by
  refine ⟨h, fun id hid => ?_⟩
  have hv : w.plain.views[number]? = some live.plain := World.plain_live hl
  have hbundle : (w.plain.scope session ⟨live.factory, some number⟩).bundle = live.state.bundle :=
    PlainWorld.scope_bundle hv _ _
  obtain ⟨name, hname⟩ := Dict.mem_values.mp hid
  obtain ⟨value, hget, hvalue⟩ := ht.get?_some hname
  have hbears := (hends name).bears id value (hbundle ▸ hname) (hbundle ▸ hget)
  exact ⟨value, hvalue, hbears (Option.isSome_iff_ne_none.mp ((h.entries id).mpr hid))⟩

end Running

/-- Any number of writes and removals on distinct names overlap in any way in the only view of a
session. There is one map, fixed before any of them begins, that all runs end with: under its name
stands what an operation leaves, and every other name stands for what it did. When all are done,
each has answered with the earlier value of its name, the view holds the map and agrees with its
session, names that were bound keep their attributes, and every load finds the map. -/
theorem Interleaves.confluent {w : World V σ} {live : LiveView V} {calls : List (Pending V)}
    (hs : w.Sound) (hl : w.view? number = some live) (h₀ : w.Agrees m session live)
    (ht : live.state.bundle.Tidy)
    (hcalls : ∀ q ∈ calls, q.view = number ∧ q.Begins w ∧ q.call.Alters m)
    (hapart : calls.Pairwise fun q q' => q.call.target ≠ q'.call.target) :
    ∃ f : String → Option V,
      (∀ q ∈ calls, ∀ name, q.call.target = some name →
        f name = q.call.outcome live.view.immutability (live.state.bundle.get? name)) ∧
      (∀ name, (∀ q ∈ calls, q.call.target ≠ some name) →
        f name = live.state.bundle.get? name) ∧
      ∀ (x : Supply) (probes : List (Probe V)) (c : Interleaving V σ),
        (∀ id ∈ live.state.bundle.names.values, ∀ k, w.drawn ≤ k → k < x.limit →
          x.draw k ≠ id) →
        (∀ q ∈ probes, q.Begins) → Interleaves m x True (.start w calls probes) c → c.Over →
        (∀ (i : Nat) (q : Pending V), calls[i]? = some q → ∃ answer : q.call.Answer,
          c.calls[i]? = some { q with rest := .done answer } ∧
            q.call.Returns live.state.bundle answer) ∧
        ∃ live', c.world.view? number = some live' ∧ c.world.Agrees m session live' ∧
          live'.state.bundle.Tidy ∧ (∀ name, live'.state.bundle.get? name = f name) ∧
          (∀ name id, live.state.bundle.attributeId? name = some id → f name ≠ none →
            live'.state.bundle.attributeId? name = some id) ∧
          ∃ b, c.world.Finds m session b ∧ b.names = live'.state.bundle.names ∧
            ∀ name, (b.get? name == f name) = true := by
  refine ⟨Pending.outcomes live calls,
    fun q hq name hname => Pending.outcomes_target hapart hq hname,
    fun name hname => Pending.outcomes_other hname, fun x probes c hfresh hprobes h hover => ?_⟩
  obtain ⟨part, hled⟩ := h.apart hs hl h₀ ht hfresh hcalls hapart hprobes
  obtain ⟨hanswers, hends⟩ := hled.ends hapart (fun q hq => (hcalls q hq).2.2) hover
  obtain ⟨upkeep, hupkeep⟩ := h.overlaps hs hl h₀.toSettled hfresh
    (fun q hq => ⟨(hcalls q hq).1, (hcalls q hq).2.1⟩) hprobes
  obtain ⟨live', hl', hsettled⟩ := hupkeep.holds.settled (hupkeep.rested hover)
  obtain ⟨v, hv, -, hseat⟩ := hled.holds.view
  obtain ⟨owner, hholds⟩ := hled.holds.apart
  have hbundle := PlainWorld.scope_bundle hv session live.factory
  rw [World.plain_view, hl'] at hv
  obtain rfl := Option.some.inj hv
  have hbundle : (c.world.plain.scope session ⟨live.factory, some number⟩).bundle =
      live'.state.bundle := hbundle
  have ht' : live'.state.bundle.Tidy := hbundle ▸ hholds.tidy
  have hvalue : ∀ name, live'.state.bundle.get? name = Pending.outcomes live calls name :=
    fun name => hbundle ▸ (hends name).value
  have hfactory : live'.factory = live.factory := hseat
  have hagrees : c.world.Agrees m session live' :=
    hsettled.agrees ht' hl' (hfactory ▸ hends)
  obtain ⟨b, hb, hnames, hget⟩ := hagrees.loaded hled.sound
  refine ⟨hanswers, live', hl', hagrees, ht', hvalue, fun name id hid hne => ?_, b, hb, hnames,
    fun name => hvalue name ▸ hget name⟩
  exact hbundle ▸ (hends name).kept hid hne

/-- Two writes of new names have both stored their entries before either of them binds its name. -/
theorem Interleaves.confluent_crossing :
    ∃ (live live' : LiveView Bool) (c : Interleaving Bool Unit), World.viewed.view? 0 = some live ∧
      Interleaves .bits .counting True (.start World.viewed
        [live.begin 0 (.set "a" true), live.begin 0 (.set "b" false)] []) c ∧ c.Over ∧
      c.world.view? 0 = some live' ∧ c.world.Agrees .bits "s" live' ∧
      live'.state.bundle.get? "a" = some true ∧ live'.state.bundle.get? "b" = some false ∧
      ∃ b, c.world.Finds .bits "s" b ∧ b.get? "a" == some true ∧ b.get? "b" == some false := by
  let env : Surroundings Bool Unit := .quiet .bits AttributeId.ofNat
  let live : LiveView Bool :=
    ⟨⟨"s", false, Immutability.never⟩, 0, ⟨Bundle.empty, []⟩, false, none⟩
  let calls : List (Pending Bool) :=
    [live.begin 0 (.set "a" true), live.begin 0 (.set "b" false)]
  let order : List Nat := [0, 0, 0, 0, 0, 1, 1, 1, 1, 1, 1, 1, 1, 1, 1, 0, 0, 0, 0, 0]
  have hfollows : Interleaving.Follows env .counting True order (.start World.viewed calls []) := by
    decide +kernel
  let c := order.foldl (Interleaving.advance env) (.start World.viewed calls [])
  have hrun : Interleaves .bits .counting True (.start World.viewed calls []) c :=
    Interleaves.start.follow (Surroundings.quiet_calm _ _) (Surroundings.quiet_reliable _ _) rfl
      hfollows
  have hover : ∀ q ∈ c.calls, q.rest.isDone = true := by decide +kernel
  have hempty : (World.single Bool).attributes.store.find? = fun _ => none :=
    congrArg PlainWorld.attributes (World.single_plain Bool)
  obtain ⟨_, ⟨⟩, hagrees⟩ := World.viewed_opened.agrees (World.single_sound Bool)
    fun id hid => absurd (congrFun hempty ⟨"s", id⟩) hid
  have hcalls : ∀ q ∈ calls, q.view = 0 ∧ q.Begins World.viewed ∧ q.call.Alters .bits := by
    intro q hq
    rcases List.mem_pair.mp hq with rfl | rfl
    · exact ⟨rfl, ⟨live, rfl, rfl, rfl⟩, bits_faithful true⟩
    · exact ⟨rfl, ⟨live, rfl, rfl, rfl⟩, bits_faithful false⟩
  have hapart : calls.Pairwise fun q q' => q.call.target ≠ q'.call.target := by
    refine List.pairwise_pair.mpr fun he => ?_
    exact absurd (Option.some.inj he) (by decide)
  obtain ⟨f, htouched, -, hruns⟩ :=
    confluent World.viewed_sound rfl hagrees Bundle.empty_tidy hcalls hapart
  obtain ⟨-, live', hl', hagrees', -, hvalues, -, b, hb, -, hfound⟩ :=
    hruns .counting [] c nofun nofun hrun hover
  have ha : f "a" = some true := htouched _ List.mem_cons_self "a" rfl
  have hb' : f "b" = some false := htouched _ (List.mem_cons_of_mem _ List.mem_cons_self) "b" rfl
  exact ⟨live, live', c, rfl, hrun, hover, hl', hagrees', (hvalues "a").trans ha,
    (hvalues "b").trans hb', b, hb, ha ▸ hfound "a", hb' ▸ hfound "b"⟩

end SessionAttributes
