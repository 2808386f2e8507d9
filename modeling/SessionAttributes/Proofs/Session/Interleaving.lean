import SessionAttributes.Proofs.Session.Sharing

namespace SessionAttributes

variable {V σ : Type}

def Procedure.isDone {α : Type} : Procedure V α → Bool
  | .done _ => true
  | .act _ _ => false

theorem Procedure.eq_done {α : Type} {p : Procedure V α} (h : p.isDone = true) :
    ∃ result, p = .done result := by
  cases p with
  | done result => exact ⟨result, rfl⟩
  | act action next => cases h

structure Locks where
  /-- The operation that has the lock of a view. -/
  holder : Nat → Option Nat
  /-- The operation that has read stored names and is about to write them back. -/
  merging : Option Nat

namespace Locks

def free : Locks := ⟨fun _ => none, none⟩

def after (l : Locks) (i view : Nat) : Action V → Locks
  | .lock => { l with holder := Function.update l.holder view (some i) }
  | .unlock _ => { l with holder := Function.update l.holder view none }
  | .names (.get _) => { l with merging := some i }
  | .names (.put ..) => { l with merging := none }
  | _ => l

/-- Whether an operation on a view may act: nobody else has the lock, an identifier is left to be
drawn, and nobody else is about to write names back, unless such operations may race. -/
def Admits (l : Locks) (x : Supply) (racing : Prop) (drawn i view : Nat) : Action V → Prop
  | .lock => l.holder view = none
  | .draw => drawn < x.limit
  | .names _ => racing ∨ l.merging = none ∨ l.merging = some i
  | _ => True

instance (l : Locks) (x : Supply) (racing : Prop) [Decidable racing] (drawn i view : Nat)
    (action : Action V) : Decidable (l.Admits x racing drawn i view action) :=
  match action with
  | .lock => inferInstanceAs (Decidable (l.holder view = none))
  | .draw => inferInstanceAs (Decidable (drawn < x.limit))
  | .names _ => inferInstanceAs (Decidable (racing ∨ l.merging = none ∨ l.merging = some i))
  | .isOpen | .encode _ | .decode _ | .attributes _ | .unlock _ | .record _ | .notify _ _ =>
    isTrue trivial

end Locks

structure Probe (V : Type) where
  factory : Nat
  rest : Procedure V (Except SessionError (Option (Bundle V)))

def LiveView.begin [BEq V] (live : LiveView V) (number : Nat) (call : ViewCall V) : Pending V :=
  ⟨number, live.factory, call, call.procedure live.view⟩

def Pending.Begins [BEq V] (w : World V σ) (q : Pending V) : Prop :=
  ∃ live, w.view? q.view = some live ∧ q.factory = live.factory ∧
    q.rest = q.call.procedure live.view

def Probe.Begins (q : Probe V) : Prop := ∃ session, q.rest = (Session.peek session).run

/-- A world with what is on its way in it. What is done stays, with its answer. -/
structure Interleaving (V σ : Type) where
  world : World V σ
  calls : List (Pending V)
  probes : List (Probe V)
  locks : Locks

/-- Whatever is on its way acts in any order, and there are passive steps. No call of an operation
fails, and identifiers come from one supply. -/
inductive Interleaves (m : Marshaller V) (x : Supply) (racing : Prop) (c₀ : Interleaving V σ) :
    Interleaving V σ → Prop
  | start : Interleaves m x racing c₀ c₀
  | passive {c : Interleaving V σ} {w : World V σ} (h : Interleaves m x racing c₀ c)
      (hp : World.Passive m c.world w) : Interleaves m x racing c₀ { c with world := w }
  | probe {c : Interleaving V σ} {env : Surroundings V σ} {i factory : Nat} {action : Action V}
      {next : action.Answer → Procedure V (Except SessionError (Option (Bundle V)))}
      (h : Interleaves m x racing c₀ c) (hc : env.Calm m)
      (hq : c.probes[i]? = some ⟨factory, .act action next⟩) :
      Interleaves m x racing c₀ { c with
        world := (c.world.perform env ⟨factory, none⟩ action).2
        probes := c.probes.set i
          ⟨factory, next (c.world.perform env ⟨factory, none⟩ action).1⟩ }
  | act {c : Interleaving V σ} {env : Surroundings V σ} {i view factory : Nat} {call : ViewCall V}
      {action : Action V} {next : action.Answer → Procedure V call.Answer}
      (h : Interleaves m x racing c₀ c) (hc : env.Calm m) (hr : env.Reliable)
      (hx : env.draw = x.draw) (hq : c.calls[i]? = some ⟨view, factory, call, .act action next⟩)
      (ha : c.locks.Admits x racing c.world.drawn i view action) :
      Interleaves m x racing c₀ { c with
        world := (c.world.perform env ⟨factory, some view⟩ action).2
        calls := c.calls.set i
          ⟨view, factory, call, next (c.world.perform env ⟨factory, some view⟩ action).1⟩
        locks := c.locks.after i view action }

namespace Interleaving

variable {c : Interleaving V σ}

def start (w : World V σ) (calls : List (Pending V)) (probes : List (Probe V)) :
    Interleaving V σ := ⟨w, calls, probes, Locks.free⟩

def Over (c : Interleaving V σ) : Prop := ∀ q ∈ c.calls, q.rest.isDone = true

def advance (env : Surroundings V σ) (c : Interleaving V σ) (i : Nat) : Interleaving V σ :=
  match c.calls[i]? with
  | some ⟨view, factory, call, .act action next⟩ =>
    let r := c.world.perform env ⟨factory, some view⟩ action
    { c with
      world := r.2
      calls := c.calls.set i ⟨view, factory, call, next r.1⟩
      locks := c.locks.after i view action }
  | _ => c

def Goes (x : Supply) (racing : Prop) (c : Interleaving V σ) (i : Nat) : Prop :=
  match c.calls[i]? with
  | some ⟨view, _, _, .act action _⟩ => c.locks.Admits x racing c.world.drawn i view action
  | _ => True

instance (x : Supply) (racing : Prop) [Decidable racing] (c : Interleaving V σ) (i : Nat) :
    Decidable (c.Goes x racing i) :=
  match h : c.calls[i]? with
  | none => isTrue (by simp only [Goes, h])
  | some ⟨_, _, _, .done _⟩ => isTrue (by simp only [Goes, h])
  | some ⟨view, _, _, .act action _⟩ =>
    decidable_of_iff (c.locks.Admits x racing c.world.drawn i view action) (by simp only [Goes, h])

def Follows (env : Surroundings V σ) (x : Supply) (racing : Prop) :
    List Nat → Interleaving V σ → Prop
  | [], _ => True
  | i :: order, c => c.Goes x racing i ∧ Follows env x racing order (c.advance env i)

instance decidableFollows (env : Surroundings V σ) (x : Supply) (racing : Prop)
    [Decidable racing] : (order : List Nat) → (c : Interleaving V σ) →
      Decidable (Follows env x racing order c)
  | [], _ => isTrue trivial
  | i :: order, c =>
    have := decidableFollows env x racing order (c.advance env i)
    inferInstanceAs (Decidable (c.Goes x racing i ∧ Follows env x racing order (c.advance env i)))

end Interleaving

section Reading
variable {m : Marshaller V} {env : Surroundings V σ} {w : World V σ} {session : SessionId}

def Action.Reads : Action V → Prop
  | .isOpen | .decode _ | .record _ | .names (.get _) | .attributes (.getAll _) => True
  | _ => False

theorem World.perform_reads (hc : env.Calm m) (hs : w.Sound) (actor : Actor) {action : Action V}
    (h : action.Reads) :
    (w.perform env actor action).2.Sound ∧ (w.perform env actor action).2.plain = w.plain := by
  obtain ⟨hs', ⟨-, hp⟩ | ⟨-, hp⟩⟩ := perform_plain hc hs actor action
  · exact ⟨hs', hp⟩
  · refine ⟨hs', hp.trans ?_⟩
    cases action with
    | names call => cases call <;> first | rfl | exact h.elim
    | attributes call => cases call <;> first | rfl | exact h.elim
    | isOpen | decode | record => rfl
    | _ => exact h.elim

/-- A load that repairs nothing only reads. -/
theorem Session.peek_reads (session : SessionId) :
    (peek session : Attempt V _).run.Asks Action.Reads := by
  refine Attempt.asks_bind (Attempt.asks_ensureOpen trivial) fun _ => ?_
  refine Attempt.asks_bind (Attempt.asks_names trivial) fun names => ?_
  split
  · exact Attempt.asks_bind (Attempt.asks_ask trivial) fun _ => Attempt.asks_pure _
  · refine Attempt.asks_bind (Attempt.asks_attributes trivial) fun entries => ?_
    refine Attempt.asks_bind (Attempt.asks_decodeEntries (fun _ => trivial) ..) fun values => ?_
    split
    · exact Attempt.asks_bind (Attempt.asks_ask trivial) fun _ => Attempt.asks_pure _
    · exact Attempt.asks_bind (Attempt.asks_ask trivial) fun _ => Attempt.asks_pure _

end Reading

section Lifting
variable {Part : Type} {m : Marshaller V} {session : SessionId} {x : Supply} {racing : Prop}
  {rule : Rule V Part} {ends : (call : ViewCall V) → call.Answer → Part → Prop}
  {holds : Locks → (Nat → Part) → PlainWorld V → Prop} {c₀ c : Interleaving V σ}

/-- What holds of a world and of the part that each operation has in it goes on to hold when one of
them acts by its rule. -/
def Rule.Upholds (m : Marshaller V) (session : SessionId) (x : Supply) (racing : Prop)
    (calls : List (Pending V)) (rule : Rule V Part)
    (holds : Locks → (Nat → Part) → PlainWorld V → Prop) : Prop :=
  ∀ {i : Nat} {q : Pending V} {locks : Locks} {part : Nat → Part} {p : PlainWorld V}
    {action : Action V} {post : action.Answer → Part → Prop}, calls[i]? = some q →
    holds locks part p → action.On session true → locks.Admits x racing p.drawn i q.view action →
    rule action (part i) post →
    ∃ r, post (p.perform m x.draw ⟨q.factory, some q.view⟩ action).1 r ∧
      holds (locks.after i q.view action) (Function.update part i r)
        (p.perform m x.draw ⟨q.factory, some q.view⟩ action).2

structure Interleaving.Led (session : SessionId) (rule : Rule V Part)
    (ends : (call : ViewCall V) → call.Answer → Part → Prop)
    (holds : Locks → (Nat → Part) → PlainWorld V → Prop) (calls : List (Pending V))
    (part₀ part : Nat → Part) (c : Interleaving V σ) : Prop where
  sound : c.world.Sound
  holds : holds c.locks part c.world.plain
  reads : ∀ q ∈ c.probes, q.rest.Asks Action.Reads
  length : c.calls.length = calls.length
  others : ∀ {i : Nat}, calls.length ≤ i → part i = part₀ i
  same : ∀ {i : Nat} {q : Pending V}, c.calls[i]? = some q → ∃ rest,
    calls[i]? = some { q with rest }
  asks : ∀ {i : Nat} {q : Pending V}, c.calls[i]? = some q →
    q.rest.Asks (Action.On session true)
  secures : ∀ {i : Nat} {q : Pending V}, c.calls[i]? = some q →
    q.rest.Secures rule (ends q.call) (part i)

/-- Operations that begin in their parts are led. -/
theorem Interleaving.led_start [BEq V] {w : World V σ} {calls : List (Pending V)}
    {probes : List (Probe V)} {part : Nat → Part} (hs : w.Sound) (hprobes : ∀ q ∈ probes, q.Begins)
    (hcalls : ∀ q ∈ calls, q.Begins w ∧
      ∀ live, w.view? q.view = some live → live.view.session = session)
    (hholds : holds Locks.free part w.plain)
    (hsecures : ∀ {i : Nat} {q : Pending V}, calls[i]? = some q →
      q.rest.Secures rule (ends q.call) (part i)) :
    (start w calls probes).Led session rule ends holds calls part part where
  sound := hs
  holds := hholds
  length := rfl
  others _ := rfl
  reads q hq := by
    obtain ⟨other, hq⟩ := hprobes q hq
    rw [hq]
    exact Session.peek_reads other
  same {_ q} hq := ⟨q.rest, hq⟩
  asks {_ q} hq := by
    obtain ⟨⟨live, hl, -, hrest⟩, hsession⟩ := hcalls q (List.mem_of_getElem? hq)
    rw [hrest, ← hsession live hl]
    exact View.procedure_on live.view q.call
  secures := hsecures

theorem set_shape {α : Type} {items : List α} {i j : Nat} {a b : α}
    (h : (items.set i a)[j]? = some b) : i = j ∧ b = a ∨ j ≠ i ∧ items[j]? = some b := by
  by_cases he : i = j
  · subst he
    have hlt : i < items.length := by
      rw [← List.length_set]
      exact (List.getElem?_eq_some_iff.mp h).1
    rw [List.getElem?_set_self hlt] at h
    exact .inl ⟨rfl, (Option.some.inj h).symm⟩
  · rw [List.getElem?_set_ne he] at h
    exact .inr ⟨Ne.symm he, h⟩

namespace Interleaving.Led

variable {calls : List (Pending V)} {part₀ part : Nat → Part}

/-- Passive steps do not matter to what is led. -/
theorem passive (h : c.Led session rule ends holds calls part₀ part) {w : World V σ}
    (hp : World.Passive m c.world w) :
    Led session rule ends holds calls part₀ part { c with world := w } := by
  obtain ⟨hs, hplain⟩ := hp.keeps h.sound
  exact { h with sound := hs, holds := hplain.symm ▸ h.holds }

/-- A load that repairs nothing goes on beside what is led. -/
theorem probe (h : c.Led session rule ends holds calls part₀ part) {env : Surroundings V σ}
    (hc : env.Calm m) {i factory : Nat} {action : Action V}
    {next : action.Answer → Procedure V (Except SessionError (Option (Bundle V)))}
    (hq : c.probes[i]? = some ⟨factory, .act action next⟩) :
    Led session rule ends holds calls part₀ part { c with
      world := (c.world.perform env ⟨factory, none⟩ action).2
      probes := c.probes.set i ⟨factory, next (c.world.perform env ⟨factory, none⟩ action).1⟩ } := by
  obtain ⟨hreads, hnext⟩ := h.reads _ (List.mem_of_getElem? hq)
  obtain ⟨hs, hplain⟩ := World.perform_reads hc h.sound ⟨factory, none⟩ hreads
  refine { h with
    sound := hs
    holds := hplain.symm ▸ h.holds
    reads := fun q hm => ?_ }
  rcases List.mem_or_eq_of_mem_set hm with hm | rfl
  · exact h.reads q hm
  · exact hnext _

/-- An operation that goes by its rule is led on, to what its action upholds. -/
theorem act (h : c.Led session rule ends holds calls part₀ part) {env : Surroundings V σ}
    (hc : env.Calm m) (hr : env.Reliable) (hx : env.draw = x.draw) {i view factory : Nat}
    {call : ViewCall V} {action : Action V} {next : action.Answer → Procedure V call.Answer}
    (hq : c.calls[i]? = some ⟨view, factory, call, .act action next⟩)
    {holds' : Locks → (Nat → Part) → PlainWorld V → Prop}
    (hact : action.On session true → ∀ post, rule action (part i) post →
      ∃ r, post (c.world.plain.perform m x.draw ⟨factory, some view⟩ action).1 r ∧
        holds' (c.locks.after i view action) (Function.update part i r)
          (c.world.plain.perform m x.draw ⟨factory, some view⟩ action).2) :
    ∃ part, Led session rule ends holds' calls part₀ part { c with
      world := (c.world.perform env ⟨factory, some view⟩ action).2
      calls := c.calls.set i
        ⟨view, factory, call, next (c.world.perform env ⟨factory, some view⟩ action).1⟩
      locks := c.locks.after i view action } := by
  obtain ⟨rest, hq₀⟩ := h.same hq
  obtain ⟨hon, hasks⟩ := h.asks hq
  obtain ⟨r, hpost, hholds⟩ := hact hon _ (h.secures hq)
  obtain ⟨hs, hfail | ⟨hanswer, hplain⟩⟩ :=
    World.perform_plain hc h.sound ⟨factory, some view⟩ action
  · exact absurd hfail.1 (World.perform_reliable hr _ _ _)
  rw [hx] at hanswer hplain
  rw [← hanswer] at hpost
  rw [← hplain] at hholds
  refine ⟨Function.update part i r, hs, hholds, h.reads, ?_, fun {j} hj => ?_,
    fun {j q} hj => ?_, fun {j q} hj => ?_, fun {j q} hj => ?_⟩
  · exact List.length_set.trans h.length
  · have hlt := (List.getElem?_eq_some_iff.mp hq₀).1
    rw [Function.update_of_ne (by omega)]
    exact h.others hj
  · rcases set_shape hj with ⟨rfl, rfl⟩ | ⟨-, hj⟩
    · exact ⟨rest, hq₀⟩
    · exact h.same hj
  · rcases set_shape hj with ⟨rfl, rfl⟩ | ⟨-, hj⟩
    · exact hasks _
    · exact h.asks hj
  · rcases set_shape hj with ⟨rfl, rfl⟩ | ⟨hne, hj⟩
    · rw [Function.update_self]
      exact hpost
    · rw [Function.update_of_ne hne]
      exact h.secures hj

/-- When all operations are done, each has answered, and its part is at its end. -/
theorem done (h : c.Led session rule ends holds calls part₀ part) (hover : c.Over) {i : Nat}
    {q : Pending V} (hq : calls[i]? = some q) : ∃ answer : q.call.Answer,
      c.calls[i]? = some { q with rest := .done answer } ∧ ends q.call answer (part i) := by
  have hi : i < calls.length := (List.getElem?_eq_some_iff.mp hq).1
  obtain ⟨q', hq'⟩ : ∃ q', c.calls[i]? = some q' :=
    ⟨_, List.getElem?_eq_getElem (h.length ▸ hi)⟩
  obtain ⟨rest, hsame⟩ := h.same hq'
  obtain rfl := Option.some.inj (hq.symm.trans hsame)
  obtain ⟨answer, hdone⟩ := Procedure.eq_done (hover q' (List.mem_of_getElem? hq'))
  have hends := h.secures hq'
  rw [hdone] at hends
  exact ⟨answer, hdone ▸ hq', hends⟩

/-- Parts that end where they began are there again when all operations are done. -/
theorem rested {rest : Part}
    (h : c.Led session rule (fun _ _ part => part = rest) holds calls (fun _ => rest) part)
    (hover : c.Over) (i : Nat) : part i = rest := by
  cases hq : calls[i]? with
  | some q =>
    obtain ⟨_, -, hends⟩ := h.done hover hq
    exact hends
  | none => exact h.others (List.getElem?_eq_none_iff.mp hq)

end Interleaving.Led

/-- What one action upholds, a whole run upholds, whatever the order. -/
theorem Interleaves.led (hrule : rule.Upholds m session x racing c₀.calls holds)
    (h : Interleaves m x racing c₀ c)
    {part₀ : Nat → Part} (h₀ : c₀.Led session rule ends holds c₀.calls part₀ part₀) :
    ∃ part, c.Led session rule ends holds c₀.calls part₀ part := by
  induction h with
  | start => exact ⟨part₀, h₀⟩
  | passive _ hp ih =>
    obtain ⟨part, hled⟩ := ih
    exact ⟨part, hled.passive hp⟩
  | probe _ hc hq ih =>
    obtain ⟨part, hled⟩ := ih
    exact ⟨part, hled.probe hc hq⟩
  | act _ hc hr hx hq ha ih =>
    obtain ⟨part, hled⟩ := ih
    obtain ⟨rest, hq₀⟩ := hled.same hq
    exact hled.act hc hr hx hq fun hon _ hpost => hrule hq₀ hled.holds hon ha hpost

end Lifting

namespace Interleaves

variable {m : Marshaller V} {x : Supply} {racing : Prop} {c₀ c : Interleaving V σ}
  {env : Surroundings V σ}

theorem advance (h : Interleaves m x racing c₀ c) (hc : env.Calm m) (hr : env.Reliable)
    (hx : env.draw = x.draw) {i : Nat} (hg : c.Goes x racing i) :
    Interleaves m x racing c₀ (c.advance env i) := by
  unfold Interleaving.Goes at hg
  unfold Interleaving.advance
  split
  · rename_i hq
    rw [hq] at hg
    exact h.act hc hr hx hq hg
  · exact h

/-- Operations may act in any order that respects their locks. -/
theorem follow (h : Interleaves m x racing c₀ c) (hc : env.Calm m) (hr : env.Reliable)
    (hx : env.draw = x.draw) {order : List Nat} (hf : Interleaving.Follows env x racing order c) :
    Interleaves m x racing c₀ (order.foldl (Interleaving.advance env) c) := by
  induction order generalizing c with
  | nil => exact h
  | cons i order ih => exact ih (h.advance hc hr hx hf.1) hf.2

end Interleaves
end SessionAttributes
