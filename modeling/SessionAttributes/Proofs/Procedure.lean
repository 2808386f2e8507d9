import SessionAttributes.Session

namespace SessionAttributes

variable {V σ α β : Type}

/-- What has to hold before an action, for each condition on its answer and the state after it. -/
abbrev Rule (V σ : Type) := (action : Action V) → σ → (action.Answer → σ → Prop) → Prop

namespace Rule

def Monotone (rule : Rule V σ) : Prop :=
  ∀ action s (post post' : action.Answer → σ → Prop), (∀ answer s, post answer s → post' answer s) →
    rule action s post → rule action s post'

/-- The rule of surroundings that may answer anything to the actions that are allowed. -/
def only (allowed : Action V → Prop) : Rule V Unit :=
  fun action _ post => allowed action ∧ ∀ answer, post answer ()

theorem only_monotone (allowed : Action V → Prop) : (only allowed).Monotone :=
  fun _ _ _ _ h hp => ⟨hp.1, fun answer => h _ _ (hp.2 answer)⟩

end Rule

namespace Procedure

/-- What has to hold before a procedure so that it ends with `post`. -/
def Secures (rule : Rule V σ) (post : α → σ → Prop) : Procedure V α → σ → Prop
  | .done result, s => post result s
  | .act action next, s => rule action s fun answer s => (next answer).Secures rule post s

theorem secures_bind (rule : Rule V σ) (post : β → σ → Prop) (p : Procedure V α)
    (f : α → Procedure V β) :
    (p >>= f).Secures rule post = p.Secures rule fun a s => (f a).Secures rule post s := by
  change (p.bind f).Secures rule post = _
  induction p with
  | done result => rfl
  | act action next ih =>
    funext s
    exact congrArg (rule action s) (funext fun answer => ih answer)

theorem secures_ask (rule : Rule V σ) (action : Action V) (post : action.Answer → σ → Prop)
    (s : σ) : (ask action).Secures rule post s = rule action s post := rfl

theorem Secures.mono {rule : Rule V σ} (hr : rule.Monotone) {post post' : α → σ → Prop}
    (h : ∀ a s, post a s → post' a s) {p : Procedure V α} {s : σ} (hp : p.Secures rule post s) :
    p.Secures rule post' s := by
  induction p generalizing s with
  | done result => exact h _ _ hp
  | act action next ih => exact hr action s _ _ (fun answer s => ih answer) hp

/-- Whatever it is answered, a procedure asks for nothing else. -/
def Asks (allowed : Action V → Prop) (p : Procedure V α) : Prop :=
  p.Secures (Rule.only allowed) (fun _ _ => True) ()

theorem asks_all (p : Procedure V α) : p.Asks fun _ => True := by
  induction p with
  | done result => trivial
  | act action next ih => exact ⟨trivial, ih⟩

theorem Asks.mono {allowed allowed' : Action V → Prop}
    (h : ∀ action, allowed action → allowed' action) {p : Procedure V α} (hp : p.Asks allowed) :
    p.Asks allowed' := by
  induction p with
  | done result => trivial
  | act action next ih => exact ⟨h action hp.1, fun answer => ih answer (hp.2 answer)⟩

end Procedure

namespace Attempt

def Ends (post : α → σ → Prop) (fails : SessionError → σ → Prop) :
    Except SessionError α → σ → Prop
  | .ok a, s => post a s
  | .error e, s => fails e s

/-- What has to hold before an attempt so that it ends with `post`, or fails with `fails`. -/
def Secures (rule : Rule V σ) (post : α → σ → Prop) (fails : SessionError → σ → Prop)
    (x : Attempt V α) : σ → Prop :=
  Procedure.Secures rule (Ends post fails) x.run

variable {rule : Rule V σ} {fails : SessionError → σ → Prop}

theorem secures_run (post : Except SessionError α → σ → Prop) (x : Attempt V α) :
    x.run.Secures rule post =
      x.Secures rule (fun a => post (.ok a)) (fun e => post (.error e)) := by
  unfold Secures
  congr 1
  funext r s
  cases r <;> rfl

/-- A condition on the state alone, whether the attempt fails or not. -/
theorem Secures.run {post : σ → Prop} {x : Attempt V α} {s : σ}
    (h : x.Secures rule (fun _ => post) (fun _ => post) s) :
    x.run.Secures rule (fun _ => post) s := by
  rw [secures_run]
  exact h

theorem Secures.mono (hr : rule.Monotone) {fails' : SessionError → σ → Prop}
    {post post' : α → σ → Prop} (hp : ∀ a s, post a s → post' a s)
    (hf : ∀ e s, fails e s → fails' e s) {x : Attempt V α} {s : σ}
    (h : x.Secures rule post fails s) : x.Secures rule post' fails' s := by
  refine Procedure.Secures.mono hr (fun r s hr => ?_) h
  cases r with
  | ok a => exact hp a s hr
  | error e => exact hf e s hr

@[simp] theorem secures_pure (post : α → σ → Prop) (a : α) (s : σ) :
    (pure a : Attempt V α).Secures rule post fails s = post a s := rfl

@[simp] theorem secures_bind (post : β → σ → Prop) (x : Attempt V α) (f : α → Attempt V β) (s : σ) :
    (x >>= f).Secures rule post fails s =
      x.Secures rule (fun a s => (f a).Secures rule post fails s) fails s := by
  simp only [Secures, ExceptT.run_bind, Procedure.secures_bind]
  congr 1
  funext r s
  cases r <;> rfl

/-- The parts of a sequence one after the other. -/
theorem Secures.bind {post : β → σ → Prop} {x : Attempt V α} {f : α → Attempt V β} {s : σ}
    (h : x.Secures rule (fun a => (f a).Secures rule post fails) fails s) :
    (x >>= f).Secures rule post fails s := (secures_bind post x f s).mpr h

@[simp] theorem secures_tryCatch (post : α → σ → Prop) (x : Attempt V α)
    (handle : SessionError → Attempt V α) (s : σ) :
    (tryCatch x handle).Secures rule post fails s =
      x.Secures rule post (fun e s => (handle e).Secures rule post fails s) s := by
  simp only [Secures]
  change Procedure.Secures rule _ (x.run >>= fun r => _) s = _
  rw [Procedure.secures_bind]
  congr 1
  funext r s
  cases r <;> rfl

@[simp] theorem secures_lift (post : α → σ → Prop) (p : Procedure V α) (s : σ) :
    Secures rule post fails (ExceptT.lift p) s = p.Secures rule post s := by
  simp only [Secures]
  change Procedure.Secures rule _ (p >>= fun a => _) s = _
  rw [Procedure.secures_bind]
  rfl

@[simp] theorem secures_ask (action : Action V) (post : action.Answer → σ → Prop) (s : σ) :
    (Attempt.ask action).Secures rule post fails s = rule action s post := rfl

@[simp] theorem secures_encode (value : V) (post : Bytes → σ → Prop) (s : σ) :
    (Attempt.encode value).Secures rule post fails s =
      rule (.encode value) s (Ends post fails) := rfl

@[simp] theorem secures_names (call : StoreCall SessionId Names) (post : call.Answer → σ → Prop)
    (s : σ) :
    (Attempt.names call).Secures rule post fails s = rule (.names call) s (Ends post fails) := rfl

@[simp] theorem secures_attributes (call : StoreCall AttributeKey Bytes)
    (post : call.Answer → σ → Prop) (s : σ) :
    (Attempt.attributes call).Secures rule post fails s =
      rule (.attributes call) s (Ends post fails) := rfl

@[simp] theorem secures_ensureOpen (post : Unit → σ → Prop) (s : σ) :
    (Attempt.ensureOpen : Attempt V Unit).Secures rule post fails s =
      rule .isOpen s fun isOpen s => bif isOpen then post () s else fails .factoryClosed s := by
  refine (secures_bind post (ask .isOpen) _ s).trans (congrArg (rule .isOpen s) ?_)
  funext isOpen s
  cases isOpen <;> rfl

section Asks
variable {allowed : Action V → Prop}

/-- Whatever it is answered, an attempt asks for nothing else. -/
def Asks (allowed : Action V → Prop) (x : Attempt V α) : Prop := x.run.Asks allowed

theorem asks_pure (a : α) : (pure a : Attempt V α).Asks allowed := trivial

theorem asks_throw (e : SessionError) : (throw e : Attempt V α).Asks allowed := trivial

theorem asks_bind {x : Attempt V α} {f : α → Attempt V β} (hx : x.Asks allowed)
    (hf : ∀ a, (f a).Asks allowed) : (x >>= f).Asks allowed := by
  refine (congrFun (Procedure.secures_bind _ _ x.run _) ()).mpr ?_
  refine Procedure.Secures.mono (Rule.only_monotone allowed) ?_ hx
  intro r _ _
  cases r with
  | ok a => exact hf a
  | error e => trivial

theorem asks_tryCatch {x : Attempt V α} {handle : SessionError → Attempt V α}
    (hx : x.Asks allowed) (hh : ∀ e, (handle e).Asks allowed) :
    (tryCatch x handle).Asks allowed := by
  refine (congrFun (Procedure.secures_bind _ _ x.run _) ()).mpr ?_
  refine Procedure.Secures.mono (Rule.only_monotone allowed) ?_ hx
  intro r _ _
  cases r with
  | ok a => trivial
  | error e => exact hh e

theorem asks_ask {action : Action V} (h : allowed action) :
    (Attempt.ask action).Asks allowed := ⟨h, fun _ => trivial⟩

theorem asks_encode {value : V} (h : allowed (.encode value)) :
    (Attempt.encode value).Asks allowed := ⟨h, fun _ => trivial⟩

theorem asks_names {call : StoreCall SessionId Names} (h : allowed (.names call)) :
    (Attempt.names call).Asks allowed := ⟨h, fun _ => trivial⟩

theorem asks_attributes {call : StoreCall AttributeKey Bytes} (h : allowed (.attributes call)) :
    (Attempt.attributes call).Asks allowed := ⟨h, fun _ => trivial⟩

theorem asks_ensureOpen (h : allowed .isOpen) : (ensureOpen : Attempt V Unit).Asks allowed := by
  refine asks_bind (asks_ask h) fun isOpen => ?_
  split
  · exact asks_pure ()
  · exact asks_throw _

/-- Of its surroundings the reading of stored entries asks nothing but to decode them. -/
theorem asks_decodeEntries (h : ∀ bytes, allowed (.decode bytes)) (session : SessionId)
    (ids : List AttributeId) (entries : List (AttributeKey × Bytes))
    (values : List (AttributeId × V)) :
    (Session.decodeEntries session ids entries values).Asks allowed := by
  induction ids generalizing entries values with
  | nil => exact asks_pure _
  | cons id rest ih =>
    unfold Session.decodeEntries
    dsimp only
    split
    · exact asks_pure _
    · rename_i bytes _
      refine asks_bind (asks_ask (h bytes)) fun answer => ?_
      split
      · exact asks_pure _
      · exact ih _ _

end Asks
end Attempt

namespace Index

variable {rule : Rule V σ} {fails : SessionError → σ → Prop}

/-- Whether or not the entry can be removed, a discard goes on. -/
theorem secures_discardEntry (session : SessionId) (id : AttributeId) (post : Unit → σ → Prop)
    (s : σ) :
    (discardEntry session id : Attempt V Unit).Secures rule post fails s =
      (removeEntry session id : Attempt V Unit).Secures rule post (fun _ => post ()) s := by
  simp only [discardEntry, Attempt.secures_bind, Attempt.secures_tryCatch]
  rfl

end Index
end SessionAttributes
