import SessionAttributes.Proofs.World.Simulation

namespace SessionAttributes

variable {V σ : Type}

namespace PlainWorld

def start : PlainWorld V := ⟨fun _ => none, fun _ => none, fun _ => none, [], [], 0⟩

def openFactory (p : PlainWorld V) (options : FactoryOptions) (immutability : Immutability V) :
    Except SessionError (Nat × PlainWorld V) := do
  options.validate
  let _ ← Executor.spawn (T := AttributeKey) options.workers
  return (p.factories.length, { p with factories := p.factories ++ [⟨true, immutability⟩] })

def closeFactory (p : PlainWorld V) (number : Nat) : PlainWorld V :=
  { p with factories := p.factories.modify number fun f => { f with isOpen := false } }

def openView (p : PlainWorld V) (notifies : Bool) (number : Nat) (session : SessionId)
    (bundle : Bundle V) : Except SessionError (Nat × PlainWorld V) :=
  match p.factories[number]? with
  | none => .error .factoryClosed
  | some f =>
    if !f.isOpen then .error .factoryClosed
    else .ok (p.views.length, { p with
      views := p.views ++ [⟨⟨session, notifies, f.immutability⟩, number, ⟨bundle, []⟩⟩] })

end PlainWorld

namespace World

variable {w w' : World V σ}

theorem openWith_plain {metadata names attributes : StoreOptions} {scene : σ}
    (h : World.openWith metadata names attributes scene = .ok w) :
    w.Sound ∧ w.plain = PlainWorld.start := by
  obtain ⟨sm, sn, sa, hm, hn, ha, rfl⟩ := openWith_shape h
  refine ⟨⟨Store.openWith_sound hm, Store.openWith_sound hn, Store.openWith_sound ha⟩, ?_⟩
  have hm' := funext (Store.openWith_find hm)
  have hn' := funext (Store.openWith_find hn)
  have ha' := funext (Store.openWith_find ha)
  simp only [World.plain, hm', hn', ha', List.map_nil, PlainWorld.start]

theorem openFactory_plain (options : FactoryOptions) (immutability : Immutability V)
    (context : String) (counts : Bool) :
    (w.openFactory options immutability context counts).map (fun r => (r.1, r.2.plain)) =
      w.plain.openFactory options immutability := by
  unfold openFactory PlainWorld.openFactory
  cases options.validate with
  | error e => rfl
  | ok _ =>
    cases Executor.spawn (T := AttributeKey) options.workers with
    | error e => rfl
    | ok executor =>
      simp only [bind, Except.bind, pure, Except.pure, Except.map]
      simp [plain, Factory.plain]

theorem openFactory_sound {options : FactoryOptions} {immutability : Immutability V}
    {context : String} {counts : Bool} {number : Nat}
    (h : w.openFactory options immutability context counts = .ok (number, w')) (hs : w.Sound) :
    w'.Sound := by
  unfold openFactory at h
  cases hv : options.validate with
  | error e => simp [hv, bind, Except.bind] at h
  | ok _ =>
    cases he : Executor.spawn (T := AttributeKey) options.workers with
    | error e => simp [hv, he, bind, Except.bind] at h
    | ok executor =>
      simp only [hv, he, bind, Except.bind, pure, Except.pure, Except.ok.injEq] at h
      cases h
      exact ⟨hs.metadata, hs.names, hs.attributes⟩

theorem openView_plain (number : Nat) (session : SessionId) (bundle : Bundle V)
    (metadata : Metadata) (context : String) :
    (w.openView number session bundle metadata context).map (fun r => (r.1, r.2.plain)) =
      w.plain.openView w.attributes.store.persistent number session bundle := by
  unfold openView PlainWorld.openView
  simp only [factory?, plain, List.getElem?_map]
  cases w.factories[number]? with
  | none => rfl
  | some f =>
    simp only [Option.map_some, Factory.plain]
    cases f.isOpen <;> simp [Except.map, LiveView.plain]

theorem openView_sound {number n : Nat} {session : SessionId} {bundle : Bundle V}
    {metadata : Metadata} {context : String}
    (h : w.openView number session bundle metadata context = .ok (n, w')) (hs : w.Sound) :
    w'.Sound := by
  unfold openView at h
  split at h
  · cases h
  · split at h
    · cases h
    · cases h
      exact ⟨hs.metadata, hs.names, hs.attributes⟩

/-- A world of empty stores, each with one unbounded shard, and one open factory. -/
def single (V : Type) : World V Unit where
  metadata := ⟨⟨[⟨[], []⟩], none, false, 0, 0⟩, Listeners.empty⟩
  names := ⟨⟨[⟨[], []⟩], none, false, 0, 0⟩, Listeners.empty⟩
  attributes := ⟨⟨[⟨[], []⟩], none, false, 0, 0⟩, Listeners.empty⟩
  factories := [⟨true, Immutability.never, "", none, ⟨1, true, [], [], 0, false⟩,
    ⟨⟨1, false⟩, ⟨1, false⟩, none⟩⟩]
  views := []
  drawn := 0
  scene := ()

theorem single_sound (V : Type) : (single V).Sound := by
  have hshard : ∀ {K T : Type}, ∀ shard ∈ [(⟨[], []⟩ : Shard K T)], shard.Sound := by
    intro K T shard hm
    rw [List.mem_singleton.mp hm]
    exact Shard.sound_empty
  exact ⟨⟨by simp [single], hshard⟩, ⟨by simp [single], hshard⟩, ⟨by simp [single], hshard⟩⟩

theorem single_plain (V : Type) :
    (single V).plain = { PlainWorld.start with factories := [⟨true, Immutability.never⟩] } := by
  have hempty : ∀ {K T : Type} [DecidableEq K] [ShardKey K],
      (⟨[⟨[], []⟩], none, false, 0, 0⟩ : Store K T).find? = fun _ => none := by
    intro K T _ _
    exact funext (Store.find_of_empty fun shard hm => List.mem_singleton.mp hm)
  simp only [plain, single, hempty]
  rfl

/-- The same world with a view of a session over nothing. -/
def viewed : World Bool Unit :=
  { single Bool with
    views := [⟨⟨"s", false, Immutability.never⟩, 0, ⟨Bundle.empty, []⟩, false, none⟩] }

theorem viewed_open :
    (single Bool).openView 0 "s" Bundle.empty ⟨0, 0, 0⟩ "" = .ok (0, viewed) := rfl

theorem viewed_sound : viewed.Sound := openView_sound viewed_open (single_sound Bool)

theorem viewed_plain : viewed.plain = { (PlainWorld.start : PlainWorld Bool) with
    factories := [⟨true, Immutability.never⟩]
    views := [⟨⟨"s", false, Immutability.never⟩, 0, ⟨Bundle.empty, []⟩⟩] } := by
  have hp : viewed.plain = { (single Bool).plain with views := viewed.views.map LiveView.plain } :=
    rfl
  rw [hp, single_plain]
  rfl

def paired : World Bool Unit :=
  { viewed with
    views := viewed.views ++
      [⟨⟨"s", false, Immutability.never⟩, 0, ⟨Bundle.empty, []⟩, false, none⟩] }

theorem paired_open :
    viewed.openView 0 "s" Bundle.empty ⟨0, 0, 0⟩ "" = .ok (1, paired) := rfl

/-- An opened view holds its bundle and stands after the earlier ones. -/
theorem openView_shape {number n : Nat} {session : SessionId} {bundle : Bundle V}
    {metadata : Metadata} {context : String}
    (h : w.openView number session bundle metadata context = .ok (n, w')) :
    n = w.plain.views.length ∧ ∃ view : View V, view.session = session ∧
      w'.plain = { w.plain with views := w.plain.views ++ [⟨view, number, ⟨bundle, []⟩⟩] } := by
  have hp := w.openView_plain number session bundle metadata context
  rw [h] at hp
  unfold PlainWorld.openView at hp
  split at hp
  · cases hp
  · split at hp
    · cases hp
    · obtain ⟨hn, hw⟩ := Prod.mk.inj (Except.ok.inj hp)
      exact ⟨hn, _, rfl, hw⟩

/-- An open factory hands out a view. -/
theorem openView_ok {number : Nat} {f : PlainFactory V} (hf : w.plain.factories[number]? = some f)
    (ho : f.isOpen = true) (session : SessionId) (bundle : Bundle V) (metadata : Metadata)
    (context : String) : ∃ (view : View V) (w' : World V σ), view.session = session ∧
      w.openView number session bundle metadata context = .ok (w.plain.views.length, w') ∧
      w'.plain = { w.plain with views := w.plain.views ++ [⟨view, number, ⟨bundle, []⟩⟩] } := by
  have hp := w.openView_plain number session bundle metadata context
  unfold PlainWorld.openView at hp
  simp only [hf, ho] at hp
  cases hw : w.openView number session bundle metadata context with
  | error fault =>
    rw [hw] at hp
    cases hp
  | ok r =>
    rw [hw] at hp
    obtain ⟨hn, hplain⟩ := Prod.mk.inj (Except.ok.inj hp)
    exact ⟨_, r.2, rfl, congrArg Except.ok (Prod.ext hn rfl), hplain⟩

/-- A factory starts with valid options. -/
theorem openFactory_ok {options : FactoryOptions} (hv : options.validate = .ok ()) (w : World V σ)
    (immutability : Immutability V) (context : String) (counts : Bool) :
    ∃ (f : Factory V) (w' : World V σ), f.isOpen = true ∧
      f.metrics = (if counts then some {} else none) ∧
      w.openFactory options immutability context counts = .ok (w.factories.length, w') ∧
      w'.factories = w.factories ++ [f] ∧ w'.metadata.store = w.metadata.store ∧
      w'.names.store = w.names.store ∧ w'.attributes.store = w.attributes.store ∧
      w'.views = w.views ∧ w'.drawn = w.drawn := by
  have hworkers : options.workers ≠ 0 := by
    intro hw
    simp [FactoryOptions.validate, hw] at hv
  have hspawn : Executor.spawn (T := AttributeKey) options.workers =
      .ok ⟨options.workers, true, [], [], 0, false⟩ := if_neg hworkers
  unfold openFactory
  simp only [hv, hspawn, bind, Except.bind, pure, Except.pure, Except.ok.injEq, Prod.mk.injEq,
    true_and]
  refine ⟨_, _, ?_, ?_, rfl, rfl, rfl, rfl, rfl, rfl, rfl⟩ <;> rfl

variable {env : Surroundings V σ} {m : Marshaller V}

theorem unsubscribe_keeps (w : World V σ) (s : Subscriptions) : w.Keeps (w.unsubscribe s) := by
  intro hs
  unfold unsubscribe
  cases s.attributes with
  | none => exact ⟨⟨hs.metadata, hs.names, hs.attributes⟩, rfl⟩
  | some r => exact ⟨⟨hs.metadata, hs.names, hs.attributes⟩, rfl⟩

theorem closeView_keeps (w : World V σ) (number : Nat) : w.Keeps (w.closeView number) :=
  changeView_keeps w number _ fun _ => rfl

/-- Closing a factory shows in nothing but the factory, whatever its workers still carry out. -/
theorem closeFactory_plain (hc : env.Calm m) (hs : w.Sound) (number : Nat) :
    (w.closeFactory env number).Sound ∧
      (w.closeFactory env number).plain = w.plain.closeFactory number := by
  have hsame : (∀ f, w.plain.factories[number]? = some f → f.isOpen = false) →
      w.plain.closeFactory number = w.plain := by
    intro hf
    have he : w.plain.factories.modify number (fun f => { f with isOpen := false }) =
        w.plain.factories := by
      apply List.ext_getElem?
      intro i
      simp only [List.getElem?_modify]
      by_cases hi : number = i
      · subst hi
        cases hi : w.plain.factories[number]? with
        | none => rfl
        | some f => simp [← hf f hi]
      · simp [hi]
    simp only [PlainWorld.closeFactory, he]
  unfold closeFactory
  cases hf : w.factory? number with
  | none =>
    refine ⟨hs, (hsame fun f h => ?_).symm⟩
    rw [factory?] at hf
    simp [plain, hf] at h
  | some f =>
    dsimp only
    cases ho : f.isOpen with
    | false =>
      refine ⟨hs, (hsame fun f' h => ?_).symm⟩
      rw [factory?] at hf
      simp only [plain, List.getElem?_map, hf, Option.map_some, Option.some.injEq] at h
      rw [← h]
      exact ho
    | true =>
      obtain ⟨hs₁, hp₁⟩ := unsubscribe_keeps w f.subscriptions hs
      let closed := (w.unsubscribe f.subscriptions).changeFactory number fun f =>
        { f with isOpen := false, executor := f.executor.stopAccepting }
      have hp₂ : closed.plain = (w.unsubscribe f.subscriptions).plain.closeFactory number :=
        changeFactory_plain _ number fun _ => rfl
      have hs₂ : closed.Sound := ⟨hs₁.metadata, hs₁.names, hs₁.attributes⟩
      have hjoin : (closed.runTasks env number).Keeps ((closed.runTasks env number).changeFactory
          number fun f => { f with executor := f.executor.join }) :=
        changeFactory_keeps _ number fun _ => rfl
      obtain ⟨hs₃, hp₃⟩ := (runTasks_keeps hc number closed).trans hjoin hs₂
      refine ⟨hs₃, hp₃.trans ?_⟩
      rw [hp₂, hp₁]

end World
end SessionAttributes
