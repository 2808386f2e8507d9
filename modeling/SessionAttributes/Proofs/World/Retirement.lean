import Mathlib.Data.List.Perm.Basic
import SessionAttributes.Proofs.World.Enrolment

namespace SessionAttributes

variable {V σ : Type}

namespace Executor

variable {T : Type}

def tasks (e : Executor T) : List T := e.queued ++ e.running

theorem tasks_received (e : Executor T) : e.received.tasks.Perm e.tasks := by
  rcases e.received_cases with he | ⟨task, rest, hq, he⟩
  · rw [he]
  · rw [he, tasks, tasks, hq, ← List.append_assoc]
    exact List.perm_append_singleton task (rest ++ e.running)

theorem tasks_finish {e : Executor T} {position : Nat} {task : T}
    (h : e.running[position]? = some task) : (task :: (e.finish position).tasks).Perm e.tasks := by
  obtain ⟨hlt, rfl⟩ := List.getElem?_eq_some_iff.mp h
  have hrunning := List.getElem_cons_eraseIdx_perm hlt
  exact List.perm_middle.symm.trans (hrunning.append_left e.queued)

/-- A step of a worker, if there is one that can make it. -/
def advanced (e : Executor T) : WorkerStep → Executor T
  | .receive => e.received
  | .finish position => if position < e.running.length then e.finish position else e

theorem advanced_accepting (e : Executor T) (step : WorkerStep) :
    (e.advanced step).accepting = e.accepting := by
  cases step with
  | receive => exact e.received_accepting
  | finish position =>
    unfold advanced
    dsimp only
    split <;> rfl

/-- The workers finish what they have received. -/
theorem advanced_finishes (n : Nat) {e : Executor T} (hn : e.running.length = n) :
    let e' := (List.replicate n (.finish 0)).foldl advanced e
    e'.running = [] ∧ e'.queued = e.queued ∧ e'.workers = e.workers := by
  induction n generalizing e with
  | zero => exact ⟨List.eq_nil_of_length_eq_zero hn, rfl, rfl⟩
  | succ n ih =>
    obtain ⟨task, rest, hr⟩ := List.exists_cons_of_length_eq_add_one hn
    have hfirst : e.advanced (.finish 0) = e.finish 0 := by simp [advanced, hr]
    have hrest : (e.finish 0).running.length = n := by simpa [finish, hr] using hn
    rw [List.replicate_succ, List.foldl_cons, hfirst]
    exact ih hrest

/-- Free workers receive what is queued, one task after the other, and finish it. -/
theorem advanced_receives (n : Nat) {e : Executor T} (hn : e.queued.length = n)
    (hr : e.running = []) (hw : 0 < e.workers) :
    let e' := (List.replicate n [WorkerStep.receive, .finish 0]).flatten.foldl advanced e
    e'.running = [] ∧ e'.queued = [] := by
  induction n generalizing e with
  | zero => exact ⟨hr, List.eq_nil_of_length_eq_zero hn⟩
  | succ n ih =>
    obtain ⟨task, rest, hq⟩ := List.exists_cons_of_length_eq_add_one hn
    have hfirst : (e.advanced .receive).advanced (.finish 0) =
        { e with queued := rest, pending := e.pending - 1 } := by
      simp [advanced, received, receive, finish, hq, hr, hw]
    have hrest : rest.length = n := by simpa [hq] using hn
    rw [List.replicate_succ, List.flatten_cons, List.foldl_append]
    simp only [List.foldl_cons, List.foldl_nil, hfirst]
    exact ih hrest hr hw

theorem advanced_foldl_accepting (steps : List WorkerStep) (e : Executor T) :
    (steps.foldl advanced e).accepting = e.accepting := by
  induction steps generalizing e with
  | nil => rfl
  | cons step steps ih => rw [List.foldl_cons, ih, advanced_accepting]

/-- Nothing is left when the workers have carried out what remained, and nothing more was
accepted. -/
theorem remainingSteps_drain {e : Executor T} (ha : e.accepting = false) (hw : 0 < e.workers) :
    (e.remainingSteps.foldl advanced e).isDrained = true := by
  obtain ⟨hr, hq, hworkers⟩ := advanced_finishes e.running.length (e := e) rfl
  have hrest := advanced_receives e.queued.length (by rw [hq]) hr (by rw [hworkers]; exact hw)
  rw [isDrained_iff, advanced_foldl_accepting, remainingSteps, List.foldl_append]
  exact ⟨ha, hrest.2, hrest.1⟩

end Executor

namespace World

variable {env : Surroundings V σ} {w w' : World V σ} {number : Nat}

/-- What neither tasks nor counters end is ended by the factory itself only. -/
theorem Has.aside {P : Factory V → Prop}
    (hx : ∀ (f : Factory V) key, P f → P { f with executor := f.executor.execute key })
    (hm : ∀ (f : Factory V) metrics, P f → P { f with metrics }) (h : w.Has number P)
    (he : env.Stirring) {happening : Happening V} (ho : ¬ happening.Own number) :
    (w.happen env happening).Has number P := by
  have hother : ∀ {w : World V σ} {k : Nat} {change : Factory V → Factory V},
      k ≠ number → w.Has number P → (w.changeFactory k change).Has number P :=
    fun hk h => h.change _ (fun heq => absurd heq hk) fun _ _ => id
  refine (has_perennial hx hm).ever (fun k work hk h => hother hk h) (fun {w} k hk h => ?_) he
    (fun k hown heq => ho (heq ▸ hown)) h
  rcases stop_still w k with hsame | ⟨f, hf, hopen⟩
  · rw [hsame]
    exact h
  · rw [stop_eq hf hopen]
    exact hother hk h

/-- A factory is closed and has a pool in a certain state. -/
def Quits (number : Nat) (e : Executor AttributeKey) : World V σ → Prop :=
  Has number fun f => f.isOpen = false ∧ f.executor = e

section Quitting
variable {e : Executor AttributeKey}

/-- No callback hands a task to a pool that does not accept. -/
theorem quits_perennial (ha : e.accepting = false) :
    Perennial (Quits (V := V) (σ := σ) number e) := by
  refine has_perennial (fun f key ⟨hc, hx⟩ => ⟨hc, ?_⟩) fun f metrics h => h
  rw [hx]
  exact Executor.execute_closed ha key

/-- A worker makes its step, and nothing else happens to the pool. -/
theorem Quits.workerStep (h : w.Quits number e) (ha : e.accepting = false) (he : env.Stirring)
    (step : WorkerStep) : (w.workerStep env number step).Quits number (e.advanced step) := by
  cases step with
  | receive =>
    rw [receive_eq]
    refine Has.change h number (fun _ f ⟨hc, hx⟩ => ⟨hc, ?_⟩) fun hk => absurd rfl hk
    rw [hx]
    rfl
  | finish position =>
    obtain ⟨f, hf, hc, rfl⟩ := h
    cases hrunning : f.executor.running[position]? with
    | none =>
      have hnone : ((w.factory? number).bind fun f => f.executor.running[position]?) = none := by
        rw [hf]
        exact hrunning
      have hstill : f.executor.advanced (.finish position) = f.executor :=
        if_neg (Nat.not_lt.mpr (List.getElem?_eq_none_iff.mp hrunning))
      rw [finish_nothing hnone, hstill]
      exact ⟨f, hf, hc, rfl⟩
    | some key =>
      have hsome :
          ((w.factory? number).bind fun f => f.executor.running[position]?) = some key := by
        rw [hf]
        exact hrunning
      have hdone : f.executor.advanced (.finish position) = f.executor.finish position :=
        if_pos (List.getElem?_eq_some_iff.mp hrunning).1
      have hperennial : Perennial (Quits (V := V) (σ := σ) number f.executor) := quits_perennial ha
      rw [finish_task hsome, hdone]
      have hevicted := hperennial.enduring.callAttributes (hperennial.observes he) (.evict key)
        ⟨f, hf, hc, rfl⟩
      exact Has.change hevicted number
        (fun _ f' ⟨hc', hx⟩ => ⟨hc', congrArg (·.finish position) hx⟩) fun hk => absurd rfl hk

theorem Quits.workerSteps (h : w.Quits number e) (ha : e.accepting = false) (he : env.Stirring)
    (steps : List WorkerStep) :
    (w.workerSteps env number steps).Quits number (steps.foldl Executor.advanced e) := by
  induction steps generalizing w e with
  | nil => exact h
  | cons step steps ih =>
    exact ih (h.workerStep ha he step) ((e.advanced_accepting step).trans ha)

end Quitting

/-- The close of a factory has returned: the factory is closed and its workers have left. -/
def HasClosed (number : Nat) : World V σ → Prop :=
  Has number fun f => f.isOpen = false ∧ f.executor.joined = true

theorem closed_perennial : Perennial (HasClosed (V := V) (σ := σ) number) := by
  refine has_perennial (fun f key ⟨ho, hj⟩ => ⟨ho, ?_⟩) fun f metrics h => h
  unfold Executor.execute
  dsimp only
  split <;> exact hj

theorem Regular.drained (h : w.Regular) (hc : w.HasClosed number) :
    ∃ e : Executor AttributeKey, w.Quits number e ∧ e.joined = true ∧ e.isDrained = true := by
  obtain ⟨f, hf, ho, hj⟩ := hc
  exact ⟨f.executor, ⟨f, hf, ho, rfl⟩, hj, (h.pools hf).joined hj⟩

/-- A factory that does not accept any more can always be closed to the end. -/
theorem Regular.runTasks_joins (h : w.Regular) (he : env.Stirring) {f : Factory V}
    (hf : w.factory? number = some f) (ho : f.isOpen = false) :
    ((w.runTasks env number).join number).HasClosed number := by
  have hpool := h.pools hf
  have ha : f.executor.accepting = false := hpool.accepting.trans ho
  have hquits : w.Quits number f.executor := ⟨f, hf, ho, rfl⟩
  obtain ⟨f', hf', ho', hx⟩ := hquits.workerSteps ha he f.executor.remainingSteps
  have hdrained := Executor.remainingSteps_drain ha hpool.staffed
  have hrun : w.runTasks env number = w.workerSteps env number f.executor.remainingSteps := by
    rw [runTasks, hf]
    rfl
  refine ⟨{ f' with executor := f'.executor.join }, ?_, ho', ?_⟩
  · rw [hrun, World.join, factory?_changeFactory, if_pos rfl, hf']
    rfl
  · change f'.executor.join.joined = true
    rw [Executor.join_drained (by rw [hx]; exact hdrained)]

theorem stop_factory {f : Factory V} (hf : w.factory? number = some f) (ho : f.isOpen = true) :
    (w.stop number).factory? number =
      some { f with isOpen := false, executor := f.executor.stopAccepting } := by
  rw [stop_factory? hf ho, if_pos rfl, hf]
  rfl

/-- Closing an open factory returns. -/
theorem Regular.closes (h : w.Regular) (he : env.Stirring) {f : Factory V}
    (hf : w.factory? number = some f) (ho : f.isOpen = true) :
    (w.closeFactory env number).HasClosed number := by
  rw [closeFactory_eq env w hf ho]
  exact (h.stop number).runTasks_joins he (stop_factory hf ho) rfl

theorem closeFactory_idle (env : Surroundings V σ) (h : w.subscriptions? number = none) :
    w.closeFactory env number = w := by
  unfold World.closeFactory
  cases hf : w.factory? number with
  | none => rfl
  | some f =>
    cases ho : f.isOpen with
    | false => simp [ho]
    | true => exact absurd ((subscriptions?_of_open hf ho).symm.trans h) nofun

/-- To close a factory is a number of things that it does of its own accord. -/
theorem closeFactory_own {I : World V σ → Prop}
    (hstep : ∀ {w : World V σ} {happening : Happening V}, happening.Own number → I w →
      I (w.happen env happening)) (h : I w) : I (w.closeFactory env number) := by
  have hsteps : ∀ (steps : List WorkerStep) {w : World V σ}, I w →
      I (w.workerSteps env number steps) := by
    intro steps
    induction steps with
    | nil => exact id
    | cons step steps ih =>
      intro w h
      exact ih (hstep (show (Happening.work number step).Own number from rfl) h)
  cases hs : w.subscriptions? number with
  | none =>
    rw [closeFactory_idle env hs]
    exact h
  | some s =>
    obtain ⟨f, hf, ho, -⟩ := subscriptions?_some hs
    rw [closeFactory_eq env w hf ho]
    have hstopped := hstep (show (Happening.stop number).Own number from rfl) h
    exact hstep (show (Happening.join number).Own number from rfl) (hsteps _ hstopped)

/-- What happens after a moment, and the tasks that the workers of a factory finish meanwhile. -/
inductive Later (number : Nat) (w : World V σ) : List AttributeKey → World V σ → Prop
  | start : Later number w [] w
  | step {finished : List AttributeKey} {w' : World V σ} (h : Later number w finished w')
      {env : Surroundings V σ} (he : env.Stirring) (happening : Happening V) :
      Later number w (finished ++ w'.finishes number happening) (w'.happen env happening)

section Accounting

/-- A pool has been handed more tasks, perhaps, and no worker has made a step. -/
def Owes (number : Nat) (queued running : List AttributeKey) : World V σ → Prop :=
  Has number fun f => queued <+: f.executor.queued ∧ f.executor.running = running

theorem owes_execute (queued running : List AttributeKey) (f : Factory V) (key : AttributeKey)
    (h : queued <+: f.executor.queued ∧ f.executor.running = running) :
    queued <+: (f.executor.execute key).queued ∧ (f.executor.execute key).running = running := by
  unfold Executor.execute
  split
  · exact ⟨h.1.trans (List.prefix_append _ _), h.2⟩
  · exact h

theorem finishes_aside {happening : Happening V} (ho : ¬ happening.Own number) :
    w.finishes number happening = [] := by
  cases happening with
  | work k step =>
    cases step with
    | receive => rfl
    | finish position => exact if_neg ho
  | _ => rfl

theorem owes_subperm {f f' : Factory V} (h : f.executor.queued <+: f'.executor.queued ∧
    f'.executor.running = f.executor.running) :
    f.executor.tasks.Subperm f'.executor.tasks := by
  obtain ⟨hq, hr⟩ := h
  rw [Executor.tasks, Executor.tasks, hr]
  exact (hq.sublist.append_right _).subperm

/-- What a factory does of its own accord drops no task that no worker has finished. -/
theorem own_accounts (he : env.Stirring) {f : Factory V} (hf : w.factory? number = some f)
    {happening : Happening V} (ho : happening.Own number) :
    (w.happen env happening).Has number fun f' =>
      f.executor.tasks.Subperm (w.finishes number happening ++ f'.executor.tasks) := by
  have howes : w.Owes number f.executor.queued f.executor.running :=
    ⟨f, hf, List.prefix_rfl, rfl⟩
  have hself : ∀ {w' : World V σ} {change : Factory V → Factory V},
      w'.Owes number f.executor.queued f.executor.running →
      (∀ f', (change f').executor.tasks.Perm f'.executor.tasks) →
      (w'.changeFactory number change).Has number fun f' =>
        f.executor.tasks.Subperm f'.executor.tasks := fun h hc =>
    Has.change h number (fun _ f' hf' => (owes_subperm hf').trans (hc f').symm.subperm)
      fun hk => absurd rfl hk
  cases happening with
  | work k step =>
    obtain rfl : k = number := ho
    cases step with
    | receive =>
      change (w.workerStep env k .receive).Has k _
      rw [receive_eq]
      exact hself howes fun f' => f'.executor.tasks_received
    | finish position =>
      change (w.workerStep env k (.finish position)).Has k _
      cases hrunning : (w.factory? k).bind fun f => f.executor.running[position]? with
      | none =>
        rw [finish_nothing hrunning]
        exact ⟨f, hf, (List.sublist_append_right _ _).subperm⟩
      | some key =>
        have hperennial : Perennial (Owes (V := V) (σ := σ) k f.executor.queued
          f.executor.running) := has_perennial (owes_execute _ _) fun _ _ => id
        have hevicted := hperennial.enduring.callAttributes (hperennial.observes he)
          (.evict key) howes
        rw [finish_task hrunning, finishes_task hrunning, if_pos rfl]
        refine Has.change hevicted k (fun _ f' hf' => ?_) fun hk => absurd rfl hk
        rw [hf, Option.bind_some, ← hf'.2] at hrunning
        exact (owes_subperm hf').trans (Executor.tasks_finish hrunning).symm.subperm
  | stop k =>
    obtain rfl : k = number := ho
    change (w.stop k).Has k _
    rcases stop_still w k with hsame | ⟨f', hf', hopen⟩
    · rw [hsame]
      exact ⟨f, hf, List.Subperm.refl _⟩
    · rw [stop_eq hf' hopen]
      exact hself howes fun _ => .rfl
  | join k =>
    obtain rfl : k = number := ho
    refine hself howes fun f' => ?_
    unfold Executor.join
    dsimp only
    split <;> rfl
  | _ => cases ho

/-- A task waits until a worker finishes it. -/
theorem happen_accounts (he : env.Stirring) {f : Factory V} (hf : w.factory? number = some f)
    (happening : Happening V) :
    (w.happen env happening).Has number fun f' =>
      f.executor.tasks.Subperm (w.finishes number happening ++ f'.executor.tasks) := by
  by_cases ho : happening.Own number
  · exact own_accounts he hf ho
  · have howes : w.Owes number f.executor.queued f.executor.running :=
      ⟨f, hf, List.prefix_rfl, rfl⟩
    obtain ⟨f', hf', hmore⟩ := howes.aside (owes_execute _ _) (fun _ _ => id) he ho
    rw [finishes_aside ho]
    exact ⟨f', hf', owes_subperm hmore⟩

theorem Later.accounts {finished : List AttributeKey} (h : Later number w finished w')
    {f : Factory V} (hf : w.factory? number = some f) :
    w'.Has number fun f' => f.executor.tasks.Subperm (finished ++ f'.executor.tasks) := by
  induction h with
  | start => exact ⟨f, hf, List.Subperm.refl _⟩
  | step _ he happening ih =>
    obtain ⟨f', hf', hbefore⟩ := ih
    obtain ⟨f'', hf'', hnow⟩ := happen_accounts he hf' happening
    refine ⟨f'', hf'', hbefore.trans ?_⟩
    rw [List.append_assoc]
    exact (List.subperm_append_left _).mpr hnow

theorem Later.lived {finished : List AttributeKey} (h : Later number w finished w')
    (hw : w.Lived) : w'.Lived := by
  induction h with
  | start => exact hw
  | step _ he happening ih => exact ih.step he happening

/-- Nothing is left that was ever accepted when the workers have left. -/
theorem Later.finishes_all {finished : List AttributeKey} (h : Later number w finished w')
    (hw : w.Lived) (hc : w'.HasClosed number) {f : Factory V} (hf : w.factory? number = some f) :
    f.executor.tasks.Subperm finished := by
  obtain ⟨f', hf', htasks⟩ := h.accounts hf
  obtain ⟨e, ⟨f'', hf'', -, rfl⟩, -, hdrained⟩ := (h.lived hw).regular.drained hc
  obtain rfl := Option.some.inj (hf'.symm.trans hf'')
  obtain ⟨-, hq, hr⟩ := f'.executor.isDrained_iff.mp hdrained
  have hnone : f'.executor.tasks = [] := by rw [Executor.tasks, hq, hr, List.append_nil]
  rw [hnone, List.append_nil] at htasks
  exact htasks

/-- Closing a factory is one of the things that may happen. -/
theorem Later.closeFactory (w : World V σ) (he : env.Stirring) (number : Nat) :
    ∃ finished, Later number w finished (w.closeFactory env number) := by
  refine closeFactory_own (I := fun w' => ∃ finished, Later number w finished w') ?_ ⟨[], .start⟩
  rintro w' happening - ⟨finished, h⟩
  exact ⟨_, h.step he happening⟩

end Accounting

end World

/-- Surroundings in which the provider of one factory is another one. -/
def Surroundings.replacing (env : Surroundings V σ) (number : Nat)
    (provider : Callback V → World V σ → World V σ) : Surroundings V σ :=
  { env with callback := fun c w => if c.factory = number then provider c w else env.callback c w }

/-- Whether a view raises a callback of its own accord. -/
def Happening.isAnnouncement : Happening V → Bool
  | .act _ (.notify ..) => true
  | _ => false

namespace World

variable {env : Surroundings V σ} {w w' : World V σ} {number : Nat}

/-- A factory is closed in a world in which exactly the open ones listen. -/
def Silent (number : Nat) (w : World V σ) : Prop :=
  w.Regular ∧ w.Has number fun f => f.isOpen = false

theorem silent_perennial : Perennial (Silent (V := V) (σ := σ) number) :=
  regular_perennial.and (has_perennial (fun _ _ => id) fun _ _ => id)

theorem Silent.unlisted (h : w.Silent number) (shelf : Shelf) :
    (w.listenersOf shelf).entriesOf (.factory number) = [] := by
  obtain ⟨hregular, f, hf, ho⟩ := h
  refine (hregular.listed shelf).absent ?_
  simp [enrolled, subscriptions?, hf, ho]

theorem tellAttributes_replacing (provider : Callback V → World V σ → World V σ)
    {hearer : Subscriber} (hh : hearer ≠ .factory number) (event : Event AttributeKey Bytes)
    (w : World V σ) :
    tellAttributes (env.replacing number provider) hearer event w =
      tellAttributes env hearer event w := by
  cases hearer with
  | observer k => rfl
  | factory k =>
    have hk : k ≠ number := fun he => hh (congrArg _ he)
    have hraise : ∀ direction session context value (w : World V σ),
        w.raise (env.replacing number provider) ⟨k, direction, session, context, value⟩ =
          w.raise env ⟨k, direction, session, context, value⟩ := by
      intro direction session context value w
      simp [raise, Surroundings.replacing, hk]
    cases event with
    | prePassivate key bytes => simp only [tellAttributes, relay, hraise]; rfl
    | postActivate key bytes => simp only [tellAttributes, relay, hraise]; rfl
    | _ => rfl

theorem guarded_congr (env : Surroundings V σ) {A : Type} {request : Request}
    {serve serve' : World V σ → A × World V σ}
    (h : serve (env.before request w).2 = serve' (env.before request w).2) :
    w.guarded env request serve = w.guarded env request serve' := by
  unfold guarded
  generalize env.before request w = r at h
  obtain ⟨fault, w₁⟩ := r
  cases fault with
  | some fault => rfl
  | none =>
    dsimp only at h ⊢
    rw [h]

theorem Silent.callAttributes_unheard (h : w.Silent number) (he : env.Stirring)
    (provider : Callback V → World V σ → World V σ) (call : StoreCall AttributeKey Bytes) :
    w.callAttributes (env.replacing number provider) call = w.callAttributes env call := by
  have hperennial : Perennial (Silent (V := V) (σ := σ) number) := silent_perennial
  have hobserves := hperennial.observes he
  have henduring := hperennial.enduring
  have hserve : ∀ {w : World V σ}, w.Silent number →
      attributesPlace.serve (tellAttributes (env.replacing number provider)) w call =
        attributesPlace.serve (tellAttributes env) w call := by
    intro w hw
    refine attributesPlace.serve_congr (I := Silent number) (fun _ _ => henduring.attributes)
      (fun hearer event _ => henduring.tellAttributes hobserves hearer event)
      (fun w hw hearer hm event w' _ => tellAttributes_replacing provider ?_ event w') hw call
    rintro rfl
    obtain ⟨e, he, hs⟩ := List.mem_map.mp hm
    have hnone := List.filter_eq_nil_iff.mp (hw.unlisted .attributes) e he
    exact hnone (by simp [hs])
  exact guarded_congr env (hserve (hobserves.before (.attributes call) w h))

/-- The stores reach the provider of a factory through its listener only. -/
theorem Silent.unheard (h : w.Silent number) (he : env.Stirring)
    (provider : Callback V → World V σ → World V σ) {happening : Happening V}
    (hn : happening.isAnnouncement = false) :
    w.happen (env.replacing number provider) happening = w.happen env happening := by
  cases happening with
  | act actor action =>
    cases action with
    | attributes call => exact congrArg Prod.snd (h.callAttributes_unheard he provider call)
    | notify direction value => cases hn
    | _ => rfl
  | work k step =>
    cases step with
    | receive => rfl
    | finish position =>
      change w.workerStep _ k (.finish position) = w.workerStep _ k (.finish position)
      cases hf : (w.factory? k).bind fun f => f.executor.running[position]? with
      | none => rw [finish_nothing hf, finish_nothing hf]
      | some key => rw [finish_task hf, finish_task hf, h.callAttributes_unheard he]
  | _ => rfl

/-- What is asked of a factory that is closed is refused at once. -/
theorem closed_refuses {P : Factory V → Prop} (hP : ∀ f, P f → f.isOpen = false)
    (h : w.Has number P) (env : Surroundings V σ) (view : Option Nat) {α : Type}
    (next : Unit → Attempt V α) :
    w.carryOut env ⟨number, view⟩ (Attempt.ensureOpen >>= next).run =
      (.error .factoryClosed, w) := by
  obtain ⟨f, hf, hp⟩ := h
  have hclosed : ((w.factory? number).map Factory.isOpen).getD false = false := by
    simp [hf, hP f hp]
  have hrun : (Attempt.ensureOpen >>= next : Attempt V α).run =
      .act .isOpen fun isOpen : Bool =>
        bif isOpen then (next ()).run else .done (.error .factoryClosed) := by
    refine congrArg (Procedure.act .isOpen) (funext fun isOpen => ?_)
    cases isOpen <;> rfl
  rw [hrun]
  simp only [carryOut, Procedure.runWith, perform, hclosed]
  rfl

/-- Whoever closes a factory that is closed, or lets its workers go on, does nothing. -/
theorem Regular.own_idle (h : w.Regular) (hc : w.HasClosed number) (env : Surroundings V σ)
    {happening : Happening V} (ho : happening.Own number) : w.happen env happening = w := by
  obtain ⟨e, ⟨f, hf, hclosed, rfl⟩, hjoined, hdrained⟩ := h.drained hc
  obtain ⟨-, -, hrunning⟩ := f.executor.isDrained_iff.mp hdrained
  have hself : ∀ {change : Factory V → Factory V}, change f = f →
      w.changeFactory number change = w := by
    intro change hchange
    refine changeFactory_self fun f' hf' => ?_
    obtain rfl := Option.some.inj (hf.symm.trans hf')
    exact hchange
  cases happening with
  | work k step =>
    obtain rfl : k = number := ho
    cases step with
    | receive =>
      refine (receive_eq env w k).trans (hself ?_)
      rw [Executor.received_drained hdrained]
    | finish position =>
      refine finish_nothing ?_
      simp [hf, hrunning]
  | stop k =>
    obtain rfl : k = number := ho
    exact stop_idle (by simp [subscriptions?, hf, hclosed])
  | join k =>
    obtain rfl : k = number := ho
    refine hself ?_
    rw [Executor.join_drained hdrained, ← hjoined]
  | _ => cases ho

/-- Whatever happens, a factory that is closed stays as it is to the stores and to its workers. -/
theorem Regular.stays (h : w.Regular) (hc : w.HasClosed number) (he : env.Stirring)
    (happening : Happening V) :
    ((w.happen env happening).factory? number).map Factory.post =
      (w.factory? number).map Factory.post := by
  by_cases ho : happening.Own number
  · rw [h.own_idle hc env ho]
  · obtain ⟨e, ⟨f, hf, -, rfl⟩, -, hdrained⟩ := h.drained hc
    obtain ⟨haccepting, -⟩ := f.executor.isDrained_iff.mp hdrained
    have hstart : w.Has number fun f' => f'.post = f.post := ⟨f, hf, rfl⟩
    have hexecute : ∀ (f' : Factory V) key, f'.post = f.post →
        ({ f' with executor := f'.executor.execute key } : Factory V).post = f.post := by
      intro f' key hp
      have hx : f'.executor = f.executor := congrArg (·.2.2) hp
      rw [← hp, Factory.post, Executor.execute_closed (by rw [hx]; exact haccepting)]
      rfl
    obtain ⟨f', hf', hp⟩ := hstart.aside hexecute (fun _ _ => id) he ho
    rw [hf, hf', Option.map_some, Option.map_some, hp]

structure Ended (number : Nat) (w : World V σ) : Prop where
  /-- None of its listeners is registered. -/
  unlisted : ∀ shelf, (w.listenersOf shelf).entriesOf (.factory number) = []
  /-- Whatever happens next, its provider is not told of it, unless by a view: it might as well be
  another one. -/
  unheard : ∀ {env : Surroundings V σ}, env.Stirring → ∀ provider {happening : Happening V},
    happening.isAnnouncement = false →
    w.happen (env.replacing number provider) happening = w.happen env happening
  /-- Whatever happens next, it stays closed, with the same registrations and the same pool. -/
  stays : ∀ {env : Surroundings V σ}, env.Stirring → ∀ happening,
    ((w.happen env happening).factory? number).map Factory.post =
      (w.factory? number).map Factory.post
  /-- It refuses to load and to delete, and changes nothing. -/
  refuses : ∀ (env : Surroundings V σ) view session,
    w.carryOut env ⟨number, view⟩ (Session.find session).run = (.error .factoryClosed, w) ∧
    w.carryOut env ⟨number, view⟩ (Session.peek session).run = (.error .factoryClosed, w) ∧
    w.carryOut env ⟨number, view⟩ (Session.remove session).run = (.error .factoryClosed, w) ∧
    w.carryOut env ⟨number, view⟩ (Session.purge session).run = (.error .factoryClosed, w)
  /-- It hands out no view. -/
  viewless : ∀ session bundle metadata context,
    w.openView number session bundle metadata context = .error .factoryClosed
  /-- Closing it again changes nothing, nor does anything that its workers could do. -/
  idle : ∀ (env : Surroundings V σ), w.closeFactory env number = w ∧
    ∀ {happening : Happening V}, happening.Own number → w.happen env happening = w

/-- When the close of a factory has returned its influence has ended. -/
theorem Regular.ends (h : w.Regular) (hc : w.HasClosed number) : w.Ended number := by
  have hsilent : w.Silent number := by
    obtain ⟨f, hf, ho, -⟩ := hc
    exact ⟨h, f, hf, ho⟩
  have hidle : w.subscriptions? number = none := by
    obtain ⟨-, f, hf, ho⟩ := hsilent
    simp [subscriptions?, hf, ho]
  refine ⟨hsilent.unlisted, fun he provider _ hn => hsilent.unheard he provider hn,
    fun he happening => h.stays hc he happening, fun env view session => ?_,
    fun session bundle metadata context => ?_,
    fun env => ⟨closeFactory_idle env hidle, fun ho => h.own_idle hc env ho⟩⟩
  · have hrefuses {α : Type} (next : Unit → Attempt V α) :=
      closed_refuses (fun f (hp : f.isOpen = false) => hp) hsilent.2 env view next
    exact ⟨hrefuses _, hrefuses _, hrefuses _, hrefuses _⟩
  · obtain ⟨-, f, hf, ho⟩ := hsilent
    simp [openView, hf, ho]

end World
end SessionAttributes
