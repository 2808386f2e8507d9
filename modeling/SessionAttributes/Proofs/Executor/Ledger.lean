import SessionAttributes.Proofs.Executor.Crew

namespace SessionAttributes

variable {T : Type}

def Job.outcome (job : Job T) : Option Nat := job.ended.map fun _ => job.number

@[simp] theorem Job.outcome_unended {job : Job T} (h : job.ended = none) : job.outcome = none := by
  simp [outcome, h]

@[simp] theorem Job.outcome_ended {job : Job T} (h : job.ended ≠ none) :
    job.outcome = some job.number := by
  cases he : job.ended with
  | none => exact absurd he h
  | some _ => simp [outcome, he]

theorem Executor.join_shape (e : Executor (Job T)) : ∃ joined, e.join = { e with joined } := by
  unfold join
  split
  · exact ⟨true, rfl⟩
  · exact ⟨e.joined, rfl⟩

namespace Crew

theorem perm_move (done before after : List Nat) (n : Nat) :
    (done ++ (before ++ n :: after)).Perm (done ++ [n] ++ (before ++ after)) := by
  rw [List.append_assoc]
  exact List.perm_middle.append_left done

theorem perm_fill {all done before after : List Nat} {n : Nat}
    (h : all.Perm (done ++ (before ++ after))) :
    (all ++ [n]).Perm (done ++ (before ++ n :: after)) := by
  have hlast : (done ++ (before ++ after) ++ [n]).Perm (done ++ [n] ++ (before ++ after)) := by
    rw [List.append_assoc done, List.append_assoc done]
    exact List.perm_append_comm.append_left done
  exact ((h.append_right [n]).trans hlast).trans (perm_move done before after n).symm

structure Books (c : Crew T) : Prop where
  pending : c.executor.pending = c.executor.queued.length + c.executor.running.length
  accepted : c.accepted = c.received ++ c.executor.queued.map Job.number
  received : c.received.Perm (c.finished ++ c.executor.running.map Job.number)
  ran : (c.ran.map Prod.fst).Perm (c.finished ++ c.executor.running.filterMap Job.outcome)
  waiting : ∀ job ∈ c.executor.queued, job.ended = none
  once : c.accepted.Nodup
  numbered : ∀ number ∈ c.accepted, number < c.submitted

theorem submit_accepted {c : Crew T} (h : c.executor.accepting = true) (task : T) :
    c.submit task = { c with
      executor.queued := c.executor.queued ++ [⟨c.submitted, task, none⟩]
      executor.pending := c.executor.pending + 1
      submitted := c.submitted + 1
      accepted := c.accepted ++ [c.submitted] } := by
  simp [Crew.submit, Executor.execute, h]

theorem submit_refused {c : Crew T} (h : c.executor.accepting ≠ true) (task : T) :
    c.submit task = { c with submitted := c.submitted + 1 } := by
  simp [Crew.submit, Executor.execute, h]

theorem Books.submit {c : Crew T} (h : c.Books) (task : T) : (c.submit task).Books := by
  by_cases ha : c.executor.accepting = true
  · rw [submit_accepted ha]
    refine ⟨?_, ?_, h.received, h.ran, ?_, ?_, ?_⟩
    · simp only [List.length_append, List.length_singleton, h.pending]
      omega
    · simp [h.accepted]
    · intro job hjob
      rcases List.mem_append.mp hjob with hold | hnew
      · exact h.waiting job hold
      · rw [List.mem_singleton.mp hnew]
    · apply List.nodup_append.mpr
      refine ⟨h.once, List.nodup_singleton _, ?_⟩
      intro number hold other hnew heq
      have hlt := h.numbered number hold
      rw [List.mem_singleton] at hnew
      omega
    · intro number hmem
      rcases List.mem_append.mp hmem with hold | hnew
      · exact Nat.lt_succ_of_lt (h.numbered number hold)
      · rw [List.mem_singleton.mp hnew]
        exact Nat.lt_succ_self _
  · rw [submit_refused ha]
    exact { h with numbered := fun number hmem => Nat.lt_succ_of_lt (h.numbered number hmem) }

theorem Books.receive {c : Crew T} (h : c.Books) {job : Job T} {rest : List (Job T)}
    (hqueued : c.executor.queued = job :: rest) :
    Books { c with
      executor.queued := rest
      executor.running := c.executor.running ++ [job]
      received := c.received ++ [job.number] } := by
  have hnone : job.ended = none := h.waiting job (by simp [hqueued])
  refine ⟨?_, ?_, ?_, ?_, ?_, h.once, h.numbered⟩
  · have hp := h.pending
    simp only [hqueued, List.length_cons] at hp
    simp only [List.length_append, List.length_singleton]
    omega
  · simp [h.accepted, hqueued]
  · simpa using h.received.append_right [job.number]
  · simpa [hnone] using h.ran
  · intro other hother
    exact h.waiting other (by simp [hqueued, hother])

theorem Books.run {c : Crew T} (h : c.Books) {before after : List (Job T)} {job : Job T}
    (ending : Ending) (hrunning : c.executor.running = before ++ job :: after)
    (hended : job.ended = none) :
    Books { c with
      executor.running := before ++ { job with ended := some ending } :: after
      ran := c.ran ++ [(job.number, ending)] } := by
  refine ⟨?_, h.accepted, ?_, ?_, h.waiting, h.once, h.numbered⟩
  · simpa [hrunning] using h.pending
  · simpa [hrunning] using h.received
  · have hran := h.ran
    simp only [hrunning, List.filterMap_append, List.filterMap_cons, Job.outcome_unended hended]
      at hran
    have hnow : ({ job with ended := some ending } : Job T).outcome = some job.number := rfl
    simp only [List.map_append, List.map_cons, List.map_nil, List.filterMap_append,
      List.filterMap_cons, hnow]
    exact perm_fill hran

theorem Books.finish {c : Crew T} (h : c.Books) {before after : List (Job T)} {job : Job T}
    (hrunning : c.executor.running = before ++ job :: after) (hended : job.ended ≠ none) :
    Books { c with
      executor.running := before ++ after
      executor.pending := c.executor.pending - 1
      finished := c.finished ++ [job.number] } := by
  refine ⟨?_, h.accepted, ?_, ?_, h.waiting, h.once, h.numbered⟩
  · have hp := h.pending
    simp only [hrunning, List.length_append, List.length_cons] at hp
    simp only [List.length_append]
    omega
  · have hreceived := h.received
    simp only [hrunning, List.map_append, List.map_cons] at hreceived
    rw [List.map_append]
    exact hreceived.trans (perm_move _ _ _ _)
  · have hran := h.ran
    simp only [hrunning, List.filterMap_append, List.filterMap_cons, Job.outcome_ended hended]
      at hran
    rw [List.filterMap_append]
    exact hran.trans (perm_move _ _ _ _)

/-- The books are about the tasks. They do not say who is there to do them. -/
theorem Books.staff {c : Crew T} (h : c.Books) (gone handles : Nat) (shutdowns : List Shutdown)
    (accepting joined : Bool) :
    Books { c with
      executor.accepting := accepting
      executor.joined := joined
      gone, handles, shutdowns } :=
  ⟨h.pending, h.accepted, h.received, h.ran, h.waiting, h.once, h.numbered⟩

theorem Changes.books {c c' : Crew T} (h : c.Changes c') (hc : c.Books) : c'.Books := by
  cases h with
  | submit task => exact hc.submit task
  | receive hqueued _ => exact hc.receive hqueued
  | run ending hrunning hended => exact hc.run ending hrunning hended
  | finish hrunning hended => exact hc.finish hrunning hended
  | leave => exact hc.staff _ _ _ _ _
  | shutdown => exact hc.staff _ _ _ _ _
  | take => exact hc.staff _ _ _ _ _
  | join => exact hc.staff _ _ _ _ _
  | conclude =>
    split
    · exact hc.staff _ _ _ _ _
    · obtain ⟨joined, hjoin⟩ := c.executor.join_shape
      rw [hjoin]
      exact hc.staff _ _ _ _ _

/-- What a call that shuts the pool down has seen of the workers it took: all of the pool's, or
none because another call had taken them. -/
def Told (workers gone : Nat) (joined : Bool) : Shutdown → Prop
  | .begun => True
  | .joining taken seen => (taken = 0 ∨ taken = workers) ∧ seen ≤ gone
  | .returned taken => taken = 0 ∨ workers ≤ gone ∧ joined = true

theorem Told.later {workers gone gone' : Nat} {joined joined' : Bool} {call : Shutdown}
    (h : Told workers gone joined call) (hgone : gone ≤ gone')
    (hjoined : joined = true → joined' = true) : Told workers gone' joined' call := by
  cases call with
  | begun => trivial
  | joining taken seen => exact ⟨h.1, Nat.le_trans h.2 hgone⟩
  | returned taken => exact h.imp_right fun hall => ⟨Nat.le_trans hall.1 hgone, hjoined hall.2⟩

structure Staffed (c : Crew T) : Prop where
  workers : 0 < c.executor.workers
  room : c.executor.running.length + c.gone ≤ c.executor.workers
  left : 0 < c.gone → c.executor.accepting = false ∧ c.executor.queued = []
  handles : c.handles = 0 ∨ c.handles = c.executor.workers
  closed : c.shutdowns ≠ [] → c.executor.accepting = false
  told : ∀ call ∈ c.shutdowns, Told c.executor.workers c.gone c.executor.joined call

/-- Where all workers have left, nothing is left to be done. -/
theorem Staffed.drained {c : Crew T} (h : c.Staffed) (hgone : c.executor.workers ≤ c.gone) :
    c.executor.accepting = false ∧ c.executor.queued = [] ∧ c.executor.running = [] := by
  have hworkers := h.workers
  have hroom := h.room
  obtain ⟨hclosed, hqueued⟩ := h.left (by omega)
  exact ⟨hclosed, hqueued, List.eq_nil_of_length_eq_zero (by omega)⟩

theorem Staffed.submit {c : Crew T} (h : c.Staffed) (task : T) : (c.submit task).Staffed := by
  by_cases ha : c.executor.accepting = true
  · rw [submit_accepted ha]
    refine { h with left := ?_ }
    intro hgone
    have hclosed := (h.left hgone).1
    rw [ha] at hclosed
    cases hclosed
  · rw [submit_refused ha]
    exact { h with }

/-- A call's next step leaves the other calls as they were. -/
theorem told_set {workers gone : Nat} {joined : Bool} {calls : List Shutdown} {call : Shutdown}
    (h : ∀ call ∈ calls, Told workers gone joined call) (number : Nat)
    (hcall : Told workers gone joined call) :
    ∀ other ∈ calls.set number call, Told workers gone joined other := by
  intro other hother
  rcases List.mem_or_eq_of_mem_set hother with hold | rfl
  · exact h other hold
  · exact hcall

theorem Staffed.proceed {c : Crew T} (h : c.Staffed) {number : Nat} {before after : Shutdown}
    (hcall : c.shutdowns[number]? = some before)
    (htold : Told c.executor.workers c.gone c.executor.joined after) :
    Staffed { c with shutdowns := c.shutdowns.set number after } := by
  refine { h with closed := ?_, told := told_set h.told number htold }
  intro _
  apply h.closed
  intro hnone
  simp [hnone] at hcall

/-- Whoever takes a task is still there, and so nobody has left. -/
theorem Staffed.receive {c : Crew T} (h : c.Staffed) {job : Job T} {rest : List (Job T)}
    (hqueued : c.executor.queued = job :: rest)
    (hfree : c.executor.running.length < c.executor.workers) :
    Staffed { c with
      executor.queued := rest
      executor.running := c.executor.running ++ [job]
      received := c.received ++ [job.number] } := by
  have hnone : c.gone = 0 := by
    by_contra hgone
    have hempty := (h.left (by omega)).2
    rw [hqueued] at hempty
    cases hempty
  refine { h with room := ?_, left := ?_ }
  · simp only [List.length_append, List.length_singleton, hnone]
    omega
  · intro hgone
    simp only [hnone] at hgone
    omega

theorem Staffed.leave {c : Crew T} (h : c.Staffed) (hclosed : c.executor.accepting = false)
    (hqueued : c.executor.queued = [])
    (hfree : c.executor.running.length + c.gone < c.executor.workers) :
    Staffed { c with gone := c.gone + 1 } := by
  refine { h with room := ?_, left := fun _ => ⟨hclosed, hqueued⟩, told := ?_ }
  · simp only
    omega
  · intro call hcall
    exact (h.told call hcall).later (Nat.le_succ _) id

theorem Staffed.shutdown {c : Crew T} (h : c.Staffed) : c.shutdown.Staffed := by
  refine ⟨h.workers, h.room, fun hgone => ⟨rfl, (h.left hgone).2⟩, h.handles, fun _ => rfl, ?_⟩
  intro call hcall
  rcases List.mem_append.mp hcall with hold | hnew
  · exact h.told call hold
  · rw [List.mem_singleton.mp hnew]
    trivial

/-- A call that saw all it took leave has joined the pool. -/
theorem Staffed.conclude {c : Crew T} (h : c.Staffed) {number taken : Nat}
    (hcall : c.shutdowns[number]? = some (.joining taken taken)) :
    Staffed { c with
      executor := if taken = 0 then c.executor else c.executor.join
      shutdowns := c.shutdowns.set number (.returned taken) } := by
  have htold := h.told _ (List.mem_of_getElem? hcall)
  by_cases hnone : taken = 0
  · rw [if_pos hnone]
    exact h.proceed hcall (.inl hnone)
  · obtain ⟨htaken | htaken, hgone⟩ := htold
    · exact absurd htaken hnone
    rw [htaken] at hgone
    obtain ⟨hclosed, hqueued, hrunning⟩ := h.drained hgone
    have hjoin : c.executor.join = { c.executor with joined := true } := by
      simp [Executor.join, Executor.isDrained, hclosed, hqueued, hrunning]
    rw [if_neg hnone, hjoin]
    have hjoined : Staffed { c with executor.joined := true } := by
      refine { h with told := ?_ }
      intro call hmem
      exact (h.told call hmem).later (Nat.le_refl _) fun _ => rfl
    exact hjoined.proceed hcall (.inr ⟨hgone, rfl⟩)

theorem Changes.staffed {c c' : Crew T} (h : c.Changes c') (hc : c.Staffed) : c'.Staffed := by
  cases h with
  | submit task => exact hc.submit task
  | receive hqueued hfree => exact hc.receive hqueued hfree
  | run ending hrunning _ =>
    refine { hc with room := ?_ }
    have hroom := hc.room
    simpa [hrunning] using hroom
  | finish hrunning _ =>
    refine { hc with room := ?_ }
    have hroom := hc.room
    simp only [hrunning, List.length_append, List.length_cons] at hroom
    simp only [List.length_append]
    omega
  | leave hclosed hqueued hfree => exact hc.leave hclosed hqueued hfree
  | shutdown => exact hc.shutdown
  | take hcall =>
    have htold : Told c.executor.workers c.gone c.executor.joined (.joining c.handles 0) :=
      ⟨hc.handles, Nat.zero_le _⟩
    exact { hc.proceed hcall htold with handles := .inl rfl }
  | join hcall hgone =>
    have htold := hc.told _ (List.mem_of_getElem? hcall)
    exact hc.proceed hcall ⟨htold.1, hgone⟩
  | conclude hcall => exact hc.conclude hcall

structure InTurn (c : Crew T) : Prop where
  received : c.received = c.finished ++ c.executor.running.map Job.number
  ran : c.ran.map Prod.fst = c.finished ++ c.executor.running.filterMap Job.outcome

theorem Changes.workers {c c' : Crew T} (h : c.Changes c') :
    c'.executor.workers = c.executor.workers := by
  cases h with
  | submit task =>
    simp only [Crew.submit, Executor.execute]
    split <;> rfl
  | conclude =>
    simp only
    split
    · rfl
    · obtain ⟨joined, hjoin⟩ := c.executor.join_shape
      rw [hjoin]
  | _ => rfl

theorem alone {running before after : List (Job T)} {job : Job T} (hone : running.length ≤ 1)
    (h : running = before ++ job :: after) : before = [] ∧ after = [] := by
  rw [h] at hone
  simp only [List.length_append, List.length_cons] at hone
  exact ⟨List.eq_nil_of_length_eq_zero (by omega), List.eq_nil_of_length_eq_zero (by omega)⟩

theorem Changes.inTurn {c c' : Crew T} (h : c.Changes c') (hb : c.Books) (hs : c.Staffed)
    (hone : c.executor.workers = 1) (hc : c.InTurn) : c'.InTurn := by
  have hroom := hs.room
  have hrunning : c.executor.running.length ≤ 1 := by omega
  obtain ⟨hreceived, hran⟩ := hc
  cases h with
  | submit task =>
    simp only [Crew.submit, Executor.execute]
    split
    · exact ⟨hreceived, hran⟩
    · exact ⟨hreceived, hran⟩
  | receive hqueued hfree =>
    have hnone : c.executor.running = [] := List.eq_nil_of_length_eq_zero (by omega)
    have hwaiting := hb.waiting _ (by rw [hqueued]; exact List.mem_cons_self)
    simp only [hnone, List.map_nil, List.filterMap_nil, List.append_nil] at hreceived hran
    refine ⟨?_, ?_⟩
    · simp [hnone, hreceived]
    · simp [hnone, hran, hwaiting]
  | @run before after job ending hjob hended =>
    obtain ⟨rfl, rfl⟩ := alone hrunning hjob
    rw [hjob] at hreceived hran
    refine ⟨?_, ?_⟩
    · simpa using hreceived
    · simpa [hended, Job.outcome] using hran
  | finish hjob hended =>
    obtain ⟨rfl, rfl⟩ := alone hrunning hjob
    rw [hjob] at hreceived hran
    refine ⟨?_, ?_⟩
    · simpa using hreceived
    · simpa [hended] using hran
  | leave => exact ⟨hreceived, hran⟩
  | shutdown => exact ⟨hreceived, hran⟩
  | take => exact ⟨hreceived, hran⟩
  | join => exact ⟨hreceived, hran⟩
  | conclude =>
    split
    · exact ⟨hreceived, hran⟩
    · obtain ⟨joined, hjoin⟩ := c.executor.join_shape
      rw [hjoin]
      exact ⟨hreceived, hran⟩

structure Sound (c : Crew T) : Prop where
  books : c.Books
  staffed : c.Staffed
  inTurn : c.executor.workers = 1 → c.InTurn

theorem Changes.sound {c c' : Crew T} (h : c.Changes c') (hc : c.Sound) : c'.Sound := by
  refine ⟨h.books hc.books, h.staffed hc.staffed, ?_⟩
  intro hone
  rw [h.workers] at hone
  exact h.inTurn hc.books hc.staffed hone (hc.inTurn hone)

theorem spawn_shape {workers : Nat} {c : Crew T} (h : spawn workers = .ok c) :
    0 < workers ∧ c = ⟨⟨workers, true, [], [], 0, false⟩, 0, workers, [], 0, [], [], [], []⟩ := by
  unfold spawn Executor.spawn at h
  by_cases hzero : workers = 0
  · simp [hzero, bind, Except.bind] at h
  · simp only [hzero, if_false, bind, Except.bind, pure, Except.pure, Except.ok.injEq] at h
    exact ⟨Nat.pos_of_ne_zero hzero, h.symm⟩

theorem spawn_sound {workers : Nat} {c : Crew T} (h : spawn workers = .ok c) : c.Sound := by
  obtain ⟨hpositive, rfl⟩ := spawn_shape h
  constructor
  · exact ⟨rfl, rfl, .refl _, .refl _, by simp, List.nodup_nil, by simp⟩
  · exact ⟨hpositive, Nat.zero_le _, by simp, .inr rfl, by simp, by simp⟩
  · exact fun _ => ⟨rfl, rfl⟩

/-- Whoever counts a task as done finds a pending one. -/
theorem Books.finish_pending {c c' : Crew T} (h : c.Books) {position : Nat}
    (hfinish : c.finish position = some c') : 0 < c.executor.pending := by
  unfold Crew.finish at hfinish
  split at hfinish
  next hjob =>
    obtain ⟨hlt, -⟩ := List.getElem?_eq_some_iff.mp hjob
    rw [h.pending]
    omega
  · cases hfinish

theorem outcomes_sublist (jobs : List (Job T)) :
    (jobs.filterMap Job.outcome).Sublist (jobs.map Job.number) := by
  induction jobs with
  | nil => exact .slnil
  | cons job rest ih =>
    rw [List.map_cons]
    by_cases hended : job.ended = none
    · rw [List.filterMap_cons_none (Job.outcome_unended hended)]
      exact ih.cons _
    · rw [List.filterMap_cons_some (Job.outcome_ended hended)]
      exact ih.cons_cons _

/-- A task is carried out after it was received. -/
theorem Books.ran_subperm {c : Crew T} (h : c.Books) : (c.ran.map Prod.fst).Subperm c.received :=
  h.ran.subperm.trans
    (((outcomes_sublist _).append_left _).subperm.trans h.received.symm.subperm)

theorem Books.received_nodup {c : Crew T} (h : c.Books) : c.received.Nodup := by
  have honce := h.once
  rw [h.accepted] at honce
  exact honce.of_append_left

theorem Books.received_accepted {c : Crew T} (h : c.Books) {number : Nat}
    (hmem : number ∈ c.received) : number ∈ c.accepted := by
  rw [h.accepted]
  exact List.mem_append_left _ hmem

/-- No task is carried out twice. -/
theorem Books.ran_nodup {c : Crew T} (h : c.Books) : (c.ran.map Prod.fst).Nodup := by
  obtain ⟨ran, hperm, hsub⟩ := h.ran_subperm
  exact hperm.nodup_iff.mp (hsub.nodup h.received_nodup)

theorem Books.ran_accepted {c : Crew T} (h : c.Books) {number : Nat}
    (hmem : number ∈ c.ran.map Prod.fst) : number ∈ c.accepted :=
  h.received_accepted (h.ran_subperm.subset hmem)

/-- A finished task was carried out. -/
theorem Books.finished_ran {c : Crew T} (h : c.Books) {number : Nat}
    (hmem : number ∈ c.finished) : (c.ran.map Prod.fst).count number = 1 :=
  List.count_eq_one_of_mem h.ran_nodup (h.ran.mem_iff.mpr (List.mem_append_left _ hmem))

/-- Where nothing is queued or running, every accepted task is finished. -/
theorem Books.all_finished {c : Crew T} (h : c.Books) (hqueued : c.executor.queued = [])
    (hrunning : c.executor.running = []) {number : Nat} (hmem : number ∈ c.accepted) :
    number ∈ c.finished := by
  have haccepted := h.accepted
  have hreceived := h.received
  simp only [hqueued, List.map_nil, List.append_nil] at haccepted
  simp only [hrunning, List.map_nil, List.append_nil] at hreceived
  rw [haccepted] at hmem
  exact hreceived.mem_iff.mp hmem

theorem Books.idle_finished {c : Crew T} (h : c.Books) (hidle : c.executor.isIdle = true)
    {number : Nat} (hmem : number ∈ c.accepted) : number ∈ c.finished := by
  have hpending := h.pending
  have hzero : c.executor.pending = 0 := by simpa [Executor.isIdle] using hidle
  apply h.all_finished _ _ hmem
  · exact List.eq_nil_of_length_eq_zero (by omega)
  · exact List.eq_nil_of_length_eq_zero (by omega)

/-- When the call that took the workers returns, every accepted task is finished. -/
theorem Sound.returned_finished {c : Crew T} (h : c.Sound) {taken : Nat}
    (hcall : .returned taken ∈ c.shutdowns)
    (htaken : taken ≠ 0) :
    c.executor.joined = true ∧ ∀ number ∈ c.accepted, number ∈ c.finished := by
  obtain htold | ⟨hgone, hjoined⟩ := h.staffed.told _ hcall
  · exact absurd htold htaken
  obtain ⟨-, hqueued, hrunning⟩ := h.staffed.drained hgone
  exact ⟨hjoined, fun number hmem => h.books.all_finished hqueued hrunning hmem⟩

/-- A worker on its own carries the tasks out in the order in which they were accepted. -/
theorem Sound.ran_in_order {c : Crew T} (h : c.Sound) (hone : c.executor.workers = 1) :
    c.ran.map Prod.fst <+: c.accepted := by
  obtain ⟨hreceived, hran⟩ := h.inTurn hone
  have hroom := h.staffed.room
  have hinitial : c.executor.running.filterMap Job.outcome <+: c.executor.running.map Job.number := by
    cases hrunning : c.executor.running with
    | nil => exact List.prefix_rfl
    | cons job rest =>
      rw [hrunning, List.length_cons] at hroom
      obtain rfl : rest = [] := List.eq_nil_of_length_eq_zero (by omega)
      by_cases hended : job.ended = none
      · simp [hended]
      · simp [hended]
  rw [h.books.accepted, hreceived, hran]
  exact (List.prefix_append_right_inj _).mpr hinitial |>.trans (List.prefix_append _ _)

end Crew
end SessionAttributes
