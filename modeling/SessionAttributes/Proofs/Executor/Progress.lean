import SessionAttributes.Proofs.Executor.Ledger

namespace SessionAttributes.Crew

variable {T : Type}

structure Later (c c' : Crew T) : Prop where
  workers : c'.executor.workers = c.executor.workers
  accepted : c.accepted <+: c'.accepted
  received : c.received <+: c'.received
  finished : c.finished <+: c'.finished
  closed : c.executor.accepting = false →
    c'.executor.accepting = false ∧ c'.accepted = c.accepted

theorem Later.refl (c : Crew T) : c.Later c :=
  ⟨rfl, List.prefix_rfl, List.prefix_rfl, List.prefix_rfl, fun h => ⟨h, rfl⟩⟩

theorem Later.trans {c₀ c₁ c₂ : Crew T} (h : c₀.Later c₁) (h' : c₁.Later c₂) : c₀.Later c₂ := by
  refine ⟨h'.workers.trans h.workers, h.accepted.trans h'.accepted, h.received.trans h'.received,
    h.finished.trans h'.finished, ?_⟩
  intro hclosed
  obtain ⟨hclosed, heq⟩ := h.closed hclosed
  obtain ⟨hclosed, heq'⟩ := h'.closed hclosed
  exact ⟨hclosed, heq'.trans heq⟩

theorem Changes.later {c c' : Crew T} (h : c.Changes c') : c.Later c' := by
  have hkeeps := Later.refl c
  cases h with
  | submit task =>
    by_cases ha : c.executor.accepting = true
    · refine { hkeeps with workers := (Changes.submit task).workers, accepted := ?_, closed := ?_ }
      · simp [Crew.submit, ha]
      · intro hclosed
        rw [ha] at hclosed
        cases hclosed
    · simpa [Crew.submit, Executor.execute, ha] using { hkeeps with }
  | receive => exact { hkeeps with received := List.prefix_append _ _ }
  | run => exact { hkeeps with }
  | finish => exact { hkeeps with finished := List.prefix_append _ _ }
  | leave => exact { hkeeps with }
  | shutdown => exact { hkeeps with closed := fun _ => ⟨rfl, rfl⟩ }
  | take => exact { hkeeps with }
  | join => exact { hkeeps with }
  | conclude =>
    obtain ⟨joined, hjoin⟩ := c.executor.join_shape
    rw [hjoin]
    split
    · exact { hkeeps with }
    · exact { hkeeps with }

/-- A run from a first moment on. Someone takes a step at each moment, or nobody does. -/
structure Runs (start : Crew T) (crew : Nat → Crew T) : Prop where
  start : crew 0 = start
  next : ∀ i, crew (i + 1) = crew i ∨ ∃ act, (crew i).step act = some (crew (i + 1))

/-- What the workers must not do for ever: be at one and the same task, and leave a task queued
that one of them is free to receive. -/
structure Fair (crew : Nat → Crew T) : Prop where
  ends : ∀ i, ∀ number ∈ (crew i).executor.running.map Job.number,
    ∃ j ≥ i, number ∉ (crew j).executor.running.map Job.number
  receives : ∀ i, ∃ j ≥ i, (crew j).receive = none ∨ (crew j).receive = some (crew (j + 1))

theorem receive_none {c : Crew T} (h : c.receive = none) :
    c.executor.queued = [] ∨ c.executor.workers ≤ c.executor.running.length := by
  rw [receive, Option.map_eq_none_iff, Executor.receive] at h
  split at h
  next hqueued => exact .inl hqueued
  · split at h
    · cases h
    next hbusy => exact .inr (Nat.le_of_not_lt hbusy)

theorem receive_length {c c' : Crew T} (h : c.receive = some c') :
    c'.received.length = c.received.length + 1 := by
  obtain ⟨_, -, rfl⟩ := Option.map_eq_some_iff.mp h
  exact List.length_append

section Run

variable {start : Crew T} {crew : Nat → Crew T}

theorem Runs.sound (h : Runs start crew) (hstart : start.Sound) (i : Nat) : (crew i).Sound := by
  induction i with
  | zero =>
    rw [h.start]
    exact hstart
  | succ i ih =>
    obtain heq | ⟨act, hstep⟩ := h.next i
    · rw [heq]
      exact ih
    · exact (step_changes hstep).sound ih

theorem Runs.later (h : Runs start crew) {i j : Nat} (hij : i ≤ j) : (crew i).Later (crew j) := by
  induction hij with
  | refl => exact .refl _
  | @step j _ ih =>
    obtain heq | ⟨act, hstep⟩ := h.next j
    · rw [heq]
      exact ih
    · exact ih.trans (step_changes hstep).later

theorem Runs.workers (h : Runs start crew) (i : Nat) :
    (crew i).executor.workers = start.executor.workers := by
  have hlater := h.later (Nat.zero_le i)
  rw [h.start] at hlater
  exact hlater.workers

/-- A task that is handed over after the pool was shut down is never accepted. -/
theorem Runs.late_refused (h : Runs start crew) (hstart : start.Sound) {i : Nat}
    (hshut : (crew i).executor.isShutdown = true) {number : Nat}
    (hlate : (crew i).submitted ≤ number) (j : Nat) : number ∉ (crew j).accepted := by
  intro hmem
  have hclosed : (crew i).executor.accepting = false := by
    simpa [Executor.isShutdown] using hshut
  have hold : number ∈ (crew i).accepted := by
    rcases Nat.le_total i j with hij | hji
    · rw [((h.later hij).closed hclosed).2] at hmem
      exact hmem
    · exact (h.later hji).accepted.subset hmem
  have hlt := (h.sound hstart i).books.numbered number hold
  omega

/-- A running task is finished at some later moment. -/
theorem Runs.running_finishes (h : Runs start crew) (hstart : start.Sound) (hfair : Fair crew)
    {i number : Nat} (hrunning : number ∈ (crew i).executor.running.map Job.number) :
    ∃ j ≥ i, number ∈ (crew j).finished := by
  obtain ⟨j, hij, hdone⟩ := hfair.ends i number hrunning
  refine ⟨j, hij, ?_⟩
  have hreceived : number ∈ (crew i).received :=
    (h.sound hstart i).books.received.mem_iff.mpr (List.mem_append_right _ hrunning)
  have hnow := (h.sound hstart j).books.received.mem_iff.mp
    ((h.later hij).received.subset hreceived)
  exact (List.mem_append.mp hnow).resolve_right hdone

/-- A busy pool has fewer tasks in hand later on, as long as nothing more is received. -/
theorem Runs.busy_frees (h : Runs start crew) (hstart : start.Sound) (hfair : Fair crew)
    {i : Nat} (hbusy : (crew i).executor.running ≠ []) :
    ∃ j ≥ i, ∀ k ≥ j, (crew k).received.length = (crew i).received.length →
      (crew k).executor.running.length < (crew i).executor.running.length := by
  obtain ⟨job, hjob⟩ := List.exists_mem_of_ne_nil _ hbusy
  have hrunning : job.number ∈ (crew i).executor.running.map Job.number :=
    List.mem_map_of_mem hjob
  obtain ⟨j, hij, hdone⟩ := h.running_finishes hstart hfair hrunning
  refine ⟨j, hij, ?_⟩
  intro k hjk hsame
  have hbooks := (h.sound hstart i).books
  have hnodup := hbooks.received.nodup_iff.mp hbooks.received_nodup
  have hfresh : job.number ∉ (crew i).finished := fun hmem =>
    (List.nodup_append.mp hnodup).2.2 _ hmem _ hrunning rfl
  have hmore : (crew i).finished.length < (crew k).finished.length := by
    have hearlier := (h.later (Nat.le_trans hij hjk)).finished
    apply Nat.lt_of_le_of_ne hearlier.length_le
    intro hlength
    rw [hearlier.eq_of_length hlength] at hfresh
    exact hfresh ((h.later hjk).finished.subset hdone)
  have hbefore := hbooks.received.length_eq
  have hafter := (h.sound hstart k).books.received.length_eq
  rw [List.length_append, List.length_map] at hbefore hafter
  omega

/-- While a task is queued, one more is received at some later moment. -/
theorem Runs.queued_received (h : Runs start crew) (hstart : start.Sound) (hfair : Fair crew)
    {i : Nat}
    (hqueued : (crew i).received.length < (crew i).accepted.length) :
    ∃ j ≥ i, (crew i).received.length < (crew j).received.length := by
  by_contra hnever
  have hsame : ∀ j ≥ i, (crew j).received.length = (crew i).received.length := by
    intro j hij
    apply Nat.le_antisymm
    · exact Nat.le_of_not_lt fun hgrown => hnever ⟨j, hij, hgrown⟩
    · exact (h.later hij).received.length_le
  have hwaits : ∀ j ≥ i, (crew j).executor.queued ≠ [] := by
    intro j hij hnone
    have haccepted := (h.sound hstart j).books.accepted
    rw [hnone, List.map_nil, List.append_nil] at haccepted
    have hmore := (h.later hij).accepted.length_le
    rw [haccepted, hsame j hij] at hmore
    omega
  -- Since nothing is received, every moment at which someone could is one with all at work.
  have hstuck : ∀ j ≥ i, ∃ k ≥ j,
      start.executor.workers ≤ (crew k).executor.running.length := by
    intro j hij
    obtain ⟨k, hjk, hnone | hsome⟩ := hfair.receives j
    · obtain hempty | hfull := receive_none hnone
      · exact absurd hempty (hwaits k (Nat.le_trans hij hjk))
      · rw [h.workers] at hfull
        exact ⟨k, hjk, hfull⟩
    · have hgrown := receive_length hsome
      have hnow := hsame k (Nat.le_trans hij hjk)
      have hnext := hsame (k + 1) (by omega)
      omega
  obtain ⟨j, hij, hfull⟩ := hstuck i (Nat.le_refl _)
  have hroom := (h.sound hstart j).staffed.room
  rw [h.workers] at hroom
  have hworkers := hstart.staffed.workers
  have hbusy : (crew j).executor.running ≠ [] := by
    intro hnone
    rw [hnone, List.length_nil] at hfull
    omega
  obtain ⟨k, hjk, hless⟩ := h.busy_frees hstart hfair hbusy
  obtain ⟨l, hkl, hfull⟩ := hstuck k (by omega)
  have hnow := hless l hkl ((hsame l (by omega)).trans (hsame j hij).symm)
  omega

/-- What was accepted up to a moment is received at some later moment, in the same order. -/
theorem Runs.accepted_received (h : Runs start crew) (hstart : start.Sound) (hfair : Fair crew)
    (i : Nat) :
    ∃ j ≥ i, (crew i).accepted <+: (crew j).received := by
  have hcount : ∀ count ≤ (crew i).accepted.length, ∃ j ≥ i, count ≤ (crew j).received.length := by
    intro count
    induction count with
    | zero => exact fun _ => ⟨i, Nat.le_refl _, Nat.zero_le _⟩
    | succ count ih =>
      intro hcount
      obtain ⟨j, hij, hreceived⟩ := ih (by omega)
      by_cases hmore : count < (crew j).received.length
      · exact ⟨j, hij, hmore⟩
      · have haccepted := (h.later hij).accepted.length_le
        obtain ⟨k, hjk, hgrown⟩ := h.queued_received hstart hfair (i := j) (by omega)
        exact ⟨k, Nat.le_trans hij hjk, by omega⟩
  obtain ⟨j, hij, hreceived⟩ := hcount _ (Nat.le_refl _)
  have hinitial : (crew j).received <+: (crew j).accepted := by
    rw [(h.sound hstart j).books.accepted]
    exact List.prefix_append _ _
  exact ⟨j, hij, List.prefix_of_prefix_length_le (h.later hij).accepted hinitial hreceived⟩

/-- Every accepted task is finished at some later moment, and stays so. -/
theorem Runs.accepted_finishes (h : Runs start crew) (hstart : start.Sound) (hfair : Fair crew)
    {i number : Nat}
    (hmem : number ∈ (crew i).accepted) : ∃ j ≥ i, ∀ k ≥ j, number ∈ (crew k).finished := by
  obtain ⟨j, hij, haccepted⟩ := h.accepted_received hstart hfair i
  have hreceived := (h.sound hstart j).books.received.mem_iff.mp (haccepted.subset hmem)
  obtain ⟨k, hjk, hfinished⟩ : ∃ k ≥ j, number ∈ (crew k).finished := by
    rcases List.mem_append.mp hreceived with hdone | hrunning
    · exact ⟨j, Nat.le_refl _, hdone⟩
    · exact h.running_finishes hstart hfair hrunning
  refine ⟨k, Nat.le_trans hij hjk, ?_⟩
  intro l hkl
  exact (h.later hkl).finished.subset hfinished

end Run

structure Accounted (c : Crew T) : Prop where
  pending : c.executor.pending = c.executor.queued.length + c.executor.running.length
  /-- Whoever counts a task as done finds a pending one to take off. -/
  counted : ∀ position, (c.finish position).isSome → 0 < c.executor.pending
  ran_once : (c.ran.map Prod.fst).Nodup
  ran_accepted : ∀ number ∈ c.ran.map Prod.fst, number ∈ c.accepted
  finished_ran : ∀ number ∈ c.finished, (c.ran.map Prod.fst).count number = 1
  idle : c.executor.isIdle = true → ∀ number ∈ c.accepted, number ∈ c.finished
  /-- The call that took the workers has returned. -/
  returned : ∀ taken ≠ 0, .returned taken ∈ c.shutdowns →
    c.executor.joined = true ∧ ∀ number ∈ c.accepted, number ∈ c.finished

theorem Sound.accounted {c : Crew T} (h : c.Sound) : c.Accounted where
  pending := h.books.pending
  counted := by
    intro position hsome
    obtain ⟨c', hfinish⟩ := Option.isSome_iff_exists.mp hsome
    exact h.books.finish_pending hfinish
  ran_once := h.books.ran_nodup
  ran_accepted := fun _ hmem => h.books.ran_accepted hmem
  finished_ran := fun _ hmem => h.books.finished_ran hmem
  idle := fun hidle _ hmem => h.books.idle_finished hidle hmem
  returned := fun _ htaken hcall => h.returned_finished hcall htaken

/-- A pool of any number of workers keeps its books in every run, whoever submits, however tasks end
and whenever it is shut down. What is submitted after that never runs. If no task goes on for ever,
every accepted one is finished at some moment, and has then run once. One worker on its own runs the
tasks in the order in which they were accepted. -/
theorem Runs.tasks_accounted {workers : Nat} {start : Crew T} {crew : Nat → Crew T}
    (hspawn : spawn workers = .ok start) (h : Runs start crew) :
    (∀ i, (crew i).Accounted) ∧
    (∀ i, (crew i).executor.isShutdown = true → ∀ number ≥ (crew i).submitted,
      ∀ j, number ∉ (crew j).accepted ∧ number ∉ (crew j).ran.map Prod.fst) ∧
    (Fair crew → ∀ i, ∀ number ∈ (crew i).accepted, ∃ j ≥ i, ∀ k ≥ j,
      number ∈ (crew k).finished ∧ ((crew k).ran.map Prod.fst).count number = 1) ∧
    (workers = 1 → ∀ i, (crew i).ran.map Prod.fst <+: (crew i).accepted) := by
  have hstart := spawn_sound hspawn
  refine ⟨fun i => (h.sound hstart i).accounted, ?_, ?_, ?_⟩
  · intro i hshut number hlate j
    have hrefused := h.late_refused hstart hshut hlate j
    exact ⟨hrefused, fun hran => hrefused ((h.sound hstart j).books.ran_accepted hran)⟩
  · intro hfair i number hmem
    obtain ⟨j, hij, hfinished⟩ := h.accepted_finishes hstart hfair hmem
    refine ⟨j, hij, ?_⟩
    intro k hjk
    exact ⟨hfinished k hjk, (h.sound hstart k).books.finished_ran (hfinished k hjk)⟩
  · intro hone i
    apply (h.sound hstart i).ran_in_order
    rw [h.workers, (spawn_shape hspawn).2]
    exact hone

/-- The crew after so many of some acts, and then at rest. What cannot be done is passed over. -/
def course (c : Crew T) (acts : List (Act T)) (i : Nat) : Crew T :=
  (acts.take i).foldl (fun c act => (c.step act).getD c) c

theorem course_runs (c : Crew T) (acts : List (Act T)) : Runs c (c.course acts) where
  start := rfl
  next := by
    intro i
    unfold course
    rw [List.take_add_one, List.foldl_append]
    cases acts[i]? with
    | none => exact .inl rfl
    | some act =>
      simp only [Option.toList_some, List.foldl_cons, List.foldl_nil]
      cases hstep : Crew.step ((acts.take i).foldl (fun c act => (c.step act).getD c) c) act with
      | none => exact .inl rfl
      | some c' => exact .inr ⟨act, hstep⟩

/-- A course that comes to rest with nothing left to do is fair. -/
theorem course_fair (c : Crew T) (acts : List (Act T))
    (hqueued : (c.course acts acts.length).executor.queued = [])
    (hrunning : (c.course acts acts.length).executor.running = []) : Fair (c.course acts) := by
  have hrest : ∀ i ≥ acts.length, c.course acts i = c.course acts acts.length := by
    intro i hi
    rw [course, course, List.take_of_length_le hi, List.take_length]
  constructor
  · intro i number _
    refine ⟨max i acts.length, Nat.le_max_left _ _, ?_⟩
    rw [hrest _ (Nat.le_max_right _ _), hrunning]
    exact List.not_mem_nil
  · intro i
    refine ⟨max i acts.length, Nat.le_max_left _ _, .inl ?_⟩
    rw [hrest _ (Nat.le_max_right _ _), receive, Executor.receive, hqueued]
    rfl

/-- One worker, a task that submits another one and then panics, and a shutdown before a third. -/
def lateCourse : Crew Unit × List (Act Unit) :=
  (⟨⟨1, true, [], [], 0, false⟩, 0, 1, [], 0, [], [], [], []⟩,
    [.submit none (), .receive, .submit (some 0) (), .run 0 .panicked, .finish 0, .shutdown,
      .submit none (), .receive, .take 0, .run 0 .returned, .finish 0, .leave, .join 0, .conclude 0])

/-- Both accepted tasks run, and the one that comes too late does not. -/
theorem tasks_accounted_late :
    let crew := lateCourse.1.course lateCourse.2
    (spawn 1 = .ok lateCourse.1 ∧ Runs lateCourse.1 crew ∧ Fair crew) ∧
    (∀ i, (crew i).Accounted) ∧
    (∀ j, 2 ∉ (crew j).ran.map Prod.fst) ∧
    (∃ j, ∀ k ≥ j, 1 ∈ (crew k).finished) ∧
    (crew 14).ran = [(0, .panicked), (1, .returned)] ∧
    (crew 14).shutdowns = [.returned 1] := by
  intro crew
  have hruns : Runs lateCourse.1 crew := course_runs _ _
  have hfair : Fair crew := course_fair _ _ rfl rfl
  have hspawn : spawn 1 = .ok lateCourse.1 := rfl
  obtain ⟨haccounted, hlate, hfinish, -⟩ := Runs.tasks_accounted hspawn hruns
  obtain ⟨j, -, hfinished⟩ := hfinish hfair 3 1 (by decide)
  exact ⟨⟨hspawn, hruns, hfair⟩, haccounted, fun j => (hlate 6 rfl 2 (by decide) j).2,
    ⟨j, fun k hk => (hfinished k hk).1⟩, rfl, rfl⟩

end SessionAttributes.Crew
