import Mathlib.Data.List.Nodup
import Mathlib.Data.List.Perm.Basic
import SessionAttributes.Executor

namespace SessionAttributes

/-- How a task ended. A worker catches a panic and goes on either way. -/
inductive Ending where
  | returned
  | panicked
deriving DecidableEq, Repr

structure Job (T : Type) where
  /-- How many tasks had been handed over before this one. -/
  number : Nat
  task : T
  /-- How the task ended, once a worker has carried it out. -/
  ended : Option Ending
deriving DecidableEq, Repr

inductive Shutdown where
  /-- Nothing is accepted any more. -/
  | begun
  /-- The call has taken some workers and seen some of these leave. -/
  | joining (taken joined : Nat)
  | returned (taken : Nat)
deriving DecidableEq, Repr

structure Crew (T : Type) where
  executor : Executor (Job T)
  /-- How many workers have left. -/
  gone : Nat
  /-- How many workers no shutdown has taken. -/
  handles : Nat
  /-- The calls that shut the pool down, oldest first. -/
  shutdowns : List Shutdown
  /-- How many tasks were handed over, accepted or not. -/
  submitted : Nat
  accepted : List Nat
  received : List Nat
  /-- The tasks that were carried out, with how they ended. -/
  ran : List (Nat × Ending)
  finished : List Nat

inductive Act (T : Type) where
  /-- A task is handed over, by the running task at a position or from outside. -/
  | submit (origin : Option Nat) (task : T)
  | receive
  /-- The running task at a position is carried out to its end. -/
  | run (position : Nat) (ending : Ending)
  /-- The worker of the running task at a position counts it as done. -/
  | finish (position : Nat)
  /-- A free worker leaves, since nothing is left to receive and nothing more will come. -/
  | leave
  | shutdown
  | take (call : Nat)
  | join (call : Nat)
  | conclude (call : Nat)

namespace Crew

variable {T : Type}

def spawn (workers : Nat) : Except SessionError (Crew T) := do
  let executor ← Executor.spawn workers
  return ⟨executor, 0, workers, [], 0, [], [], [], []⟩

/-- Whether someone can hand over a task: anyone outside, and a task that has not ended. -/
def speaks (c : Crew T) : Option Nat → Bool
  | none => true
  | some position => (c.executor.running[position]?).any (·.ended.isNone)

def submit (c : Crew T) (task : T) : Crew T :=
  { c with
    executor := c.executor.execute ⟨c.submitted, task, none⟩
    submitted := c.submitted + 1
    accepted := if c.executor.accepting then c.accepted ++ [c.submitted] else c.accepted }

def receive (c : Crew T) : Option (Crew T) :=
  c.executor.receive.map fun (job, executor) =>
    { c with executor, received := c.received ++ [job.number] }

def run (c : Crew T) (position : Nat) (ending : Ending) : Option (Crew T) :=
  match c.executor.running[position]? with
  | some ⟨number, task, none⟩ =>
    some { c with
      executor.running := c.executor.running.set position ⟨number, task, some ending⟩
      ran := c.ran ++ [(number, ending)] }
  | _ => none

def finish (c : Crew T) (position : Nat) : Option (Crew T) :=
  match c.executor.running[position]? with
  | some ⟨number, _, some _⟩ =>
    some { c with
      executor := c.executor.finish position
      finished := c.finished ++ [number] }
  | _ => none

def leave (c : Crew T) : Option (Crew T) :=
  if c.executor.accepting = false ∧ c.executor.queued = [] ∧
      c.executor.running.length + c.gone < c.executor.workers then
    some { c with gone := c.gone + 1 }
  else none

def shutdown (c : Crew T) : Crew T :=
  { c with executor := c.executor.stopAccepting, shutdowns := c.shutdowns ++ [.begun] }

/-- A call takes the workers that no other call has taken. -/
def take (c : Crew T) (call : Nat) : Option (Crew T) :=
  match c.shutdowns[call]? with
  | some .begun =>
    some { c with handles := 0, shutdowns := c.shutdowns.set call (.joining c.handles 0) }
  | _ => none

/-- A call sees one more of its workers leave. It waits while there is none. -/
def join (c : Crew T) (call : Nat) : Option (Crew T) :=
  match c.shutdowns[call]? with
  | some (.joining taken joined) =>
    if joined < taken ∧ joined < c.gone then
      some { c with shutdowns := c.shutdowns.set call (.joining taken (joined + 1)) }
    else none
  | _ => none

/-- A call that has seen all its workers leave returns. -/
def conclude (c : Crew T) (call : Nat) : Option (Crew T) :=
  match c.shutdowns[call]? with
  | some (.joining taken joined) =>
    if joined = taken then
      some { c with
        executor := if taken = 0 then c.executor else c.executor.join
        shutdowns := c.shutdowns.set call (.returned taken) }
    else none
  | _ => none

def step (c : Crew T) : Act T → Option (Crew T)
  | .submit origin task => if c.speaks origin then some (c.submit task) else none
  | .receive => c.receive
  | .run position ending => c.run position ending
  | .finish position => c.finish position
  | .leave => c.leave
  | .shutdown => some c.shutdown
  | .take call => c.take call
  | .join call => c.join call
  | .conclude call => c.conclude call

inductive Changes (c : Crew T) : Crew T → Prop where
  | submit (task : T) : Changes c (c.submit task)
  | receive {job : Job T} {rest : List (Job T)} (hqueued : c.executor.queued = job :: rest)
      (hfree : c.executor.running.length < c.executor.workers) :
      Changes c { c with
        executor.queued := rest
        executor.running := c.executor.running ++ [job]
        received := c.received ++ [job.number] }
  | run {before after : List (Job T)} {job : Job T} (ending : Ending)
      (hrunning : c.executor.running = before ++ job :: after) (hended : job.ended = none) :
      Changes c { c with
        executor.running := before ++ { job with ended := some ending } :: after
        ran := c.ran ++ [(job.number, ending)] }
  | finish {before after : List (Job T)} {job : Job T}
      (hrunning : c.executor.running = before ++ job :: after) (hended : job.ended ≠ none) :
      Changes c { c with
        executor.running := before ++ after
        executor.pending := c.executor.pending - 1
        finished := c.finished ++ [job.number] }
  | leave (hclosed : c.executor.accepting = false) (hqueued : c.executor.queued = [])
      (hfree : c.executor.running.length + c.gone < c.executor.workers) :
      Changes c { c with gone := c.gone + 1 }
  | shutdown : Changes c c.shutdown
  | take {call : Nat} (hcall : c.shutdowns[call]? = some .begun) :
      Changes c { c with
        handles := 0
        shutdowns := c.shutdowns.set call (.joining c.handles 0) }
  | join {call taken joined : Nat} (hcall : c.shutdowns[call]? = some (.joining taken joined))
      (hgone : joined < c.gone) :
      Changes c { c with shutdowns := c.shutdowns.set call (.joining taken (joined + 1)) }
  | conclude {call taken : Nat} (hcall : c.shutdowns[call]? = some (.joining taken taken)) :
      Changes c { c with
        executor := if taken = 0 then c.executor else c.executor.join
        shutdowns := c.shutdowns.set call (.returned taken) }

section Step

variable {c c' : Crew T}

theorem receive_changes (h : c.receive = some c') : c.Changes c' := by
  obtain ⟨⟨job, executor⟩, hr, rfl⟩ := Option.map_eq_some_iff.mp h
  unfold Executor.receive at hr
  split at hr
  · cases hr
  next first rest hqueued =>
    split at hr
    next hfree =>
      cases hr
      exact .receive hqueued hfree
    · cases hr

theorem run_changes {position : Nat} {ending : Ending} (h : c.run position ending = some c') :
    c.Changes c' := by
  unfold run at h
  split at h
  next number task hjob =>
    cases h
    obtain ⟨hlt, hget⟩ := List.getElem?_eq_some_iff.mp hjob
    have hrunning : c.executor.running = c.executor.running.take position ++
        ⟨number, task, none⟩ :: c.executor.running.drop (position + 1) := by
      rw [← hget, ← List.drop_eq_getElem_cons, List.take_append_drop]
    rw [List.set_eq_take_append_cons_drop, if_pos hlt]
    exact .run ending hrunning rfl
  · cases h

theorem finish_changes {position : Nat} (h : c.finish position = some c') : c.Changes c' := by
  unfold finish at h
  split at h
  next number task ending hjob =>
    cases h
    obtain ⟨hlt, hget⟩ := List.getElem?_eq_some_iff.mp hjob
    have hrunning : c.executor.running = c.executor.running.take position ++
        ⟨number, task, some ending⟩ :: c.executor.running.drop (position + 1) := by
      rw [← hget, ← List.drop_eq_getElem_cons, List.take_append_drop]
    rw [Executor.finish, List.eraseIdx_eq_take_drop_succ]
    exact .finish hrunning (by simp)
  · cases h

theorem leave_changes (h : c.leave = some c') : c.Changes c' := by
  unfold leave at h
  split at h
  next hmay =>
    cases h
    exact .leave hmay.1 hmay.2.1 hmay.2.2
  · cases h

theorem take_changes {call : Nat} (h : c.take call = some c') : c.Changes c' := by
  unfold take at h
  split at h
  next hcall =>
    cases h
    exact .take hcall
  · cases h

theorem join_changes {call : Nat} (h : c.join call = some c') : c.Changes c' := by
  unfold join at h
  split at h
  next hcall =>
    split at h
    next hmay =>
      cases h
      exact .join hcall hmay.2
    · cases h
  · cases h

theorem conclude_changes {call : Nat} (h : c.conclude call = some c') : c.Changes c' := by
  unfold conclude at h
  split at h
  next taken joined hcall =>
    split at h
    next hall =>
      cases h
      rw [hall] at hcall
      exact .conclude hcall
    · cases h
  · cases h

theorem step_changes {act : Act T} (h : c.step act = some c') : c.Changes c' := by
  cases act with
  | submit origin task =>
    obtain ⟨-, heq⟩ := Option.ite_none_right_eq_some.mp h
    cases heq
    exact .submit task
  | receive => exact receive_changes h
  | run position ending => exact run_changes h
  | finish position => exact finish_changes h
  | leave => exact leave_changes h
  | shutdown =>
    cases h
    exact .shutdown
  | take call => exact take_changes h
  | join call => exact join_changes h
  | conclude call => exact conclude_changes h

end Step

end Crew
end SessionAttributes
