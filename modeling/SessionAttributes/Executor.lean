import SessionAttributes.Error

namespace SessionAttributes

inductive WorkerStep where
  /-- A free worker receives the next task. -/
  | receive
  /-- The worker with the running task at a position carries it out and is free again. -/
  | finish (position : Nat)
deriving DecidableEq, Repr

/-- A pool of workers that takes tasks in the order in which they were accepted. A task is pending
from its acceptance until a worker has finished it. -/
structure Executor (T : Type) where
  workers : Nat
  accepting : Bool
  /-- Accepted tasks that no worker has received. -/
  queued : List T
  /-- Received tasks that are not finished, oldest first. -/
  running : List T
  pending : Nat
  /-- Whether a shutdown has taken the workers away. -/
  joined : Bool

namespace Executor

variable {T : Type}

def spawn (workers : Nat) : Except SessionError (Executor T) :=
  if workers = 0 then .error (.config "cascade workers must be at least 1")
  else .ok ⟨workers, true, [], [], 0, false⟩

/-- Accepts a task, unless the pool was shut down. -/
def execute (e : Executor T) (task : T) : Executor T :=
  if e.accepting then { e with queued := e.queued ++ [task], pending := e.pending + 1 } else e

def receive (e : Executor T) : Option (T × Executor T) :=
  match e.queued with
  | [] => none
  | task :: rest =>
    if e.running.length < e.workers then
      some (task, { e with queued := rest, running := e.running ++ [task] })
    else none

/-- The worker with the running task at a position is done with it, however it ended. -/
def finish (e : Executor T) (position : Nat) : Executor T :=
  { e with running := e.running.eraseIdx position, pending := e.pending - 1 }

/-- Stops accepting tasks. Tasks already accepted still run. -/
def stopAccepting (e : Executor T) : Executor T := { e with accepting := false }

def isShutdown (e : Executor T) : Bool := !e.accepting

/-- The steps that carry out everything accepted so far, in order. -/
def remainingSteps (e : Executor T) : List WorkerStep :=
  List.replicate e.running.length (.finish 0) ++
    (List.replicate e.queued.length [WorkerStep.receive, .finish 0]).flatten

def isIdle (e : Executor T) : Bool := e.pending == 0

/-- Whether the workers have left: nothing is accepted any more and nothing is left to run. -/
def isDrained (e : Executor T) : Bool := !e.accepting && e.queued.isEmpty && e.running.isEmpty

/-- The shutdown that took the workers away has seen the last of them leave. -/
def join (e : Executor T) : Executor T := if e.isDrained then { e with joined := true } else e

end Executor
end SessionAttributes
