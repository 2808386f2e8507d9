import SessionAttributes.Executor
import SessionAttributes.Script.Scene

namespace SessionAttributes.Script

inductive PoolTask where
  | note (text : String)
  /-- Notes the name of the worker that runs it. -/
  | nameWorker
  | fail
  /-- Waits until the gate is open and then makes a note. -/
  | wait (text : String)
  /-- Makes a note and submits a task that makes another one. -/
  | nested (text : String)

inductive PoolStep where
  | submit (task : PoolTask)
  | gate (isOpen : Bool)
  | pending
  | await
  | shutdown
  | isShutdown
  | takeLog

structure Pool where
  name : String
  executor : Executor PoolTask
  gate : Bool
  /-- The notes since the log was taken, newest first. -/
  log : List String
  /-- Whether tasks can still reach the pool that runs them. -/
  reachable : Bool

namespace Pool

def note (p : Pool) (text : String) : Pool := { p with log := text :: p.log }

def submit (p : Pool) (task : PoolTask) : Pool := { p with executor := p.executor.execute task }

def finish (p : Pool) (position : Nat) : Pool := { p with executor := p.executor.finish position }

def carryOut (p : Pool) (worker : Nat) : PoolTask → Pool
  | .note text | .wait text => p.note text
  | .nameWorker => p.note (p.name ++ "-" ++ toString worker)
  | .fail => p
  | .nested text =>
    let p := p.note text
    if p.reachable then p.submit (.note (text ++ "/inner")) else p

def isHeldUp (p : Pool) : PoolTask → Bool
  | .wait _ => !p.gate
  | _ => false

/-- One worker makes a step: the oldest running task comes to its end, or the next one is received.
Nothing if all that runs is held up and no worker is free or no task is queued. -/
def advance (p : Pool) : Option Pool :=
  match p.executor.running.find? fun task => !p.isHeldUp task with
  | some task =>
    let position := p.executor.running.findIdx fun task => !p.isHeldUp task
    some ((p.carryOut position task).finish position)
  | none => p.executor.receive.map fun (_, executor) => { p with executor }

/-- Lets the workers work until nothing moves, for a number of steps at most. -/
def settleWithin : Nat → Pool → Pool
  | 0, p => p
  | most + 1, p =>
    match p.advance with
    | none => p
    | some p => settleWithin most p

/-- Each task is received and finished once, and brings at most one more. -/
def settle (p : Pool) : Pool := settleWithin (4 * p.executor.pending) p

/-- Lets what was accepted finish and the workers leave. -/
def shutdown (p : Pool) : Pool :=
  let p := settle { p with gate := true, executor := p.executor.stopAccepting }
  { p with executor := p.executor.join }

/-- The notes in order. Of several workers none is the first, so theirs are sorted. -/
def notes (p : Pool) : List String :=
  if p.executor.workers ≤ 1 then p.log.reverse else p.log.mergeSort fun a b => a ≤ b

def step (p : Pool) : PoolStep → Json × Pool
  | .submit task => (.null, (p.submit task).settle)
  | .gate isOpen => (.null, settle { p with gate := isOpen })
  | .pending => (Json.ofNat p.executor.pending, p)
  | .await => (.bool p.executor.isIdle, p)
  | .shutdown => (.null, p.shutdown)
  | .isShutdown => (.bool p.executor.isShutdown, p)
  | .takeLog => (.array (p.notes.map .string), { p with log := [] })

/-- The answers to the steps, and the length of the log when the pool is gone. -/
def run : List PoolStep → Pool → List Json
  | [], p => [Json.ofNat ({ p with reachable := false } : Pool).shutdown.log.length]
  | step :: steps, p =>
    let (r, p) := p.step step
    r :: run steps p

end Pool

def runOnPool (name : String) (workers : Nat) (steps : List PoolStep) : Json :=
  Shown.result (fun executor => .array (Pool.run steps ⟨name, executor, true, [], true⟩))
    (Executor.spawn workers)

end SessionAttributes.Script
