import HomeAutomation.Failure
import HomeAutomation.Log
import HomeAutomation.Scheduler.Settings

/-! The task scheduler as a state machine. A task is prepared, counted as active, handed to its
pool, started and ended, each by an atomic step, so that a run of several threads is a list of
such steps. What a task does is left to a parameter. -/

namespace HomeAutomation.Scheduler

inductive Pool where
  | worker
  | system
  deriving DecidableEq

inductive TaskError where
  | failed (error : String)
  | panicked (panic : String)
  | cancelled
  deriving DecidableEq

def TaskError.message : TaskError → String
  | .failed e => "task failed: " ++ e
  | .panicked p => "task panicked: " ++ p
  | .cancelled => "task cancelled before completion"

inductive Phase where
  /-- The scheduler accepted it; it is not counted yet. -/
  | prepared
  /-- It is counted; no pool has it yet. -/
  | entered
  | queued
  | running
  /-- Its work is done and its end is logged; it is still counted, and its result is not out. -/
  | ending (o : Outcome)
  | ended (o : Outcome)
  /-- It went away before its end, or before it began. -/
  | dropped
  deriving DecidableEq

namespace Phase

def isActive : Phase → Bool
  | .entered | .queued | .running | .ending _ => true
  | .prepared | .ended _ | .dropped => false

/-- Whether a task that blocks holds a thread of its pool. -/
def isOnThread : Phase → Bool
  | .running | .ending _ => true
  | .prepared | .entered | .queued | .ended _ | .dropped => false

def result? : Phase → Option (Except TaskError Unit)
  | .ended .success => some (.ok ())
  | .ended (.failure f) => some (.error (.failed f.message))
  | .ended (.panic p) => some (.error (.panicked p.message))
  | .dropped => some (.error .cancelled)
  | _ => none

end Phase

/-- A task doing `work`; blocking work holds a thread of its pool while it runs. -/
structure Task (τ : Type) where
  name : String
  pool : Pool
  blocking : Bool
  work : τ
  cancelled : Bool := false
  phase : Phase := .prepared

abbrev TaskId := Nat

end Scheduler

structure Scheduler (τ : Type) where
  settings : Scheduler.Settings
  tasks : List (Scheduler.Task τ) := []
  accepting : Bool := true
  interrupted : Bool := false
  active : Nat := 0
  stopped : Bool := false

namespace Scheduler

variable {τ : Type}

def start (settings : Settings) : Except Settings.Error (Scheduler τ) :=
  settings.validate.map fun () => { settings }

def isShutDown (s : Scheduler τ) : Bool := !s.accepting

def threads (s : Scheduler τ) : Pool → Nat
  | .worker => s.settings.maxThreads
  | .system => s.settings.systemThreads

def isInterrupted (s : Scheduler τ) (id : TaskId) : Bool :=
  s.interrupted || (s.tasks[id]?.map Task.cancelled).getD false

def phase? (s : Scheduler τ) (id : TaskId) : Option Phase := s.tasks[id]?.map Task.phase

/-- What waiting for a task answers, once there is an answer. -/
def result? (s : Scheduler τ) (id : TaskId) : Option (Except TaskError Unit) :=
  (s.phase? id).bind Phase.result?

def setPhase (s : Scheduler τ) (id : TaskId) (p : Phase) : Scheduler τ :=
  { s with tasks := s.tasks.modify id fun t => { t with phase := p } }

/-- Takes a task on, unless work is refused: nobody has counted or cancelled it yet. -/
def prepare (s : Scheduler τ) (t : Task τ) : Option (TaskId × Scheduler τ) :=
  let task := { t with cancelled := false, phase := .prepared }
  if s.accepting then some (s.tasks.length, { s with tasks := s.tasks ++ [task] }) else none

def enter (s : Scheduler τ) (id : TaskId) : Scheduler τ :=
  if s.phase? id = some .prepared then { s.setPhase id .entered with active := s.active + 1 }
  else s

def leave (s : Scheduler τ) (id : TaskId) (p : Phase) : Scheduler τ :=
  { s.setPhase id p with active := s.active - 1 }

/-- Gives a counted task to its pool. Stopped pools let it go. -/
def handOver (s : Scheduler τ) (id : TaskId) : Scheduler τ :=
  if s.phase? id = some .entered then
    if s.stopped then s.leave id .dropped else s.setPhase id .queued
  else s

/-- Lets a counted task go whose work panicked before a pool had it. -/
def unwind (s : Scheduler τ) (id : TaskId) : Scheduler τ :=
  if s.phase? id = some .entered then s.leave id .dropped else s

def begin (s : Scheduler τ) (id : TaskId) : Scheduler τ :=
  if s.phase? id = some .queued then s.setPhase id .running else s

def endNotices (name : String) : Outcome → List Notice
  | .success => []
  | .failure f => [.taskFailed name f.message]
  | .panic p => [.taskPanicked name p.message]

/-- The work of a running task is done: how it ended is logged unless it ended well. -/
def conclude (s : Scheduler τ) (id : TaskId) (o : Outcome) : Scheduler τ × List Notice :=
  match s.tasks[id]? with
  | some t =>
    if t.phase = .running then (s.setPhase id (.ending o), endNotices t.name o) else (s, [])
  | none => (s, [])

/-- A task whose work is done is counted no more, and its result comes out. -/
def release (s : Scheduler τ) (id : TaskId) : Scheduler τ :=
  match s.phase? id with
  | some (.ending o) => s.leave id (.ended o)
  | _ => s

def finish (s : Scheduler τ) (id : TaskId) (o : Outcome) : Scheduler τ × List Notice :=
  let (s, notices) := s.conclude id o
  (s.release id, notices)

def drop (s : Scheduler τ) (id : TaskId) : Scheduler τ :=
  if s.phase? id = some .queued ∨ s.phase? id = some .running then s.leave id .dropped else s

def cancel (s : Scheduler τ) (id : TaskId) : Scheduler τ :=
  { s with tasks := s.tasks.modify id fun t => { t with cancelled := true } }

def close (s : Scheduler τ) : Bool × Scheduler τ := (s.accepting, { s with accepting := false })

def interrupt (s : Scheduler τ) : Scheduler τ := { s with interrupted := true }

/-- The tasks that are not blocking; stopping the pools ends them. -/
def asyncIds (s : Scheduler τ) : List TaskId :=
  (List.range s.tasks.length).filter fun id =>
    (s.tasks[id]?.map fun t => !t.blocking).getD false

def stopPools (s : Scheduler τ) : Scheduler τ := { s with stopped := true }

/-- Stops the pools. Blocking tasks go on or begin on the threads they have; the others are let
go. -/
def stop (s : Scheduler τ) : Scheduler τ := s.asyncIds.foldl drop s.stopPools

inductive Submission where
  | accepted (id : TaskId)
  | rejected
  | panicked (p : Panic)
  deriving DecidableEq

/-- Submits a task: it is prepared, counted and handed over, or rejected with a warning. Work that
is not blocking is built on the spot and may panic there; the task is then let go and the panic
reaches the caller. -/
def submit (s : Scheduler τ) (t : Task τ) (building : Option Panic) :
    Submission × Scheduler τ × List Notice :=
  match s.prepare t with
  | none => (.rejected, s, [.taskRejected t.name])
  | some (id, s) =>
    match if t.blocking then none else building with
    | none => (.accepted id, (s.enter id).handOver id, [])
    | some p => (.panicked p, (s.enter id).unwind id, [])

def shutDownMessage : String := "scheduler is shut down"

def busy (s : Scheduler τ) (pool : Pool) : Nat :=
  s.tasks.countP fun t => t.blocking && t.pool = pool && t.phase.isOnThread

def canBegin (s : Scheduler τ) (t : Task τ) : Bool :=
  t.phase = .queued && (!t.blocking || s.busy t.pool < s.threads t.pool)

def next? (s : Scheduler τ) : Option TaskId := s.tasks.findIdx? s.canBegin

/-- The seconds that a point of time can count, in 64 bits with a sign. -/
def maxInstant : Nat := 0x7FFFFFFFFFFFFFFF

/-- When a shutdown that begins now stops waiting, unless no point of time is that late. Then the
sum of the two panics, whoever asked for such a timeout. -/
def deadline? (now timeout : Nat) : Option Nat :=
  if now + timeout ≤ maxInstant then some (now + timeout) else none

def deadlinePanic : Panic := .text "overflow when adding duration to instant"

/-- What a shutdown that waits for the tasks gathers from a look at their count: it waits no longer
if none is active or its time is up, and that many are left. -/
def look (s : Scheduler τ) (timeUp : Bool) : Option Nat :=
  if s.active = 0 ∨ timeUp then some s.active else none

/-- The waiting of a shutdown, one look after another. -/
def waitIdle (looks : List (Scheduler τ × Bool)) : Option Nat :=
  looks.findSome? fun (s, timeUp) => s.look timeUp

def timeoutNotices (s : Scheduler τ) : List Notice :=
  if s.active = 0 then [] else [.shutdownTimedOut s.active]

end Scheduler

end HomeAutomation
