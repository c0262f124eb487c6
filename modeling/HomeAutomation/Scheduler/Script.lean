import HomeAutomation.Scheduler

/-! Tasks whose work is a script of stages, and a scheduler that runs them as far as they can go.
Gates and interruptions hold a script up; everything else goes on at once, in the order in which
the tasks were submitted. -/

namespace HomeAutomation.Scheduler

inductive Stage where
  | gate (name : String)
  | interruption
  | forever
  /-- Reports the task's name and whether it has been asked to stop. -/
  | report

structure Script where
  stages : List Stage
  outcome : Outcome

structure Workshop where
  scheduler : Scheduler Script
  gates : List String := []
  reports : List (String × Bool) := []
  notices : List Notice := []

namespace Workshop

def canTake (w : Workshop) (id : TaskId) : Stage → Bool
  | .gate g => w.gates.contains g
  | .interruption => w.scheduler.isInterrupted id
  | .forever => false
  | .report => true

def canAdvance (w : Workshop) (id : TaskId) (t : Task Script) : Bool :=
  t.phase = .running && (t.work.stages.head?.map (w.canTake id)).getD true

def advance (w : Workshop) (id : TaskId) (t : Task Script) : Workshop :=
  match t.work.stages with
  | [] =>
    let (scheduler, notices) := w.scheduler.finish id t.work.outcome
    { w with scheduler, notices := w.notices ++ notices }
  | stage :: rest =>
    let tasks := w.scheduler.tasks.modify id fun t => { t with work := ⟨rest, t.work.outcome⟩ }
    let w := { w with scheduler := { w.scheduler with tasks } }
    match stage with
    | .report => { w with reports := w.reports ++ [(t.name, w.scheduler.isInterrupted id)] }
    | _ => w

def step? (w : Workshop) : Option Workshop :=
  let numbered := w.scheduler.tasks.zipIdx
  match numbered.find? fun (t, id) => w.canAdvance id t with
  | some (t, id) => some (w.advance id t)
  | none => w.scheduler.next?.map fun id => { w with scheduler := w.scheduler.begin id }

/-- More steps than the tasks have left: each stage is one, and so are beginning and ending. -/
def stepsLeft (w : Workshop) : Nat :=
  w.scheduler.tasks.foldr (fun t n => t.work.stages.length + 2 + n) 0

def settleWithin : Nat → Workshop → Workshop
  | 0, w => w
  | n + 1, w =>
    match w.step? with
    | none => w
    | some w => settleWithin n w

def settle (w : Workshop) : Workshop := settleWithin w.stepsLeft w

def submit (w : Workshop) (t : Task Script) : Submission × Workshop :=
  let (answer, scheduler, notices) := w.scheduler.submit t none
  (answer, { w with scheduler, notices := w.notices ++ notices }.settle)

def openGate (w : Workshop) (g : String) : Workshop :=
  { w with gates := g :: w.gates }.settle

def cancel (w : Workshop) (id : TaskId) : Workshop :=
  { w with scheduler := w.scheduler.cancel id }.settle

/-- An orderly shutdown whose timeout is long enough for every task that can end. -/
def shutdown (w : Workshop) : Workshop :=
  let (first, scheduler) := w.scheduler.close
  if first then
    let w := { w with scheduler := scheduler.interrupt }.settle
    let notices := w.notices ++ w.scheduler.timeoutNotices
    { w with scheduler := w.scheduler.stop, notices }.settle
  else w

/-- Gives the scheduler up: nothing waits for its tasks. -/
def abandon (w : Workshop) : Workshop :=
  { w with scheduler := (w.scheduler.close.2.interrupt).stop }.settle

end Workshop

end HomeAutomation.Scheduler
