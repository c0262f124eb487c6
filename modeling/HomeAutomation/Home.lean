import HomeAutomation.Rules.Listener

/-! A bus with rules on it and the scheduler that runs their actions, one after another in the
order in which they were submitted. Events posted by an action are delivered at once; the actions
those fire go to the end of the queue. -/

namespace HomeAutomation

open Rules Scheduler

/-- Code embedded into a rule: it may ask its own task to stop, and ends in some way. -/
structure Embedded where
  cancels : Bool
  outcome : Outcome

inductive Trace where
  | event (e : Event)
  | custom (trigger : Event) (task : String) (interrupted : Bool)

namespace Home

structure Surface where
  scheduler : Scheduler (Firing Embedded)
  trace : List Trace := []
  seen : Nat := 0
  rules : Option ListenerId := none

end Home

open Home in
/-- A home whose bus may be gone while tasks are left. -/
structure Home where
  session : Session Surface
  alive : Bool := true

namespace Home

abbrev State := Session Surface

def submit (f : Firing Embedded) (s : Surface) : Surface × List Notice :=
  let (_, scheduler, notices) := s.scheduler.submit f.task none
  ({ s with scheduler }, notices)

def ruleHandler (rs : List (Rule Embedded)) : Handler Surface := Rules.handler submit rs

def watcher : Handler Surface := fun e =>
  .update (fun s => { s with trace := s.trace ++ [.event e], seen := s.seen + 1 }) <|
    .finish .success

/-- A listener that keeps every event and removes the rules once it has seen so many. -/
def limiter (limit : Nat) : Handler Surface := fun e =>
  .update (fun s => { s with trace := s.trace ++ [.event e], seen := s.seen + 1 }) <|
    .look fun s =>
      match s.rules with
      | some id => if limit ≤ s.seen then .unsubscribe id fun _ => .finish .success
        else .finish .success
      | none => .finish .success

def subscribeRules (rs : List (Rule Embedded)) (s : State) : State :=
  let (id, s) := s.subscribe listenerName (ruleHandler rs)
  { s with state := { s.state with rules := some id } }

/-- Where the action of a task is carried out, as long as posts nest at most `bound` deep. -/
def surroundings (bound : Nat) (id : TaskId) (task : String) :
    Surroundings Embedded (Option State) where
  post e s := s.bind fun s => s.post bound e
  log n s := s.map fun s => s.log n
  isInterrupted s := (s.map fun s => s.state.scheduler.isInterrupted id).getD false
  custom code trigger s :=
    (code.outcome, s.map fun s =>
      let interrupted := s.state.scheduler.isInterrupted id
      let scheduler := if code.cancels then s.state.scheduler.cancel id else s.state.scheduler
      let trace := s.state.trace ++ [.custom trigger task interrupted]
      { s with state := { s.state with scheduler, trace } })

def finishTask (s : State) (id : TaskId) (o : Outcome) : State :=
  let (scheduler, notices) := s.state.scheduler.finish id o
  { s with state := { s.state with scheduler } }.logAll notices

def beginTask (s : State) (id : TaskId) : State :=
  { s with state := { s.state with scheduler := s.state.scheduler.begin id } }

/-- Runs a task from its beginning to its end. Without a bus its action is dropped. -/
def runTask (bound : Nat) (h : Home) (id : TaskId) : Option Home :=
  match h.session.state.scheduler.tasks[id]? with
  | none => some h
  | some t =>
    let s := beginTask h.session id
    if h.alive then
      let f := t.work
      let (o, s) := f.action.execute (surroundings bound id t.name) f.rule f.trigger (some s)
      s.map fun s => { h with session := finishTask s id o }
    else some { h with session := finishTask s id .success }

/-- Runs tasks until none is left; `none` if that takes more than `bound` of them. -/
def settleWithin (bound : Nat) : Nat → Home → Option Home
  | 0, h => if h.session.state.scheduler.next?.isNone then some h else none
  | n + 1, h =>
    match h.session.state.scheduler.next? with
    | none => some h
    | some id => (runTask bound h id).bind (settleWithin bound n)

def settle (bound : Nat) (h : Home) : Option Home := settleWithin bound bound h

def post (bound : Nat) (h : Home) (e : Event) : Option Home :=
  (h.session.post bound e).map fun session => { h with session }

/-- Puts an event to the rules alone; the answer is how they ended. -/
def direct (bound : Nat) (h : Home) (rs : List (Rule Embedded)) (e : Event) :
    Option (Outcome × Home) :=
  if h.alive then
    (Session.react (Session.post bound) (ruleHandler rs e) h.session).map fun (o, session) =>
      (o, { h with session })
  else some (.success, h)

def submitIdle (h : Home) (name : String) (trigger : Event) : Home :=
  let task : Scheduler.Task (Firing Embedded) :=
    { name, pool := .worker, blocking := true, work := ⟨name, .sequence [], trigger⟩ }
  let (_, scheduler, notices) := h.session.state.scheduler.submit task none
  let session := { h.session with state := { h.session.state with scheduler } }
  { h with session := session.logAll notices }

inductive Shutdown where
  | ended (h : Home)
  /-- The deadline was no point of time; work is refused, but no task was told to stop. -/
  | panicked (p : Panic) (h : Home)

def withScheduler (h : Home) (scheduler : Scheduler (Firing Embedded)) : Home :=
  { h with session := { h.session with state := { h.session.state with scheduler } } }

/-- An orderly shutdown of the scheduler at the second `now`: work is refused, every task is asked
to stop, those that can end do, and the pools stop. A second one does nothing. -/
def shutdownScheduler (bound now timeout : Nat) (h : Home) : Option Shutdown :=
  let (first, scheduler) := h.session.state.scheduler.close
  let h := h.withScheduler scheduler
  if first then
    match deadline? now timeout with
    | none => some (.panicked deadlinePanic h)
    | some _ =>
      (settle bound (h.withScheduler scheduler.interrupt)).map fun h =>
        let scheduler := h.session.state.scheduler
        let session := h.session.logAll scheduler.timeoutNotices
        .ended ({ h with session }.withScheduler scheduler.stop)
  else some (.ended h)

end Home

end HomeAutomation
