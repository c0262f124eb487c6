import HomeAutomation.Config
import HomeAutomation.Home

/-! Starting a home from a configuration, and stopping it. It says on its bus when it starts, when
its rules are ready and when it quits; in between its rules are on the bus. -/

namespace HomeAutomation.Home

structure StartError where
  settings : Scheduler.Settings.Error
  deriving DecidableEq

def StartError.message (e : StartError) : String :=
  "failed to start task scheduler: " ++ e.settings.message

def loadingNotices (rs : Rules.Loaded Embedded) : List Notice :=
  rs.notices ++ rs.errors.map fun e => .ruleNotLoaded e.rule e.message

def withRules (rs : Rules.Loaded Embedded) (s : State) : State :=
  let s := s.logAll (loadingNotices rs)
  if rs.rules.isEmpty then s else subscribeRules rs.rules s

/-- A home that was just started; actions that its start fired are left in the queue. Posts nest at
most `bound` deep. -/
def start (bound : Nat) (c : Config) : Option (Except StartError Home) :=
  match Scheduler.start c.tasks with
  | .error e => some (.error ⟨e⟩)
  | .ok scheduler => do
    let s : State := { state := { scheduler } }
    let s ← s.post bound Lifecycle.start.event
    let session ← (withRules (Rules.load c.definitions) s).post bound Lifecycle.ready.event
    return .ok { session }

def withoutRules (h : Home) : Bool × Home :=
  match h.alive, h.session.state.rules with
  | true, some id =>
    let (removed, session) := h.session.unsubscribe id
    (removed, { h with session })
  | _, _ => (false, h)

/-- Stops a home at the second `now`: the quit event is posted, the rules leave the bus, the
scheduler shuts down within the timeout, and every listener is detached. -/
def stop (bound now timeout : Nat) (h : Home) : Option Shutdown := do
  let h ← h.post bound Lifecycle.quit.event
  match ← h.withoutRules.2.shutdownScheduler bound now timeout with
  | .ended h => return .ended { h with session := h.session.shutdown }
  | .panicked p h => return .panicked p h

end HomeAutomation.Home
