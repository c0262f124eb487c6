import HomeAutomation.Bus.Dispatch
import HomeAutomation.Bus.Threads

/-! Several threads on one bus, whose listeners use the bus again while they are called. A thread
goes on with its innermost job, one atomic step at a time, and a schedule says whose step comes
next. -/

namespace HomeAutomation.Bus

/-- What a thread has in hand. -/
inductive Job (σ : Type) where
  /-- A program: that of the thread itself, or what is left of a listener's reaction. -/
  | run (r : Reaction σ) (called : Option (Registration (Handler σ) × Event))
  /-- A post whose event is cached; the listeners are yet to be read. -/
  | read (e : Event)
  /-- A post with the listeners that are still to be called. -/
  | deliver (e : Event) (due : List (Registration (Handler σ)))
  /-- The id is taken; the listener is yet to be registered. -/
  | register (r : Registration (Handler σ))

/-- The threads with their jobs, the innermost first. -/
structure Traffic (σ : Type) where
  session : Session σ
  threads : List (List (Job σ))
  observed : List Observation := []

namespace Traffic

variable {σ : Type}

def jobStep (n : Nat) (s : Session σ) :
    List (Job σ) → Session σ × List (Job σ) × List Observation
  | [] => (s, [], [])
  | .read e :: js => (s, .deliver e s.bus.listeners :: js, [])
  | .deliver e [] :: js => (s.record (.postEnded e), js, [])
  | .deliver e (l :: due) :: js =>
    (s.record (.called l.id e), .run (l.react e) (some (l, e)) :: .deliver e due :: js,
      [.received l.id n e])
  | .register r :: js =>
    ({ s with bus := s.bus.register r }.record (.subscribed r.id r.name), js, [.registered n r.id])
  | .run r called :: js =>
    match r with
    | .finish o =>
      match called with
      | none => (s, js, [])
      | some (l, e) => (s.callEnded l e o, js, [])
    | .log notice next => (s.log notice, .run next called :: js, [])
    | .update f next => ({ s with state := f s.state }, .run next called :: js, [])
    | .look next => (s, .run (next s.state) called :: js, [])
    | .read next => (s, .run (next s.bus.cache) called :: js, [])
    | .subscribe name react next =>
      let (id, bus) := s.bus.takeId
      ({ s with bus }, .register ⟨id, name, react⟩ :: .run (next id) called :: js,
        [.subscribed n id])
    | .unsubscribe id next =>
      let (removed, s) := s.unsubscribe id
      (s, .run (next removed) called :: js, [.unsubscribed n id removed])
    | .post e next => (s.begin e, .read e :: .run next called :: js, [.posted n e])
    | .shutdown next => (s.shutdown, .run next called :: js, [.detached n])

def step (t : Traffic σ) (n : Nat) : Traffic σ :=
  match t.threads[n]? with
  | none => t
  | some js =>
    let (session, js, seen) := jobStep n t.session js
    ⟨session, t.threads.set n js, t.observed ++ seen⟩

def run (t : Traffic σ) (schedule : List Nat) : Traffic σ := schedule.foldl step t

/-- Threads that are yet to begin, each with its program, on a bus that nobody used. -/
def start (x : σ) (programs : List (Reaction σ)) : Traffic σ where
  session := { state := x }
  threads := programs.map fun r => [.run r none]

end Traffic

end HomeAutomation.Bus
