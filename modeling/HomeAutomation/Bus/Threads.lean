import HomeAutomation.Bus

/-! Several callers on one bus at once. A call is a few atomic steps, and a run is a schedule that
says whose step comes next. Listeners only receive here; they call nothing themselves. -/

namespace HomeAutomation.Bus

inductive Call where
  | post (e : Event)
  | latest (id : String)
  | subscribe (name : String)
  | unsubscribe (id : ListenerId)
  | shutdown

inductive Stage where
  | idle
  /-- The event is cached; the listeners are yet to be read. -/
  | stored (e : Event)
  | delivering (e : Event) (left : List ListenerId)
  /-- The id is taken; the listener is yet to be registered. -/
  | named (id : ListenerId) (name : String)

structure Caller where
  stage : Stage := .idle
  calls : List Call

inductive Observation where
  | posted (caller : Nat) (e : Event)
  | received (listener : ListenerId) (caller : Nat) (e : Event)
  | answered (caller : Nat) (id : String) (latest : Option Event)
  | subscribed (caller : Nat) (id : ListenerId)
  | registered (caller : Nat) (id : ListenerId)
  | unsubscribed (caller : Nat) (id : ListenerId) (removed : Bool)
  | detached (caller : Nat)

structure Threads where
  bus : Bus Unit := {}
  callers : List Caller
  observed : List Observation := []

namespace Threads

def callerStep (n : Nat) (b : Bus Unit) (c : Caller) : Bus Unit × Caller × List Observation :=
  match c.stage with
  | .stored e => (b, { c with stage := .delivering e (b.listeners.map Registration.id) }, [])
  | .delivering e (l :: left) =>
    (b, { c with stage := .delivering e left }, [.received l n e])
  | .delivering _ [] => (b, { c with stage := .idle }, [])
  | .named id name =>
    (b.register ⟨id, name, ()⟩, { c with stage := .idle }, [.registered n id])
  | .idle =>
    match c.calls with
    | [] => (b, c, [])
    | .post e :: calls => (b.store e, ⟨.stored e, calls⟩, [.posted n e])
    | .latest id :: calls => (b, ⟨.idle, calls⟩, [.answered n id (b.latest? id)])
    | .subscribe name :: calls =>
      let (id, b) := b.takeId
      (b, ⟨.named id name, calls⟩, [.subscribed n id])
    | .unsubscribe id :: calls =>
      let (removed, b) := b.unsubscribe id
      (b, ⟨.idle, calls⟩, [.unsubscribed n id removed])
    | .shutdown :: calls => (b.detach.2, ⟨.idle, calls⟩, [.detached n])

def step (t : Threads) (n : Nat) : Threads :=
  match t.callers[n]? with
  | none => t
  | some c =>
    let (bus, c, seen) := callerStep n t.bus c
    ⟨bus, t.callers.set n c, t.observed ++ seen⟩

def run (t : Threads) (schedule : List Nat) : Threads := schedule.foldl step t

end Threads

end HomeAutomation.Bus
