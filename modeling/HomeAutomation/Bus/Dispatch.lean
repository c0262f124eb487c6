import HomeAutomation.Bus
import HomeAutomation.Failure
import HomeAutomation.Log

/-! Posting on one thread. A listener's reaction is a program of bus operations that ends well,
with an error or by a panic, and may post again while its own dispatch goes on. A post delivers
to the listeners that were registered when it began, whatever the reactions do. -/

namespace HomeAutomation

/-- What a listener does on an event, step by step, around a state `σ` of its surroundings. -/
inductive Reaction (σ : Type) where
  | finish (o : Outcome)
  | log (n : Notice) (next : Reaction σ)
  | update (f : σ → σ) (next : Reaction σ)
  | look (next : σ → Reaction σ)
  | read (next : Cache → Reaction σ)
  | subscribe (name : String) (react : Event → Reaction σ) (next : ListenerId → Reaction σ)
  | unsubscribe (id : ListenerId) (next : Bool → Reaction σ)
  | post (e : Event) (next : Reaction σ)
  | shutdown (next : Reaction σ)

instance {σ : Type} : Inhabited (Reaction σ) := ⟨.finish .success⟩

abbrev Handler (σ : Type) := Event → Reaction σ

inductive Happening where
  | postBegan (e : Event)
  | called (listener : ListenerId) (e : Event)
  | returned (listener : ListenerId) (name : String) (e : Event) (o : Outcome)
  /-- A line that the bus itself logs about a call. -/
  | reported (n : Notice)
  | postEnded (e : Event)
  | subscribed (listener : ListenerId) (name : String)
  | unsubscribed (listener : ListenerId) (removed : Bool)
  | detached (count : Nat)
  | logged (n : Notice)

def Happening.notice? : Happening → Option Notice
  | .logged n | .reported n => some n
  | _ => none

def Outcome.notice? (o : Outcome) (id : ListenerId) (name : String) (e : Event) : Option Notice :=
  match o with
  | .success => none
  | .failure f => some (.listenerFailed id name e.id f.message)
  | .panic p => some (.listenerPanicked id name e.id p.message)

structure Session (σ : Type) where
  bus : Bus (Handler σ) := {}
  state : σ
  history : List Happening := []

namespace Session

variable {σ : Type}

def record (s : Session σ) (h : Happening) : Session σ := { s with history := s.history ++ [h] }

def log (s : Session σ) (n : Notice) : Session σ := s.record (.logged n)

def logAll (s : Session σ) (ns : List Notice) : Session σ := ns.foldl log s

def shutdown (s : Session σ) : Session σ :=
  let (n, bus) := s.bus.detach
  ({ s with bus }.record (.detached n)).log (.busShutDown n)

def subscribe (s : Session σ) (name : String) (react : Handler σ) : ListenerId × Session σ :=
  let (id, bus) := s.bus.subscribe name react
  (id, { s with bus }.record (.subscribed id name))

def unsubscribe (s : Session σ) (id : ListenerId) : Bool × Session σ :=
  let (removed, bus) := s.bus.unsubscribe id
  (removed, { s with bus }.record (.unsubscribed id removed))

/-- The start of a post: a stable event is in the cache before any listener runs. -/
def begin (s : Session σ) (e : Event) : Session σ :=
  { s with bus := s.bus.store e }.record (.postBegan e)

def callEnded (s : Session σ) (r : Registration (Handler σ)) (e : Event) (o : Outcome) :
    Session σ :=
  let s := s.record (.returned r.id r.name e o)
  match o.notice? r.id r.name e with
  | none => s
  | some n => s.record (.reported n)

def react (post : Session σ → Event → Option (Session σ)) :
    Reaction σ → Session σ → Option (Outcome × Session σ)
  | .finish o, s => some (o, s)
  | .log n next, s => react post next (s.log n)
  | .update f next, s => react post next { s with state := f s.state }
  | .look next, s => react post (next s.state) s
  | .read next, s => react post (next s.bus.cache) s
  | .subscribe name handler next, s =>
    let (id, s) := s.subscribe name handler
    react post (next id) s
  | .unsubscribe id next, s =>
    let (removed, s) := s.unsubscribe id
    react post (next removed) s
  | .post e next, s => (post s e).bind fun s => react post next s
  | .shutdown next, s => react post next s.shutdown

def deliver (post : Session σ → Event → Option (Session σ)) (e : Event) :
    List (Registration (Handler σ)) → Session σ → Option (Session σ)
  | [], s => some s
  | r :: rs, s =>
    (react post (r.react e) (s.record (.called r.id e))).bind fun (o, s) =>
      deliver post e rs (s.callEnded r e o)

/-- Posts an event: a stable one is cached, then the listeners registered at this moment are
called. Posts within reactions nest at most `depth` deep; `none` means that this was not
enough. -/
def post : Nat → Session σ → Event → Option (Session σ)
  | 0, _, _ => none
  | depth + 1, s, e =>
    (deliver (post depth) e (s.begin e).bus.listeners (s.begin e)).map
      fun s => s.record (.postEnded e)

def notices (s : Session σ) : List Notice := s.history.filterMap Happening.notice?

end Session

end HomeAutomation
