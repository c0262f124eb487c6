import HomeAutomation.Trigger.Eval

/-! The event bus: the latest stable event of each id, and the registered listeners in the order
of their registration. Every operation here is one atomic step. -/

namespace HomeAutomation

/-- Events under the ids they are kept for, one for each id. -/
structure Cache where
  entries : List (String × Event) := []

namespace Cache

def get? (c : Cache) (id : String) : Option Event := c.entries.lookup id

def put (c : Cache) (e : Event) : Cache :=
  ⟨(e.id, e) :: c.entries.filter fun (id, _) => id != e.id⟩

def size (c : Cache) : Nat := c.entries.length

def snapshot (c : Cache) : List Event :=
  (c.entries.map Prod.snd).mergeSort fun e f => decide (e.id ≤ f.id)

def values (c : Cache) : Trigger.Values := fun id => (c.get? id).bind Event.value

end Cache

abbrev ListenerId := Nat

structure Registration (β : Type) where
  id : ListenerId
  name : String
  react : β

structure Bus (β : Type) where
  cache : Cache := {}
  listeners : List (Registration β) := []
  nextId : ListenerId := 1

namespace Bus

variable {β : Type}

/-- A stable event becomes the latest of its id; a transient one leaves the cache alone. -/
def store (b : Bus β) (e : Event) : Bus β :=
  if e.stable then { b with cache := b.cache.put e } else b

def takeId (b : Bus β) : ListenerId × Bus β := (b.nextId, { b with nextId := b.nextId + 1 })

def register (b : Bus β) (r : Registration β) : Bus β :=
  { b with listeners := b.listeners ++ [r] }

def subscribe (b : Bus β) (name : String) (react : β) : ListenerId × Bus β :=
  let (id, b) := b.takeId
  (id, b.register ⟨id, name, react⟩)

def isRegistered (b : Bus β) (id : ListenerId) : Bool := b.listeners.any fun r => r.id == id

def unsubscribe (b : Bus β) (id : ListenerId) : Bool × Bus β :=
  if b.isRegistered id then
    (true, { b with listeners := b.listeners.filter fun r => r.id != id })
  else (false, b)

def detach (b : Bus β) : Nat × Bus β := (b.listeners.length, { b with listeners := [] })

def latest? (b : Bus β) (id : String) : Option Event := b.cache.get? id

def snapshot (b : Bus β) : List Event := b.cache.snapshot

def cachedCount (b : Bus β) : Nat := b.cache.size

def listenerCount (b : Bus β) : Nat := b.listeners.length

def values (b : Bus β) : Trigger.Values := b.cache.values

end Bus

end HomeAutomation
