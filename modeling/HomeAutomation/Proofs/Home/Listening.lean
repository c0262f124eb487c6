import HomeAutomation.Home.Lifecycle
import HomeAutomation.Proofs.Bus.Delivery
import HomeAutomation.Proofs.Scheduler.Service

/-! Orderly listeners of a home. Events have ranks, and a listener only posts events of a lower rank
than the one it reacts to; it may submit and cancel tasks, but does not shut the scheduler down. If
all listeners are orderly, every post returns. -/

namespace HomeAutomation.Home

/-- What an orderly listener may do to the surroundings. -/
structure Keeps (s t : Surface) : Prop where
  serves : s.scheduler.Serves t.scheduler
  rules : t.rules = s.rules

theorem Keeps.refl (s : Surface) : Keeps s s := ⟨.refl _, rfl⟩

theorem Keeps.trans {s t u : Surface} (h : Keeps s t) (h' : Keeps t u) : Keeps s u :=
  ⟨h.serves.trans h'.serves, h'.rules.trans h.rules⟩

theorem keeps_submit (f : Rules.Firing Embedded) (s : Surface) : Keeps s (submit f s).1 :=
  ⟨.submit s.scheduler f.task none, rfl⟩

/-- A reaction to an event of rank `n`, from these surroundings on, that is orderly. -/
def Orderly (rank : String → Nat) : Reaction Surface → Nat → Surface → Prop
  | .finish _, _, _ => True
  | .log _ next, n, s => Orderly rank next n s
  | .update f next, n, s => Keeps s (f s) ∧ Orderly rank next n (f s)
  | .look next, n, s => Orderly rank (next s) n s
  | .read next, n, s => ∀ cache, Orderly rank (next cache) n s
  | .subscribe _ react next, n, s =>
    (∀ e t, Orderly rank (react e) (rank e.id) t) ∧ ∀ id, Orderly rank (next id) n s
  | .unsubscribe _ next, n, s => ∀ removed, Orderly rank (next removed) n s
  | .post e next, n, s => rank e.id < n ∧ ∀ t, Keeps s t → Orderly rank next n t
  | .shutdown next, n, s => Orderly rank next n s

def OrderlyListener (rank : String → Nat) (react : Handler Surface) : Prop :=
  ∀ e s, Orderly rank (react e) (rank e.id) s

def OrderlyBus (rank : String → Nat) (s : State) : Prop :=
  ∀ l ∈ s.bus.listeners, OrderlyListener rank l.react

/-- How a session goes on if its listeners are orderly. -/
structure Proceeds (rank : String → Nat) (s t : State) : Prop where
  bus : OrderlyBus rank t
  keeps : Keeps s.state t.state

section Sessions

variable {rank : String → Nat} {s t u : State}

theorem Proceeds.refl (hs : OrderlyBus rank s) : Proceeds rank s s := ⟨hs, .refl _⟩

theorem Proceeds.trans (h : Proceeds rank s t) (h' : Proceeds rank t u) : Proceeds rank s u :=
  ⟨h'.bus, h.keeps.trans h'.keeps⟩

theorem bus_logAll (ns : List Notice) : (s.logAll ns).bus = s.bus := by
  induction ns generalizing s with
  | nil => rfl
  | cons n ns ih => exact ih

theorem state_logAll (ns : List Notice) : (s.logAll ns).state = s.state := by
  induction ns generalizing s with
  | nil => rfl
  | cons n ns ih => exact ih

theorem proceeds_subscribe (hs : OrderlyBus rank s) {react : Handler Surface}
    (hreact : OrderlyListener rank react) (name : String) :
    Proceeds rank s (s.subscribe name react).2 := by
  refine ⟨fun l hl => ?_, .refl _⟩
  rcases List.mem_append.mp hl with hl | hl
  · exact hs l hl
  · rw [List.mem_singleton.mp hl]
    exact hreact

theorem proceeds_unsubscribe (hs : OrderlyBus rank s) (id : ListenerId) :
    Proceeds rank s (s.unsubscribe id).2 := by
  refine ⟨fun l hl => hs l ?_, .refl _⟩
  have hl' : l ∈ (s.bus.unsubscribe id).2.listeners := hl
  rw [Bus.unsubscribe] at hl'
  split at hl'
  · exact (List.mem_filter.mp hl').1
  · exact hl'

theorem proceeds_shutdown : Proceeds rank s s.shutdown :=
  ⟨fun _ hl => absurd hl List.not_mem_nil, .refl _⟩

theorem proceeds_callEnded (hs : OrderlyBus rank s) (l : Registration (Handler Surface)) (e : Event)
    (o : Outcome) : Proceeds rank s (s.callEnded l e o) := by
  have hstate : (s.callEnded l e o).state = s.state := by cases o <;> rfl
  refine ⟨?_, hstate ▸ .refl _⟩
  rw [OrderlyBus, Session.bus_callEnded]
  exact hs

end Sessions

section Posting

variable {rank : String → Nat}

/-- Posts of events below a rank return. -/
def PostsReturn (rank : String → Nat) (n : Nat) (post : State → Event → Option State) : Prop :=
  ∀ s f, rank f.id < n → OrderlyBus rank s → ∃ t, post s f = some t ∧ Proceeds rank s t

theorem exists_react {n : Nat} {post : State → Event → Option State}
    (hpost : PostsReturn rank n post) {r : Reaction Surface} {s : State}
    (hr : Orderly rank r n s.state) (hs : OrderlyBus rank s) :
    ∃ o t, Session.react post r s = some (o, t) ∧ Proceeds rank s t := by
  induction r generalizing s with
  | finish o => exact ⟨o, s, rfl, .refl hs⟩
  | log m next ih =>
    obtain ⟨o, t, ht, hproceeds⟩ := ih (s := s.log m) hr hs
    exact ⟨o, t, ht, hproceeds.bus, hproceeds.keeps⟩
  | update f next ih =>
    obtain ⟨o, t, ht, hproceeds⟩ := ih (s := { s with state := f s.state }) hr.2 hs
    exact ⟨o, t, ht, hproceeds.bus, hr.1.trans hproceeds.keeps⟩
  | look next ih => exact ih _ hr hs
  | read next ih => exact ih _ (hr s.bus.cache) hs
  | subscribe name react next _ ih =>
    have hsub := proceeds_subscribe hs hr.1 name
    obtain ⟨o, t, ht, hproceeds⟩ := ih _ (s := (s.subscribe name react).2) (hr.2 _) hsub.bus
    exact ⟨o, t, ht, hsub.trans hproceeds⟩
  | unsubscribe id next ih =>
    have hunsub := proceeds_unsubscribe hs id
    obtain ⟨o, t, ht, hproceeds⟩ := ih _ (s := (s.unsubscribe id).2) (hr _) hunsub.bus
    exact ⟨o, t, ht, hunsub.trans hproceeds⟩
  | post f next ih =>
    obtain ⟨u, hu, hposted⟩ := hpost s f hr.1 hs
    obtain ⟨o, t, ht, hproceeds⟩ := ih (hr.2 _ hposted.keeps) hposted.bus
    refine ⟨o, t, ?_, hposted.trans hproceeds⟩
    rw [Session.react, hu]
    exact ht
  | shutdown next ih =>
    obtain ⟨o, t, ht, hproceeds⟩ := ih (s := s.shutdown) hr proceeds_shutdown.bus
    exact ⟨o, t, ht, proceeds_shutdown.trans hproceeds⟩

theorem exists_deliver {e : Event} {post : State → Event → Option State}
    (hpost : PostsReturn rank (rank e.id) post) {ls : List (Registration (Handler Surface))}
    {s : State} (hls : ∀ l ∈ ls, OrderlyListener rank l.react) (hs : OrderlyBus rank s) :
    ∃ t, Session.deliver post e ls s = some t ∧ Proceeds rank s t := by
  induction ls generalizing s with
  | nil => exact ⟨s, rfl, .refl hs⟩
  | cons l ls ih =>
    have hcalled : OrderlyBus rank (s.record (.called l.id e)) := hs
    obtain ⟨o, u, hu, hreacted⟩ := exists_react hpost (hls l List.mem_cons_self e _) hcalled
    have hended := proceeds_callEnded hreacted.bus l e o
    obtain ⟨t, ht, hproceeds⟩ := ih (fun l' hl' => hls l' (List.mem_cons_of_mem l hl')) hended.bus
    refine ⟨t, ?_, Proceeds.trans ⟨hreacted.bus, hreacted.keeps⟩ (hended.trans hproceeds)⟩
    rw [Session.deliver, hu]
    exact ht

theorem postsReturn (n : Nat) : PostsReturn rank n (Session.post n) := by
  induction n with
  | zero => exact fun s f hf => absurd hf (Nat.not_lt_zero _)
  | succ n ih =>
    intro s e he hs
    have hpost : PostsReturn rank (rank e.id) (Session.post n) :=
      fun s f hf => ih s f (Nat.lt_of_lt_of_le hf (Nat.le_of_lt_succ he))
    have hbegin : OrderlyBus rank (s.begin e) := by
      have hlisteners : (s.begin e).bus.listeners = s.bus.listeners := Bus.listeners_store
      rw [OrderlyBus, hlisteners]
      exact hs
    obtain ⟨t, ht, hproceeds⟩ := exists_deliver hpost hbegin hbegin
    refine ⟨t.record (.postEnded e), ?_, hproceeds.bus, hproceeds.keeps⟩
    rw [Session.post, ht]
    rfl

end Posting

section Rules

variable {rank : String → Nat} {n : Nat}

theorem orderly_logAll {next : Reaction Surface} {s : Surface} (h : Orderly rank next n s)
    (ns : List Notice) : Orderly rank (Rules.logAll ns next) n s := by
  induction ns with
  | nil => exact h
  | cons m ns ih => exact ih

/-- Rules submit tasks, and that is all. -/
theorem orderly_reactAll {e : Event} {values : Trigger.Values} (rs : List (Rules.Rule Embedded))
    (s : Surface) : Orderly rank (Rules.reactAll submit e values rs) n s := by
  induction rs generalizing s with
  | nil => trivial
  | cons r rs ih =>
    rw [Rules.reactAll]
    cases r.verdict e values with
    | unconcerned | quiet | mismatch m => exact ih s
    | fires => exact ⟨keeps_submit _ s, orderly_logAll (ih _) _⟩

theorem orderlyListener_ruleHandler (rs : List (Rules.Rule Embedded)) :
    OrderlyListener rank (ruleHandler rs) :=
  fun _ s _ => orderly_reactAll rs s

end Rules

end HomeAutomation.Home
