import Mathlib.Logic.Relation
import HomeAutomation.Proofs.Bus.Registry

/-! Posting step by step. The machine keeps the dispatches under way on a stack and makes one move
of one reaction at a time. It comes to an end exactly if its stack is bounded, and then a post
returns what the machine ends with. -/

namespace HomeAutomation

/-- A dispatch under way: the listeners that are still to be called, and the one that is being
called with what is left of its reaction. -/
structure Frame (σ : Type) where
  event : Event
  due : List (Registration (Handler σ))
  calling : Option (Registration (Handler σ) × Reaction σ)

/-- A session in the midst of posts, the innermost first. -/
structure Scene (σ : Type) where
  session : Session σ
  frames : List (Frame σ)

namespace Scene

variable {σ : Type}

/-- The beginning of a post. -/
def start (s : Session σ) (e : Event) (fs : List (Frame σ)) : Scene σ :=
  ⟨s.begin e, ⟨e, s.bus.listeners, none⟩ :: fs⟩

/-- The next move, of the listener that is being called or else of the innermost dispatch. -/
def step : Scene σ → Option (Scene σ)
  | ⟨_, []⟩ => none
  | ⟨s, ⟨e, due, none⟩ :: fs⟩ =>
    match due with
    | [] => some ⟨s.record (.postEnded e), fs⟩
    | l :: due => some ⟨s.record (.called l.id e), ⟨e, due, some (l, l.react e)⟩ :: fs⟩
  | ⟨s, ⟨e, due, some (l, r)⟩ :: fs⟩ =>
    match r with
    | .finish o => some ⟨s.callEnded l e o, ⟨e, due, none⟩ :: fs⟩
    | .log n next => some ⟨s.log n, ⟨e, due, some (l, next)⟩ :: fs⟩
    | .update f next => some ⟨{ s with state := f s.state }, ⟨e, due, some (l, next)⟩ :: fs⟩
    | .look next => some ⟨s, ⟨e, due, some (l, next s.state)⟩ :: fs⟩
    | .read next => some ⟨s, ⟨e, due, some (l, next s.bus.cache)⟩ :: fs⟩
    | .subscribe name handler next =>
      let (id, s) := s.subscribe name handler
      some ⟨s, ⟨e, due, some (l, next id)⟩ :: fs⟩
    | .unsubscribe id next =>
      let (removed, s) := s.unsubscribe id
      some ⟨s, ⟨e, due, some (l, next removed)⟩ :: fs⟩
    | .post f next => some (start s f (⟨e, due, some (l, next)⟩ :: fs))
    | .shutdown next => some ⟨s.shutdown, ⟨e, due, some (l, next)⟩ :: fs⟩

abbrev Step (c d : Scene σ) : Prop := c.step = some d

abbrev Reaches : Scene σ → Scene σ → Prop := Relation.ReflTransGen Step

/-- A step from a stack of at most so many dispatches. -/
abbrev StepWithin (bound : Nat) (c d : Scene σ) : Prop := c.frames.length ≤ bound ∧ Step c d

abbrev Walk (bound : Nat) : Scene σ → Scene σ → Prop := Relation.ReflTransGen (StepWithin bound)

theorem Walk.reaches {bound : Nat} {c d : Scene σ} (h : Walk bound c d) : Reaches c d :=
  Relation.ReflTransGen.mono (fun _ _ hstep => hstep.2) _ _ h

theorem Walk.mono {n m : Nat} {c d : Scene σ} (h : Walk n c d) (hle : n ≤ m) : Walk m c d :=
  Relation.ReflTransGen.mono (fun _ _ hstep => ⟨Nat.le_trans hstep.1 hle, hstep.2⟩) _ _ h

section Deterministic

variable {c d d' : Scene σ}

/-- Where there is no next move, nothing else is reached. -/
theorem Reaches.eq_of_stuck (h : Reaches c d) (hc : c.step = none) : c = d := by
  cases h using Relation.ReflTransGen.head_induction_on with
  | refl => rfl
  | head hstep _ _ => simp [Step, hc] at hstep

/-- Of two places that are reached, one is reached from the other. -/
theorem Reaches.total (h : Reaches c d) (h' : Reaches c d') : Reaches d d' ∨ Reaches d' d := by
  induction h with
  | refl => exact .inl h'
  | tail _ hstep ih =>
    rcases ih with h | h
    · cases h using Relation.ReflTransGen.head_induction_on with
      | refl => exact .inr (.single hstep)
      | head hstep' hrest _ =>
        obtain rfl := Option.some.inj (hstep.symm.trans hstep')
        exact .inl hrest
    · exact .inr (h.tail hstep)

/-- What is reached on the way to an end is reached within the bound of that way. -/
theorem Walk.length_le {bound : Nat} (h : Walk bound c d) (hd : d.step = none)
    (hlen : d.frames.length ≤ bound) (h' : Reaches c d') : d'.frames.length ≤ bound := by
  induction h using Relation.ReflTransGen.head_induction_on with
  | refl => exact h'.eq_of_stuck hd ▸ hlen
  | head hstep _ ih =>
    cases h' using Relation.ReflTransGen.head_induction_on with
    | refl => exact hstep.1
    | head hstep' hrest _ =>
      obtain rfl := Option.some.inj (hstep.2.symm.trans hstep')
      exact ih hrest

end Deterministic

section Simulation

variable {depth : Nat} {e : Event} {due : List (Registration (Handler σ))}
  {l : Registration (Handler σ)} {fs : List (Frame σ)}

theorem exists_deliver_of_post {s t : Session σ} (h : s.post (depth + 1) e = some t) :
    ∃ u, Session.deliver (Session.post depth) e s.bus.listeners (s.begin e) = some u ∧
      t = u.record (.postEnded e) := by
  obtain ⟨u, hu, rfl⟩ := Option.map_eq_some_iff.mp h
  have hl : (s.begin e).bus.listeners = s.bus.listeners := Bus.listeners_store
  rw [hl] at hu
  exact ⟨u, hu, rfl⟩

/-- The machine gets through a post that returns, and no deeper than the post is allowed to. -/
def WalksPost (σ : Type) (depth : Nat) : Prop :=
  ∀ {s t : Session σ} {e : Event}, s.post depth e = some t →
    ∀ fs, Walk (depth + fs.length) (start s e fs) ⟨t, fs⟩

theorem walk_react (hp : WalksPost σ depth) {r : Reaction σ} {s t : Session σ} {o : Outcome}
    (h : Session.react (Session.post depth) r s = some (o, t)) :
    Walk (depth + (fs.length + 1)) ⟨s, ⟨e, due, some (l, r)⟩ :: fs⟩
      ⟨t, ⟨e, due, some (l, .finish o)⟩ :: fs⟩ := by
  have hle : fs.length + 1 ≤ depth + (fs.length + 1) := Nat.le_add_left _ _
  induction r generalizing s with
  | finish o =>
    cases h
    exact .refl
  | log _ _ ih | update _ _ ih | shutdown _ ih => exact .head ⟨hle, rfl⟩ (ih h)
  | look _ ih | read _ ih | subscribe _ _ _ _ ih | unsubscribe _ _ ih =>
    exact .head ⟨hle, rfl⟩ (ih _ h)
  | post f next ih =>
    obtain ⟨u, hu, h⟩ := Option.bind_eq_some_iff.mp h
    have hpost := hp hu (⟨e, due, some (l, next)⟩ :: fs)
    exact .head ⟨hle, rfl⟩ (hpost.trans (ih h))

theorem walk_deliver (hp : WalksPost σ depth) {s t : Session σ}
    (h : Session.deliver (Session.post depth) e due s = some t) :
    Walk (depth + (fs.length + 1)) ⟨s, ⟨e, due, none⟩ :: fs⟩ ⟨t, ⟨e, [], none⟩ :: fs⟩ := by
  have hle : fs.length + 1 ≤ depth + (fs.length + 1) := Nat.le_add_left _ _
  induction due generalizing s with
  | nil =>
    cases h
    exact .refl
  | cons l due ih =>
    obtain ⟨⟨o, u⟩, hu, h⟩ := Option.bind_eq_some_iff.mp h
    exact .head ⟨hle, rfl⟩ ((walk_react hp hu).trans (.head ⟨hle, rfl⟩ (ih h)))

theorem walksPost (depth : Nat) : WalksPost σ depth := by
  induction depth with
  | zero =>
    intro s t e h
    cases h
  | succ n ih =>
    intro s t e h fs
    obtain ⟨u, hu, rfl⟩ := exists_deliver_of_post h
    have hwalk : Walk (n + (fs.length + 1)) (start s e fs) ⟨u.record (.postEnded e), fs⟩ :=
      (walk_deliver ih hu).tail ⟨Nat.le_add_left _ _, rfl⟩
    exact Walk.mono hwalk (by omega)

/-- Where a post does not return, the stack of the machine outgrows what the post is allowed. -/
def DeepPost (σ : Type) (depth : Nat) : Prop :=
  ∀ {s : Session σ} {e : Event}, s.post depth e = none →
    ∀ fs, ∃ c, Reaches (start s e fs) c ∧ depth + fs.length < c.frames.length

theorem deep_react (hd : DeepPost σ depth) {r : Reaction σ} {s : Session σ}
    (h : Session.react (Session.post depth) r s = none) :
    ∃ c, Reaches ⟨s, ⟨e, due, some (l, r)⟩ :: fs⟩ c ∧
      depth + (fs.length + 1) < c.frames.length := by
  induction r generalizing s with
  | finish o => cases h
  | log _ _ ih | update _ _ ih | shutdown _ ih =>
    obtain ⟨c, hc, hlen⟩ := ih h
    exact ⟨c, .head rfl hc, hlen⟩
  | look _ ih | read _ ih | subscribe _ _ _ _ ih | unsubscribe _ _ ih =>
    obtain ⟨c, hc, hlen⟩ := ih _ h
    exact ⟨c, .head rfl hc, hlen⟩
  | post f next ih =>
    cases hpost : s.post depth f with
    | none =>
      obtain ⟨c, hc, hlen⟩ := hd hpost (⟨e, due, some (l, next)⟩ :: fs)
      exact ⟨c, .head rfl hc, hlen⟩
    | some u =>
      rw [Session.react, hpost] at h
      obtain ⟨c, hc, hlen⟩ := ih h
      have hwalk := walksPost depth hpost (⟨e, due, some (l, next)⟩ :: fs)
      exact ⟨c, .head rfl (hwalk.reaches.trans hc), hlen⟩

theorem deep_deliver (hd : DeepPost σ depth) {s : Session σ}
    (h : Session.deliver (Session.post depth) e due s = none) :
    ∃ c, Reaches ⟨s, ⟨e, due, none⟩ :: fs⟩ c ∧ depth + (fs.length + 1) < c.frames.length := by
  induction due generalizing s with
  | nil => cases h
  | cons l due ih =>
    cases hr : Session.react (Session.post depth) (l.react e) (s.record (.called l.id e)) with
    | none =>
      obtain ⟨c, hc, hlen⟩ := deep_react hd hr
      exact ⟨c, .head rfl hc, hlen⟩
    | some x =>
      rw [Session.deliver, hr] at h
      obtain ⟨c, hc, hlen⟩ := ih h
      have hwalk : Walk _ ⟨_, ⟨e, due, some (l, l.react e)⟩ :: fs⟩ _ :=
        walk_react (walksPost depth) hr
      exact ⟨c, .head rfl (hwalk.reaches.trans (.head rfl hc)), hlen⟩

theorem deepPost (depth : Nat) : DeepPost σ depth := by
  induction depth with
  | zero =>
    intro s e _ fs
    exact ⟨start s e fs, .refl, by simp [start]⟩
  | succ n ih =>
    intro s e h fs
    have hl : (s.begin e).bus.listeners = s.bus.listeners := Bus.listeners_store
    have hdeliver := Option.map_eq_none_iff.mp h
    rw [hl] at hdeliver
    obtain ⟨c, hc, hlen⟩ := deep_deliver ih hdeliver
    exact ⟨c, hc, by omega⟩

end Simulation

/-- Nested posts pile up, but only so far. -/
def FinitelyNested (s : Session σ) (e : Event) : Prop :=
  ∃ bound, ∀ c, Reaches (start s e []) c → c.frames.length ≤ bound

theorem length_le_of_post {depth : Nat} {s t : Session σ} {e : Event}
    (h : s.post depth e = some t) {c : Scene σ} (hc : Reaches (start s e []) c) :
    c.frames.length ≤ depth :=
  Walk.length_le (walksPost depth h []) rfl (Nat.zero_le _) hc

/-- Posts nest without end if and only if there is one that does not return. -/
theorem finitelyNested_iff {s : Session σ} {e : Event} :
    FinitelyNested s e ↔ ∃ depth t, s.post depth e = some t := by
  constructor
  · rintro ⟨bound, hbound⟩
    cases h : s.post bound e with
    | none =>
      obtain ⟨c, hc, hlen⟩ := deepPost bound h []
      exact absurd (hbound c hc) (Nat.not_le.mpr hlen)
    | some t => exact ⟨bound, t, h⟩
  · rintro ⟨depth, t, h⟩
    exact ⟨depth, fun c hc => length_le_of_post h hc⟩

/-- What a post returns does not depend on how deep posts may nest, if that is enough. -/
theorem post_eq_some_of_le {n m : Nat} {s t : Session σ} {e : Event} (h : s.post n e = some t)
    (hle : n ≤ m) : s.post m e = some t := by
  cases hm : s.post m e with
  | none =>
    obtain ⟨c, hc, hlen⟩ := deepPost m hm []
    have := length_le_of_post h hc
    simp only [List.length_nil] at hlen
    omega
  | some u =>
    have ht : Reaches (start s e []) ⟨t, []⟩ := (walksPost n h []).reaches
    have hu : Reaches (start s e []) ⟨u, []⟩ := (walksPost m hm []).reaches
    rcases ht.total hu with h | h
    · have heq := h.eq_of_stuck rfl
      rw [(Scene.mk.inj heq).1]
    · have heq := h.eq_of_stuck rfl
      rw [(Scene.mk.inj heq).1]

end Scene

end HomeAutomation
