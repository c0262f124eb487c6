import HomeAutomation.Proofs.Bus.Latest
import HomeAutomation.Proofs.Home.Listening
import Mathlib.Logic.Relation

/-! A home among others. Threads, listeners and the tasks of rules post events, come and go on the
bus and serve the scheduler while the home goes about its own business, one atomic step at a time
and in any order. They neither take the rules off the bus nor shut anything down. -/

namespace HomeAutomation.Home

open Scheduler

inductive Others (s : State) : State → Prop where
  | post (e : Event) : Others s (s.begin e)
  | record {h : Happening} : (∀ e, h ≠ .postBegan e) → Others s (s.record h)
  | subscribe (name : String) (react : Handler Surface) : Others s (s.subscribe name react).2
  | unsubscribe {id : ListenerId} : s.state.rules ≠ some id → Others s (s.unsubscribe id).2
  | update {x : Surface} : Keeps s.state x → Others s { s with state := x }

abbrev Meanwhile : State → State → Prop := Relation.ReflTransGen Others

/-- What holds of every step on a bus: whoever comes is new, and the latest events are kept. -/
structure Goes (s t : State) : Prop where
  distinct : s.bus.Distinct → t.bus.Distinct
  nextId : s.bus.nextId ≤ t.bus.nextId
  comes : ∀ l ∈ t.bus.listeners, l ∈ s.bus.listeners ∨ s.bus.nextId ≤ l.id
  grows : ∃ hs, s.Grows hs t

section Goes

variable {s t u : State}

theorem Goes.refl (s : State) : Goes s s :=
  ⟨fun hs => hs, Nat.le_refl _, fun _ hl => .inl hl, [], .refl⟩

theorem Goes.trans (h : Goes s t) (h' : Goes t u) : Goes s u := by
  refine ⟨fun hs => h'.distinct (h.distinct hs), Nat.le_trans h.nextId h'.nextId, fun l hl => ?_, ?_⟩
  · rcases h'.comes l hl with hl | hl
    · exact h.comes l hl
    · exact .inr (Nat.le_trans h.nextId hl)
  · obtain ⟨hs, hgrows⟩ := h.grows
    obtain ⟨hs', hgrows'⟩ := h'.grows
    exact ⟨hs ++ hs', hgrows.trans hgrows'⟩

theorem listeners_begin (e : Event) : (s.begin e).bus.listeners = s.bus.listeners :=
  Bus.listeners_store

theorem registry_begin (e : Event) : (s.begin e).bus.registry = s.bus.registry :=
  Bus.registry_store

theorem goes_begin (e : Event) : Goes s (s.begin e) :=
  ⟨fun hs => hs.store e, Nat.le_of_eq Bus.nextId_store.symm,
    fun _ hl => .inl (listeners_begin e ▸ hl), _, (Scene.grows_begin s e).1⟩

theorem goes_record {h : Happening} (hother : ∀ e, h ≠ .postBegan e) : Goes s (s.record h) := by
  refine ⟨fun hs => hs, Nat.le_refl _, fun _ hl => .inl hl, [h], .of_cache_eq rfl rfl ?_⟩
  cases h with
  | postBegan e => exact absurd rfl (hother e)
  | _ => rfl

theorem goes_logAll (ns : List Notice) : Goes s (s.logAll ns) := by
  induction ns generalizing s with
  | nil => exact .refl s
  | cons n ns ih =>
    have hlog : Goes s (s.log n) := goes_record (by simp)
    exact hlog.trans ih

theorem goes_update (x : Surface) : Goes s { s with state := x } :=
  ⟨fun hs => hs, Nat.le_refl _, fun _ hl => .inl hl, [], (List.append_nil _).symm, rfl⟩

theorem mem_listeners_subscribe {name : String} {react : Handler Surface}
    {l : Registration (Handler Surface)} : l ∈ (s.subscribe name react).2.bus.listeners ↔
      l ∈ s.bus.listeners ∨ l = ⟨s.bus.nextId, name, react⟩ := by
  rw [← List.mem_singleton, ← List.mem_append]
  rfl

theorem ids_subscribe {name : String} {react : Handler Surface} :
    (s.subscribe name react).2.bus.registry.ids = s.bus.registry.ids ++ [s.bus.nextId] :=
  Bus.ids_register

theorem goes_subscribe (name : String) (react : Handler Surface) :
    Goes s (s.subscribe name react).2 := by
  refine ⟨fun hs => hs.subscribe name react, Nat.le_succ _, fun l hl => ?_, _,
    .of_cache_eq rfl rfl rfl⟩
  refine (mem_listeners_subscribe.mp hl).imp_right ?_
  rintro rfl
  exact Nat.le_refl _

theorem listeners_unsubscribe_subset {id : ListenerId} :
    (s.unsubscribe id).2.bus.listeners ⊆ s.bus.listeners := by
  intro l hl
  have hl' : l ∈ (s.bus.unsubscribe id).2.listeners := hl
  rw [Bus.unsubscribe] at hl'
  split at hl'
  · exact (List.mem_filter.mp hl').1
  · exact hl'

theorem mem_ids_unsubscribe {id i : ListenerId} :
    i ∈ (s.unsubscribe id).2.bus.registry.ids ↔ i ∈ s.bus.registry.ids ∧ i ≠ id := by
  have hregistry : (s.unsubscribe id).2.bus.registry = s.bus.registry.without id :=
    Bus.registry_unsubscribe
  rw [hregistry, Registry.mem_ids_without]

theorem goes_unsubscribe (id : ListenerId) : Goes s (s.unsubscribe id).2 :=
  ⟨fun hs => hs.unsubscribe id, Nat.le_of_eq Bus.nextId_unsubscribe.symm,
    fun _ hl => .inl (listeners_unsubscribe_subset hl), _, Scene.grows_unsubscribe s id⟩

theorem goes_shutdown : Goes s s.shutdown :=
  ⟨fun _ => .detach, Nat.le_refl _, fun _ hl => absurd hl List.not_mem_nil, _,
    Scene.grows_shutdown s⟩

end Goes

/-- What holds of a step of others besides. -/
structure Others.Spec (s t : State) : Prop where
  keeps : Keeps s.state t.state
  stays : ∀ id, s.state.rules = some id → id ∈ s.bus.registry.ids → id ∈ t.bus.registry.ids

theorem Others.goes {s t : State} (h : Others s t) : Goes s t := by
  cases h with
  | post e => exact goes_begin e
  | record hother => exact goes_record hother
  | subscribe name react => exact goes_subscribe name react
  | unsubscribe _ => exact goes_unsubscribe _
  | update _ => exact goes_update _

theorem Others.spec {s t : State} (h : Others s t) : Others.Spec s t := by
  cases h with
  | post e => exact ⟨.refl _, fun id _ hid => by rwa [registry_begin]⟩
  | record _ => exact ⟨.refl _, fun _ _ hid => hid⟩
  | subscribe name react =>
    refine ⟨.refl _, fun id _ hid => ?_⟩
    rw [ids_subscribe]
    exact List.mem_append_left _ hid
  | @unsubscribe id hid =>
    refine ⟨.refl _, fun i hrules hi => mem_ids_unsubscribe.mpr ⟨hi, ?_⟩⟩
    rintro rfl
    exact hid hrules
  | update hx => exact ⟨hx, fun _ _ hid => hid⟩

/-- A reaction, from these surroundings on, that does no more than others may. -/
def Loyal (rules : Option ListenerId) : Reaction Surface → Surface → Prop
  | .finish _, _ => True
  | .log _ next, s => Loyal rules next s
  | .update f next, s => Keeps s (f s) ∧ Loyal rules next (f s)
  | .look next, s => Loyal rules (next s) s
  | .read next, s => ∀ cache, Loyal rules (next cache) s
  | .subscribe _ react next, s =>
    (∀ e t, Loyal rules (react e) t) ∧ ∀ id, Loyal rules (next id) s
  | .unsubscribe id next, s => rules ≠ some id ∧ ∀ removed, Loyal rules (next removed) s
  | .post _ next, s => ∀ t, Keeps s t → Loyal rules next t
  | .shutdown _, _ => False

def LoyalListener (rules : Option ListenerId) (react : Handler Surface) : Prop :=
  ∀ e s, Loyal rules (react e) s

def LoyalBus (s : State) : Prop :=
  ∀ l ∈ s.bus.listeners, LoyalListener s.state.rules l.react

/-- Others go on, and all listeners stay loyal. -/
structure Peaceful (s t : State) : Prop where
  meanwhile : Meanwhile s t
  keeps : Keeps s.state t.state
  loyal : LoyalBus t

section Peaceful

variable {s t u : State}

theorem Peaceful.refl (hs : LoyalBus s) : Peaceful s s := ⟨.refl, .refl _, hs⟩

theorem Peaceful.trans (h : Peaceful s t) (h' : Peaceful t u) : Peaceful s u :=
  ⟨h.meanwhile.trans h'.meanwhile, h.keeps.trans h'.keeps, h'.loyal⟩

theorem Others.peaceful (h : Others s t) (hs : LoyalBus s)
    (hsub : t.bus.listeners ⊆ s.bus.listeners) : Peaceful s t := by
  have hkeeps := h.spec.keeps
  refine ⟨.single h, hkeeps, fun l hl => ?_⟩
  rw [hkeeps.rules]
  exact hs l (hsub hl)

theorem peaceful_record (hs : LoyalBus s) {h : Happening} (hother : ∀ e, h ≠ .postBegan e) :
    Peaceful s (s.record h) :=
  Others.peaceful (.record hother) hs fun _ hl => hl

theorem peaceful_update (hs : LoyalBus s) {x : Surface} (hx : Keeps s.state x) :
    Peaceful s { s with state := x } :=
  Others.peaceful (.update hx) hs fun _ hl => hl

theorem peaceful_begin (hs : LoyalBus s) (e : Event) : Peaceful s (s.begin e) :=
  Others.peaceful (.post e) hs fun _ hl => listeners_begin e ▸ hl

theorem peaceful_callEnded (hs : LoyalBus s) (l : Registration (Handler Surface)) (e : Event)
    (o : Outcome) : Peaceful s (s.callEnded l e o) := by
  have hreturned : Peaceful s (s.record (.returned l.id l.name e o)) := peaceful_record hs (by simp)
  rw [Session.callEnded]
  cases o.notice? l.id l.name e with
  | none => exact hreturned
  | some n => exact hreturned.trans (peaceful_record hreturned.loyal (by simp))

theorem peaceful_subscribe (hs : LoyalBus s) {react : Handler Surface}
    (hreact : LoyalListener s.state.rules react) (name : String) :
    Peaceful s (s.subscribe name react).2 := by
  refine ⟨.single (.subscribe name react), .refl _, fun l hl => ?_⟩
  rcases mem_listeners_subscribe.mp hl with hl | rfl
  · exact hs l hl
  · exact hreact

end Peaceful

section Posting

variable {post : State → Event → Option State} {bound : Nat}

def PostsPeacefully (post : State → Event → Option State) : Prop :=
  ∀ s e t, LoyalBus s → post s e = some t → Peaceful s t

theorem peaceful_react (hpost : PostsPeacefully post) {r : Reaction Surface} {s t : State}
    {o : Outcome} (hs : LoyalBus s) (hr : Loyal s.state.rules r s.state)
    (h : Session.react post r s = some (o, t)) : Peaceful s t := by
  induction r generalizing s with
  | finish o =>
    cases h
    exact .refl hs
  | log n next ih =>
    have hlog : Peaceful s (s.log n) := peaceful_record hs (by simp)
    exact hlog.trans (ih hlog.loyal hr h)
  | update f next ih =>
    have hupdate := peaceful_update hs hr.1
    refine hupdate.trans (ih hupdate.loyal ?_ h)
    rw [hupdate.keeps.rules]
    exact hr.2
  | look next ih => exact ih _ hs hr h
  | read next ih => exact ih _ hs (hr _) h
  | subscribe name react next _ ih =>
    have hsub := peaceful_subscribe hs hr.1 name
    exact hsub.trans (ih _ hsub.loyal (hr.2 _) h)
  | unsubscribe id next ih =>
    have hunsub : Peaceful s (s.unsubscribe id).2 :=
      Others.peaceful (.unsubscribe hr.1) hs listeners_unsubscribe_subset
    exact hunsub.trans (ih _ hunsub.loyal (hr.2 _) h)
  | post e next ih =>
    obtain ⟨u, hu, hnext⟩ := Option.bind_eq_some_iff.mp h
    have hposted := hpost s e u hs hu
    refine hposted.trans (ih hposted.loyal ?_ hnext)
    rw [hposted.keeps.rules]
    exact hr _ hposted.keeps
  | shutdown next ih => exact hr.elim

theorem peaceful_call (hpost : PostsPeacefully post) {l : Registration (Handler Surface)}
    {e : Event} {o : Outcome} {s u : State} (hs : LoyalBus s)
    (hl : LoyalListener s.state.rules l.react)
    (h : Session.react post (l.react e) s = some (o, u)) : Peaceful s (u.callEnded l e o) := by
  have hreacted := peaceful_react hpost hs (hl e _) h
  exact hreacted.trans (peaceful_callEnded hreacted.loyal l e o)

theorem peaceful_deliver (hpost : PostsPeacefully post) {e : Event}
    {ls : List (Registration (Handler Surface))} {s t : State} (hs : LoyalBus s)
    (hls : ∀ l ∈ ls, LoyalListener s.state.rules l.react)
    (h : Session.deliver post e ls s = some t) : Peaceful s t := by
  induction ls generalizing s with
  | nil =>
    cases h
    exact .refl hs
  | cons l ls ih =>
    obtain ⟨⟨o, u⟩, hu, hrest⟩ := Option.bind_eq_some_iff.mp h
    have hcalled : Peaceful s (s.record (.called l.id e)) := peaceful_record hs (by simp)
    have hcall := hcalled.trans (peaceful_call hpost hcalled.loyal (hls l List.mem_cons_self) hu)
    refine hcall.trans (ih hcall.loyal (fun l' hl' => ?_) hrest)
    rw [hcall.keeps.rules]
    exact hls l' (List.mem_cons_of_mem l hl')

theorem postsPeacefully (bound : Nat) : PostsPeacefully (Session.post bound) := by
  induction bound with
  | zero => exact fun _ _ _ _ h => nomatch h
  | succ bound ih =>
    intro s e t hs h
    obtain ⟨u, hu, rfl⟩ := Option.map_eq_some_iff.mp h
    have hbegin := peaceful_begin hs e
    have hdelivered := hbegin.trans (peaceful_deliver ih hbegin.loyal hbegin.loyal hu)
    exact hdelivered.trans (peaceful_record hdelivered.loyal (by simp))

end Posting

section Tasks

variable {bound : Nat} {s t : State} {h k : Home}

mutual

theorem peaceful_execute (id : TaskId) (task rule : String) (trigger : Event) :
    ∀ (a : Rules.Action Embedded) {s? : Option State} {o : Outcome} {t : State},
      a.execute (surroundings bound id task) rule trigger s? = (o, some t) →
      ∃ s, s? = some s ∧ (LoyalBus s → Peaceful s t)
  | .post event value transient, s?, o, t, h => by
    rw [Rules.Action.execute] at h
    split at h
    · exact ⟨t, (Prod.mk.inj h).2, .refl⟩
    · obtain ⟨s, rfl, hs⟩ := Option.bind_eq_some_iff.mp (Prod.mk.inj h).2
      exact ⟨s, rfl, fun hloyal => postsPeacefully bound s _ t hloyal hs⟩
  | .log message, s?, o, t, h => by
    obtain ⟨s, rfl, rfl⟩ := Option.map_eq_some_iff.mp (Prod.mk.inj h).2
    exact ⟨s, rfl, fun hloyal => peaceful_record hloyal (by simp)⟩
  | .custom code, s?, o, t, h => by
    obtain ⟨s, rfl, rfl⟩ := Option.map_eq_some_iff.mp (Prod.mk.inj h).2
    refine ⟨s, rfl, fun hloyal => peaceful_update hloyal ⟨?_, rfl⟩⟩
    show s.state.scheduler.Serves
      (if code.cancels then s.state.scheduler.cancel id else s.state.scheduler)
    split
    · exact .of_move (.cancel id) rfl
    · exact .refl _
  | .sequence actions, s?, o, t, h => peaceful_executeAll id task rule trigger actions h

theorem peaceful_executeAll (id : TaskId) (task rule : String) (trigger : Event) :
    ∀ (actions : List (Rules.Action Embedded)) {s? : Option State} {o : Outcome} {t : State},
      Rules.Action.executeAll (surroundings bound id task) rule trigger actions s? = (o, some t) →
      ∃ s, s? = some s ∧ (LoyalBus s → Peaceful s t)
  | [], s?, o, t, h => ⟨t, (Prod.mk.inj h).2, .refl⟩
  | a :: as, s?, o, t, h => by
    rw [Rules.Action.executeAll] at h
    split at h
    · exact ⟨t, (Prod.mk.inj h).2, .refl⟩
    · split at h
      · rename_i s' hfirst
        obtain ⟨u, rfl, hrest⟩ := peaceful_executeAll id task rule trigger as h
        obtain ⟨s, rfl, hstep⟩ := peaceful_execute id task rule trigger a hfirst
        refine ⟨s, rfl, fun hs => ?_⟩
        exact (hstep hs).trans (hrest (hstep hs).loyal)
      · exact peaceful_execute id task rule trigger a h

end

end Tasks

section Rules

variable {rules : Option ListenerId}

end Rules

end HomeAutomation.Home
