import HomeAutomation.Proofs.Home.Others
import HomeAutomation.Proofs.Home.Stopping

/-! What a home has to do, from its start to the end of its stop, one chore after another. Before
the rules are loaded nobody has their id, from then on they are registered, and after they have
left they never are again, whatever others do. -/

namespace HomeAutomation.Home

open Scheduler

inductive Chore where
  | announce (p : Lifecycle)
  | deliver (p : Lifecycle)
  | load
  | leave
  | close
  | interrupt
  | wait
  | halt
  | detach
  deriving DecidableEq

def launching : List Chore :=
  [.announce .start, .deliver .start, .load, .announce .ready, .deliver .ready]

def stopping : List Chore :=
  [.announce .quit, .deliver .quit, .leave, .close, .interrupt, .wait, .halt, .detach]

def chores : List Chore := launching ++ stopping

def onScheduler (f : Scheduler (Rules.Firing Embedded) → Scheduler (Rules.Firing Embedded))
    (s : State) : State :=
  { s with state := { s.state with scheduler := f s.state.scheduler } }

namespace Chore

def perform (rs : Rules.Loaded Embedded) : Chore → State → State
  | .announce p, s => s.begin p.event
  | .deliver _, s => s
  | .load, s => withRules rs s
  | .leave, s => ({ session := s } : Home).withoutRules.2.session
  | .close, s => onScheduler (fun x => x.close.2) s
  | .interrupt, s => onScheduler Scheduler.interrupt s
  | .wait, s => s.logAll s.state.scheduler.timeoutNotices
  | .halt, s => onScheduler Scheduler.stop s
  | .detach, s => s.shutdown

/-- The chores before it, and those after it. -/
def earlier (d : Chore) : List Chore := chores.take (chores.idxOf d)

def later (d : Chore) : List Chore := chores.drop (chores.idxOf d + 1)

theorem split_chores {d : Chore} {before after : List Chore} (h : before ++ d :: after = chores) :
    before = d.earlier ∧ after = d.later := by
  have hnodup : (before ++ d :: after).Nodup := h ▸ by decide
  have hnot : d ∉ before := fun hmem =>
    (List.nodup_append.mp hnodup).2.2 d hmem d List.mem_cons_self rfl
  have hidx : chores.idxOf d = before.length := by
    rw [← h, List.idxOf_append_of_notMem hnot, List.idxOf_cons_self, Nat.add_zero]
  constructor
  · rw [earlier, hidx, ← h, List.take_left]
  · have hsucc : before.length + 1 = (before ++ [d]).length := by simp
    rw [later, hidx, ← h, List.append_cons, hsucc, List.drop_left]

end Chore

section Perform

variable {rs : Rules.Loaded Embedded} {s : State} {id : ListenerId}

theorem withRules_eq :
    withRules rs s = if rs.rules.isEmpty then s.logAll (loadingNotices rs)
      else subscribeRules rs.rules (s.logAll (loadingNotices rs)) := rfl

theorem perform_leave : Chore.leave.perform rs s =
    match s.state.rules with
    | some id => (s.unsubscribe id).2
    | none => s := by
  rw [Chore.perform, withoutRules]
  cases s.state.rules <;> rfl

/-- Chores keep to the rules of the bus, as others do. -/
theorem goes_perform (d : Chore) : Goes s (d.perform rs s) := by
  cases d with
  | announce p => exact goes_begin p.event
  | deliver p => exact .refl s
  | load =>
    have hlogged := goes_logAll (s := s) (loadingNotices rs)
    rw [Chore.perform, withRules_eq]
    split
    · exact hlogged
    · exact (hlogged.trans (goes_subscribe _ _)).trans (goes_update _)
  | leave =>
    rw [perform_leave]
    cases s.state.rules with
    | none => exact .refl s
    | some id => exact goes_unsubscribe id
  | close | interrupt | halt => exact goes_update _
  | wait => exact goes_logAll _
  | detach => exact goes_shutdown

theorem rules_perform {d : Chore} (hd : d ≠ .load) :
    (d.perform rs s).state.rules = s.state.rules := by
  cases d with
  | load => exact absurd rfl hd
  | leave => exact congrArg Surface.rules state_withoutRules
  | wait => rw [Chore.perform, state_logAll]
  | _ => rfl

theorem ids_perform {d : Chore} (hleave : d ≠ .leave) (hdetach : d ≠ .detach)
    (hid : id ∈ s.bus.registry.ids) : id ∈ (d.perform rs s).bus.registry.ids := by
  cases d with
  | announce p => rwa [Chore.perform, registry_begin]
  | load =>
    rw [Chore.perform, withRules_eq]
    split
    · rwa [bus_logAll]
    · have hsub : (subscribeRules rs.rules (s.logAll (loadingNotices rs))).bus.registry.ids = _ :=
        ids_subscribe
      rw [hsub, bus_logAll]
      exact List.mem_append_left _ hid
  | leave => exact absurd rfl hleave
  | wait => rwa [Chore.perform, bus_logAll]
  | detach => exact absurd rfl hdetach
  | _ => exact hid

theorem accepting_perform {d : Chore} (hd : d ≠ .close) :
    (d.perform rs s).state.scheduler.accepting = s.state.scheduler.accepting := by
  cases d with
  | load =>
    rw [Chore.perform, withRules_eq]
    have hlogged : (s.logAll (loadingNotices rs)).state = s.state := state_logAll _
    split
    · rw [hlogged]
    · show (s.logAll (loadingNotices rs)).state.scheduler.accepting = _
      rw [hlogged]
  | leave => exact congrArg (fun x : Surface => x.scheduler.accepting) state_withoutRules
  | close => exact absurd rfl hd
  | wait => rw [Chore.perform, state_logAll]
  | halt => exact (Serves.stop s.state.scheduler).switches.1
  | _ => rfl

end Perform

section Ruled

/-- The rules of a home with chores left and chores done, each with the listeners that were
registered when it was done. -/
structure Ruled (rs : Rules.Loaded Embedded) (s : State) (todo : List Chore)
    (done : List (Chore × List ListenerId)) : Prop where
  distinct : s.bus.Distinct
  known : ∀ d ids, (d, ids) ∈ done → ∀ id ∈ ids, id < s.bus.nextId
  unloaded : .load ∈ todo → s.state.rules = none
  loaded : .load ∉ todo → (s.state.rules = none ↔ rs.rules = [])
  taken : ∀ id, s.state.rules = some id → id < s.bus.nextId
  react : ∀ l ∈ s.bus.listeners, s.state.rules = some l.id → l.react = ruleHandler rs.rules
  registered : ∀ id, s.state.rules = some id → .leave ∈ todo → id ∈ s.bus.registry.ids
  gone : ∀ id, s.state.rules = some id → .leave ∉ todo → id ∉ s.bus.registry.ids
  unstarted : ∀ id ids, s.state.rules = some id → (.deliver .start, ids) ∈ done → id ∉ ids
  heard : ∀ id p ids, s.state.rules = some id → p ≠ .start → (.deliver p, ids) ∈ done → id ∈ ids
  accepting : s.state.scheduler.accepting = true ↔ .close ∈ todo

variable {rs : Rules.Loaded Embedded} {s t : State} {todo rest : List Chore} {d : Chore}
  {done : List (Chore × List ListenerId)}

theorem mem_ids {id : ListenerId} {b : Bus (Handler Surface)} :
    id ∈ b.registry.ids ↔ ∃ l ∈ b.listeners, l.id = id := by
  rw [Bus.ids_registry, List.mem_map]

theorem Goes.ids (h : Goes s t) {id : ListenerId} (hid : id ∈ t.bus.registry.ids) :
    id ∈ s.bus.registry.ids ∨ s.bus.nextId ≤ id := by
  obtain ⟨l, hl, rfl⟩ := mem_ids.mp hid
  exact (h.comes l hl).imp_left fun hmem => mem_ids.mpr ⟨l, hmem, rfl⟩

/-- Whoever comes is not the rules. -/
theorem Ruled.mem_listeners_of_goes (h : Ruled rs s todo done) (hst : Goes s t)
    {l : Registration (Handler Surface)} (hl : l ∈ t.bus.listeners)
    (hid : s.state.rules = some l.id) : l ∈ s.bus.listeners :=
  (hst.comes l hl).resolve_right (Nat.not_le.mpr (h.taken l.id hid))

theorem Ruled.mem_ids_of_goes (h : Ruled rs s todo done) (hst : Goes s t) {id : ListenerId}
    (hmem : id ∈ t.bus.registry.ids) (hid : s.state.rules = some id) : id ∈ s.bus.registry.ids :=
  (hst.ids hmem).resolve_right (Nat.not_le.mpr (h.taken id hid))

theorem Ruled.others (h : Ruled rs s todo done) (hst : Others s t) : Ruled rs t todo done := by
  have hgoes := hst.goes
  obtain ⟨⟨hserves, hrules⟩, hstays⟩ := hst.spec
  constructor
  · exact hgoes.distinct h.distinct
  · exact fun d ids hdone id hid => Nat.lt_of_lt_of_le (h.known d ids hdone id hid) hgoes.nextId
  · exact fun hload => hrules.trans (h.unloaded hload)
  · rw [hrules]
    exact h.loaded
  · rw [hrules]
    exact fun id hid => Nat.lt_of_lt_of_le (h.taken id hid) hgoes.nextId
  · intro l hl hid
    rw [hrules] at hid
    exact h.react l (h.mem_listeners_of_goes hgoes hl hid) hid
  · rw [hrules]
    exact fun id hid hleave => hstays id hid (h.registered id hid hleave)
  · rw [hrules]
    exact fun id hid hleave hmem => h.gone id hid hleave (h.mem_ids_of_goes hgoes hmem hid)
  · rw [hrules]
    exact h.unstarted
  · rw [hrules]
    exact h.heard
  · rw [hserves.switches.1]
    exact h.accepting

theorem known_perform (h : Ruled rs s todo done) (d d' : Chore) (ids : List ListenerId)
    (hdone : (d', ids) ∈ done ++ [(d, s.bus.registry.ids)]) (id : ListenerId) (hid : id ∈ ids) :
    id < (d.perform rs s).bus.nextId := by
  have hold : id < s.bus.nextId := by
    rcases List.mem_append.mp hdone with hdone | hdone
    · exact h.known d' ids hdone id hid
    · cases List.mem_singleton.mp hdone
      exact h.distinct.lt_nextId id hid
  exact Nat.lt_of_lt_of_le hold (goes_perform d).nextId

theorem Ruled.perform_of_ne (h : Ruled rs s (d :: d.later) done) (hd : d ≠ .load) :
    Ruled rs (d.perform rs s) d.later (done ++ [(d, s.bus.registry.ids)]) := by
  have hgoes : Goes s (d.perform rs s) := goes_perform d
  have hrules : (d.perform rs s).state.rules = s.state.rules := rules_perform hd
  have hold {e : Chore} (he : e ≠ d) : e ∈ d :: d.later ↔ e ∈ d.later := by simp [he]
  constructor
  · exact hgoes.distinct h.distinct
  · exact known_perform h d
  · exact fun hload => hrules.trans (h.unloaded (List.mem_cons_of_mem d hload))
  · rw [hrules]
    exact fun hload => h.loaded fun hmem => hload ((hold hd.symm).mp hmem)
  · rw [hrules]
    exact fun id hid => Nat.lt_of_lt_of_le (h.taken id hid) hgoes.nextId
  · intro l hl hid
    rw [hrules] at hid
    exact h.react l (h.mem_listeners_of_goes hgoes hl hid) hid
  · rw [hrules]
    intro id hid hleave
    refine ids_perform ?_ ?_ (h.registered id hid (List.mem_cons_of_mem d hleave))
    · rintro rfl
      exact absurd hleave (by decide)
    · rintro rfl
      exact absurd hleave (by decide)
  · rw [hrules]
    intro id hid hleave hmem
    by_cases hd' : d = .leave
    · subst hd'
      rw [perform_leave, hid] at hmem
      exact (mem_ids_unsubscribe.mp hmem).2 rfl
    · have hleft : .leave ∉ d :: d.later := fun hmem => hleave ((hold (Ne.symm hd')).mp hmem)
      exact h.gone id hid hleft (h.mem_ids_of_goes hgoes hmem hid)
  · rw [hrules]
    intro id ids hid hdone
    rcases List.mem_append.mp hdone with hdone | hdone
    · exact h.unstarted id ids hid hdone
    · -- The rules are not there yet.
      cases List.mem_singleton.mp hdone
      rw [h.unloaded (by decide)] at hid
      cases hid
  · rw [hrules]
    intro id p ids hid hp hdone
    rcases List.mem_append.mp hdone with hdone | hdone
    · exact h.heard id p ids hid hp hdone
    · cases List.mem_singleton.mp hdone
      refine h.registered id hid ?_
      cases p with
      | start => exact absurd rfl hp
      | ready | quit => decide
  · by_cases hclose : d = .close
    · subst hclose
      have hrefused : (Chore.close.perform rs s).state.scheduler.accepting = false := rfl
      rw [hrefused]
      decide
    · rw [accepting_perform hclose, h.accepting, hold (Ne.symm hclose)]

theorem Ruled.load (h : Ruled rs s (.load :: Chore.load.later) done)
    (hdone : done.map Prod.fst = Chore.load.earlier) :
    Ruled rs (Chore.load.perform rs s) Chore.load.later
      (done ++ [(.load, s.bus.registry.ids)]) := by
  have hgoes : Goes s (Chore.load.perform rs s) := goes_perform .load
  have haccepting : (Chore.load.perform rs s).state.scheduler.accepting = true ↔
      .close ∈ Chore.load.later := by
    rw [accepting_perform (by decide), h.accepting]
    decide
  by_cases hrs : rs.rules = []
  · have hrules : (Chore.load.perform rs s).state.rules = none := by
      rw [Chore.perform, withRules_eq, hrs, if_pos List.isEmpty_nil, state_logAll]
      exact h.unloaded List.mem_cons_self
    refine ⟨hgoes.distinct h.distinct, known_perform h .load, fun _ => hrules,
      fun _ => ⟨fun _ => hrs, fun _ => hrules⟩, ?_, ?_, ?_, ?_, ?_, ?_, haccepting⟩
    all_goals simp [hrules]
  · -- The rules take the next id, which nobody had before.
    have hload : Chore.load.perform rs s =
        subscribeRules rs.rules (s.logAll (loadingNotices rs)) := by
      rw [Chore.perform, withRules_eq, if_neg (by simpa using hrs)]
    have hbus : (s.logAll (loadingNotices rs)).bus = s.bus := bus_logAll _
    have hrules : (Chore.load.perform rs s).state.rules = some s.bus.nextId := by
      rw [hload, ← hbus]
      rfl
    have hlisteners {l : Registration (Handler Surface)} :
        l ∈ (Chore.load.perform rs s).bus.listeners ↔
          l ∈ s.bus.listeners ∨ l = ⟨s.bus.nextId, Rules.listenerName, ruleHandler rs.rules⟩ := by
      rw [hload, ← hbus]
      exact mem_listeners_subscribe
    refine ⟨hgoes.distinct h.distinct, known_perform h .load, fun hmem => absurd hmem (by decide),
      fun _ => by simp [hrules, hrs], ?_, ?_, ?_, fun _ _ hleave => absurd (by decide) hleave,
      ?_, ?_, haccepting⟩
    all_goals
      simp only [hrules, Option.some.injEq]
    · rintro _ rfl
      rw [hload, ← hbus]
      exact Nat.lt_succ_self _
    · intro l hl hid
      rcases hlisteners.mp hl with hl | rfl
      · have hlt := h.distinct.lt_nextId l.id (mem_ids.mpr ⟨l, hl, rfl⟩)
        exact absurd hid (Nat.ne_of_gt hlt)
      · rfl
    · rintro _ rfl -
      exact mem_ids.mpr ⟨_, hlisteners.mpr (.inr rfl), rfl⟩
    · rintro _ ids rfl hmem hid
      rcases List.mem_append.mp hmem with hmem | hmem
      · exact absurd (h.known _ ids hmem _ hid) (Nat.lt_irrefl _)
      · cases List.mem_singleton.mp hmem
    · rintro _ p ids rfl hp hmem
      rcases List.mem_append.mp hmem with hmem | hmem
      · have hearlier : .deliver p ∈ Chore.load.earlier := hdone ▸ List.mem_map_of_mem hmem
        cases p with
        | start => exact absurd rfl hp
        | ready | quit => exact absurd hearlier (by decide)
      · cases List.mem_singleton.mp hmem

theorem Ruled.perform (h : Ruled rs s (d :: rest) done)
    (horder : done.map Prod.fst ++ d :: rest = chores) :
    Ruled rs (d.perform rs s) rest (done ++ [(d, s.bus.registry.ids)]) := by
  obtain ⟨hearlier, rfl⟩ := Chore.split_chores horder
  by_cases hd : d = .load
  · subst hd
    exact h.load hearlier
  · exact h.perform_of_ne hd

end Ruled

end HomeAutomation.Home
