import HomeAutomation.Proofs.Home.Chores
import HomeAutomation.Proofs.Scheduler.Quiet

/-! The course of a home among others who may act between any two of its steps. It does its chores
one after another; of an announcement it first puts the event into the cache, and then calls the
listeners that are registered at that moment. -/

namespace HomeAutomation.Home

open Scheduler

/-- What a home has done, with the listeners that were registered when it did it. -/
inductive Deed where
  | did (d : Chore) (registered : List ListenerId)
  | told (p : Lifecycle) (id : ListenerId)
  | returned (p : Lifecycle)

def Deed.did? : Deed → Option (Chore × List ListenerId)
  | .did d ids => some (d, ids)
  | .told _ _ | .returned _ => none

/-- All that comes of a chore. -/
def account : Chore × List ListenerId → List Deed
  | (.deliver p, ids) => .did (.deliver p) ids :: (ids.map (.told p) ++ [.returned p])
  | (d, ids) => [.did d ids]

structure Course where
  session : State
  todo : List Chore := chores
  /-- The announcement that is being delivered, and the listeners that have yet to be called. -/
  calling : Option (Lifecycle × List (Registration (Handler Surface))) := none
  deeds : List Deed := []

namespace Course

def fresh (c : Config) : Course where
  session := { state := { scheduler := { settings := c.tasks } } }

def done (x : Course) : List (Chore × List ListenerId) := x.deeds.filterMap Deed.did?

/-- What is still to come of the chore under way. -/
def owed (x : Course) : List Deed :=
  match x.calling with
  | none => []
  | some (p, ls) => ls.map (fun l => .told p l.id) ++ [.returned p]

inductive Step (c : Config) (x : Course) : Course → Prop where
  | others {t : State} : Others x.session t → Step c x { x with session := t }
  | tell {p : Lifecycle} {l : Registration (Handler Surface)}
      {ls : List (Registration (Handler Surface))} : x.calling = some (p, l :: ls) →
      Step c x { x with
        session := x.session.record (.called l.id p.event)
        calling := some (p, ls)
        deeds := x.deeds ++ [.told p l.id] }
  | finish {p : Lifecycle} : x.calling = some (p, []) →
      Step c x { x with
        session := x.session.record (.postEnded p.event)
        calling := none
        deeds := x.deeds ++ [.returned p] }
  | perform {d : Chore} {rest : List Chore} : x.calling = none → x.todo = d :: rest →
      Step c x {
        session := d.perform (Rules.load c.definitions) x.session
        todo := rest
        calling := match d with
          | .deliver p => some (p, x.session.bus.listeners)
          | _ => none
        deeds := x.deeds ++ [.did d x.session.bus.registry.ids] }

abbrev Steps (c : Config) : Course → Course → Prop := Relation.ReflTransGen (Step c)

abbrev Reaches (c : Config) (x : Course) : Prop := Steps c (fresh c) x

/-- The deeds are those of the chores done, in their order, up to what is still to come. -/
structure Logged (x : Course) : Prop where
  order : x.done.map Prod.fst ++ x.todo = chores
  called : x.deeds ++ x.owed = x.done.flatMap account
  complete : ∀ before d ids after, x.deeds = before ++ .did d ids :: after →
    ∃ done : List (Chore × List ListenerId), done.map Prod.fst = d.earlier ∧
      before = done.flatMap account

section Log

variable {c : Config} {x y : Course}

theorem done_concat {e : Deed} (h : y.deeds = x.deeds ++ [e]) :
    y.done = x.done ++ e.did?.toList := by
  rw [done, h, List.filterMap_append]
  cases e <;> rfl

theorem map_told {p : Lifecycle} {b : Bus (Handler Surface)} :
    (b.listeners.map fun l => Deed.told p l.id) = b.registry.ids.map (.told p) := by
  rw [Bus.ids_registry, List.map_map]
  rfl

theorem logged_fresh : Logged (fresh c) where
  order := rfl
  called := rfl
  complete _ _ _ _ h := absurd h (by simp [fresh])

theorem split_concat {α : Type} {l before after : List α} {a b : α}
    (h : l ++ [b] = before ++ a :: after) :
    l = before ∧ b = a ∨ ∃ rest, l = before ++ a :: rest := by
  rcases List.eq_nil_or_concat after with rfl | ⟨rest, c, rfl⟩
  · obtain ⟨rfl, hlast⟩ := List.append_inj' h rfl
    exact .inl ⟨rfl, List.singleton_inj.mp hlast⟩
  · rw [List.concat_eq_append, ← List.cons_append, ← List.append_assoc] at h
    exact .inr ⟨rest, (List.append_inj' h rfl).1⟩

theorem Logged.goOn (hx : Logged x) {y : Course} {e : Deed} (htodo : y.todo = x.todo)
    (hdeeds : y.deeds = x.deeds ++ [e]) (hnone : e.did? = none) (howed : x.owed = e :: y.owed) :
    Logged y := by
  have hdone : y.done = x.done := by simp [done_concat hdeeds, hnone]
  refine ⟨by rw [hdone, htodo, hx.order], ?_, fun before d ids after h => ?_⟩
  · rw [hdeeds, hdone, ← hx.called, howed, List.append_assoc]
    rfl
  · rw [hdeeds] at h
    rcases split_concat h with ⟨-, rfl⟩ | ⟨rest, hrest⟩
    · cases hnone
    · exact hx.complete before d ids rest hrest

theorem Logged.perform (hx : Logged x) {d : Chore} {rest : List Chore} (hidle : x.calling = none)
    (htodo : x.todo = d :: rest) {y : Course} (hrest : y.todo = rest)
    (hdeeds : y.deeds = x.deeds ++ [.did d x.session.bus.registry.ids])
    (hcalling : y.calling = match d with
      | .deliver p => some (p, x.session.bus.listeners)
      | _ => none) : Logged y := by
  have hdone : y.done = x.done ++ [(d, x.session.bus.registry.ids)] := done_concat hdeeds
  have horder : x.done.map Prod.fst ++ d :: rest = chores := htodo ▸ hx.order
  have hcalled : x.deeds = x.done.flatMap account := by
    simpa [owed, hidle] using hx.called
  refine ⟨by simp [hdone, hrest, horder], ?_, fun before d' ids after h => ?_⟩
  · rw [hdeeds, hdone, List.flatMap_append, ← hcalled, List.append_assoc]
    refine congrArg _ ?_
    cases d with
    | deliver p => simp [owed, hcalling, map_told, account]
    | _ => simp [owed, hcalling, account]
  · rw [hdeeds] at h
    rcases split_concat h with ⟨rfl, heq⟩ | ⟨rest', hrest'⟩
    · cases heq
      exact ⟨x.done, (Chore.split_chores horder).1, hcalled⟩
    · exact hx.complete before d' ids rest' hrest'

theorem Step.logged (h : Step c x y) (hx : Logged x) : Logged y := by
  cases h with
  | others _ => exact ⟨hx.order, hx.called, hx.complete⟩
  | tell hcalling | finish hcalling => exact hx.goOn rfl rfl rfl (by simp [owed, hcalling])
  | perform hidle htodo => exact hx.perform hidle htodo rfl rfl rfl

theorem Reaches.logged (h : Reaches c x) : Logged x := by
  induction h with
  | refl => exact logged_fresh
  | tail _ hstep ih => exact hstep.logged ih

end Log

section Sessions

variable {c : Config} {x y : Course}

theorem Step.goes (h : Step c x y) : Goes x.session y.session := by
  cases h with
  | others hst => exact hst.goes
  | tell _ | finish _ => exact goes_record (by simp)
  | perform _ _ => exact goes_perform _

theorem ruled_fresh (rs : Rules.Loaded Embedded) :
    Ruled rs (fresh c).session (fresh c).todo (fresh c).done where
  distinct := ⟨List.nodup_nil, fun _ hid => absurd hid List.not_mem_nil⟩
  known _ _ hdone := absurd hdone List.not_mem_nil
  unloaded _ := rfl
  loaded hload := absurd (by decide : .load ∈ chores) hload
  taken _ hid := nomatch hid
  react _ hl := absurd hl List.not_mem_nil
  registered _ hid := nomatch hid
  gone _ hid := nomatch hid
  unstarted _ _ hid := nomatch hid
  heard _ _ _ hid := nomatch hid
  accepting := ⟨fun _ => (by decide : .close ∈ chores), fun _ => rfl⟩

theorem Step.ruled (h : Step c x y) (hlogged : Logged x)
    (hx : Ruled (Rules.load c.definitions) x.session x.todo x.done) :
    Ruled (Rules.load c.definitions) y.session y.todo y.done := by
  cases h with
  | others hst => exact hx.others hst
  | tell _ | finish _ =>
    rw [done_concat rfl]
    exact (List.append_nil x.done).symm ▸ hx.others (.record (by simp))
  | perform _ htodo =>
    rw [done_concat rfl]
    exact (htodo ▸ hx).perform (htodo ▸ hlogged.order)

theorem Reaches.ruled (h : Reaches c x) :
    Ruled (Rules.load c.definitions) x.session x.todo x.done := by
  induction h with
  | refl => exact ruled_fresh _
  | tail hreaches hstep ih => exact hstep.ruled (Reaches.logged hreaches) ih

theorem Steps.goes (h : Steps c x y) : Goes x.session y.session := by
  induction h with
  | refl => exact .refl _
  | tail _ hstep ih => exact ih.trans hstep.goes

end Sessions

section Lawful

variable {c : Config} {x y : Course}

theorem Logged.exists_deliver (h : Logged x) {p : Lifecycle} (hp : .deliver p ∉ x.todo) :
    ∃ ids, (.deliver p, ids) ∈ x.done := by
  have hmem : .deliver p ∈ x.done.map Prod.fst ++ x.todo := by
    rw [h.order]
    cases p <;> decide
  obtain ⟨⟨d, ids⟩, hdone, rfl⟩ := List.mem_map.mp ((List.mem_append.mp hmem).resolve_right hp)
  exact ⟨ids, hdone⟩

end Lawful

/-- What holds from the end of the stop on. -/
structure Silent (x y : Course) : Prop where
  refused : ∀ f, submit f y.session.state = (y.session.state, [.taskRejected f.task.name])
  idle : ∀ id, x.session.state.scheduler.phase? id = none →
    y.session.state.scheduler.phase? id = none
  absent : ∀ id, y.session.state.rules = some id → y.session.bus.isRegistered id = false

section Silent

variable {c : Config} {x y z : Course}

theorem isRegistered_eq_false {b : Bus (Handler Surface)} {id : ListenerId} :
    b.isRegistered id = false ↔ id ∉ b.registry.ids := by
  rw [← Bus.isRegistered_iff, Bool.not_eq_true]

theorem Step.over (h : Step c x y) (hx : x.todo = []) : y.todo = [] := by
  cases h with
  | others _ | tell _ | finish _ => exact hx
  | perform _ htodo => cases htodo.symm.trans hx

theorem Step.serves (h : Step c x y) (hx : x.todo = []) :
    x.session.state.scheduler.Serves y.session.state.scheduler := by
  cases h with
  | others hst => exact hst.spec.keeps.serves
  | tell _ | finish _ => exact .refl _
  | perform _ htodo => cases htodo.symm.trans hx

theorem Steps.serves (h : Steps c x y) (hx : x.todo = []) :
    y.todo = [] ∧ x.session.state.scheduler.Serves y.session.state.scheduler := by
  induction h with
  | refl => exact ⟨hx, .refl _⟩
  | tail _ hstep ih => exact ⟨hstep.over ih.1, ih.2.trans (hstep.serves ih.1)⟩

theorem Reaches.silent (hx : Reaches c x) (h : Steps c x y) (hover : x.todo = []) :
    Silent x y := by
  obtain ⟨htodo, hserves⟩ := Steps.serves h hover
  have hruled : Ruled (Rules.load c.definitions) y.session y.todo y.done :=
    Reaches.ruled (Relation.ReflTransGen.trans hx h)
  have hrefusing : y.session.state.scheduler.accepting = false := by
    rw [← Bool.not_eq_true, hruled.accepting, htodo]
    exact List.not_mem_nil
  have hbefore := hserves.switches.1.symm.trans hrefusing
  refine ⟨fun f => ?_, fun id hnone => ?_, fun id hid => ?_⟩
  · rw [submit, (submit_of_not_accepting hrefusing f.task none).2]
  · obtain ⟨ms, -, hrun⟩ := hserves
    exact hrun ▸ phase?_run_of_refusing hbefore hnone ms
  · rw [isRegistered_eq_false]
    exact hruled.gone id hid (htodo ▸ List.not_mem_nil)

end Silent

section Ending

variable {c : Config} {x y : Course}

end Ending

end Course

end HomeAutomation.Home
