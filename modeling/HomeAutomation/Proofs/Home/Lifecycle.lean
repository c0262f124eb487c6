import HomeAutomation.Proofs.Home.Course

/-! From start to stop. The functions that start and stop a home are courses of it, in which others
act only where they are called: as listeners, and as the tasks that are run while the scheduler
shuts down. So what holds of all courses holds of them. -/

namespace HomeAutomation.Home

open Scheduler

namespace Course

/-- From a moment on a home can get to a point between two chores. -/
def Attains (c : Config) (x : Course) (s : State) (todo : List Chore) : Prop :=
  ∃ y, Steps c x y ∧ y.session = s ∧ y.todo = todo ∧ y.calling = none

section Attains

variable {c : Config} {x : Course} {s t : State} {rest todo : List Chore} {bound : Nat}

theorem steps_meanwhile (h : Meanwhile x.session t) : Steps c x { x with session := t } := by
  induction h with
  | refl => exact .refl
  | tail _ hstep ih => exact .tail ih (.others hstep)

theorem Attains.meanwhile (h : Attains c x s todo) (hst : Meanwhile s t) : Attains c x t todo := by
  obtain ⟨y, hsteps, rfl, htodo, hcalling⟩ := h
  exact ⟨_, hsteps.trans (steps_meanwhile hst), rfl, htodo, hcalling⟩

theorem Attains.perform {d : Chore} (h : Attains c x s (d :: rest)) (hd : ∀ p, d ≠ .deliver p) :
    Attains c x (d.perform (Rules.load c.definitions) s) rest := by
  obtain ⟨y, hsteps, rfl, htodo, hcalling⟩ := h
  refine ⟨_, hsteps.tail (.perform hcalling htodo), rfl, rfl, ?_⟩
  cases d with
  | deliver p => exact absurd rfl (hd p)
  | _ => rfl

theorem attains_deliver {p : Lifecycle} {ls : List (Registration (Handler Surface))}
    (hcalling : x.calling = some (p, ls)) (hloyal : LoyalBus x.session)
    (hls : ∀ l ∈ ls, LoyalListener x.session.state.rules l.react)
    (h : Session.deliver (Session.post bound) p.event ls x.session = some t) :
    Attains c x (t.record (.postEnded p.event)) x.todo := by
  induction ls generalizing x with
  | nil =>
    cases h
    exact ⟨_, .single (.finish hcalling), rfl, rfl, rfl⟩
  | cons l ls ih =>
    obtain ⟨⟨o, u⟩, hu, hrest⟩ := Option.bind_eq_some_iff.mp h
    have hcalled : Peaceful x.session (x.session.record (.called l.id p.event)) :=
      peaceful_record hloyal (by simp)
    have hcall := peaceful_call (postsPeacefully bound) hcalled.loyal (hls l List.mem_cons_self) hu
    have hrules := (hcalled.trans hcall).keeps.rules
    -- From one call to the next, the listener has acted as one of the others.
    let y : Course := { x with
      session := u.callEnded l p.event o
      calling := some (p, ls)
      deeds := x.deeds ++ [.told p l.id] }
    obtain ⟨z, hsteps, hz⟩ := ih (x := y) rfl hcall.loyal
      (fun l' hl' => by
        rw [hrules]
        exact hls l' (List.mem_cons_of_mem l hl')) hrest
    have htold : Steps c x y :=
      .head (.tell hcalling) (steps_meanwhile (x := { y with session := _ }) hcall.meanwhile)
    exact ⟨z, htold.trans hsteps, hz⟩

theorem Attains.post {p : Lifecycle} (h : Attains c x s (.announce p :: .deliver p :: rest))
    (hs : LoyalBus s) (hpost : s.post bound p.event = some t) : Attains c x t rest := by
  cases bound with
  | zero => cases hpost
  | succ bound =>
    obtain ⟨u, hu, rfl⟩ := Option.map_eq_some_iff.mp hpost
    have hbegun := (peaceful_begin hs p.event).loyal
    obtain ⟨y, hsteps, hy, htodo, hcalling⟩ := h.perform (by simp)
    let z : Course := {
      session := y.session
      todo := rest
      calling := some (p, y.session.bus.listeners)
      deeds := y.deeds ++ [.did (.deliver p) y.session.bus.registry.ids] }
    have hdeliver : Step c y z := .perform hcalling htodo
    have hz : z.session = s.begin p.event := hy
    obtain ⟨v, hrest, hv⟩ := attains_deliver (c := c) (x := z) rfl
      (hz ▸ hbegun) (hz ▸ hbegun) (by rw [hz]; exact hu)
    exact ⟨v, hsteps.trans (.head hdeliver hrest), hv⟩

end Attains

section Start

variable {c : Config} {bound : Nat} {h : Home}

end Start

section Stop

variable {c : Config} {x : Course} {bound now : Nat} {h : Home} {r : Shutdown}

end Stop

end Course

open Course

def Shutdown.home : Shutdown → Home
  | .ended h | .panicked _ h => h

end HomeAutomation.Home
