import HomeAutomation.Home.Lifecycle
import HomeAutomation.Proofs.Bus.Machine

/-! Bounds of a home. They limit how deep posts nest and how many tasks are run, and say nothing
else: what has come to an end within some bounds comes to the same end within wider ones. -/

namespace HomeAutomation.Home

open Scheduler

variable {n m : Nat}

section Actions

mutual

theorem execute_eq_of_le (hle : n ≤ m) (id : TaskId) (task rule : String) (trigger : Event) :
    ∀ (a : Rules.Action Embedded) {s? : Option State} {o : Outcome} {t : State},
      a.execute (surroundings n id task) rule trigger s? = (o, some t) →
      ∃ s, s? = some s ∧ a.execute (surroundings m id task) rule trigger (some s) = (o, some t)
  | .post event value transient, s?, o, t, h => by
    rw [Rules.Action.execute] at h
    cases hmake : Event.make .rules event (!transient) value with
    | error e =>
      rw [hmake] at h
      obtain ⟨rfl, rfl⟩ := Prod.mk.inj h
      exact ⟨t, rfl, by simp only [Rules.Action.execute, hmake]⟩
    | ok e =>
      rw [hmake] at h
      obtain ⟨rfl, hpost⟩ := Prod.mk.inj h
      obtain ⟨s, rfl, hs⟩ := Option.bind_eq_some_iff.mp hpost
      refine ⟨s, rfl, ?_⟩
      simp only [Rules.Action.execute, hmake]
      exact congrArg (Prod.mk _) (Scene.post_eq_some_of_le hs hle)
  | .log message, s?, o, t, h => by
    obtain ⟨s, rfl, -⟩ := Option.map_eq_some_iff.mp (Prod.mk.inj h).2
    exact ⟨s, rfl, h⟩
  | .custom code, s?, o, t, h => by
    obtain ⟨s, rfl, -⟩ := Option.map_eq_some_iff.mp (Prod.mk.inj h).2
    exact ⟨s, rfl, h⟩
  | .sequence actions, s?, o, t, h => executeAll_eq_of_le hle id task rule trigger actions h

theorem executeAll_eq_of_le (hle : n ≤ m) (id : TaskId) (task rule : String) (trigger : Event) :
    ∀ (actions : List (Rules.Action Embedded)) {s? : Option State} {o : Outcome} {t : State},
      Rules.Action.executeAll (surroundings n id task) rule trigger actions s? = (o, some t) →
      ∃ s, s? = some s ∧
        Rules.Action.executeAll (surroundings m id task) rule trigger actions (some s) = (o, some t)
  | [], s?, o, t, h => by
    obtain ⟨rfl, rfl⟩ := Prod.mk.inj h
    exact ⟨t, rfl, rfl⟩
  | a :: as, s?, o, t, h => by
    rw [Rules.Action.executeAll] at h
    split at h
    · next hinterrupted =>
      obtain ⟨rfl, rfl⟩ := Prod.mk.inj h
      exact ⟨t, rfl, by rw [Rules.Action.executeAll]; exact if_pos hinterrupted⟩
    · next hgoes =>
      cases hfirst : a.execute (surroundings n id task) rule trigger s? with
      | mk o' u? =>
        rw [hfirst] at h
        -- The state before an action is there if the one after it is, so the last action comes
        -- first. Whether the task is interrupted does not depend on the bound.
        cases o' with
        | success =>
          obtain ⟨u, rfl, hrest⟩ := executeAll_eq_of_le hle id task rule trigger as h
          obtain ⟨s, rfl, hstep⟩ := execute_eq_of_le hle id task rule trigger a hfirst
          have hgoes' : ¬(surroundings m id task).isInterrupted (some s) = true := hgoes
          refine ⟨s, rfl, ?_⟩
          rw [Rules.Action.executeAll, if_neg hgoes', hstep]
          exact hrest
        | failure f | panic p =>
          obtain ⟨rfl, rfl⟩ := Prod.mk.inj h
          obtain ⟨s, rfl, hstep⟩ := execute_eq_of_le hle id task rule trigger a hfirst
          have hgoes' : ¬(surroundings m id task).isInterrupted (some s) = true := hgoes
          refine ⟨s, rfl, ?_⟩
          rw [Rules.Action.executeAll, if_neg hgoes', hstep]

end

end Actions

section Homes

variable {id : TaskId} {h k : Home}

theorem post_eq_some_of_le {e : Event} (hpost : h.post n e = some k) (hle : n ≤ m) :
    h.post m e = some k := by
  obtain ⟨s, hs, rfl⟩ := Option.map_eq_some_iff.mp hpost
  exact Option.map_eq_some_iff.mpr ⟨s, Scene.post_eq_some_of_le hs hle, rfl⟩

theorem runTask_eq_some_of_le (hrun : runTask n h id = some k) (hle : n ≤ m) :
    runTask m h id = some k := by
  rw [runTask] at hrun ⊢
  cases hx : h.session.state.scheduler.tasks[id]? with
  | none =>
    rw [hx] at hrun
    exact hrun
  | some x =>
    simp only [hx] at hrun ⊢
    split
    · next halive =>
      rw [if_pos halive] at hrun
      obtain ⟨t, ht, rfl⟩ := Option.map_eq_some_iff.mp hrun
      obtain ⟨s, hs, hexecuted⟩ := execute_eq_of_le hle id x.name x.work.rule x.work.trigger
        x.work.action (Prod.ext rfl ht)
      obtain rfl := Option.some.inj hs
      simp only [hexecuted, Option.map_some]
    · next hdead =>
      rw [if_neg hdead] at hrun
      exact hrun

theorem settleWithin_eq_some_of_le {i j : Nat} (hrun : settleWithin n i h = some k) (hle : n ≤ m)
    (hij : i ≤ j) : settleWithin m j h = some k := by
  induction i generalizing h j with
  | zero =>
    obtain ⟨hidle, rfl⟩ : h.session.state.scheduler.next? = none ∧ h = k := by
      rw [settleWithin] at hrun
      simpa using hrun
    cases j <;> simp [settleWithin, hidle]
  | succ i ih =>
    obtain ⟨j, rfl⟩ := Nat.exists_eq_add_of_le' (Nat.le_trans (Nat.succ_pos i) hij)
    rw [settleWithin] at hrun ⊢
    cases hid : h.session.state.scheduler.next? with
    | none => rwa [hid] at hrun
    | some id =>
      rw [hid] at hrun
      obtain ⟨u, hu, hrest⟩ := Option.bind_eq_some_iff.mp hrun
      show (runTask m h id).bind (settleWithin m j) = some k
      rw [runTask_eq_some_of_le hu hle]
      exact ih hrest (Nat.le_of_succ_le_succ hij)

theorem shutdownScheduler_eq_some_of_le {now timeout : Nat} {r : Shutdown}
    (hr : h.shutdownScheduler n now timeout = some r) (hle : n ≤ m) :
    h.shutdownScheduler m now timeout = some r := by
  simp only [shutdownScheduler] at hr ⊢
  split
  · next hfirst =>
    rw [if_pos hfirst] at hr
    cases hdeadline : deadline? now timeout with
    | none =>
      rw [hdeadline] at hr
      exact hr
    | some deadline =>
      rw [hdeadline] at hr
      obtain ⟨k, hk, rfl⟩ := Option.map_eq_some_iff.mp hr
      exact Option.map_eq_some_iff.mpr ⟨k, settleWithin_eq_some_of_le hk hle hle, rfl⟩
  · next hlater =>
    rw [if_neg hlater] at hr
    exact hr

theorem stop_eq_some_of_le {now timeout : Nat} {r : Shutdown}
    (hr : h.stop n now timeout = some r) (hle : n ≤ m) : h.stop m now timeout = some r := by
  obtain ⟨q, hq, hrest⟩ := Option.bind_eq_some_iff.mp hr
  obtain ⟨r', hr', hend⟩ := Option.bind_eq_some_iff.mp hrest
  simp only [stop, post_eq_some_of_le hq hle, Option.bind_eq_bind, Option.bind_some,
    shutdownScheduler_eq_some_of_le hr' hle]
  exact hend

end Homes

end HomeAutomation.Home
