import HomeAutomation.Proofs.Scheduler.Containment
import HomeAutomation.Proofs.Scheduler.Counting

/-! The quiet after a shutdown. Once its wait has found no task that is counted, the tasks that ran
are over for good. What may still run is a task that was let past the flag before and is counted
only now: the look at the flag and the count are two steps, and a shutdown fits in between. -/

namespace HomeAutomation.Scheduler

variable {τ : Type}

section Refusing

variable {s t : Scheduler τ} {id : TaskId} {ns : List Notice}

theorem accepting_run_of_refusing (ha : s.accepting = false) (ms : List (Move τ)) :
    (s.run ms).accepting = false := by
  induction ms generalizing s with
  | nil => exact ha
  | cons m ms ih =>
    refine ih ?_
    have hswitches := congrArg Prod.fst (switches_apply (s := s) m)
    cases m with
    | close => exact hswitches
    | _ => exact hswitches.trans ha

theorem interrupted_run (hi : s.interrupted = true) (ms : List (Move τ)) :
    (s.run ms).interrupted = true := by
  induction ms generalizing s with
  | nil => exact hi
  | cons m ms ih =>
    refine ih ?_
    have hswitches := congrArg (·.2.1) (switches_apply (s := s) m)
    cases m with
    | interrupt => exact hswitches.trans (by rw [hi, Bool.true_or])
    | _ => exact hswitches.trans hi

theorem Advance.phase?_eq_none {i : TaskId} (h : Advance s t (some i) ns)
    (hnone : s.phase? id = none) : t.phase? id = none := by
  cases h with
  | idle htasks _ => rwa [phase?, htasks]
  | changed _ x f hx _ htasks _ =>
    rw [phase?_modify hx htasks]
    split
    · rename_i hid
      rw [hid, phase?, hx] at hnone
      cases hnone
    · exact hnone

/-- As long as work is refused, there are no new tasks. -/
theorem phase?_run_of_refusing (ha : s.accepting = false) (hnone : s.phase? id = none)
    (ms : List (Move τ)) : (s.run ms).phase? id = none := by
  induction ms generalizing s with
  | nil => exact hnone
  | cons m ms ih =>
    refine ih (accepting_run_of_refusing ha [m]) ?_
    have hadvance := advance_apply s m
    cases m with
    | prepare task => rwa [(submit_of_not_accepting ha task none).1]
    | close => exact hnone
    | interrupt | stopPools =>
      simp only [Move.apply, ha]
      exact hnone
    | _ => exact hadvance.phase?_eq_none hnone

end Refusing

section Waited

variable {s : Scheduler τ} {id : TaskId} {p : Phase}

theorem isActive_of_active_eq_zero (hcount : s.active = s.counted) (h : s.active = 0)
    (hp : s.phase? id = some p) : p.isActive = false := by
  obtain ⟨x, hx, rfl⟩ := phase?_eq_some.mp hp
  have hnone := List.countP_eq_zero.mp (hcount.symm.trans h) x (List.mem_of_getElem? hx)
  exact (Bool.not_eq_true _).mp hnone

/-- Where no task is counted, a task is over, or it is on its way to be counted. -/
theorem phase?_of_idle (hcount : s.active = s.counted) (h : s.active = 0) (id : TaskId) :
    s.phase? id = none ∨ s.phase? id = some .prepared ∨ (s.phase? id).any Phase.isOver = true := by
  cases hp : s.phase? id with
  | none => exact .inl rfl
  | some p =>
    have hactive := isActive_of_active_eq_zero hcount h hp
    cases p with
    | prepared => exact .inr (.inl rfl)
    | ended o | dropped => exact .inr (.inr rfl)
    | entered | queued | running | ending o => cases hactive

/-- Where no task is counted and work is refused, only what is on its way to be counted goes on. -/
theorem phase?_run_of_idle (hcount : s.active = s.counted) (h : s.active = 0)
    (ha : s.accepting = false) (hp : s.phase? id ≠ some .prepared) (ms : List (Move τ)) :
    (s.run ms).phase? id = s.phase? id := by
  rcases phase?_of_idle hcount h id with hnone | hprepared | hover
  · rw [hnone]
    exact phase?_run_of_refusing ha hnone ms
  · exact absurd hprepared hp
  · exact phase?_run_of_isOver hover ms

end Waited

section Late

variable {s : Scheduler τ} {id : TaskId}

theorem phase?_apply_of_other {m : Move τ} {p : Phase} (hm : m.task? ≠ some id)
    (hp : s.phase? id = some p) : (m.apply s).phase? id = some p := by
  have hadvance := advance_apply s m
  generalize m.apply s = t, m.notices s = ns, m.task? = subject at hadvance hm ⊢
  cases hadvance with
  | idle htasks _ | refused htasks _ => rwa [phase?, htasks]
  | taken task _ htasks _ =>
    have hid : id ≠ s.tasks.length := by
      rintro rfl
      simp [phase?] at hp
    rwa [phase?_concat htasks, if_neg hid]
  | changed i x f hx _ htasks _ =>
    have hid : id ≠ i := fun h => hm (congrArg some h.symm)
    rwa [phase?_modify hx htasks, if_neg hid]

/-- A pool gets a task by a hand-over, and only as long as it has not stopped. -/
theorem queued_inv {m : Move τ} (hp : s.phase? id = some .entered)
    (hq : (m.apply s).phase? id = some .queued) : m = .handOver id ∧ s.stopped = false := by
  by_cases hm : m.task? = some id
  · cases m with
    | handOver i =>
      obtain rfl := Option.some.inj hm
      refine ⟨rfl, ?_⟩
      cases hstopped : s.stopped with
      | false => rfl
      | true =>
        have hdropped : (s.leave i .dropped).phase? i = some .dropped := phase?_setPhase hp .dropped
        rw [Move.apply, Scheduler.handOver, if_pos hp, if_pos hstopped, hdropped] at hq
        cases hq
    | unwind i =>
      obtain rfl := Option.some.inj hm
      have hdropped : (s.leave i .dropped).phase? i = some .dropped := phase?_setPhase hp .dropped
      rw [Move.apply, Scheduler.unwind, if_pos hp, hdropped] at hq
      cases hq
    | enter i | begin i | release i | drop i =>
      obtain rfl := Option.some.inj hm
      simp [Move.apply, Scheduler.enter, Scheduler.begin, Scheduler.release, Scheduler.drop,
        hp] at hq
    | conclude i o | proceed i left | cancel i =>
      obtain rfl := Option.some.inj hm
      obtain ⟨x, hx, hentered⟩ := phase?_eq_some.mp hp
      simp [Move.apply, Scheduler.conclude, Scheduler.cancel, phase?, hx, hentered] at hq
    | prepare t | close | interrupt | stopPools => cases hm
  · rw [phase?_apply_of_other hm hp] at hq
    cases hq

theorem exists_handOver {ms : List (Move τ)}
    (hp : s.phase? id = some .prepared ∨ s.phase? id = some .entered)
    (hrunning : (s.run ms).phase? id = some .running) :
    ∃ before after, ms = before ++ .handOver id :: after ∧ (s.run before).stopped = false := by
  -- The phases on the way are counted and queued; a task that is dropped instead never runs.
  induction ms generalizing s with
  | nil =>
    have hphase : s.phase? id = some .running := hrunning
    simp [hphase] at hp
  | cons m ms ih =>
    have hlater := (advance_apply s m).later id
    have hgo (hnext : (m.apply s).phase? id = some .prepared ∨
        (m.apply s).phase? id = some .entered) : ∃ before after,
          m :: ms = before ++ .handOver id :: after ∧ (s.run before).stopped = false := by
      obtain ⟨before, after, rfl, hopen⟩ := ih hnext hrunning
      exact ⟨m :: before, after, rfl, hopen⟩
    generalize hq : (m.apply s).phase? id = q at hlater hgo
    rcases hp with hp | hp
    · rw [hp] at hlater
      cases hlater with
      | same => exact hgo (.inl rfl)
      | next hnext =>
        cases hnext with
        | enter => exact hgo (.inr rfl)
        | discard hactive _ => cases hactive
    · have hentered := hp
      rw [hp] at hlater
      cases hlater with
      | same => exact hgo (.inr rfl)
      | next hnext =>
        cases hnext with
        | queue =>
          obtain ⟨rfl, hopen⟩ := queued_inv hentered hq
          exact ⟨[], ms, rfl, hopen⟩
        | discard _ _ =>
          have hover : ((m.apply s).phase? id).any Phase.isOver = true := by
            rw [hq]
            rfl
          have hdropped := (phase?_run_of_isOver hover ms).trans hq
          cases hdropped.symm.trans hrunning

theorem phase?_run_of_late (hp : s.phase? id = some .prepared) (hopen : s.stopped = false) :
    (s.run [.enter id, .handOver id, .begin id]).phase? id = some .running := by
  have hentered : (s.enter id).phase? id = some .entered := by
    rw [Scheduler.enter, if_pos hp]
    exact phase?_setPhase hp .entered
  have hstopped : (s.enter id).stopped = false := by
    rw [Scheduler.enter, if_pos hp]
    exact hopen
  have hqueued : ((s.enter id).handOver id).phase? id = some .queued := by
    rw [Scheduler.handOver, if_pos hentered, hstopped]
    exact phase?_setPhase hentered .queued
  exact phase?_begin hqueued

end Late

section Shutdown

variable {s : Scheduler τ}

theorem stopped_run {ms : List (Move τ)} (h : .stopPools ∉ ms) :
    (s.run ms).stopped = s.stopped := by
  induction ms generalizing s with
  | nil => rfl
  | cons m ms ih =>
    refine (ih fun hmem => h (List.mem_cons_of_mem _ hmem)).trans ?_
    have hswitches := congrArg (·.2.2) (switches_apply (s := s) m)
    cases m with
    | stopPools => exact absurd List.mem_cons_self h
    | _ => exact hswitches

/-- Where a shutdown stands when it begins to wait. -/
theorem switches_run_shutdown {before between during : List (Move τ)}
    (h : .stopPools ∉ before ++ between ++ during) (hs : s.stopped = false) :
    let t := s.run (before ++ .close :: between ++ .interrupt :: during)
    t.accepting = false ∧ t.interrupted = true ∧ t.stopped = false := by
  simp only [List.mem_append, not_or] at h
  intro t
  let closed := (s.run before).run (.close :: between)
  have hclosed : closed.accepting = false :=
    accepting_run_of_refusing (s := (s.run before).close.2) rfl between
  have ht : t = closed.interrupt.run during := by
    have hinterrupt : Move.interrupt.apply closed = closed.interrupt := by
      simp [Move.apply, hclosed]
    rw [← hinterrupt]
    simp only [t, closed, run_append]
    rfl
  have hstopped : closed.stopped = false := by
    rw [stopped_run (by simpa using h.1.2), stopped_run h.1.1, hs]
  rw [ht]
  refine ⟨accepting_run_of_refusing (s := closed.interrupt) hclosed during,
    interrupted_run rfl during, ?_⟩
  rw [stopped_run h.2]
  exact hstopped

end Shutdown

/-- A shutdown whose wait ends with no task left warns of none. A task runs from then on if and only
if its submission had read the flag before it was cleared and has not raised the count yet; it is
told to stop from the start, and pools that have stopped do not take it. Every other task stays as
it is, whatever comes. -/
theorem runs_after_wait_iff (settings : Settings) {before between during : List (Move τ)}
    (hopen : .stopPools ∉ before ++ between ++ during) {timeUp : Bool} :
    let start : Scheduler τ := { settings }
    let s := start.run (before ++ .close :: between ++ .interrupt :: during)
    s.look timeUp = some 0 →
      s.timeoutNotices = [] ∧
      (∀ id, (∃ after, (s.run after).phase? id = some .running) ↔ s.phase? id = some .prepared) ∧
      (∀ id after, (s.run after).phase? id = some .running →
        (s.run after).isInterrupted id = true ∧
          ∃ early late, after = early ++ .handOver id :: late ∧ (s.run early).stopped = false) ∧
      ∀ id after, s.phase? id ≠ some .prepared → (s.run after).phase? id = s.phase? id := by
  intro start s hlook
  have hidle : s.active = 0 := (look_eq_some_iff.mp hlook).1.symm
  have hcount : s.active = s.counted := ((exact_start settings).run _).active
  obtain ⟨hrefusing, hinterrupted, hstopped⟩ :
      s.accepting = false ∧ s.interrupted = true ∧ s.stopped = false :=
    switches_run_shutdown hopen rfl
  have hstays : ∀ id after, s.phase? id ≠ some .prepared →
      (s.run after).phase? id = s.phase? id :=
    fun id after hp => phase?_run_of_idle hcount hidle hrefusing hp after
  have hlate : ∀ id after, (s.run after).phase? id = some .running →
      s.phase? id = some .prepared := by
    intro id after hrunning
    by_contra hp
    rw [hstays id after hp] at hrunning
    cases isActive_of_active_eq_zero hcount hidle hrunning
  refine ⟨by rw [timeoutNotices, if_pos hidle], fun id => ⟨?_, fun hp => ?_⟩, ?_, hstays⟩
  · rintro ⟨after, hrunning⟩
    exact hlate id after hrunning
  · exact ⟨_, phase?_run_of_late hp hstopped⟩
  · intro id after hrunning
    refine ⟨?_, exists_handOver (.inl (hlate id after hrunning)) hrunning⟩
    rw [isInterrupted, interrupted_run hinterrupted, Bool.true_or]

/-- One task has ended by the time the shutdown waits, and one is let past the flag in time. -/
theorem runs_after_wait_iff_latecomer :
    let start : Scheduler Unit := { settings := ⟨1, 1, 5⟩ }
    let late : Task Unit := ⟨"late", .worker, true, (), false, .prepared⟩
    let s := start.run (start.submission backup none ++ [.begin 0, .prepare late] ++
      .close :: [.conclude 0 .success] ++ .interrupt :: [.release 0])
    s.look false = some 0 ∧ s.timeoutNotices = [] ∧
      (∃ after, (s.run after).phase? 1 = some .running) ∧
      (¬ ∃ after, (s.run after).phase? 0 = some .running) ∧
      ∀ after, (s.run after).phase? 0 = some (.ended .success) := by
  intro start late s
  have hopen : (.stopPools : Move Unit) ∉
      (start.submission backup none ++ [.begin 0, .prepare late]) ++
        [.conclude 0 .success] ++ [.release 0] := by
    simp [submission, start, backup]
  have hlook : s.look false = some 0 := by decide
  obtain ⟨hquiet, hruns, -, hstays⟩ := runs_after_wait_iff ⟨1, 1, 5⟩ hopen hlook
  have hended : s.phase? 0 = some (.ended .success) := by decide
  refine ⟨hlook, hquiet, (hruns 1).mpr (by decide), ?_, fun after => ?_⟩
  · rw [hruns 0]
    decide
  · rw [hstays 0 after (by decide), hended]

/-- A submission reads the flag, a shutdown comes to the end of its wait and has nothing to warn of,
and then the task is counted, handed over, run and well ended. -/
theorem late_task_runs :
    let start : Scheduler Unit := { settings := ⟨1, 1, 5⟩ }
    let late : Task Unit := ⟨"late", .worker, true, (), false, .prepared⟩
    let waited : List (Move Unit) := [.prepare late, .close, .interrupt]
    let s := start.run waited
    start.submission late none = [.prepare late, .enter 0, .handOver 0] ∧
      waitIdle (start.looks [(waited, false)]) = some 0 ∧ s.timeoutNotices = [] ∧
      (s.run [.enter 0, .handOver 0, .begin 0]).phase? 0 = some .running ∧
      (s.run [.enter 0, .handOver 0, .begin 0, .conclude 0 .success, .release 0,
        .stopPools]).result? 0 = some (.ok ()) :=
  ⟨rfl, rfl, rfl, rfl, rfl⟩

end HomeAutomation.Scheduler
