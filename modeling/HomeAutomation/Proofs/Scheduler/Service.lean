import HomeAutomation.Proofs.Scheduler.Submitting

/-! The switches of a scheduler, and what goes on while nobody gets at them. Only a shutdown does,
in a fixed order; once work is refused, there are fewer and fewer tasks that have not begun. -/

namespace HomeAutomation.Scheduler

variable {τ : Type}

section Switches

variable {s : Scheduler τ}

/-- Only the moves of a shutdown get at the switches of a scheduler, and they do so in order. -/
theorem switches_apply (m : Move τ) :
    ((m.apply s).accepting, (m.apply s).interrupted, (m.apply s).stopped) =
      match m with
      | .close => (false, s.interrupted, s.stopped)
      | .interrupt => (s.accepting, s.interrupted || !s.accepting, s.stopped)
      | .stopPools => (s.accepting, s.interrupted, s.stopped || !s.accepting)
      | _ => (s.accepting, s.interrupted, s.stopped) := by
  cases m with
  | prepare t =>
    simp only [Move.apply, Scheduler.prepare]
    split <;> rfl
  | enter id =>
    simp only [Move.apply, Scheduler.enter]
    split <;> rfl
  | handOver id =>
    simp only [Move.apply, Scheduler.handOver]
    split
    · split <;> rfl
    · rfl
  | unwind id =>
    simp only [Move.apply, Scheduler.unwind]
    split <;> rfl
  | begin id =>
    simp only [Move.apply, Scheduler.begin]
    split <;> rfl
  | conclude id o =>
    simp only [Move.apply, Scheduler.conclude]
    split
    · split <;> rfl
    · rfl
  | release id =>
    simp only [Move.apply, Scheduler.release]
    split <;> rfl
  | drop id =>
    simp only [Move.apply, Scheduler.drop]
    split <;> rfl
  | interrupt | stopPools =>
    simp only [Move.apply]
    split
    · rename_i ha
      simp [ha]
    · rename_i ha
      simp [Scheduler.interrupt, Scheduler.stopPools, ha]
  | proceed id left | cancel id | close => rfl

theorem accepting_run {ms : List (Move τ)} (h : .close ∉ ms) :
    (s.run ms).accepting = s.accepting := by
  induction ms generalizing s with
  | nil => rfl
  | cons m ms ih =>
    have hm : (m.apply s).accepting = s.accepting := by
      have hswitches := congrArg Prod.fst (switches_apply (s := s) m)
      cases m with
      | close => exact absurd List.mem_cons_self h
      | _ => exact hswitches
    exact (ih fun hmem => h (List.mem_cons_of_mem _ hmem)).trans hm

/-- As long as work is accepted, no shutdown has begun. -/
def Undisturbed (s : Scheduler τ) : Prop :=
  s.accepting = true → s.interrupted = false ∧ s.stopped = false

theorem Undisturbed.run (h : s.Undisturbed) (ms : List (Move τ)) : (s.run ms).Undisturbed := by
  induction ms generalizing s with
  | nil => exact h
  | cons m ms ih =>
    refine ih fun ha => ?_
    have hswitches := switches_apply (s := s) m
    rw [ha] at hswitches
    cases m with
    | close => cases congrArg Prod.fst hswitches
    | _ =>
      simp only [Prod.mk.injEq] at hswitches
      obtain ⟨hbefore, hinterrupted, hstopped⟩ := hswitches
      simpa [hinterrupted, hstopped, ← hbefore] using h hbefore.symm

end Switches

/-- The moves of tasks and of those who submit and cancel them; a shutdown is made of the others. -/
def Move.isService : Move τ → Bool
  | .close | .interrupt | .stopPools => false
  | _ => true

theorem isService_submission {s : Scheduler τ} {t : Task τ} {building : Option Panic} :
    ∀ m ∈ s.submission t building, m.isService = true := by
  intro m hm
  simp only [submission, List.mem_cons, List.not_mem_nil, or_false] at hm
  rcases hm with rfl | rfl | rfl
  · rfl
  · rfl
  · generalize (if t.blocking = true then none else building).isNone = built
    cases built <;> rfl

/-- Moves of tasks and of those who submit and cancel them lead from one moment to the other. -/
def Serves (s t : Scheduler τ) : Prop :=
  ∃ ms : List (Move τ), (∀ m ∈ ms, m.isService = true) ∧ s.run ms = t

namespace Serves

variable {s t u : Scheduler τ}

theorem refl (s : Scheduler τ) : Serves s s := ⟨[], fun _ hm => absurd hm List.not_mem_nil, rfl⟩

theorem trans (h : Serves s t) (h' : Serves t u) : Serves s u := by
  obtain ⟨ms, hms, rfl⟩ := h
  obtain ⟨ms', hms', rfl⟩ := h'
  exact ⟨ms ++ ms', List.forall_mem_append.mpr ⟨hms, hms'⟩, run_append⟩

theorem of_move (m : Move τ) (hm : m.isService = true) : Serves s (m.apply s) :=
  ⟨[m], List.forall_mem_singleton.mpr hm, rfl⟩

theorem submit (s : Scheduler τ) (t : Task τ) (building : Option Panic) :
    Serves s (s.submit t building).2.1 :=
  ⟨s.submission t building, isService_submission, submit_eq_run.symm⟩

theorem finish (s : Scheduler τ) (id : TaskId) (o : Outcome) : Serves s (s.finish id o).1 :=
  (of_move (.conclude id o) rfl).trans (of_move (.release id) rfl)

/-- Pools that stop let tasks go. -/
theorem stop (s : Scheduler τ) : Serves s.stopPools s.stop := by
  refine ⟨s.asyncIds.map .drop, fun m hm => ?_, List.foldl_map⟩
  obtain ⟨id, -, rfl⟩ := List.mem_map.mp hm
  rfl

theorem switches (h : Serves s t) :
    t.accepting = s.accepting ∧ t.interrupted = s.interrupted ∧ t.stopped = s.stopped := by
  obtain ⟨ms, hms, rfl⟩ := h
  induction ms generalizing s with
  | nil => exact ⟨rfl, rfl, rfl⟩
  | cons m ms ih =>
    have hstep : ((m.apply s).accepting, (m.apply s).interrupted, (m.apply s).stopped) =
        (s.accepting, s.interrupted, s.stopped) := by
      rw [switches_apply]
      have hm := hms m List.mem_cons_self
      cases m with
      | close | interrupt | stopPools => cases hm
      | _ => rfl
    simp only [Prod.mk.injEq] at hstep
    obtain ⟨haccepting, hinterrupted, hstopped⟩ := hstep
    rw [← haccepting, ← hinterrupted, ← hstopped]
    exact ih fun m' hm' => hms m' (List.mem_cons_of_mem m hm')

end Serves

/-- Whether a task has yet to begin. -/
def Phase.isAhead : Phase → Bool
  | .prepared | .entered | .queued => true
  | .running | .ending _ | .ended _ | .dropped => false

/-- The number of the tasks that have yet to begin. -/
def ahead (s : Scheduler τ) : Nat := s.tasks.countP fun t => t.phase.isAhead

section Ahead

variable {s t : Scheduler τ} {id : TaskId} {ns : List Notice}

theorem Phase.Next.isAhead {p q : Phase} (h : p.Next q) (hq : q.isAhead = true) :
    p.isAhead = true := by
  cases h with
  | enter | queue => rfl
  | begin | conclude | release | discard => cases hq

theorem Advance.ahead_le (h : Advance s t (some id) ns) : t.ahead ≤ s.ahead := by
  cases h with
  | idle htasks _ => exact Nat.le_of_eq (congrArg (List.countP _) htasks)
  | changed _ x f hx hdev htasks _ =>
    have hcount := countP_modify hx f fun t => t.phase.isAhead
    have hle : (f x).phase.isAhead = true → x.phase.isAhead = true := by
      intro hf
      rcases hdev.phase with heq | hnext
      · rwa [← heq]
      · exact hnext.isAhead hf
    rw [ahead, ahead, htasks]
    cases hf : (f x).phase.isAhead with
    | false =>
      rw [hf] at hcount
      exact Nat.le.intro hcount
    | true =>
      rw [hf, hle hf] at hcount
      exact Nat.le_of_eq (Nat.add_right_cancel hcount)

theorem Serves.ahead_le (h : Serves s t) (ha : s.accepting = false) : t.ahead ≤ s.ahead := by
  obtain ⟨ms, hms, rfl⟩ := h
  induction ms generalizing s with
  | nil => exact Nat.le_refl _
  | cons m ms ih =>
    have hm := hms m List.mem_cons_self
    have hstep : (m.apply s).ahead ≤ s.ahead := by
      have hadvance := advance_apply s m
      cases m with
      | prepare task => simp [Move.apply, Scheduler.prepare, ha]
      | close | interrupt | stopPools => cases hm
      | _ => exact hadvance.ahead_le
    have hkeep := (Serves.of_move (s := s) m hm).switches.1
    exact Nat.le_trans
      (ih (hkeep.trans ha) fun m' hm' => hms m' (List.mem_cons_of_mem m hm')) hstep

theorem ahead_begin (h : s.phase? id = some .queued) : (s.begin id).ahead + 1 = s.ahead := by
  obtain ⟨x, hx, hqueued⟩ := phase?_eq_some.mp h
  have hcount := countP_modify hx (fun t => { t with phase := .running }) fun t => t.phase.isAhead
  simp only [hqueued, Phase.isAhead, if_true, Bool.false_eq_true, if_false, Nat.add_zero] at hcount
  rw [Scheduler.begin, if_pos h]
  exact hcount

theorem phase?_of_next? (h : s.next? = some id) : s.phase? id = some .queued := by
  obtain ⟨hid, hbegin, -⟩ := List.findIdx?_eq_some_iff_getElem.mp h
  rw [canBegin, Bool.and_eq_true, decide_eq_true_eq] at hbegin
  exact phase?_eq_some.mpr ⟨s.tasks[id], List.getElem?_eq_getElem hid, hbegin.1⟩

end Ahead

end HomeAutomation.Scheduler
