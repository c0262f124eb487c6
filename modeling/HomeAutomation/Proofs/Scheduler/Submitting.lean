import HomeAutomation.Proofs.Scheduler.Moves

/-! Submissions, and the other procedures of a scheduler: each is a row of moves, and a submission
that nothing comes between has one of three results. -/

namespace HomeAutomation.Scheduler

variable {τ : Type}

section Procedures

variable {s : Scheduler τ}

/-- What a submission does, one move after another. -/
def submission (s : Scheduler τ) (t : Task τ) (building : Option Panic) : List (Move τ) :=
  let id := s.tasks.length
  let handedOver := (if t.blocking then none else building).isNone
  [.prepare t, .enter id, if handedOver then .handOver id else .unwind id]

theorem submit_eq_run {t : Task τ} {building : Option Panic} :
    (s.submit t building).2.1 = s.run (s.submission t building) := by
  by_cases ha : s.accepting = true
  · cases hb : if t.blocking then none else building with
    | none | some p => simp [submit, submission, run, Move.apply, Scheduler.prepare, ha, hb]
  · have hnone : s.phase? s.tasks.length = none := by simp [phase?]
    cases hb : if t.blocking then none else building with
    | none | some p =>
      simp [submit, submission, run, Move.apply, Scheduler.prepare, Scheduler.enter,
        Scheduler.handOver, Scheduler.unwind, ha, hb, hnone]

theorem submit_notices {t : Task τ} {building : Option Panic} :
    (s.submit t building).2.2 = s.written (s.submission t building) := by
  have hwritten : s.written (s.submission t building) =
      if s.accepting then [] else [.taskRejected t.name] := by
    cases hb : if t.blocking then none else building with
    | none | some p => simp [submission, written, Move.notices, hb]
  rw [hwritten, submit, Scheduler.prepare]
  cases s.accepting with
  | false => rfl
  | true => cases hb : if t.blocking then none else building <;> simp

theorem finish_eq_run {id : TaskId} {o : Outcome} :
    (s.finish id o).1 = s.run [.conclude id o, .release id] :=
  rfl

theorem finish_notices {id : TaskId} {o : Outcome} :
    (s.finish id o).2 = s.written [.conclude id o, .release id] :=
  (List.append_nil _).symm

theorem stop_eq_run (h : s.accepting = false) :
    s.stop = s.run (.stopPools :: s.asyncIds.map .drop) := by
  rw [run, List.foldl_cons, List.foldl_map, Move.apply, h]
  rfl

end Procedures

section Submitting

variable {s : Scheduler τ} {t : Task τ} {p : Phase} {n : Nat}

/-- A scheduler with one more task on its list. -/
def taking (s : Scheduler τ) (t : Task τ) (p : Phase) (n : Nat) : Scheduler τ :=
  { s with tasks := s.tasks ++ [{ t with cancelled := false, phase := p }], active := n }

theorem phase?_taking : (s.taking t p n).phase? s.tasks.length = some p := by
  rw [phase?_concat rfl, if_pos rfl]

theorem modify_concat {α : Type} (l : List α) (x : α) (f : α → α) :
    (l ++ [x]).modify l.length f = l ++ [f x] := by
  induction l with
  | nil => rfl
  | cons y l ih =>
    rw [List.cons_append, List.length_cons, List.modify_succ_cons, ih]
    rfl

theorem setPhase_taking {q : Phase} :
    (s.taking t p n).setPhase s.tasks.length q = s.taking t q n := by
  rw [taking, setPhase, modify_concat]
  rfl

theorem prepare_of_accepting (h : s.accepting = true) :
    s.prepare t = some (s.tasks.length, s.taking t .prepared s.active) := by
  rw [Scheduler.prepare, if_pos h]
  rfl

theorem enter_taking :
    (s.taking t .prepared n).enter s.tasks.length = s.taking t .entered (n + 1) := by
  rw [Scheduler.enter, if_pos phase?_taking, setPhase_taking]
  rfl

theorem handOver_taking : (s.taking t .entered (n + 1)).handOver s.tasks.length =
    if s.stopped then s.taking t .dropped n else s.taking t .queued (n + 1) := by
  rw [Scheduler.handOver, if_pos phase?_taking, Scheduler.leave, setPhase_taking, setPhase_taking]
  rfl

theorem unwind_taking :
    (s.taking t .entered (n + 1)).unwind s.tasks.length = s.taking t .dropped n := by
  rw [Scheduler.unwind, if_pos phase?_taking, Scheduler.leave, setPhase_taking]
  rfl

/-- A submission puts the task into the queue, or lets it go if the pools have stopped. -/
theorem submit_eq_accepted (h : s.accepting = true) {building : Option Panic}
    (hb : t.blocking = true ∨ building = none) :
    s.submit t building = (.accepted s.tasks.length,
      if s.stopped then s.taking t .dropped s.active else s.taking t .queued (s.active + 1),
      []) := by
  have hbuilt : (if t.blocking then none else building) = none := by
    rcases hb with hb | rfl
    · rw [hb]
      rfl
    · cases t.blocking <;> rfl
  rw [submit, prepare_of_accepting h]
  simp only [hbuilt, enter_taking, handOver_taking]

/-- A panic while work is built reaches whoever submits it, and the task is let go. -/
theorem submit_eq_panicked (h : s.accepting = true) {e : Panic} (hb : t.blocking = false) :
    s.submit t (some e) = (.panicked e, s.taking t .dropped s.active, []) := by
  rw [submit, prepare_of_accepting h]
  simp only [hb, Bool.false_eq_true, if_false, enter_taking, unwind_taking]

theorem submit_of_not_accepting (h : s.accepting = false) (t : Task τ) (building : Option Panic) :
    (Move.prepare t).apply s = s ∧
      s.submit t building = (.rejected, s, [.taskRejected t.name]) := by
  simp [submit, Move.apply, Scheduler.prepare, h]

end Submitting

end HomeAutomation.Scheduler
