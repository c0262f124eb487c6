import HomeAutomation.Proofs.Scheduler.Service
import HomeAutomation.Scheduler.Script

/-! Workshops handle their schedulers by moves alone. So whatever holds in every run of a scheduler
holds of workshops, too. -/

namespace HomeAutomation.Scheduler.Workshop

/-- A workshop goes on by moves of its scheduler and keeps the lines that these log. -/
def Works (w v : Workshop) : Prop :=
  ∃ ms : List (Move Script), (∀ m ∈ ms, m.isService = true) ∧ w.scheduler.run ms = v.scheduler ∧
    v.notices = w.notices ++ w.scheduler.written ms

section Works

variable {w v u : Workshop} {id : TaskId}

theorem Works.serves (h : Works w v) : w.scheduler.Serves v.scheduler := by
  obtain ⟨ms, hservice, hrun, -⟩ := h
  exact ⟨ms, hservice, hrun⟩

theorem Works.refl (w : Workshop) : Works w w :=
  ⟨[], fun _ hm => absurd hm List.not_mem_nil, rfl, (List.append_nil _).symm⟩

theorem Works.trans (h : Works w v) (h' : Works v u) : Works w u := by
  obtain ⟨ms, hservice, hrun, hnotices⟩ := h
  obtain ⟨ms', hservice', hrun', hnotices'⟩ := h'
  refine ⟨ms ++ ms', List.forall_mem_append.mpr ⟨hservice, hservice'⟩, ?_, ?_⟩
  · rw [run_append, hrun, hrun']
  · rw [hnotices', hnotices, ← hrun, List.append_assoc, written_append]

/-- A move that logs nothing. -/
theorem Works.of_move (m : Move Script) (hm : m.isService = true)
    (hquiet : m.notices w.scheduler = []) (hscheduler : v.scheduler = m.apply w.scheduler)
    (hnotices : v.notices = w.notices) : Works w v := by
  refine ⟨[m], List.forall_mem_singleton.mpr hm, hscheduler.symm, ?_⟩
  rw [hnotices, written, hquiet, written, List.append_nil, List.append_nil]

theorem modify_congr {α : Type} {l : List α} {i : Nat} {x : α} (hx : l[i]? = some x) {f g : α → α}
    (h : f x = g x) : l.modify i f = l.modify i g := by
  refine List.ext_getElem? fun j => ?_
  by_cases hj : i = j
  · subst hj
    rw [List.getElem?_modify_eq, List.getElem?_modify_eq, hx]
    exact congrArg some h
  · rw [List.getElem?_modify_ne f l hj, List.getElem?_modify_ne g l hj]

theorem works_advance {t : Task Script} (ht : w.scheduler.tasks[id]? = some t) :
    Works w (w.advance id t) := by
  rw [advance]
  cases hstages : t.work.stages with
  | nil =>
    refine ⟨[.conclude id t.work.outcome, .release id], by simp [Move.isService], ?_, ?_⟩
    · exact finish_eq_run.symm
    · exact congrArg (w.notices ++ ·) finish_notices
  | cons stage rest =>
    have htasks : w.scheduler.tasks.modify id
          (fun t => { t with work := ⟨rest, t.work.outcome⟩ }) =
        w.scheduler.tasks.modify id (fun x => { x with work := ⟨rest, t.work.outcome⟩ }) :=
      modify_congr ht rfl
    refine Works.of_move (.proceed id ⟨rest, t.work.outcome⟩) rfl rfl ?_ ?_
    · cases stage <;> exact congrArg (fun tasks => { w.scheduler with tasks }) htasks
    · cases stage <;> rfl

theorem works_step? (h : w.step? = some v) : Works w v := by
  rw [step?] at h
  split at h
  · rename_i t id hfind
    have hmem := List.mem_of_find?_eq_some hfind
    exact Option.some_inj.mp h ▸ works_advance (List.mk_mem_zipIdx_iff_getElem?.mp hmem)
  · obtain ⟨id, -, rfl⟩ := Option.map_eq_some_iff.mp h
    exact .of_move (.begin id) rfl rfl rfl rfl

theorem works_settleWithin (n : Nat) : Works w (settleWithin n w) := by
  induction n generalizing w with
  | zero => exact .refl w
  | succ n ih =>
    rw [settleWithin]
    cases hstep : w.step? with
    | none => exact .refl w
    | some v => exact (works_step? hstep).trans ih

theorem works_settle : Works w w.settle := works_settleWithin w.stepsLeft

theorem works_submit (t : Task Script) : Works w (w.submit t).2 := by
  let v : Workshop := { w with
    scheduler := (w.scheduler.submit t none).2.1
    notices := w.notices ++ (w.scheduler.submit t none).2.2 }
  have hsubmitted : Works w v :=
    ⟨w.scheduler.submission t none, isService_submission, submit_eq_run.symm,
      congrArg (w.notices ++ ·) submit_notices⟩
  exact hsubmitted.trans works_settle

theorem works_openGate (g : String) : Works w (w.openGate g) := by
  have hopened : Works w { w with gates := g :: w.gates } := .refl w
  exact hopened.trans works_settle

theorem works_cancel : Works w (w.cancel id) := by
  have hcancelled : Works w { w with scheduler := w.scheduler.cancel id } :=
    .of_move (.cancel id) rfl rfl rfl rfl
  exact hcancelled.trans works_settle

/-- A shutdown is a run of the scheduler, with what its tasks still do in between. -/
theorem exists_run_shutdown : ∃ ms, w.scheduler.run ms = w.shutdown.scheduler := by
  cases ha : w.scheduler.accepting with
  | false =>
    refine ⟨[], ?_⟩
    have hfirst : w.scheduler.close.1 = false := ha
    simp only [shutdown, hfirst, Bool.false_eq_true, if_false]
    rfl
  | true =>
    let asked : Workshop := { w with scheduler := w.scheduler.close.2.interrupt }
    let stopped : Workshop := { asked.settle with
      scheduler := asked.settle.scheduler.stop
      notices := asked.settle.notices ++ asked.settle.scheduler.timeoutNotices }
    have hsettled : asked.scheduler.Serves asked.settle.scheduler := works_settle.serves
    have hstop := stop_eq_run hsettled.switches.1
    have hrest : stopped.scheduler.Serves stopped.settle.scheduler := works_settle.serves
    obtain ⟨ms, -, hms⟩ := hsettled
    obtain ⟨ms', -, hms'⟩ := hrest
    refine ⟨[.close, .interrupt] ++ ms ++
      .stopPools :: asked.settle.scheduler.asyncIds.map .drop ++ ms', ?_⟩
    have hasked : w.scheduler.run [.close, .interrupt] = asked.scheduler := rfl
    have hfirst : w.scheduler.close.1 = true := ha
    rw [run_append, run_append, run_append, hasked, hms, ← hstop]
    simp only [shutdown, hfirst, if_true]
    exact hms'

theorem exists_run_abandon : ∃ ms, w.scheduler.run ms = w.abandon.scheduler := by
  let stopped : Workshop := { w with scheduler := w.scheduler.close.2.interrupt.stop }
  have hrest : stopped.scheduler.Serves stopped.settle.scheduler := works_settle.serves
  obtain ⟨ms, -, hms⟩ := hrest
  have hasked : w.scheduler.run [.close, .interrupt] = w.scheduler.close.2.interrupt := rfl
  have hstop : w.scheduler.close.2.interrupt.stop = _ := stop_eq_run rfl
  refine ⟨[.close, .interrupt] ++
    .stopPools :: w.scheduler.close.2.interrupt.asyncIds.map .drop ++ ms, ?_⟩
  rw [run_append, run_append, hasked, ← hstop]
  exact hms

end Works

end HomeAutomation.Scheduler.Workshop
