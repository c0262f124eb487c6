import HomeAutomation.Proofs.Scheduler.Service

/-! What comes of the failures of tasks. However the work of a task ends, that is its task's affair:
whoever waits for it is told, the log has one line about a failure, and work is accepted as before.
The exception is a panic while work is built, which reaches whoever submits it. -/

namespace HomeAutomation.Scheduler

variable {τ : Type}

/-- What whoever waits for a task is told about the end of its work. -/
def answer : Outcome → Except TaskError Unit
  | .success => .ok ()
  | .failure f => .error (.failed (": ".intercalate f.chain))
  | .panic (.text p) => .error (.panicked p)
  | .panic .other => .error (.panicked "unknown panic")

/-- What the log has about the end of a task's work. -/
def report (name : String) : Outcome → List Notice
  | .success => []
  | .failure f => [.taskFailed name (": ".intercalate f.chain)]
  | .panic (.text p) => [.taskPanicked name p]
  | .panic .other => [.taskPanicked name "unknown panic"]

theorem Phase.result?_ended (o : Outcome) : (Phase.ended o).result? = some (answer o) := by
  cases o with
  | success | failure f => rfl
  | panic p => cases p <;> rfl

theorem endNotices_eq_report (name : String) (o : Outcome) : endNotices name o = report name o := by
  cases o with
  | success | failure f => rfl
  | panic p => cases p <;> rfl

section Outcomes

variable {s : Scheduler τ} {id : TaskId} {p : Phase} {o : Outcome}

theorem Phase.Next.outcome? {p q : Phase} (h : p.Next q) (hp : p.outcome? = some o) :
    q.outcome? = some o := by
  cases h with
  | enter | queue | begin | conclude => cases hp
  | release => exact hp
  | discard _ hnone =>
    rw [hnone] at hp
    cases hp

theorem Later.outcome? {p q : Option Phase} (h : Later p q) (hp : p.bind Phase.outcome? = some o) :
    q.bind Phase.outcome? = some o := by
  cases h with
  | same => exact hp
  | taken => cases hp
  | next hnext => exact hnext.outcome? hp

/-- How the work of a task ended does not change any more. -/
theorem outcome?_run (h : (s.phase? id).bind Phase.outcome? = some o) (ms : List (Move τ)) :
    ((s.run ms).phase? id).bind Phase.outcome? = some o := by
  induction ms generalizing s with
  | nil => exact h
  | cons m ms ih => exact ih (((advance_apply s m).later id).outcome? h)

theorem phase?_setPhase (h : s.phase? id = some p) (q : Phase) :
    (s.setPhase id q).phase? id = some q := by
  obtain ⟨x, hx, -⟩ := phase?_eq_some.mp h
  rw [phase?_modify hx rfl, if_pos rfl]

theorem phase?_release (h : (s.phase? id).bind Phase.outcome? = some o) :
    (s.release id).phase? id = some (.ended o) := by
  obtain ⟨p, hp, ho⟩ := Option.bind_eq_some_iff.mp h
  cases p with
  | ending o' =>
    cases ho
    rw [Scheduler.release, hp]
    exact phase?_setPhase hp _
  | ended o' =>
    cases ho
    rw [Scheduler.release, hp]
    exact hp
  | prepared | entered | queued | running | dropped => cases ho

/-- A task whose work has ended and that is let out is over. -/
theorem phase?_run_of_release (h : (s.phase? id).bind Phase.outcome? = some o)
    {ms : List (Move τ)} (hmem : .release id ∈ ms) : (s.run ms).phase? id = some (.ended o) := by
  induction ms generalizing s with
  | nil => cases hmem
  | cons m ms ih =>
    rcases List.mem_cons.mp hmem with rfl | hmem
    · have hended : (s.release id).phase? id = some (.ended o) := phase?_release h
      have hover : ((s.release id).phase? id).any Phase.isOver = true := by
        rw [hended]
        rfl
      exact (phase?_run_of_isOver hover ms).trans hended
    · exact ih (outcome?_run h [m]) hmem

end Outcomes

/-- What a run writes to the log about a task. -/
def linesOf (id : TaskId) (s : Scheduler τ) : List (Move τ) → List Notice
  | [] => []
  | m :: ms => (if m.task? = some id then m.notices s else []) ++ linesOf id (m.apply s) ms

theorem linesOf_sublist (id : TaskId) (s : Scheduler τ) (ms : List (Move τ)) :
    (linesOf id s ms).Sublist (s.written ms) := by
  induction ms generalizing s with
  | nil => exact .slnil
  | cons m ms ih =>
    rw [linesOf, written]
    split
    · exact (List.Sublist.refl _).append (ih (m.apply s))
    · exact (List.nil_sublist _).append (ih (m.apply s))

/-- What the log should have about a task of this name that got to this phase. -/
def linesDue (name : String) (p : Phase) : List Notice := (p.outcome?.map (report name)).getD []

/-- A task, and the lines about it in the log so far, which tell how its work ended if it has. -/
def Accounted (s : Scheduler τ) (id : TaskId) (name : String) (lines : List Notice) : Prop :=
  ∃ x, s.tasks[id]? = some x ∧ x.name = name ∧ lines = linesDue name x.phase

section Accounts

variable {s t : Scheduler τ} {id : TaskId} {name : String} {lines ns : List Notice}
  {subject : Option TaskId}

theorem Task.Develops.linesDue_eq {x y : Task τ} (h : x.Develops y) :
    linesDue y.name y.phase = linesDue x.name x.phase ++ x.due y := by
  rw [h.name]
  rcases h.phase with heq | hnext
  · rw [Task.due, heq]
    cases x.phase.outcome? <;> simp
  · generalize hp : x.phase = p at hnext
    generalize hq : y.phase = q at hnext
    cases hnext with
    | enter | queue | begin | release => simp [Task.due, hp, hq, linesDue, Phase.outcome?]
    | conclude => simp [Task.due, hp, hq, linesDue, Phase.outcome?, endNotices_eq_report]
    | discard _ hnone =>
      have hdropped : Phase.dropped.outcome? = none := rfl
      simp [Task.due, hp, hq, linesDue, hnone, hdropped]

theorem Accounted.advance (hs : Accounted s id name lines) (h : Advance s t subject ns) :
    Accounted t id name (lines ++ if subject = some id then ns else []) := by
  obtain ⟨x, hx, rfl, rfl⟩ := hs
  cases h with
  | idle htasks _ | refused htasks _ => exact ⟨x, by rw [htasks, hx], rfl, by simp⟩
  | taken task _ htasks _ =>
    refine ⟨x, ?_, rfl, by simp⟩
    rw [htasks, List.getElem?_append_left (List.getElem?_eq_some_iff.mp hx).1, hx]
  | changed i y f hy hdev htasks _ =>
    by_cases hi : i = id
    · subst hi
      obtain rfl := Option.some.inj (hx.symm.trans hy)
      refine ⟨f x, ?_, hdev.name, ?_⟩
      · rw [htasks, List.getElem?_modify_eq, hx]
        rfl
      · rw [if_pos rfl, ← hdev.linesDue_eq, hdev.name]
    · refine ⟨x, ?_, rfl, ?_⟩
      · rw [htasks, List.getElem?_modify_ne f s.tasks hi, hx]
      · simp [hi]

theorem Accounted.run (hs : Accounted s id name lines) (ms : List (Move τ)) :
    Accounted (s.run ms) id name (lines ++ linesOf id s ms) := by
  induction ms generalizing s lines with
  | nil =>
    rw [linesOf, List.append_nil]
    exact hs
  | cons m ms ih =>
    rw [linesOf, ← List.append_assoc]
    exact ih (hs.advance (advance_apply s m))

end Accounts

section Submitting

variable {s : Scheduler τ} {id : TaskId} {t : Task τ} {p : Phase} {n : Nat} {o : Outcome}

theorem accounted_taking (hp : p.outcome? = none) :
    Accounted (s.taking t p n) s.tasks.length t.name [] := by
  refine ⟨_, List.getElem?_concat_length, rfl, ?_⟩
  rw [linesDue, hp]
  rfl

theorem linesOf_taking (hp : p.outcome? = none) (ms : List (Move τ)) :
    linesOf s.tasks.length (s.taking t p n) ms =
      ((((s.taking t p n).run ms).phase? s.tasks.length).bind Phase.outcome?).elim []
        (report t.name) := by
  obtain ⟨x, hx, -, hlines⟩ := Accounted.run (accounted_taking (t := t) (n := n) hp) ms
  rw [List.nil_append] at hlines
  rw [hlines, linesDue, phase?, hx]
  show _ = x.phase.outcome?.elim [] (report t.name)
  cases x.phase.outcome? <;> rfl

/-- Whatever comes of a submission, the task is on the list and its work has not ended. -/
theorem exists_taking (ha : s.accepting = true) (building : Option Panic) :
    ∃ p n, (s.submit t building).2 = (s.taking t p n, []) ∧ p.outcome? = none := by
  by_cases hb : t.blocking = true ∨ building = none
  · rw [submit_eq_accepted ha hb]
    cases s.stopped with
    | true => exact ⟨.dropped, s.active, rfl, rfl⟩
    | false => exact ⟨.queued, s.active + 1, rfl, rfl⟩
  · obtain ⟨hblocking, hnone⟩ := not_or.mp hb
    obtain ⟨e, rfl⟩ := Option.ne_none_iff_exists'.mp hnone
    rw [submit_eq_panicked ha ((Bool.not_eq_true t.blocking).mp hblocking)]
    exact ⟨.dropped, s.active, rfl, rfl⟩

theorem phase?_conclude (h : s.phase? id = some .running) :
    ((Move.conclude id o).apply s).phase? id = some (.ending o) := by
  obtain ⟨x, hx, hrunning⟩ := phase?_eq_some.mp h
  simp only [Move.apply, Scheduler.conclude, hx, if_pos hrunning]
  exact phase?_setPhase h _

theorem phase?_begin (h : s.phase? id = some .queued) :
    ((Move.begin id).apply s).phase? id = some .running := by
  rw [Move.apply, Scheduler.begin, if_pos h]
  exact phase?_setPhase h _

/-- There is but one answer to whoever waits for a task whose work has ended. -/
theorem result?_eq_answer (h : (s.phase? id).bind Phase.outcome? = some o)
    {r : Except TaskError Unit} (hr : s.result? id = some r) : r = answer o := by
  obtain ⟨p, hp, ho⟩ := Option.bind_eq_some_iff.mp h
  rw [Scheduler.result?, hp] at hr
  cases p with
  | ended o' =>
    cases ho
    exact (Option.some.inj ((Phase.result?_ended o).symm.trans hr)).symm
  | ending o' => cases hr
  | prepared | entered | queued | running | dropped => cases ho

theorem outcome?_run_conclude {before after : List (Move τ)}
    (h : (s.run before).phase? id = some .running) :
    ((s.run (before ++ .conclude id o :: after)).phase? id).bind Phase.outcome? = some o := by
  rw [run_append]
  refine outcome?_run ?_ after
  rw [phase?_conclude h]
  rfl

end Submitting

/-- A scheduler that accepts work accepts every task but one whose work panics while it is built:
that panic reaches whoever submits it, unlogged, and the task is gone. Of every task that was
accepted, the log and whoever waits are told how its work ended, once, and nothing else; and work
is accepted until a shutdown begins. -/
theorem failures_contained (settings : Settings) (ms : List (Move τ)) (t : Task τ)
    (building : Option Panic) :
    let s : Scheduler τ := run { settings } ms
    let id := s.tasks.length
    let u := (s.submit t building).2.1
    s.accepting = true →
      (s.submit t building).2.2 = [] ∧
      (t.blocking = true ∨ building = none →
        (s.submit t building).1 = .accepted id ∧ u.phase? id = some .queued) ∧
      (∀ p, t.blocking = false → building = some p →
        (s.submit t building).1 = .panicked p ∧ u.phase? id = some .dropped ∧
          u.active = s.active) ∧
      (∀ ms', (linesOf id u ms').Sublist (u.written ms') ∧ linesOf id u ms' =
        (((u.run ms').phase? id).bind Phase.outcome?).elim [] (report t.name)) ∧
      (∀ before, (u.run before).phase? id = some .queued →
        (u.run (before ++ [.begin id])).phase? id = some .running) ∧
      (∀ before o after, (u.run before).phase? id = some .running →
        let ms' := before ++ .conclude id o :: after
        linesOf id u ms' = report t.name o ∧
          (∀ r, (u.run ms').result? id = some r → r = answer o) ∧
          (.release id ∈ after → (u.run ms').result? id = some (answer o))) ∧
      ∀ ms', .close ∉ ms' → ∀ t' building', t'.blocking = true ∨ building' = none →
        ((u.run ms').submit t' building').1 = .accepted (u.run ms').tasks.length := by
  intro s id u ha
  have hstart : Undisturbed ({ settings } : Scheduler τ) := fun _ => ⟨rfl, rfl⟩
  have hstopped : s.stopped = false := (hstart.run ms ha).2
  obtain ⟨p, n, hsubmit, hp⟩ := exists_taking (t := t) ha building
  have hu : u = s.taking t p n := congrArg Prod.fst hsubmit
  have hlines : ∀ ms', linesOf id u ms' =
      (((u.run ms').phase? id).bind Phase.outcome?).elim [] (report t.name) := by
    intro ms'
    rw [hu]
    exact linesOf_taking hp ms'
  refine ⟨congrArg Prod.snd hsubmit, ?_, ?_, fun ms' => ⟨linesOf_sublist id u ms', hlines ms'⟩,
    ?_, ?_, ?_⟩
  · intro hb
    have hqueued := submit_eq_accepted ha hb
    rw [hstopped] at hqueued
    refine ⟨congrArg Prod.fst hqueued, ?_⟩
    rw [show u = s.taking t .queued (s.active + 1) from congrArg (·.2.1) hqueued]
    exact phase?_taking
  · intro e hblocking hbuilding
    have hdropped := submit_eq_panicked ha (e := e) hblocking
    rw [← hbuilding] at hdropped
    refine ⟨congrArg Prod.fst hdropped, ?_⟩
    rw [show u = s.taking t .dropped s.active from congrArg (·.2.1) hdropped]
    exact ⟨phase?_taking, rfl⟩
  · intro before hqueued
    rw [run_append]
    exact phase?_begin hqueued
  · intro before o after hrunning ms'
    have hended : ((u.run ms').phase? id).bind Phase.outcome? = some o :=
      outcome?_run_conclude hrunning
    refine ⟨?_, fun r => result?_eq_answer hended, fun hmem => ?_⟩
    · rw [hlines, hended]
      rfl
    · have hover : (u.run ms').phase? id = some (.ended o) := by
        have hms : ms' = (before ++ [.conclude id o]) ++ after := by simp [ms']
        rw [hms, run_append]
        exact phase?_run_of_release (outcome?_run_conclude hrunning) hmem
      rw [Scheduler.result?, hover]
      exact Phase.result?_ended o
  · intro ms' hopen t' building' hb
    have haccepting : (u.run ms').accepting = true := by
      rw [accepting_run hopen, hu]
      exact ha
    rw [submit_eq_accepted haccepting hb]

def backup : Task Unit := ⟨"backup", .worker, true, (), false, .prepared⟩

/-- A task that fails leaves one line, its error for whoever waits, and a scheduler that takes the
next one. -/
theorem failures_contained_backup :
    let s : Scheduler Unit := run { settings := ⟨1, 1, 5⟩ } []
    let u := (s.submit backup none).2.1
    let ms' : List (Move Unit) := [.begin 0, .conclude 0 (.failure ⟨["no backup", "disk full"]⟩),
      .release 0]
    (s.submit backup none).1 = .accepted 0 ∧
      linesOf 0 u ms' = [.taskFailed "backup" "no backup: disk full"] ∧
      (u.run ms').result? 0 = some (.error (.failed "no backup: disk full")) ∧
      ((u.run ms').submit backup none).1 = .accepted 1 := by
  intro s u ms'
  obtain ⟨-, haccepted, -, -, hbegin, hend, hlater⟩ :=
    failures_contained ⟨1, 1, 5⟩ [] backup none rfl
  obtain ⟨hanswer, hqueued⟩ := haccepted (.inl rfl)
  have hrunning := hbegin [] hqueued
  obtain ⟨hlines, -, hresult⟩ :=
    hend [.begin 0] (.failure ⟨["no backup", "disk full"]⟩) [.release 0] hrunning
  have hopen : .close ∉ ms' := by simp [ms']
  exact ⟨hanswer, hlines, hresult List.mem_cons_self, hlater ms' hopen backup none (.inl rfl)⟩

/-- Work that panics while it is built takes whoever submits it down with it, and no line says
so. -/
theorem building_panic_escapes :
    let s : Scheduler Unit := { settings := ⟨1, 1, 5⟩ }
    let watch : Task Unit := ⟨"watch", .system, false, (), false, .prepared⟩
    s.accepting = true ∧ s.submit watch (some (.text "no device")) =
      (.panicked (.text "no device"), s.taking watch .dropped 0, []) :=
  ⟨rfl, rfl⟩

end HomeAutomation.Scheduler
