import HomeAutomation.Scheduler

/-! A scheduler in the hands of several threads. Whatever they do to it is made up of atomic moves,
and a run is any interleaving of these; a move that is out of place changes nothing. A move gets at
most one task on to its next phase, and the count of active tasks changes with that phase. -/

namespace HomeAutomation.Scheduler

variable {τ : Type}

inductive Move (τ : Type) where
  | prepare (t : Task τ)
  | enter (id : TaskId)
  | handOver (id : TaskId)
  | unwind (id : TaskId)
  | begin (id : TaskId)
  /-- The work of a task gets on; this is left of it. -/
  | proceed (id : TaskId) (left : τ)
  | conclude (id : TaskId) (o : Outcome)
  | release (id : TaskId)
  | drop (id : TaskId)
  | cancel (id : TaskId)
  /-- A shutdown begins; it goes on with the moves after this one. -/
  | close
  | interrupt
  | stopPools

namespace Move

def apply (s : Scheduler τ) : Move τ → Scheduler τ
  | .prepare t => ((s.prepare t).map Prod.snd).getD s
  | .enter id => s.enter id
  | .handOver id => s.handOver id
  | .unwind id => s.unwind id
  | .begin id => s.begin id
  | .proceed id left => { s with tasks := s.tasks.modify id fun t => { t with work := left } }
  | .conclude id o => (s.conclude id o).1
  | .release id => s.release id
  | .drop id => s.drop id
  | .cancel id => s.cancel id
  | .close => s.close.2
  | .interrupt => if s.accepting then s else s.interrupt
  | .stopPools => if s.accepting then s else s.stopPools

def task? : Move τ → Option TaskId
  | .prepare _ | .close | .interrupt | .stopPools => none
  | .enter id | .handOver id | .unwind id | .begin id | .proceed id _ | .conclude id _
  | .release id | .drop id | .cancel id => some id

/-- What a move writes to the log. -/
def notices (s : Scheduler τ) : Move τ → List Notice
  | .prepare t => if s.accepting then [] else [.taskRejected t.name]
  | .conclude id o => (s.conclude id o).2
  | _ => []

end Move

def run (s : Scheduler τ) (ms : List (Move τ)) : Scheduler τ := ms.foldl Move.apply s

theorem run_append {s : Scheduler τ} {ms ms' : List (Move τ)} :
    s.run (ms ++ ms') = (s.run ms).run ms' :=
  List.foldl_append

/-- What a run writes to the log. -/
def written (s : Scheduler τ) : List (Move τ) → List Notice
  | [] => []
  | m :: ms => m.notices s ++ written (m.apply s) ms

theorem written_append {s : Scheduler τ} {ms ms' : List (Move τ)} :
    s.written (ms ++ ms') = s.written ms ++ (s.run ms).written ms' := by
  induction ms generalizing s with
  | nil => rfl
  | cons m ms ih =>
    rw [List.cons_append, written, written, ih, List.append_assoc]
    rfl

namespace Phase

def isEntered : Phase → Bool
  | .prepared => false
  | .entered | .queued | .running | .ending _ | .ended _ | .dropped => true

def isOver : Phase → Bool
  | .ended _ | .dropped => true
  | .prepared | .entered | .queued | .running | .ending _ => false

theorem isActive_eq (p : Phase) : p.isActive = (p.isEntered && !p.isOver) := by
  cases p <;> rfl

theorem isEntered_of_isActive {p : Phase} (h : p.isActive = true) : p.isEntered = true := by
  rw [isActive_eq, Bool.and_eq_true] at h
  exact h.1

theorem isActive_of_isOver {p : Phase} (h : p.isOver = true) : p.isActive = false := by
  rw [isActive_eq, h, Bool.not_true, Bool.and_false]

theorem isSome_result? (p : Phase) : p.result?.isSome = p.isOver := by
  cases p with
  | ended o =>
    cases o with
    | success | failure f | panic e => rfl
  | prepared | entered | queued | running | ending o | dropped => rfl

def outcome? : Phase → Option Outcome
  | .ending o | .ended o => some o
  | .prepared | .entered | .queued | .running | .dropped => none

inductive Next : Phase → Phase → Prop where
  | enter : Next .prepared .entered
  | queue : Next .entered .queued
  | begin : Next .queued .running
  | conclude {o : Outcome} : Next .running (.ending o)
  | release {o : Outcome} : Next (.ending o) (.ended o)
  | discard {p : Phase} : p.isActive = true → p.outcome? = none → Next p .dropped

end Phase

def Task.weight (t : Task τ) : Nat := if t.phase.isActive then 1 else 0

/-- A change of one task: it stays in its phase or gets on to a next one. -/
structure Task.Develops (t u : Task τ) : Prop where
  name : u.name = t.name
  phase : u.phase = t.phase ∨ t.phase.Next u.phase

/-- The lines that are due when a task changes: its work may have ended. -/
def Task.due (t u : Task τ) : List Notice :=
  match t.phase.outcome?, u.phase.outcome? with
  | none, some o => endNotices t.name o
  | _, _ => []

/-- All that a move of a task does to the tasks and their count, and the lines it logs. -/
inductive Advance (s t : Scheduler τ) : Option TaskId → List Notice → Prop where
  | idle {id : TaskId} : t.tasks = s.tasks → t.active = s.active → Advance s t (some id) []
  | refused {ns : List Notice} : t.tasks = s.tasks → t.active = s.active → Advance s t none ns
  | taken (task : Task τ) : task.phase = .prepared → t.tasks = s.tasks ++ [task] →
      t.active = s.active → Advance s t none []
  | changed (id : TaskId) (x : Task τ) (f : Task τ → Task τ) : s.tasks[id]? = some x →
      x.Develops (f x) → t.tasks = s.tasks.modify id f →
      t.active = s.active + (f x).weight - x.weight → Advance s t (some id) (x.due (f x))

theorem countP_modify {α : Type} {l : List α} {i : Nat} {x : α} (hx : l[i]? = some x) (f : α → α)
    (p : α → Bool) : (l.modify i f).countP p + (if p x then 1 else 0) =
      l.countP p + (if p (f x) then 1 else 0) := by
  obtain ⟨hi, rfl⟩ := List.getElem?_eq_some_iff.mp hx
  obtain ⟨before, y, after, rfl, rfl, hmodify⟩ := List.exists_of_modify f hi
  rw [hmodify]
  simp only [List.countP_append, List.countP_cons, List.getElem_append_right (Nat.le_refl _),
    Nat.sub_self, List.getElem_cons_zero]
  omega

section Phases

variable {s : Scheduler τ} {id : TaskId} {p : Phase}

theorem phase?_eq_some : s.phase? id = some p ↔ ∃ x, s.tasks[id]? = some x ∧ x.phase = p :=
  Option.map_eq_some_iff

theorem phase?_concat {t : Scheduler τ} {task : Task τ} (h : t.tasks = s.tasks ++ [task]) :
    t.phase? id = if id = s.tasks.length then some task.phase else s.phase? id := by
  rw [phase?, phase?, h]
  split
  · rename_i hid
    rw [hid, List.getElem?_concat_length, Option.map_some]
  · rename_i hid
    rcases Nat.lt_or_gt_of_ne hid with hlt | hgt
    · rw [List.getElem?_append_left hlt]
    · rw [List.getElem?_append_right (Nat.le_of_lt hgt), List.getElem?_eq_none (Nat.le_of_lt hgt),
        List.getElem?_eq_none (Nat.sub_pos_of_lt hgt)]

theorem phase?_modify {t : Scheduler τ} {i : TaskId} {x : Task τ} {f : Task τ → Task τ}
    (hx : s.tasks[i]? = some x) (h : t.tasks = s.tasks.modify i f) :
    t.phase? id = if id = i then some (f x).phase else s.phase? id := by
  rw [phase?, phase?, h]
  split
  · rename_i hid
    rw [hid, List.getElem?_modify_eq, hx]
    rfl
  · rename_i hid
    rw [List.getElem?_modify_ne f s.tasks (Ne.symm hid)]

theorem Advance.same : Advance s s (some id) [] := .idle rfl rfl

/-- A task passes into a next phase and takes its weight along. -/
theorem Advance.setPhase {x : Task τ} {q : Phase} (hx : s.tasks[id]? = some x)
    (hnext : x.phase.Next q) {n : Nat}
    (hn : n = s.active + (if q.isActive then 1 else 0) - (if x.phase.isActive then 1 else 0)) :
    Advance s { s.setPhase id q with active := n } (some id) (x.due { x with phase := q }) :=
  .changed id x (fun t => { t with phase := q }) hx ⟨rfl, .inr hnext⟩ rfl hn

theorem Advance.quietly {q : Phase} (hp : s.phase? id = some p) (hnext : p.Next q)
    (hq : p.outcome? = q.outcome?) {n : Nat}
    (hn : n = s.active + (if q.isActive then 1 else 0) - (if p.isActive then 1 else 0)) :
    Advance s { s.setPhase id q with active := n } (some id) [] := by
  obtain ⟨x, hx, rfl⟩ := phase?_eq_some.mp hp
  have hdue : x.due { x with phase := q } = [] := by
    rw [Task.due, hq]
    cases q.outcome? <;> rfl
  exact hdue ▸ .setPhase hx hnext hn

theorem Advance.leave {q : Phase} (hp : s.phase? id = some p) (hnext : p.Next q)
    (hq : p.outcome? = q.outcome?) (hactive : p.isActive = true) (hover : q.isOver = true) :
    Advance s (s.leave id q) (some id) [] := by
  refine .quietly hp hnext hq ?_
  rw [if_pos hactive, Phase.isActive_of_isOver hover]
  rfl

theorem Advance.discard (hp : s.phase? id = some p) (hactive : p.isActive = true)
    (hnone : p.outcome? = none) : Advance s (s.leave id .dropped) (some id) [] :=
  .leave hp (.discard hactive hnone) hnone hactive rfl

theorem Advance.touch {f : Task τ → Task τ}
    (hf : ∀ t, (f t).name = t.name ∧ (f t).phase = t.phase) :
    Advance s { s with tasks := s.tasks.modify id f } (some id) [] := by
  cases hx : s.tasks[id]? with
  | none => exact .idle (List.modify_eq_self (List.getElem?_eq_none_iff.mp hx)) rfl
  | some x =>
    have hdue : x.due (f x) = [] := by
      rw [Task.due, (hf x).2]
      cases x.phase.outcome? <;> rfl
    refine hdue ▸ .changed id x f hx ⟨(hf x).1, .inl (hf x).2⟩ rfl ?_
    simp [Task.weight, (hf x).2]

end Phases

theorem advance_apply (s : Scheduler τ) (m : Move τ) :
    Advance s (m.apply s) m.task? (m.notices s) := by
  cases m with
  | prepare t =>
    by_cases ha : s.accepting = true
    · have happly : (Move.prepare t).apply s = { s with tasks := s.tasks ++
          [{ t with cancelled := false, phase := .prepared }] } := by
        simp [Move.apply, Scheduler.prepare, ha]
      have hnotices : (Move.prepare t).notices s = [] := by simp [Move.notices, ha]
      rw [happly, hnotices]
      exact .taken _ rfl rfl rfl
    · have happly : (Move.prepare t).apply s = s := by simp [Move.apply, Scheduler.prepare, ha]
      rw [happly]
      exact .refused rfl rfl
  | enter id =>
    simp only [Move.apply, Scheduler.enter]
    split
    · rename_i hp
      exact .quietly hp .enter rfl rfl
    · exact .same
  | handOver id =>
    simp only [Move.apply, Scheduler.handOver]
    split
    · rename_i hp
      split
      · exact .discard hp rfl rfl
      · exact .quietly hp .queue rfl rfl
    · exact .same
  | unwind id =>
    simp only [Move.apply, Scheduler.unwind]
    split
    · rename_i hp
      exact .discard hp rfl rfl
    · exact .same
  | begin id =>
    simp only [Move.apply, Scheduler.begin]
    split
    · rename_i hp
      exact .quietly hp .begin rfl rfl
    · exact .same
  | proceed id left => exact .touch fun t => ⟨rfl, rfl⟩
  | conclude id o =>
    simp only [Move.apply, Move.notices, Scheduler.conclude]
    split
    · rename_i x hx
      split
      · rename_i hp
        have hdue : x.due { x with phase := .ending o } = endNotices x.name o := by
          rw [Task.due, hp]
          rfl
        exact hdue ▸ .setPhase hx (hp ▸ .conclude) (by rw [hp]; rfl)
      · exact .same
    · exact .same
  | release id =>
    simp only [Move.apply, Scheduler.release]
    split
    · rename_i o hp
      exact .leave hp .release rfl rfl rfl
    · exact .same
  | drop id =>
    simp only [Move.apply, Scheduler.drop]
    split
    · rename_i hp
      rcases hp with hp | hp
      · exact .discard hp rfl rfl
      · exact .discard hp rfl rfl
    · exact .same
  | cancel id => exact .touch fun t => ⟨rfl, rfl⟩
  | close => exact .refused rfl rfl
  | interrupt | stopPools =>
    simp only [Move.apply]
    split
    · exact .refused rfl rfl
    · exact .refused rfl rfl

/-- What becomes of a task's phase while a move is made. -/
inductive Later : Option Phase → Option Phase → Prop where
  | same (p : Option Phase) : Later p p
  | taken : Later none (some .prepared)
  | next {p q : Phase} : p.Next q → Later (some p) (some q)

section Advances

variable {s t : Scheduler τ} {subject : Option TaskId} {ns : List Notice}

theorem Advance.later (h : Advance s t subject ns) (id : TaskId) :
    Later (s.phase? id) (t.phase? id) := by
  cases h with
  | idle htasks _ | refused htasks _ =>
    rw [phase?, phase?, htasks]
    exact .same _
  | taken task hphase htasks _ =>
    rw [phase?_concat htasks]
    split
    · rename_i hid
      have hnone : s.phase? id = none := by simp [phase?, hid]
      rw [hnone, hphase]
      exact .taken
    · exact .same _
  | changed i x f hx hdev htasks _ =>
    rw [phase?_modify hx htasks]
    split
    · rename_i hid
      rw [hid, phase?, hx]
      rcases hdev.phase with heq | hnext
      · rw [heq]
        exact .same _
      · exact .next hnext
    · exact .same _

theorem Advance.length_le (h : Advance s t subject ns) : s.tasks.length ≤ t.tasks.length := by
  cases h with
  | idle htasks _ | refused htasks _ | taken _ _ htasks _ | changed _ _ _ _ _ htasks _ =>
    simp [htasks]

end Advances

section Over

variable {s : Scheduler τ} {id : TaskId}

theorem Later.eq_of_isOver {p q : Option Phase} (h : Later p q)
    (hp : p.any Phase.isOver = true) : q = p := by
  cases h with
  | same p => rfl
  | taken => cases hp
  | next hnext =>
    cases hnext with
    | enter | queue | begin | conclude | release => cases hp
    | discard hactive _ =>
      rw [Phase.isActive_of_isOver hp] at hactive
      cases hactive

theorem phase?_run_of_isOver (h : (s.phase? id).any Phase.isOver = true) (ms : List (Move τ)) :
    (s.run ms).phase? id = s.phase? id := by
  induction ms generalizing s with
  | nil => rfl
  | cons m ms ih =>
    have heq := ((advance_apply s m).later id).eq_of_isOver h
    rw [← heq] at h ⊢
    exact ih h

theorem isSome_result? : (s.result? id).isSome = (s.phase? id).any Phase.isOver := by
  cases h : s.phase? id with
  | none => simp [Scheduler.result?, h]
  | some p => simp [Scheduler.result?, h, Phase.isSome_result?]

theorem result?_run {r : Except TaskError Unit} (h : s.result? id = some r)
    (ms : List (Move τ)) : (s.run ms).result? id = some r := by
  have hover : (s.phase? id).any Phase.isOver = true := by
    rw [← isSome_result?, h]
    rfl
  rw [Scheduler.result?, phase?_run_of_isOver hover]
  exact h

end Over

end HomeAutomation.Scheduler
