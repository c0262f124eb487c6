import Mathlib.Data.List.Nodup
import HomeAutomation.Proofs.Scheduler.Submitting

/-! The count of active tasks. Whatever the threads do, it is the number of the tasks that were
entered and have neither ended nor gone away since, and each task is counted in and out once. -/

namespace HomeAutomation.Scheduler

variable {τ : Type}

/-- The tasks that were entered and are not over. -/
def counted (s : Scheduler τ) : Nat := s.tasks.countP fun t => t.phase.isActive

/-- Whether a task has got to a phase of some kind. -/
def has (s : Scheduler τ) (kind : Phase → Bool) (id : TaskId) : Bool := (s.phase? id).any kind

inductive Change where
  | entered (id : TaskId)
  | left (id : TaskId)
  deriving DecidableEq

namespace Change

def isEntered : Change → Bool
  | .entered _ => true
  | .left _ => false

def isLeft (c : Change) : Bool := !c.isEntered

def of? (id : TaskId) : Bool → Bool → Option Change
  | false, true => some (.entered id)
  | true, false => some (.left id)
  | _, _ => none

end Change

/-- The tasks that join the active ones or leave them from one moment to another. -/
def changes (s t : Scheduler τ) : List Change :=
  (List.range t.tasks.length).filterMap fun id =>
    Change.of? id (s.has Phase.isActive id) (t.has Phase.isActive id)

/-- The changes of a run, move by move. -/
def history (s : Scheduler τ) : List (Move τ) → List Change
  | [] => []
  | m :: ms => changes s (m.apply s) ++ history (m.apply s) ms

section Changes

variable {s t : Scheduler τ} {id : TaskId}

theorem has_iff {kind : Phase → Bool} :
    s.has kind id = true ↔ ∃ x, s.tasks[id]? = some x ∧ kind x.phase = true := by
  rw [has, phase?, Option.any_map, Option.any_eq_true]

theorem lt_length_of_has {kind : Phase → Bool} (h : s.has kind id = true) :
    id < s.tasks.length := by
  obtain ⟨x, hx, -⟩ := has_iff.mp h
  exact (List.getElem?_eq_some_iff.mp hx).1

theorem of?_eq_entered {i j : TaskId} {b c : Bool} :
    Change.of? i b c = some (.entered j) ↔ i = j ∧ b = false ∧ c = true := by
  cases b <;> cases c <;> simp [Change.of?]

theorem of?_eq_left {i j : TaskId} {b c : Bool} :
    Change.of? i b c = some (.left j) ↔ i = j ∧ b = true ∧ c = false := by
  cases b <;> cases c <;> simp [Change.of?]

theorem length_of?_le {b c : Bool} : (Change.of? id b c).toList.length ≤ 1 := by
  cases Change.of? id b c with
  | none => exact Nat.zero_le 1
  | some c => exact Nat.le_refl 1

theorem countP_of? {b c : Bool} {n : Nat} (hn : (if b then 1 else 0) ≤ n) :
    n + (if c then 1 else 0) - (if b then 1 else 0) +
        (Change.of? id b c).toList.countP Change.isLeft =
      n + (Change.of? id b c).toList.countP Change.isEntered := by
  cases b with
  | false => cases c <;> rfl
  | true =>
    cases c with
    | false => exact Nat.sub_add_cancel hn
    | true => exact Nat.add_sub_cancel n 1

theorem entered_mem_changes : .entered id ∈ changes s t ↔
    s.has Phase.isActive id = false ∧ t.has Phase.isActive id = true := by
  simp only [changes, List.mem_filterMap, List.mem_range, of?_eq_entered]
  constructor
  · rintro ⟨i, -, rfl, h⟩
    exact h
  · intro h
    exact ⟨id, lt_length_of_has h.2, rfl, h⟩

theorem left_mem_changes (hlen : s.tasks.length ≤ t.tasks.length) : .left id ∈ changes s t ↔
    s.has Phase.isActive id = true ∧ t.has Phase.isActive id = false := by
  simp only [changes, List.mem_filterMap, List.mem_range, of?_eq_left]
  constructor
  · rintro ⟨i, -, rfl, h⟩
    exact h
  · intro h
    exact ⟨id, Nat.lt_of_lt_of_le (lt_length_of_has h.1) hlen, rfl, h⟩

theorem nodup_changes : (changes s t).Nodup := by
  refine List.Nodup.filterMap ?_ List.nodup_range
  intro i j c hi hj
  cases c with
  | entered k => exact (of?_eq_entered.mp hi).1.trans (of?_eq_entered.mp hj).1.symm
  | left k => exact (of?_eq_left.mp hi).1.trans (of?_eq_left.mp hj).1.symm

theorem of?_self {b c : Bool} (h : b = c) : Change.of? id b c = none := by
  subst h
  cases b <;> rfl

theorem changes_eq_nil (h : ∀ i, s.has Phase.isActive i = t.has Phase.isActive i) :
    changes s t = [] :=
  List.filterMap_eq_nil_iff.mpr fun i _ => of?_self (h i)

theorem filterMap_range_eq {α : Type} {f : Nat → Option α} {k : Nat}
    (h : ∀ i, i ≠ k → f i = none) (n : Nat) :
    (List.range n).filterMap f = if k < n then (f k).toList else [] := by
  induction n with
  | zero => rfl
  | succ n ih =>
    rw [List.range_succ, List.filterMap_append, ih]
    by_cases hn : n = k
    · subst hn
      cases hf : f n <;> simp [hf]
    · have hlt : k < n + 1 ↔ k < n := by omega
      simp [h n hn, hlt]

/-- Where only one task changes, there is nothing to tell of the others. -/
theorem changes_eq (hid : id < t.tasks.length)
    (h : ∀ i, i ≠ id → s.has Phase.isActive i = t.has Phase.isActive i) :
    changes s t = (Change.of? id (s.has Phase.isActive id) (t.has Phase.isActive id)).toList := by
  rw [changes, filterMap_range_eq fun i hi => of?_self (h i hi), if_pos hid]

end Changes

section Phases

variable {p q : Option Phase}

theorem Later.isEntered_iff (h : Later p q) : q.any Phase.isEntered = true ↔
    p.any Phase.isEntered = true ∨ p.any Phase.isActive = false ∧ q.any Phase.isActive = true := by
  cases h with
  | same p => cases p.any Phase.isActive <;> simp
  | taken => simp [Phase.isEntered, Phase.isActive]
  | next hnext =>
    cases hnext with
    | enter | queue | begin | conclude | release => simp [Phase.isEntered, Phase.isActive]
    | discard hactive _ => exact ⟨fun _ => .inl (Phase.isEntered_of_isActive hactive), fun _ => rfl⟩

theorem Later.isOver_iff (h : Later p q) : q.any Phase.isOver = true ↔
    p.any Phase.isOver = true ∨ p.any Phase.isActive = true ∧ q.any Phase.isActive = false := by
  cases h with
  | same p => cases p.any Phase.isActive <;> simp
  | taken => simp [Phase.isOver, Phase.isActive]
  | next hnext =>
    cases hnext with
    | enter | queue | begin | conclude | release => simp [Phase.isOver, Phase.isActive]
    | discard hactive _ => exact ⟨fun _ => .inr ⟨hactive, rfl⟩, fun _ => rfl⟩

/-- A task that begins to be counted was not entered before. -/
theorem Later.not_isEntered (h : Later p q) (hp : p.any Phase.isActive = false)
    (hq : q.any Phase.isActive = true) : p.any Phase.isEntered = false := by
  cases h with
  | same p =>
    rw [hp] at hq
    cases hq
  | taken => rfl
  | next hnext =>
    cases hnext with
    | enter => rfl
    | queue | begin | conclude | release => cases hp
    | discard hactive _ =>
      rw [Option.any_some, hactive] at hp
      cases hp

end Phases

/-- The count agrees with the tasks, and with the changes that led to them. -/
structure Exact (s : Scheduler τ) (cs : List Change) : Prop where
  active : s.active = s.counted
  entered : ∀ id, .entered id ∈ cs ↔ s.has Phase.isEntered id = true
  left : ∀ id, .left id ∈ cs ↔ s.has Phase.isOver id = true
  nodup : cs.Nodup
  balance : s.active + cs.countP Change.isLeft = cs.countP Change.isEntered

section Moves

theorem eq_singleton_of_mem {α : Type} {l : List α} {x : α} (hlen : l.length ≤ 1) (h : x ∈ l) :
    l = [x] := by
  obtain ⟨y, rfl⟩ := List.length_eq_one_iff.mp (Nat.le_antisymm hlen (List.length_pos_of_mem h))
  rw [List.mem_singleton.mp h]

variable {s t : Scheduler τ} {cs : List Change} {subject : Option TaskId} {ns : List Notice}

theorem Task.weight_le_counted {id : TaskId} {x : Task τ} (hx : s.tasks[id]? = some x) :
    x.weight ≤ s.counted := by
  rw [Task.weight]
  split
  · rename_i hactive
    exact List.countP_pos_iff.mpr ⟨x, List.mem_of_getElem? hx, hactive⟩
  · exact Nat.zero_le _

theorem Advance.counted (h : Advance s t subject ns) (hs : s.active = s.counted) :
    t.active = t.counted := by
  cases h with
  | idle htasks hactive | refused htasks hactive =>
    rw [hactive, hs, Scheduler.counted, Scheduler.counted, htasks]
  | taken task hphase htasks hactive =>
    rw [hactive, hs, Scheduler.counted, Scheduler.counted, htasks]
    simp [hphase, Phase.isActive]
  | changed id x f hx _ htasks hactive =>
    have hle := Task.weight_le_counted hx
    have hcount := countP_modify hx f fun t => t.phase.isActive
    rw [← htasks] at hcount
    simp only [Scheduler.counted, Task.weight] at *
    omega

/-- A move lets one task in or out at most, and that is by how much the count rises or falls. -/
theorem Advance.changes_spec (h : Advance s t subject ns) (hs : s.active = s.counted) :
    (changes s t).length ≤ 1 ∧ t.active + (changes s t).countP Change.isLeft =
      s.active + (changes s t).countP Change.isEntered := by
  cases h with
  | idle htasks hactive | refused htasks hactive =>
    have hnil : changes s t = [] := changes_eq_nil fun i => by rw [has, has, phase?, phase?, htasks]
    simp [hnil, hactive]
  | taken task hphase htasks hactive =>
    have hnil : changes s t = [] := by
      refine changes_eq_nil fun i => ?_
      rw [has, has, phase?_concat htasks]
      split
      · rename_i hi
        simp [phase?, hi, hphase, Phase.isActive]
      · rfl
    simp [hnil, hactive]
  | changed id x f hx _ htasks hactive =>
    have hid : id < t.tasks.length := by
      rw [htasks, List.length_modify]
      exact (List.getElem?_eq_some_iff.mp hx).1
    have hother : ∀ i, i ≠ id → s.has Phase.isActive i = t.has Phase.isActive i := by
      intro i hi
      rw [has, has, phase?_modify hx htasks, if_neg hi]
    have hbefore : s.has Phase.isActive id = x.phase.isActive := by rw [has, phase?, hx]; rfl
    have hafter : t.has Phase.isActive id = (f x).phase.isActive := by
      rw [has, phase?_modify hx htasks, if_pos rfl]
      rfl
    have hle := Task.weight_le_counted hx
    rw [← hs] at hle
    rw [changes_eq hid hother, hbefore, hafter, hactive]
    exact ⟨length_of?_le, countP_of? hle⟩

theorem Exact.advance (hs : Exact s cs) (h : Advance s t subject ns) :
    Exact t (cs ++ changes s t) where
  active := h.counted hs.active
  entered id := by
    rw [List.mem_append, hs.entered, entered_mem_changes]
    exact (h.later id).isEntered_iff.symm
  left id := by
    rw [List.mem_append, hs.left, left_mem_changes h.length_le]
    exact (h.later id).isOver_iff.symm
  nodup := by
    refine List.nodup_append'.mpr ⟨hs.nodup, nodup_changes, ?_⟩
    intro c hc hc'
    cases c with
    | entered id =>
      obtain ⟨hbefore, hafter⟩ := entered_mem_changes.mp hc'
      have hnew := (h.later id).not_isEntered hbefore hafter
      exact absurd ((hs.entered id).mp hc) (by rw [has, hnew]; exact Bool.false_ne_true)
    | left id =>
      obtain ⟨hbefore, -⟩ := (left_mem_changes h.length_le).mp hc'
      obtain ⟨x, hx, hactive⟩ := has_iff.mp hbefore
      obtain ⟨y, hy, hover⟩ := has_iff.mp ((hs.left id).mp hc)
      obtain rfl := Option.some.inj (hx.symm.trans hy)
      rw [Phase.isActive_of_isOver hover] at hactive
      cases hactive
  balance := by
    have hstep := (h.changes_spec hs.active).2
    have hsum := hs.balance
    rw [List.countP_append, List.countP_append]
    omega

theorem Exact.run (hs : Exact s cs) (ms : List (Move τ)) :
    Exact (s.run ms) (cs ++ history s ms) := by
  induction ms generalizing s cs with
  | nil =>
    rw [history, List.append_nil]
    exact hs
  | cons m ms ih =>
    rw [history, ← List.append_assoc]
    exact ih (hs.advance (advance_apply s m))

theorem exact_start (settings : Settings) : Exact ({ settings } : Scheduler τ) [] where
  active := rfl
  entered _ := by simp [has, phase?]
  left _ := by simp [has, phase?]
  nodup := .nil
  balance := rfl

theorem Exact.active_of_entered {m : Move τ} {id : TaskId} (hs : Exact s cs)
    (h : .entered id ∈ changes s (m.apply s)) : (m.apply s).active = s.active + 1 := by
  obtain ⟨hlen, hcount⟩ := (advance_apply s m).changes_spec hs.active
  rw [eq_singleton_of_mem hlen h] at hcount
  exact hcount

theorem Exact.active_of_left {m : Move τ} {id : TaskId} (hs : Exact s cs)
    (h : .left id ∈ changes s (m.apply s)) : s.active = (m.apply s).active + 1 := by
  obtain ⟨hlen, hcount⟩ := (advance_apply s m).changes_spec hs.active
  rw [eq_singleton_of_mem hlen h] at hcount
  exact hcount.symm

theorem Exact.active_of_nil {m : Move τ} (hs : Exact s cs) (h : changes s (m.apply s) = []) :
    (m.apply s).active = s.active := by
  have hcount := ((advance_apply s m).changes_spec hs.active).2
  rw [h] at hcount
  exact hcount

theorem has_isActive_of_result? {id : TaskId} {r : Except TaskError Unit}
    (h : s.result? id = some r) : s.has Phase.isActive id = false := by
  have hover : (s.phase? id).any Phase.isOver = true := by
    rw [← isSome_result?, h]
    rfl
  rw [has]
  cases hp : s.phase? id with
  | none => rfl
  | some p =>
    rw [hp] at hover
    exact Phase.isActive_of_isOver hover

end Moves

section Waiting

/-- What a waiting thread looks at: moves are made before each look, and its time may be up. -/
def looks (s : Scheduler τ) : List (List (Move τ) × Bool) → List (Scheduler τ × Bool)
  | [] => []
  | (ms, timeUp) :: rest => (s.run ms, timeUp) :: looks (s.run ms) rest

theorem Exact.of_mem_looks {s : Scheduler τ} {cs : List Change} (hs : Exact s cs)
    {rest : List (List (Move τ) × Bool)} {l : Scheduler τ × Bool} (hl : l ∈ looks s rest) :
    ∃ cs', Exact l.1 cs' := by
  induction rest generalizing s cs with
  | nil => cases hl
  | cons x rest ih =>
    rcases List.mem_cons.mp hl with rfl | hl
    · exact ⟨_, hs.run x.1⟩
    · exact ih (hs.run x.1) hl

theorem look_eq_some_iff {s : Scheduler τ} {timeUp : Bool} {n : Nat} :
    s.look timeUp = some n ↔ n = s.active ∧ (n = 0 ∨ timeUp = true) := by
  rw [look, Option.ite_none_right_eq_some, Option.some_inj]
  constructor
  · rintro ⟨h, rfl⟩
    exact ⟨rfl, h⟩
  · rintro ⟨rfl, h⟩
    exact ⟨h, rfl⟩

theorem look_eq_none_iff {s : Scheduler τ} {timeUp : Bool} :
    s.look timeUp = none ↔ s.active ≠ 0 ∧ timeUp = false := by
  simp [look]

/-- The wait ends with the first look that finds no task or comes too late, and gives the number of
tasks that are counted then. -/
theorem waitIdle_eq_some_iff {ls : List (Scheduler τ × Bool)}
    (h : ∀ l ∈ ls, l.1.active = l.1.counted) {n : Nat} : waitIdle ls = some n ↔
      ∃ before s timeUp after, ls = before ++ (s, timeUp) :: after ∧
        (∀ l ∈ before, l.1.counted ≠ 0 ∧ l.2 = false) ∧ n = s.counted ∧
        (n = 0 ∨ timeUp = true) := by
  rw [waitIdle, List.findSome?_eq_some_iff]
  constructor
  · rintro ⟨before, ⟨s, timeUp⟩, after, rfl, hlook, hbefore⟩
    obtain ⟨hn, hend⟩ := look_eq_some_iff.mp hlook
    refine ⟨before, s, timeUp, after, rfl, ?_, ?_, hend⟩
    · intro l hl
      rw [← h l (List.mem_append_left _ hl)]
      exact look_eq_none_iff.mp (hbefore l hl)
    · rw [hn]
      exact h (s, timeUp) (List.mem_append_right _ List.mem_cons_self)
  · rintro ⟨before, s, timeUp, after, rfl, hbefore, hn, hend⟩
    refine ⟨before, (s, timeUp), after, rfl, look_eq_some_iff.mpr ⟨?_, hend⟩, ?_⟩
    · rw [hn]
      exact (h (s, timeUp) (List.mem_append_right _ List.mem_cons_self)).symm
    · intro l hl
      refine look_eq_none_iff.mpr ?_
      rw [h l (List.mem_append_left _ hl)]
      exact hbefore l hl

end Waiting

/-- In every run the count is the number of the tasks that were entered and are not over, each of
which is counted in once and out once; whoever waits is told about tasks that are counted no more,
and a wait for all of them ends with the number of those that are left. -/
theorem active_exact (settings : Settings) (ms : List (Move τ)) :
    let start : Scheduler τ := { settings }
    let s := start.run ms
    Exact s (history start ms) ∧
      (∀ (m : Move τ) (id : TaskId),
        (.entered id ∈ changes s (m.apply s) → (m.apply s).active = s.active + 1) ∧
          (.left id ∈ changes s (m.apply s) → s.active = (m.apply s).active + 1)) ∧
      (∀ m : Move τ, changes s (m.apply s) = [] → (m.apply s).active = s.active) ∧
      (s.accepting = false → ∀ t building,
        (Move.prepare t).apply s = s ∧
          s.submit t building = (.rejected, s, [.taskRejected t.name])) ∧
      (∀ id r, s.result? id = some r → ∀ ms',
        (s.run ms').result? id = some r ∧ (s.run ms').has Phase.isActive id = false) ∧
      ∀ rest n, waitIdle (s.looks rest) = some n ↔
        ∃ before t timeUp after, s.looks rest = before ++ (t, timeUp) :: after ∧
          (∀ l ∈ before, l.1.counted ≠ 0 ∧ l.2 = false) ∧ n = t.counted ∧
          (n = 0 ∨ timeUp = true) := by
  intro start s
  have hs : Exact s (history start ms) := (exact_start settings).run ms
  refine ⟨hs, fun m id => ⟨hs.active_of_entered, hs.active_of_left⟩,
    fun m => hs.active_of_nil, submit_of_not_accepting, ?_, ?_⟩
  · intro id r hr ms'
    have hlater := result?_run hr ms'
    exact ⟨hlater, has_isActive_of_result? hlater⟩
  · intro rest n
    refine waitIdle_eq_some_iff fun l hl => ?_
    obtain ⟨cs', hl⟩ := hs.of_mem_looks hl
    exact hl.active

/-- Work on both pools: one task fails, one panics while it is built, one is dropped in the queue
when the pools stop, one is refused. -/
def shift : List (Move Unit) :=
  [.prepare ⟨"backup", .worker, true, (), false, .prepared⟩, .enter 0,
    .prepare ⟨"watch", .system, false, (), false, .prepared⟩, .handOver 0, .begin 0, .enter 1,
    .unwind 1, .conclude 0 (.failure ⟨["disk full"]⟩),
    .prepare ⟨"poll", .worker, false, (), false, .prepared⟩, .enter 2, .handOver 2, .release 0,
    .close, .interrupt, .prepare ⟨"late", .worker, true, (), false, .prepared⟩]

theorem active_exact_shift :
    let start : Scheduler Unit := { settings := ⟨1, 1, 5⟩ }
    let s := start.run shift
    history start shift = [.entered 0, .entered 1, .left 1, .entered 2, .left 0] ∧
      Exact s (history start shift) ∧ s.active = 1 ∧ s.active = ((Move.drop 2).apply s).active + 1 ∧
      s.submit ⟨"later", .system, true, (), false, .prepared⟩ none =
        (.rejected, s, [.taskRejected "later"]) ∧
      (∀ ms', (s.run ms').result? 0 = some (.error (.failed "disk full")) ∧
        (s.run ms').has Phase.isActive 0 = false) ∧
      waitIdle (s.looks [([], false), ([.stopPools, .drop 2], false)]) = some 0 := by
  intro start s
  obtain ⟨hexact, hmoves, -, hrejected, hresult, hwait⟩ := active_exact ⟨1, 1, 5⟩ shift
  have hleft : Change.left 2 ∈ changes s ((Move.drop 2).apply s) := by decide
  have hlooks : ∀ u : Scheduler Unit, u.looks [([], false), ([.stopPools, .drop 2], false)] =
      [(u, false)] ++ [(u.run [.stopPools, .drop 2], false)] := fun u => rfl
  have hbefore : ∀ l ∈ [(s, false)], l.1.counted ≠ 0 ∧ l.2 = false := by
    intro l hl
    rw [List.mem_singleton.mp hl]
    decide
  refine ⟨by decide, hexact, by decide, (hmoves (.drop 2) 2).2 hleft, ?_, ?_, ?_⟩
  · exact (hrejected (by decide) ⟨"later", .system, true, (), false, .prepared⟩ none).2
  · exact hresult 0 (.error (.failed "disk full")) rfl
  · exact (hwait _ 0).mpr
      ⟨[(s, false)], s.run [.stopPools, .drop 2], false, [], hlooks s, hbefore, by decide, .inl rfl⟩

end HomeAutomation.Scheduler
