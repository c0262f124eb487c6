import HomeAutomation.Home
import HomeAutomation.Proofs.Scheduler.Workshops

/-! Who tells a task to stop. While a scheduler lives, that is its own handle or the first shutdown,
and nobody takes it back. A shutdown comes to it only if its deadline is a point of time: the flag is
cleared before that is known. -/

namespace HomeAutomation.Scheduler

variable {τ : Type}

/-- How far a shutdown comes before it waits. -/
inductive Asked where
  | already
  | panicked (p : Panic)
  | waiting (deadline : Nat)
  deriving DecidableEq

def ask (s : Scheduler τ) (now timeout : Nat) : Asked × Scheduler τ :=
  let (first, closed) := s.close
  if first then
    match deadline? now timeout with
    | none => (.panicked deadlinePanic, closed)
    | some deadline => (.waiting deadline, closed.interrupt)
  else (.already, closed)

/-- What happens to a scheduler that lives: somebody submits, runs, ends or cancels a task, or calls
for a shutdown, or a shutdown that asked the tasks to stop waits no longer and stops the pools. -/
inductive Deed (τ : Type) where
  | serve (m : Move τ) (service : m.isService = true)
  | shutdown (now timeout : Nat)
  | halt

namespace Deed

def apply (s : Scheduler τ) : Deed τ → Scheduler τ
  | .serve m _ => m.apply s
  | .shutdown now timeout => (s.ask now timeout).2
  | .halt => if s.interrupted && !s.stopped then s.stop else s

def notices (s : Scheduler τ) : Deed τ → List Notice
  | .serve m _ => m.notices s
  | .shutdown _ _ => []
  | .halt => if s.interrupted && !s.stopped then s.timeoutNotices else []

/-- The second of a call for a shutdown, and its timeout. -/
def call? : Deed τ → Option (Nat × Nat)
  | .shutdown now timeout => some (now, timeout)
  | .serve _ _ | .halt => none

end Deed

def live (s : Scheduler τ) (ds : List (Deed τ)) : Scheduler τ := ds.foldl Deed.apply s

def told (s : Scheduler τ) : List (Deed τ) → List Notice
  | [] => []
  | d :: ds => d.notices s ++ told (d.apply s) ds

def firstCall? (ds : List (Deed τ)) : Option (Nat × Nat) := ds.findSome? Deed.call?

/-- A task was cancelled after it had been accepted. -/
def CancelledIn (s : Scheduler τ) (id : TaskId) (ds : List (Deed τ)) : Prop :=
  ∃ before service after, ds = before ++ .serve (.cancel id) service :: after ∧
    id < (s.live before).tasks.length

/-- The first call for a shutdown had a deadline. -/
def AskedIn (ds : List (Deed τ)) : Prop :=
  ∃ call ∈ firstCall? ds, call.1 + call.2 ≤ maxInstant

def wasCancelled (s : Scheduler τ) (id : TaskId) : Bool :=
  (s.tasks[id]?.map Task.cancelled).getD false

section Cancelling

variable {s t : Scheduler τ} {id i : TaskId} {p : Phase}

theorem wasCancelled_modify {f : Task τ → Task τ} (hf : ∀ x, (f x).cancelled = x.cancelled)
    (h : t.tasks = s.tasks.modify i f) : t.wasCancelled id = s.wasCancelled id := by
  rw [wasCancelled, wasCancelled, h, List.getElem?_modify]
  cases s.tasks[id]? with
  | none => rfl
  | some x =>
    by_cases hid : i = id
    · simp [hid, hf]
    · simp [hid]

theorem wasCancelled_concat {x : Task τ} (hx : x.cancelled = false)
    (h : t.tasks = s.tasks ++ [x]) : t.wasCancelled id = s.wasCancelled id := by
  rcases Nat.lt_trichotomy id s.tasks.length with hid | hid | hid
  · simp [wasCancelled, h, List.getElem?_append_left hid]
  · simp [wasCancelled, h, hid, hx]
  · have hbeyond : (s.tasks ++ [x])[id]? = none := List.getElem?_eq_none (by simp; omega)
    simp [wasCancelled, h, hbeyond, List.getElem?_eq_none (Nat.le_of_lt hid)]

theorem wasCancelled_setPhase (h : t.tasks = (s.setPhase i p).tasks) :
    t.wasCancelled id = s.wasCancelled id :=
  wasCancelled_modify (f := fun x => { x with phase := p }) (fun _ => rfl) h

theorem wasCancelled_cancel : (s.cancel id).wasCancelled id = decide (id < s.tasks.length) := by
  by_cases hid : id < s.tasks.length
  · simp [wasCancelled, Scheduler.cancel, hid]
  · simp [wasCancelled, Scheduler.cancel, hid]

theorem wasCancelled_cancel_other (h : i ≠ id) :
    (s.cancel i).wasCancelled id = s.wasCancelled id := by
  rw [wasCancelled, wasCancelled, Scheduler.cancel, List.getElem?_modify_ne _ _ h]

theorem lt_length_of_wasCancelled (h : s.wasCancelled id = true) : id < s.tasks.length := by
  refine Nat.lt_of_not_le fun hid => ?_
  rw [wasCancelled, List.getElem?_eq_none hid] at h
  cases h

/-- Only its own handle cancels a task. -/
theorem wasCancelled_apply {m : Move τ} (hm : m ≠ .cancel id) :
    (m.apply s).wasCancelled id = s.wasCancelled id := by
  cases m with
  | prepare x =>
    simp only [Move.apply, Scheduler.prepare]
    split
    · exact wasCancelled_concat rfl rfl
    · rfl
  | enter i | unwind i | begin i | drop i =>
    simp only [Move.apply, Scheduler.enter, Scheduler.unwind, Scheduler.begin, Scheduler.drop]
    split
    · exact wasCancelled_setPhase rfl
    · rfl
  | handOver i =>
    simp only [Move.apply, Scheduler.handOver]
    split
    · split
      · exact wasCancelled_setPhase rfl
      · exact wasCancelled_setPhase rfl
    · rfl
  | proceed i left =>
    exact wasCancelled_modify (f := fun x => { x with work := left }) (fun _ => rfl) rfl
  | conclude i o =>
    simp only [Move.apply, Scheduler.conclude]
    split
    · split
      · exact wasCancelled_setPhase rfl
      · rfl
    · rfl
  | release i =>
    simp only [Move.apply, Scheduler.release]
    split
    · exact wasCancelled_setPhase rfl
    · rfl
  | cancel i => exact wasCancelled_cancel_other fun h => hm (congrArg _ h)
  | close => rfl
  | interrupt | stopPools =>
    simp only [Move.apply]
    split
    · rfl
    · rfl

theorem wasCancelled_stop : s.stop.wasCancelled id = s.wasCancelled id := by
  have hdrops (ids : List TaskId) (t : Scheduler τ) :
      (ids.foldl drop t).wasCancelled id = t.wasCancelled id := by
    induction ids generalizing t with
    | nil => rfl
    | cons i ids ih =>
      rw [List.foldl_cons, ih]
      exact wasCancelled_apply (m := .drop i) nofun
  exact hdrops s.asyncIds s.stopPools

end Cancelling

section Deeds

variable {s : Scheduler τ} {id : TaskId} {d : Deed τ} {ds : List (Deed τ)}

theorem ask_of_not_accepting (h : s.accepting = false) (now timeout : Nat) :
    s.ask now timeout = (.already, s) := by
  obtain ⟨settings, tasks, accepting, interrupted, active, stopped⟩ := s
  obtain rfl : accepting = false := h
  rfl

theorem ask_of_accepting (h : s.accepting = true) {now timeout : Nat}
    (htime : now + timeout ≤ maxInstant) :
    s.ask now timeout = (.waiting (now + timeout), s.close.2.interrupt) := by
  simp [ask, close, h, deadline?, htime]

theorem ask_of_too_long (h : s.accepting = true) {now timeout : Nat}
    (htime : maxInstant < now + timeout) :
    s.ask now timeout = (.panicked deadlinePanic, s.close.2) := by
  simp [ask, close, h, deadline?, Nat.not_le.mpr htime]

/-- A call for a shutdown leaves the tasks to themselves and clears the flag; the first one tells
the tasks to stop if it comes to its deadline. -/
theorem ask_spec (s : Scheduler τ) (now timeout : Nat) :
    (s.ask now timeout).2.tasks = s.tasks ∧ (s.ask now timeout).2.accepting = false ∧
      (s.ask now timeout).2.stopped = s.stopped ∧
      ((s.ask now timeout).2.interrupted = true ↔
        s.interrupted = true ∨ s.accepting = true ∧ now + timeout ≤ maxInstant) := by
  cases ha : s.accepting with
  | false =>
    rw [ask_of_not_accepting ha]
    exact ⟨rfl, ha, rfl, by simp⟩
  | true =>
    rcases Nat.lt_or_ge maxInstant (now + timeout) with htime | htime
    · rw [ask_of_too_long ha htime]
      exact ⟨rfl, rfl, rfl, by simp [close, Nat.not_le.mpr htime]⟩
    · rw [ask_of_accepting ha htime]
      exact ⟨rfl, rfl, rfl, by simp [interrupt, htime]⟩

/-- Nothing sets the flag again, and any call for a shutdown clears it. -/
theorem accepting_deed (s : Scheduler τ) (d : Deed τ) :
    (d.apply s).accepting = (s.accepting && d.call?.isNone) := by
  cases d with
  | serve m service =>
    have hserves := (Serves.of_move (s := s) m service).switches
    simpa [Deed.apply, Deed.call?] using hserves.1
  | shutdown now timeout => simp [Deed.apply, Deed.call?, ask_spec]
  | halt =>
    have hstop : s.stop.accepting = s.accepting := (Serves.stop s).switches.1
    simp only [Deed.apply]
    split
    · simpa [Deed.call?] using hstop
    · simp [Deed.call?]

theorem interrupted_deed (s : Scheduler τ) (d : Deed τ) :
    (d.apply s).interrupted = true ↔ s.interrupted = true ∨ s.accepting = true ∧
      ∃ call ∈ d.call?, call.1 + call.2 ≤ maxInstant := by
  cases d with
  | serve m service =>
    have hserves := (Serves.of_move (s := s) m service).switches
    simpa [Deed.apply, Deed.call?] using hserves.2.1
  | shutdown now timeout => simp [Deed.apply, Deed.call?, ask_spec]
  | halt =>
    have hstop : s.stop.interrupted = s.interrupted := (Serves.stop s).switches.2.1
    simp only [Deed.apply]
    split
    · simpa [Deed.call?] using hstop
    · simp [Deed.call?]

theorem wasCancelled_deed (s : Scheduler τ) (d : Deed τ) (id : TaskId) :
    (d.apply s).wasCancelled id = true ↔ s.wasCancelled id = true ∨
      (∃ service, d = .serve (.cancel id) service) ∧ id < s.tasks.length := by
  cases d with
  | serve m service =>
    by_cases hm : m = .cancel id
    · subst hm
      have hcancel : ((Deed.serve (.cancel id) service).apply s).wasCancelled id =
        decide (id < s.tasks.length) := wasCancelled_cancel
      rw [hcancel, decide_eq_true_iff]
      constructor
      · exact fun hid => .inr ⟨⟨service, rfl⟩, hid⟩
      · rintro (hwas | ⟨-, hid⟩)
        · exact lt_length_of_wasCancelled hwas
        · exact hid
    · have hsame : ((Deed.serve m service).apply s).wasCancelled id = s.wasCancelled id :=
        wasCancelled_apply hm
      simp [hsame, hm]
  | shutdown now timeout => simp [Deed.apply, wasCancelled, ask_spec]
  | halt =>
    simp only [Deed.apply]
    split
    · simp [wasCancelled_stop]
    · simp

theorem firstCall?_cons (d : Deed τ) (ds : List (Deed τ)) :
    firstCall? (d :: ds) = d.call?.or (firstCall? ds) := by
  rw [firstCall?, List.findSome?_cons]
  cases d.call? <;> rfl

theorem live_cons (s : Scheduler τ) (d : Deed τ) (ds : List (Deed τ)) :
    s.live (d :: ds) = (d.apply s).live ds := rfl

theorem accepting_live (s : Scheduler τ) (ds : List (Deed τ)) :
    (s.live ds).accepting = (s.accepting && (firstCall? ds).isNone) := by
  induction ds generalizing s with
  | nil => simp [live, firstCall?]
  | cons d ds ih =>
    rw [live_cons, ih, accepting_deed, firstCall?_cons, Option.isNone_or, Bool.and_assoc]

theorem interrupted_live (s : Scheduler τ) (ds : List (Deed τ)) :
    (s.live ds).interrupted = true ↔
      s.interrupted = true ∨ s.accepting = true ∧ AskedIn ds := by
  induction ds generalizing s with
  | nil => simp [live, AskedIn, firstCall?]
  | cons d ds ih =>
    rw [live_cons, ih, interrupted_deed, accepting_deed]
    simp only [AskedIn, firstCall?_cons]
    cases hd : d.call? with
    | none => simp
    | some call => simp

theorem wasCancelled_live (s : Scheduler τ) (ds : List (Deed τ)) (id : TaskId) :
    (s.live ds).wasCancelled id = true ↔ s.wasCancelled id = true ∨ s.CancelledIn id ds := by
  induction ds generalizing s with
  | nil => simp [live, CancelledIn]
  | cons d ds ih =>
    rw [live_cons, ih, wasCancelled_deed, or_assoc]
    refine or_congr_right ?_
    constructor
    · rintro (⟨⟨service, rfl⟩, hid⟩ | ⟨before, service, after, rfl, hid⟩)
      · exact ⟨[], service, ds, rfl, hid⟩
      · exact ⟨d :: before, service, after, rfl, hid⟩
    · rintro ⟨_ | ⟨e, before⟩, service, after, heq, hid⟩
      · obtain ⟨rfl, rfl⟩ := List.cons.inj heq
        exact .inl ⟨⟨service, rfl⟩, hid⟩
      · obtain ⟨rfl, rfl⟩ := List.cons.inj heq
        exact .inr ⟨before, service, after, rfl, hid⟩

theorem isSome_firstCall? :
    (firstCall? ds).isSome = true ↔ ∃ now timeout, .shutdown now timeout ∈ ds := by
  rw [firstCall?, List.isSome_findSome?, List.any_eq_true]
  constructor
  · rintro ⟨d, hmem, hd⟩
    cases d with
    | shutdown now timeout => exact ⟨now, timeout, hmem⟩
    | serve | halt => cases hd
  · rintro ⟨now, timeout, hmem⟩
    exact ⟨_, hmem, rfl⟩

theorem askedIn_iff (h : ∀ now timeout, .shutdown now timeout ∈ ds → now + timeout ≤ maxInstant) :
    AskedIn ds ↔ ∃ now timeout, .shutdown now timeout ∈ ds := by
  rw [← isSome_firstCall?]
  constructor
  · rintro ⟨call, hcall, -⟩
    exact Option.isSome_of_mem hcall
  · intro hsome
    obtain ⟨call, hcall⟩ := Option.isSome_iff_exists.mp hsome
    obtain ⟨d, hmem, hd⟩ := List.exists_of_findSome?_eq_some hcall
    cases d with
    | shutdown now timeout =>
      obtain rfl := Option.some.inj hd
      exact ⟨_, hcall, h now timeout hmem⟩
    | serve | halt => cases hd

end Deeds

section Warnings

variable {s : Scheduler τ}

def isTimedOut : Notice → Bool
  | .shutdownTimedOut _ => true
  | _ => false

theorem countP_notices_move (s : Scheduler τ) (m : Move τ) :
    (m.notices s).countP isTimedOut = 0 := by
  cases m with
  | prepare t =>
    simp only [Move.notices]
    split <;> rfl
  | conclude id o =>
    simp only [Move.notices, Scheduler.conclude]
    split
    · split
      · cases o <;> rfl
      · rfl
    · rfl
  | _ => rfl

/-- A deed warns of tasks that are left only if the pools have not stopped, and then stops them. -/
theorem countP_notices_deed (s : Scheduler τ) (d : Deed τ) :
    (d.notices s).countP isTimedOut + (if (d.apply s).stopped then 0 else 1) ≤
      if s.stopped then 0 else 1 := by
  cases d with
  | serve m service =>
    have hstopped : ((Deed.serve m service).apply s).stopped = s.stopped :=
      (Serves.of_move (s := s) m service).switches.2.2
    have hquiet : ((Deed.serve m service).notices s).countP isTimedOut = 0 :=
      countP_notices_move s m
    rw [hstopped, hquiet]
    exact Nat.le_of_eq (Nat.zero_add _)
  | shutdown now timeout =>
    have hstopped : ((Deed.shutdown now timeout).apply s).stopped = s.stopped :=
      (ask_spec s now timeout).2.2.1
    rw [hstopped]
    exact Nat.le_of_eq (Nat.zero_add _)
  | halt =>
    have hstop : s.stop.stopped = true := (Serves.stop s).switches.2.2
    have hwarned : s.timeoutNotices.countP isTimedOut ≤ 1 := by
      rw [timeoutNotices]
      split <;> simp [isTimedOut]
    simp only [Deed.apply, Deed.notices]
    split
    · rename_i hwaited
      simp only [Bool.and_eq_true, Bool.not_eq_true'] at hwaited
      simpa [hstop, hwaited.2] using hwarned
    · simp

theorem countP_told (s : Scheduler τ) (ds : List (Deed τ)) :
    (s.told ds).countP isTimedOut ≤ if s.stopped then 0 else 1 := by
  induction ds generalizing s with
  | nil => exact Nat.zero_le _
  | cons d ds ih =>
    have hfirst := countP_notices_deed s d
    have hrest := ih (d.apply s)
    rw [told, List.countP_append]
    omega

end Warnings

theorem live_append {s : Scheduler τ} {ds ds' : List (Deed τ)} :
    s.live (ds ++ ds') = (s.live ds).live ds' :=
  List.foldl_append

theorem exists_live_of_serves {s t : Scheduler τ} (h : s.Serves t) :
    ∃ ds : List (Deed τ), (∀ d ∈ ds, d.call? = none) ∧ s.live ds = t := by
  obtain ⟨ms, hms, rfl⟩ := h
  induction ms generalizing s with
  | nil => exact ⟨[], fun _ hd => absurd hd List.not_mem_nil, rfl⟩
  | cons m ms ih =>
    obtain ⟨hm, hms⟩ := List.forall_mem_cons.mp hms
    obtain ⟨ds, hds, hlive⟩ := ih (s := m.apply s) hms
    exact ⟨.serve m hm :: ds, List.forall_mem_cons.mpr ⟨rfl, hds⟩, hlive⟩

namespace Workshop

/-- A workshop's shutdown is a call for one and what its tasks and pools do from then on. -/
theorem exists_live_shutdown (w : Workshop) (hw : w.scheduler.Undisturbed) {now timeout : Nat}
    (htime : now + timeout ≤ maxInstant) : ∃ ds, (∀ d ∈ ds, d.call? = none) ∧
      w.scheduler.live (.shutdown now timeout :: ds) = w.shutdown.scheduler := by
  cases ha : w.scheduler.accepting with
  | false =>
    refine ⟨[], fun _ hd => absurd hd List.not_mem_nil, ?_⟩
    have hfirst : w.scheduler.close.1 = false := ha
    show (w.scheduler.ask now timeout).2 = _
    simp only [ask_of_not_accepting ha, shutdown, hfirst, Bool.false_eq_true, if_false]
  | true =>
    let asked : Workshop := { w with scheduler := w.scheduler.close.2.interrupt }
    let stopped : Workshop := { asked.settle with
      scheduler := asked.settle.scheduler.stop
      notices := asked.settle.notices ++ asked.settle.scheduler.timeoutNotices }
    have hwaiting : asked.scheduler.Serves asked.settle.scheduler := works_settle.serves
    obtain ⟨-, hinterrupted, hopen⟩ := hwaiting.switches
    obtain ⟨ds, hds, hwait⟩ := exists_live_of_serves hwaiting
    obtain ⟨ds', hds', hrest⟩ := exists_live_of_serves (s := stopped.scheduler) works_settle.serves
    refine ⟨ds ++ .halt :: ds', ?_, ?_⟩
    · exact List.forall_mem_append.mpr ⟨hds, List.forall_mem_cons.mpr ⟨rfl, hds'⟩⟩
    · have hasked : (Deed.shutdown now timeout).apply w.scheduler = asked.scheduler :=
        congrArg Prod.snd (ask_of_accepting ha htime)
      have hhalt : Deed.halt.apply asked.settle.scheduler = stopped.scheduler := by
        have hwaited : asked.settle.scheduler.interrupted = true := hinterrupted
        have hrunning : asked.settle.scheduler.stopped = false := hopen.trans (hw ha).2
        simp [Deed.apply, hwaited, hrunning, stopped]
      have hlive : w.scheduler.live (.shutdown now timeout :: (ds ++ .halt :: ds')) =
          stopped.settle.scheduler := by
        rw [live_cons, hasked, live_append, hwait, live_cons, hhalt]
        exact hrest
      have hfirst : w.scheduler.close.1 = true := ha
      rw [hlive]
      simp only [shutdown, hfirst, if_true]
      rfl

end Workshop

/-- A task that was accepted is told to stop if it was cancelled after that, or if the first call for
a shutdown came to a deadline, and else not; where every deadline is a point of time, that is if a
shutdown was called for at all. Nobody takes it back, and to cancel another task does not do it. From
the first call on, submissions are refused with a warning and further calls do nothing; tasks that
are left are warned of once. -/
theorem interrupted_iff_cancelled_or_asked (settings : Settings) (ds : List (Deed τ)) :
    let start : Scheduler τ := { settings }
    let s := start.live ds
    (∀ id, s.isInterrupted id = true ↔ start.CancelledIn id ds ∨ AskedIn ds) ∧
    ((∀ now timeout, .shutdown now timeout ∈ ds → now + timeout ≤ maxInstant) →
      (AskedIn ds ↔ ∃ now timeout, .shutdown now timeout ∈ ds)) ∧
    (∀ id more, s.isInterrupted id = true → (s.live more).isInterrupted id = true) ∧
    (∀ id other, other ≠ id → (s.cancel id).isInterrupted other = s.isInterrupted other) ∧
    (s.accepting = true ↔ ¬ ∃ now timeout, .shutdown now timeout ∈ ds) ∧
    ((∃ now timeout, .shutdown now timeout ∈ ds) →
      (∀ t building, s.submit t building = (.rejected, s, [.taskRejected t.name])) ∧
      ∀ now timeout, s.ask now timeout = (.already, s)) ∧
    (start.told ds).countP isTimedOut ≤ 1 := by
  intro start s
  have haccepting : s.accepting = (firstCall? ds).isNone := accepting_live start ds
  have hrefusing : (∃ now timeout, .shutdown now timeout ∈ ds) → s.accepting = false := by
    intro hcall
    rw [haccepting, ← Option.not_isSome, isSome_firstCall?.mpr hcall]
    rfl
  refine ⟨fun id => ?_, askedIn_iff, ?_, ?_, ?_, fun hcall => ⟨?_, ?_⟩, countP_told start ds⟩
  · have hwas : s.wasCancelled id = true ↔ start.CancelledIn id ds := by
      simpa [start, wasCancelled] using wasCancelled_live start ds id
    have hinterrupted : s.interrupted = true ↔ AskedIn ds := by
      simpa [start] using interrupted_live start ds
    rw [isInterrupted, Bool.or_eq_true, or_comm, hinterrupted]
    exact or_congr_left hwas
  · intro id more h
    rw [isInterrupted, Bool.or_eq_true] at h ⊢
    rcases h with hinterrupted | hwas
    · exact .inl ((interrupted_live s more).mpr (.inl hinterrupted))
    · exact .inr ((wasCancelled_live s more id).mpr (.inl hwas))
  · intro id other hne
    have hother : (s.cancel id).wasCancelled other = s.wasCancelled other :=
      wasCancelled_cancel_other hne.symm
    exact congrArg (s.interrupted || ·) hother
  · rw [haccepting, ← isSome_firstCall?]
    simp
  · exact fun t building => (submit_of_not_accepting (hrefusing hcall) t building).2
  · exact ask_of_not_accepting (hrefusing hcall)

/-- Two of these are taken on, and one of them is cancelled. -/
def nightly : Task Unit := ⟨"nightly", .worker, true, (), false, .prepared⟩

theorem interrupted_iff_cancelled_or_asked_night :
    let start : Scheduler Unit := { settings := ⟨1, 1, 5⟩ }
    let evening : List (Deed Unit) :=
      [.serve (.prepare nightly) rfl, .serve (.prepare nightly) rfl, .serve (.cancel 0) rfl]
    let s := start.live evening
    let t := start.live (evening ++ [.shutdown 7 5])
    s.isInterrupted 0 = true ∧ ¬ s.isInterrupted 1 = true ∧ s.accepting = true ∧
      t.isInterrupted 1 = true ∧ (∀ more, (t.live more).isInterrupted 1 = true) ∧
      t.submit nightly none = (.rejected, t, [.taskRejected "nightly"]) ∧
      t.ask 8 5 = (.already, t) := by
  intro start evening s t
  obtain ⟨hevening, -, -, -, hopen, -⟩ := interrupted_iff_cancelled_or_asked ⟨1, 1, 5⟩ evening
  obtain ⟨hnight, -, hstays, -, -, hrefused, -⟩ :=
    interrupted_iff_cancelled_or_asked ⟨1, 1, 5⟩ (evening ++ [.shutdown 7 5])
  obtain ⟨hsubmit, hask⟩ := hrefused ⟨7, 5, by simp⟩
  have hasked : t.isInterrupted 1 = true := (hnight 1).mpr (.inr ⟨(7, 5), rfl, by decide⟩)
  refine ⟨(hevening 0).mpr (.inl ⟨evening.take 2, rfl, [], rfl, by decide⟩), by decide, hopen.mpr ?_, hasked,
    fun more => hstays 1 more hasked, hsubmit nightly none, hask 8 5⟩
  rintro ⟨now, timeout, hmem⟩
  simp [evening] at hmem

/-- A task runs, and a shutdown is called for whose deadline is no point of time: the call panics,
work is refused from then on, and the task is not told to stop. -/
theorem too_long_interrupts_nobody :
    let start : Scheduler Unit := { settings := ⟨1, 1, 0xFFFFFFFFFFFFFFFF⟩ }
    let s := start.live [.serve (.prepare nightly) rfl, .serve (.enter 0) rfl,
      .serve (.handOver 0) rfl, .serve (.begin 0) rfl]
    let t := s.live [.shutdown 0 0xFFFFFFFFFFFFFFFF]
    s.phase? 0 = some .running ∧ s.accepting = true ∧
      (s.ask 0 0xFFFFFFFFFFFFFFFF).1 = .panicked deadlinePanic ∧
      t.phase? 0 = some .running ∧ t.accepting = false ∧ t.isInterrupted 0 = false ∧
      t.ask 5 5 = (.already, t) :=
  ⟨rfl, rfl, by decide, rfl, rfl, by decide, rfl⟩

end HomeAutomation.Scheduler

namespace HomeAutomation.Home

open Scheduler

/-- What the shutdown of a home's scheduler comes to, by what the call for it came to. -/
theorem shutdownScheduler_eq_ask (bound now timeout : Nat) (h : Home) :
    h.shutdownScheduler bound now timeout =
      match h.session.state.scheduler.ask now timeout with
      | (.already, s) => some (.ended (h.withScheduler s))
      | (.panicked p, s) => some (.panicked p (h.withScheduler s))
      | (.waiting _, s) => (settle bound (h.withScheduler s)).map fun h =>
        let session := h.session.logAll h.session.state.scheduler.timeoutNotices
        .ended ({ h with session }.withScheduler h.session.state.scheduler.stop) := by
  unfold shutdownScheduler ask
  cases h.session.state.scheduler.close with
  | mk first closed =>
    cases first with
    | false => rfl
    | true => cases deadline? now timeout <;> rfl

end HomeAutomation.Home
