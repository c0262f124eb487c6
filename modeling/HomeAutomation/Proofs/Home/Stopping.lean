import HomeAutomation.Proofs.Home.Bounds
import HomeAutomation.Proofs.Home.Listening

/-! Stopping a home. The queue runs empty once work is refused, so a home that was started from an
accepted configuration can be stopped, whatever happened to it, unless its timeout is so long that
no point of time lies that far ahead. Then the shutdown breaks off before any task is told to stop,
and there is no second try. -/

namespace HomeAutomation.Home

open Scheduler

variable {rank : String → Nat} {bound depth : Nat}

section Actions

mutual

theorem exists_execute (hrank : ∀ id, rank id < bound) (id : TaskId) (task rule : String)
    (trigger : Event) : ∀ (a : Rules.Action Embedded) {s : State}, OrderlyBus rank s →
      ∃ o t, a.execute (surroundings bound id task) rule trigger (some s) = (o, some t) ∧
        Proceeds rank s t
  | .post event value transient, s, hs => by
    rw [Rules.Action.execute]
    cases Event.make .rules event (!transient) value with
    | error e => exact ⟨_, s, rfl, .refl hs⟩
    | ok e =>
      obtain ⟨t, ht, hproceeds⟩ := postsReturn bound s e (hrank e.id) hs
      exact ⟨.success, t, congrArg (Prod.mk _) ht, hproceeds⟩
  | .log message, s, hs => ⟨.success, s.log _, rfl, hs, .refl _⟩
  | .custom code, s, hs => by
    refine ⟨code.outcome, _, rfl, hs, ?_, rfl⟩
    show s.state.scheduler.Serves
      (if code.cancels then s.state.scheduler.cancel id else s.state.scheduler)
    split
    · exact .of_move (.cancel id) rfl
    · exact .refl _
  | .sequence actions, s, hs => exists_executeAll hrank id task rule trigger actions hs

theorem exists_executeAll (hrank : ∀ id, rank id < bound) (id : TaskId) (task rule : String)
    (trigger : Event) : ∀ (actions : List (Rules.Action Embedded)) {s : State}, OrderlyBus rank s →
      ∃ o t, Rules.Action.executeAll (surroundings bound id task) rule trigger actions (some s) =
        (o, some t) ∧ Proceeds rank s t
  | [], s, hs => ⟨.success, s, rfl, .refl hs⟩
  | a :: as, s, hs => by
    rw [Rules.Action.executeAll]
    split
    · exact ⟨.success, s, rfl, .refl hs⟩
    · obtain ⟨o, t, ht, hproceeds⟩ := exists_execute hrank id task rule trigger a hs
      rw [ht]
      cases o with
      | success =>
        obtain ⟨o', u, hu, hrest⟩ := exists_executeAll hrank id task rule trigger as hproceeds.bus
        exact ⟨o', u, hu, hproceeds.trans hrest⟩
      | failure f => exact ⟨.failure f, t, rfl, hproceeds⟩
      | panic p => exact ⟨.panic p, t, rfl, hproceeds⟩

end

end Actions

section Tasks

variable {id : TaskId} {s t : State} {h : Home}

theorem proceeds_withScheduler (hs : OrderlyBus rank s) {x : Scheduler (Rules.Firing Embedded)}
    (hx : s.state.scheduler.Serves x) :
    Proceeds rank s { s with state := { s.state with scheduler := x } } :=
  ⟨hs, hx, rfl⟩

theorem proceeds_logAll (hs : OrderlyBus rank s) (ns : List Notice) :
    Proceeds rank s (s.logAll ns) := by
  refine ⟨?_, ?_⟩
  · rw [OrderlyBus, bus_logAll]
    exact hs
  · rw [state_logAll]
    exact .refl _

theorem proceeds_finishTask (hs : OrderlyBus rank s) (o : Outcome) :
    Proceeds rank s (finishTask s id o) := by
  have hfinish := proceeds_withScheduler hs (Serves.finish s.state.scheduler id o)
  exact hfinish.trans (proceeds_logAll hfinish.bus _)

theorem exists_runTask (hrank : ∀ id, rank id < bound) (halive : h.alive = true)
    (hs : OrderlyBus rank h.session) (hid : h.session.state.scheduler.next? = some id) :
    ∃ t, runTask bound h id = some { h with session := t } ∧
      Proceeds rank (beginTask h.session id) t := by
  obtain ⟨x, hx, -⟩ := phase?_eq_some.mp (phase?_of_next? hid)
  have hbegun : OrderlyBus rank (beginTask h.session id) := hs
  obtain ⟨o, t, ht, hproceeds⟩ :=
    exists_execute hrank id x.name x.work.rule x.work.trigger x.work.action hbegun
  refine ⟨finishTask t id o, ?_, hproceeds.trans (proceeds_finishTask hproceeds.bus o)⟩
  simp only [runTask, hx, halive, if_true, ht, Option.map_some]

theorem Proceeds.ahead_le (hst : Proceeds rank s t) (ha : s.state.scheduler.accepting = false) :
    t.state.scheduler.ahead ≤ s.state.scheduler.ahead :=
  hst.keeps.serves.ahead_le ha

theorem proceeds_beginTask (hs : OrderlyBus rank s) (id : TaskId) :
    Proceeds rank s (beginTask s id) :=
  proceeds_withScheduler hs (.of_move (.begin id) rfl)

/-- Tasks are run until none is left: every one that is run is one less that has yet to begin. -/
theorem exists_settleWithin (hrank : ∀ id, rank id < bound) {n : Nat} (halive : h.alive = true)
    (hs : OrderlyBus rank h.session) (ha : h.session.state.scheduler.accepting = false)
    (hn : h.session.state.scheduler.ahead ≤ n) :
    ∃ t, settleWithin bound n h = some { h with session := t } ∧ Proceeds rank h.session t := by
  induction n generalizing h with
  | zero =>
    have hnone : h.session.state.scheduler.next? = none := by
      refine Option.eq_none_iff_forall_ne_some.mpr fun id hid => ?_
      have hbegin := ahead_begin (phase?_of_next? hid)
      omega
    exact ⟨h.session, by rw [settleWithin, hnone]; rfl, .refl hs⟩
  | succ n ih =>
    rw [settleWithin]
    cases hid : h.session.state.scheduler.next? with
    | none => exact ⟨h.session, rfl, .refl hs⟩
    | some id =>
      obtain ⟨u, hu, hran⟩ := exists_runTask hrank halive hs hid
      have hbegun := proceeds_beginTask hs id
      have haccepting := hbegun.keeps.serves.switches.1.trans ha
      have hless : u.state.scheduler.ahead ≤ n := by
        have hle := hran.ahead_le haccepting
        have hbegin := ahead_begin (phase?_of_next? hid)
        have hscheduler : (beginTask h.session id).state.scheduler =
            h.session.state.scheduler.begin id := rfl
        rw [hscheduler] at hle
        omega
      obtain ⟨t, ht, hrest⟩ := ih (h := { h with session := u }) halive hran.bus
        (hran.keeps.serves.switches.1.trans haccepting) hless
      refine ⟨t, ?_, hbegun.trans (hran.trans hrest)⟩
      show (runTask bound h id).bind (settleWithin bound n) = _
      rw [hu]
      exact ht

end Tasks

/-- A home whose listeners are orderly and whose scheduler is not being shut down. -/
structure InService (rank : String → Nat) (h : Home) : Prop where
  alive : h.alive = true
  bus : OrderlyBus rank h.session
  accepting : h.session.state.scheduler.accepting = true
  interrupted : h.session.state.scheduler.interrupted = false
  stopped : h.session.state.scheduler.stopped = false

theorem InService.proceeds {h : Home} (hh : InService rank h) {t : State}
    (ht : Proceeds rank h.session t) : InService rank { h with session := t } := by
  obtain ⟨haccepting, hinterrupted, hstopped⟩ := ht.keeps.serves.switches
  exact ⟨hh.alive, ht.bus, haccepting.trans hh.accepting, hinterrupted.trans hh.interrupted,
    hstopped.trans hh.stopped⟩

/-- What may happen to a home before it is stopped: events are posted, tasks are run, submitted and
cancelled, and orderly listeners come and go. -/
inductive Lives (rank : String → Nat) (depth : Nat) (h : Home) : Home → Prop where
  | refl : Lives rank depth h h
  | post {k k' : Home} {bound : Nat} {e : Event} : Lives rank depth h k → depth ≤ bound →
      k.post bound e = some k' → Lives rank depth h k'
  | run {k k' : Home} {bound : Nat} {id : TaskId} : Lives rank depth h k → depth ≤ bound →
      k.session.state.scheduler.next? = some id → runTask bound k id = some k' →
      Lives rank depth h k'
  | serve {k : Home} {m : Move (Rules.Firing Embedded)} : Lives rank depth h k →
      m.isService = true → Lives rank depth h (k.withScheduler (m.apply k.session.state.scheduler))
  | attach {k : Home} (name : String) {react : Handler Surface} : Lives rank depth h k →
      OrderlyListener rank react →
      Lives rank depth h { k with session := (k.session.subscribe name react).2 }
  | detach {k : Home} (id : ListenerId) : Lives rank depth h k →
      Lives rank depth h { k with session := (k.session.unsubscribe id).2 }

section Lives

variable {h k : Home}

theorem exists_post (hrank : ∀ id, rank id < bound) (hk : InService rank k) (e : Event) :
    ∃ t, k.post bound e = some { k with session := t } ∧ Proceeds rank k.session t := by
  obtain ⟨t, ht, hproceeds⟩ := postsReturn bound k.session e (hrank e.id) hk.bus
  exact ⟨t, by rw [post, ht]; rfl, hproceeds⟩

theorem Lives.inService (hlives : Lives rank depth h k) (hrank : ∀ id, rank id < depth)
    (hh : InService rank h) : InService rank k := by
  induction hlives with
  | refl => exact hh
  | @post k k' bound e _ hbound hpost ih =>
    obtain ⟨t, ht, hproceeds⟩ := exists_post (fun id => Nat.lt_of_lt_of_le (hrank id) hbound) ih e
    obtain rfl := Option.some.inj (hpost.symm.trans ht)
    exact ih.proceeds hproceeds
  | @run k k' bound id _ hbound hid hrun ih =>
    obtain ⟨t, ht, hproceeds⟩ := exists_runTask
      (fun id => Nat.lt_of_lt_of_le (hrank id) hbound) ih.alive ih.bus hid
    obtain rfl := Option.some.inj (hrun.symm.trans ht)
    exact ih.proceeds ((proceeds_beginTask ih.bus id).trans hproceeds)
  | serve _ hm ih => exact ih.proceeds (proceeds_withScheduler ih.bus (.of_move _ hm))
  | attach name _ hreact ih => exact ih.proceeds (proceeds_subscribe ih.bus hreact name)
  | detach id _ ih => exact ih.proceeds (proceeds_unsubscribe ih.bus id)

end Lives

section Starting

variable {c : Config}

theorem start_of_validate (hc : c.validate = .ok ()) :
    Scheduler.start c.tasks =
      .ok ({ settings := c.tasks } : Scheduler (Rules.Firing Embedded)) := by
  rw [Config.validate] at hc
  cases htasks : c.tasks.validate with
  | error e =>
    rw [htasks] at hc
    cases hc
  | ok u =>
    rw [Scheduler.start, htasks]
    rfl

theorem orderlyBus_withRules {s : State} (hs : OrderlyBus rank s) (rs : Rules.Loaded Embedded) :
    OrderlyBus rank (withRules rs s) ∧
      (withRules rs s).state.scheduler = s.state.scheduler := by
  have hlogged := proceeds_logAll hs (loadingNotices rs)
  have hscheduler : (s.logAll (loadingNotices rs)).state.scheduler = s.state.scheduler := by
    rw [state_logAll]
  rw [withRules]
  split
  · exact ⟨hlogged.bus, hscheduler⟩
  · exact ⟨(proceeds_subscribe hlogged.bus (orderlyListener_ruleHandler _) _).bus, hscheduler⟩

/-- A home starts from every configuration that is accepted. -/
theorem exists_start (hrank : ∀ id, rank id < depth) (hc : c.validate = .ok ()) :
    ∃ h, InService rank h ∧ ∀ bound, depth ≤ bound → start bound c = some (.ok h) := by
  let s₀ : State := { state := { scheduler := { settings := c.tasks } } }
  have hs₀ : OrderlyBus rank s₀ := fun _ hl => absurd hl List.not_mem_nil
  obtain ⟨s₁, hs₁, hstart⟩ := postsReturn depth s₀ Lifecycle.start.event (hrank _) hs₀
  obtain ⟨hbus, hscheduler⟩ := orderlyBus_withRules hstart.bus (Rules.load c.definitions)
  obtain ⟨t, ht, hready⟩ := postsReturn depth _ Lifecycle.ready.event (hrank _) hbus
  refine ⟨{ session := t }, ?_, fun bound hbound => ?_⟩
  · have hserves : s₀.state.scheduler.Serves t.state.scheduler :=
      hstart.keeps.serves.trans (hscheduler ▸ hready.keeps.serves)
    obtain ⟨haccepting, hinterrupted, hstopped⟩ := hserves.switches
    exact ⟨rfl, hready.bus, haccepting, hinterrupted, hstopped⟩
  · have hpost₁ : s₀.post bound Lifecycle.start.event = some s₁ :=
      Scene.post_eq_some_of_le hs₁ hbound
    have hpost₂ : (withRules (Rules.load c.definitions) s₁).post bound Lifecycle.ready.event =
        some t := Scene.post_eq_some_of_le ht hbound
    simp only [start, start_of_validate hc]
    rw [hpost₁]
    show ((withRules (Rules.load c.definitions) s₁).post bound Lifecycle.ready.event).bind _ = _
    rw [hpost₂]
    rfl

end Starting

structure Stopped (h : Home) : Prop where
  refusing : h.session.state.scheduler.accepting = false
  interrupted : ∀ id, h.session.state.scheduler.isInterrupted id = true
  stopped : h.session.state.scheduler.stopped = true
  detached : h.session.bus.listeners = []

/-- A home that refuses work, while nothing else has been done to stop it and nothing will be. -/
structure Stuck (h : Home) : Prop where
  refusing : h.session.state.scheduler.accepting = false
  uninterrupted : h.session.state.scheduler.interrupted = false
  running : h.session.state.scheduler.stopped = false
  final : ∀ bound now timeout, h.shutdownScheduler bound now timeout = some (.ended h)

section Stopping

variable {h : Home} {now timeout : Nat}

theorem exists_shutdown (hrank : ∀ id, rank id < bound) (halive : h.alive = true)
    (hs : OrderlyBus rank h.session) (ha : h.session.state.scheduler.accepting = true)
    (hbound : h.session.state.scheduler.ahead ≤ bound) (htime : now + timeout ≤ maxInstant) :
    ∃ t, h.shutdownScheduler bound now timeout = some (.ended t) ∧
      t.session.state.scheduler.accepting = false ∧
      t.session.state.scheduler.interrupted = true ∧
      t.session.state.scheduler.stopped = true := by
  let asked : Home := h.withScheduler (h.session.state.scheduler.close.2.interrupt)
  obtain ⟨t, ht, hproceeds⟩ := exists_settleWithin (h := asked) hrank halive hs rfl hbound
  obtain ⟨haccepting, hinterrupted, -⟩ := hproceeds.keeps.serves.switches
  obtain ⟨hclosed, hasked, hstopped⟩ := (Serves.stop t.state.scheduler).switches
  have hdeadline : deadline? now timeout = some (now + timeout) := if_pos htime
  have hfirst : h.session.state.scheduler.close.1 = true := ha
  let settled : Home := { asked with session := t.logAll t.state.scheduler.timeoutNotices }
  refine ⟨settled.withScheduler t.state.scheduler.stop, ?_, hclosed.trans haccepting,
    hasked.trans hinterrupted, hstopped⟩
  simp only [shutdownScheduler, hfirst, if_true, hdeadline]
  show (settleWithin bound bound asked).map _ = _
  rw [ht]
  rfl

/-- A timeout that is too long breaks the shutdown off. -/
theorem shutdownScheduler_of_too_long (ha : h.session.state.scheduler.accepting = true)
    (htime : maxInstant < now + timeout) : h.shutdownScheduler bound now timeout =
      some (.panicked deadlinePanic (h.withScheduler h.session.state.scheduler.close.2)) := by
  have hdeadline : deadline? now timeout = none := if_neg (Nat.not_le.mpr htime)
  have hfirst : h.session.state.scheduler.close.1 = true := ha
  simp only [shutdownScheduler, hfirst, if_true, hdeadline]

theorem stuck_of_closed (hh : InService rank h) :
    Stuck (h.withScheduler h.session.state.scheduler.close.2) :=
  ⟨rfl, hh.interrupted, hh.stopped, fun _ _ _ => rfl⟩

theorem state_withoutRules : h.withoutRules.2.session.state = h.session.state := by
  rw [Home.withoutRules]
  split <;> rfl

theorem alive_withoutRules : h.withoutRules.2.alive = h.alive := by
  rw [Home.withoutRules]
  split <;> rfl

theorem orderlyBus_withoutRules (hs : OrderlyBus rank h.session) :
    OrderlyBus rank h.withoutRules.2.session := by
  rw [Home.withoutRules]
  split
  · exact (proceeds_unsubscribe hs _).bus
  · exact hs

theorem InService.withoutRules (hh : InService rank h) : InService rank h.withoutRules.2 := by
  refine ⟨alive_withoutRules.trans hh.alive, orderlyBus_withoutRules hh.bus, ?_, ?_, ?_⟩
  all_goals rw [state_withoutRules]
  · exact hh.accepting
  · exact hh.interrupted
  · exact hh.stopped

/-- As long as work is accepted, a home with orderly listeners can be stopped within some bound. -/
theorem exists_stop (hrank : ∀ id, rank id < depth) (halive : h.alive = true)
    (hs : OrderlyBus rank h.session) (ha : h.session.state.scheduler.accepting = true)
    (htime : now + timeout ≤ maxInstant) : ∃ n t, Stopped t ∧
      ∀ bound, n ≤ bound → h.stop bound now timeout = some (.ended t) := by
  obtain ⟨s, hquit, hproceeds⟩ := postsReturn depth h.session Lifecycle.quit.event (hrank _) hs
  let q : Home := { h with session := s }
  let n := max depth q.session.state.scheduler.ahead
  have hpost : h.post n Lifecycle.quit.event = some q :=
    post_eq_some_of_le (by rw [post, hquit]; rfl) (Nat.le_max_left depth _)
  have hrank' : ∀ id, rank id < n :=
    fun id => Nat.lt_of_lt_of_le (hrank id) (Nat.le_max_left depth _)
  have hstate : q.withoutRules.2.session.state = q.session.state := state_withoutRules
  obtain ⟨t, ht, hrefusing, hinterrupted, hstopped⟩ :=
    exists_shutdown (h := q.withoutRules.2) hrank' (alive_withoutRules.trans halive)
      (orderlyBus_withoutRules hproceeds.bus) (hstate ▸ hproceeds.keeps.serves.switches.1.trans ha)
      (hstate ▸ Nat.le_max_right depth _) htime
  refine ⟨n, { t with session := t.session.shutdown }, ⟨hrefusing, fun id => ?_, hstopped, rfl⟩,
    fun bound hbound => stop_eq_some_of_le ?_ hbound⟩
  · show (t.session.state.scheduler.interrupted || _) = true
    rw [hinterrupted, Bool.true_or]
  · simp only [stop, hpost, Option.bind_eq_bind, Option.bind_some, ht]
    rfl

theorem stop_of_too_long (hrank : ∀ id, rank id < bound) (hh : InService rank h)
    (htime : maxInstant < now + timeout) :
    ∃ q, h.post bound Lifecycle.quit.event = some q ∧
      let t := q.withoutRules.2.withScheduler q.session.state.scheduler.close.2
      h.stop bound now timeout = some (.panicked deadlinePanic t) ∧ Stuck t := by
  obtain ⟨s, hs, hquit⟩ := exists_post hrank hh Lifecycle.quit.event
  let q : Home := { h with session := s }
  have hpost : h.post bound Lifecycle.quit.event = some q := hs
  have hq : InService rank q := hh.proceeds hquit
  have hleft : InService rank q.withoutRules.2 := hq.withoutRules
  have hclosed : q.session.state.scheduler = q.withoutRules.2.session.state.scheduler := by
    rw [state_withoutRules]
  refine ⟨q, hpost, ?_, ?_⟩
  · rw [hclosed]
    simp only [stop, hpost, Option.bind_eq_bind, Option.bind_some,
      shutdownScheduler_of_too_long hleft.accepting htime]
    rfl
  · rw [hclosed]
    exact stuck_of_closed hleft

/-- Whatever happens to a home between its start and its stop, it stops in good order if its
timeout ends at a point of time. If not, it is left with the rules off, refusing work, and with
nothing else done. -/
theorem stop_spec {c : Config} (hc : c.validate = .ok ()) (hrank : ∀ id, rank id < depth) :
    ∃ h, (∀ bound, depth ≤ bound → start bound c = some (.ok h)) ∧
      ∀ k, Lives rank depth h k → ∀ now, ∃ n, ∀ bound, n ≤ bound →
        let timeout := c.tasks.shutdownTimeoutSecs
        (now + timeout ≤ maxInstant →
          ∃ t, k.stop bound now timeout = some (.ended t) ∧ Stopped t) ∧
        (maxInstant < now + timeout →
          ∃ q, k.post bound Lifecycle.quit.event = some q ∧
            let t := q.withoutRules.2.withScheduler q.session.state.scheduler.close.2
            k.stop bound now timeout = some (.panicked deadlinePanic t) ∧ Stuck t) := by
  obtain ⟨h, hh, hstart⟩ := exists_start hrank hc
  refine ⟨h, hstart, fun k hlives now => ?_⟩
  have hk := hlives.inService hrank hh
  by_cases htime : now + c.tasks.shutdownTimeoutSecs ≤ maxInstant
  · obtain ⟨n, t, hstopped, hstop⟩ := exists_stop hrank hk.alive hk.bus hk.accepting htime
    exact ⟨n, fun bound hbound => ⟨fun _ => ⟨t, hstop bound hbound, hstopped⟩,
      fun hlong => absurd htime (Nat.not_le.mpr hlong)⟩⟩
  · exact ⟨depth, fun bound hbound => ⟨fun hfits => absurd hfits htime, fun hlong =>
      stop_of_too_long (fun id => Nat.lt_of_lt_of_le (hrank id) hbound) hk hlong⟩⟩

/-- A configuration with one rule, which fires as soon as the rules are ready. -/
def greeting (timeout : Nat) : Config where
  tasks := ⟨4, 8, timeout⟩
  level := Config.defaultLevel
  rules :=
    [⟨"greet", "system.state == \"ready\"", [.post "greeting" (some (.string "hello")) false]⟩]

theorem stop_spec_greeting :
    (∃ h n t, start 1 (greeting 2) = some (.ok h) ∧ h.stop n 1000 2 = some (.ended t) ∧
      Stopped t) ∧
    ∃ h n t, start 1 (greeting maxInstant) = some (.ok h) ∧
      h.stop n 1000 maxInstant = some (.panicked deadlinePanic t) ∧ Stuck t := by
  have hrank : ∀ id : String, (fun _ : String => 0) id < 1 := fun _ => Nat.one_pos
  refine ⟨?_, ?_⟩
  · obtain ⟨h, hstart, hstop⟩ := stop_spec (c := greeting 2) rfl hrank
    obtain ⟨n, hn⟩ := hstop h .refl 1000
    obtain ⟨t, ht, hstopped⟩ := (hn n (Nat.le_refl n)).1 (by decide)
    exact ⟨h, n, t, hstart 1 (Nat.le_refl 1), ht, hstopped⟩
  · obtain ⟨h, hstart, hstop⟩ := stop_spec (c := greeting maxInstant) rfl hrank
    obtain ⟨n, hn⟩ := hstop h .refl 1000
    obtain ⟨q, -, ht, hstuck⟩ := (hn n (Nat.le_refl n)).2 (by decide)
    exact ⟨h, n, _, hstart 1 (Nat.le_refl 1), ht, hstuck⟩

/-- With as many seconds of timeout as fit into 64 bits, a task that waits for its turn when the
home is stopped is neither run nor told to stop. -/
theorem stop_too_long : ∃ c : Config, c.validate = .ok () ∧
    c.tasks.shutdownTimeoutSecs = 0xFFFFFFFFFFFFFFFF ∧ ∃ h t, start 1 c = some (.ok h) ∧
      (h.submitIdle "poll" Lifecycle.ready.event).stop 1 1000 0xFFFFFFFFFFFFFFFF =
        some (.panicked deadlinePanic t) ∧
      t.session.state.scheduler.accepting = false ∧
      t.session.state.scheduler.phase? 0 = some .queued ∧
      t.session.state.scheduler.isInterrupted 0 = false ∧
      t.session.state.scheduler.stopped = false := by
  refine ⟨⟨⟨4, 8, 0xFFFFFFFFFFFFFFFF⟩, Config.defaultLevel, []⟩, rfl, rfl, ?home, ?stuck, ?start,
    ?stop, ?_, ?_, ?_, ?_⟩
  case start => rfl
  case stop => rfl
  all_goals rfl

end Stopping

end HomeAutomation.Home
