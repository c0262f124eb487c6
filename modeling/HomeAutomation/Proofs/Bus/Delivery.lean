import HomeAutomation.Proofs.Bus.History
import HomeAutomation.Proofs.Bus.Machine

/-! What a post delivers. Every move of the machine keeps to the rules for histories, hence so does
all that happens from the beginning of a post to its end. -/

namespace HomeAutomation

variable {σ : Type}

namespace Session

/-- The history from one session to another keeps to the rules, as it takes the first dispatches to
the second ones. -/
structure Leads (s : Session σ) (ds : List Dispatch) (t : Session σ) (ds' : List Dispatch) :
    Prop where
  distinct : t.bus.Distinct
  exists_run : ∃ hs, t.history = s.history ++ hs ∧
    Moment.Run ⟨s.bus.registry, ds⟩ hs ⟨t.bus.registry, ds'⟩

section Leads

variable {s t u : Session σ} {ds ds' ds'' : List Dispatch}

theorem Leads.refl (h : s.bus.Distinct) : s.Leads ds s ds :=
  ⟨h, [], (List.append_nil _).symm, .nil⟩

theorem Leads.trans (h : s.Leads ds t ds') (h' : t.Leads ds' u ds'') : s.Leads ds u ds'' := by
  obtain ⟨hs, hhist, hrun⟩ := h.exists_run
  obtain ⟨hs', hhist', hrun'⟩ := h'.exists_run
  refine ⟨h'.distinct, hs ++ hs', ?_, hrun.append hrun'⟩
  rw [hhist', hhist, List.append_assoc]

theorem Leads.of_step {hs : List Happening} (hd : t.bus.Distinct)
    (hh : t.history = s.history ++ hs)
    (hstep : Moment.Step ⟨s.bus.registry, ds⟩ hs ⟨t.bus.registry, ds'⟩) : s.Leads ds t ds' :=
  ⟨hd, hs, hh, hstep.run⟩

end Leads

/-- The calls that have ended, in order. -/
def endings (s : Session σ) : List Ending := s.history.filterMap Happening.ending?

theorem endings_record {s : Session σ} {h : Happening} :
    (s.record h).endings = s.endings ++ h.ending?.toList := by
  cases h <;> simp [endings, record, Happening.ending?]

section Moves

variable {s : Session σ} {d : Dispatch} {ds : List Dispatch}

theorem leads_log (hc : d.calling.isSome = true) (h : s.bus.Distinct) (n : Notice) :
    s.Leads (d :: ds) (s.log n) (d :: ds) :=
  .of_step h rfl (.log n hc)

theorem leads_update (h : s.bus.Distinct) (x : σ) : s.Leads ds { s with state := x } ds :=
  ⟨h, [], (List.append_nil _).symm, .nil⟩

theorem leads_subscribe (hc : d.calling.isSome = true) (h : s.bus.Distinct) (name : String)
    (react : Handler σ) : s.Leads (d :: ds) (s.subscribe name react).2 (d :: ds) := by
  refine .of_step (h.subscribe name react) rfl ?_
  show Moment.Step _ _ ⟨(s.bus.subscribe name react).2.registry, _⟩
  rw [Bus.registry_subscribe]
  exact .subscribe s.bus.nextId name hc fun hmem => Nat.lt_irrefl _ (h.lt_nextId _ hmem)

theorem leads_unsubscribe (hc : d.calling.isSome = true) (h : s.bus.Distinct) (id : ListenerId) :
    s.Leads (d :: ds) (s.unsubscribe id).2 (d :: ds) := by
  have hhist : (s.unsubscribe id).2.history =
      s.history ++ [.unsubscribed id (s.bus.isRegistered id)] := by
    rw [← Bus.unsubscribe_fst]
    rfl
  refine .of_step (h.unsubscribe id) hhist ?_
  show Moment.Step _ _ ⟨(s.bus.unsubscribe id).2.registry, _⟩
  rw [Bus.registry_unsubscribe]
  exact .unsubscribe id _ hc Bus.isRegistered_iff

theorem leads_shutdown (hc : d.calling.isSome = true) :
    s.Leads (d :: ds) s.shutdown (d :: ds) := by
  let detached : Session σ := { s with bus := s.bus.detach.2 }.record (.detached s.bus.detach.1)
  have hdetach : s.Leads (d :: ds) detached (d :: ds) := by
    refine .of_step Bus.Distinct.detach rfl ?_
    rw [Bus.detach_fst]
    exact .detach hc
  exact hdetach.trans (leads_log hc Bus.Distinct.detach _)

theorem leads_begin (hc : d.calling.isSome = true) (h : s.bus.Distinct) (e : Event) :
    s.Leads (d :: ds) (s.begin e) (⟨e, s.bus.registry, none⟩ :: d :: ds) := by
  refine .of_step (h.store e) rfl ?_
  show Moment.Step _ _ ⟨(s.bus.store e).registry, _⟩
  rw [Bus.registry_store]
  exact .begin e hc h.nodup

variable {e : Event} {due : Registry}

theorem leads_called (h : s.bus.Distinct) (l : Registration (Handler σ)) :
    s.Leads (⟨e, (l.id, l.name) :: due, none⟩ :: ds) (s.record (.called l.id e))
      (⟨e, due, some (l.id, l.name)⟩ :: ds) :=
  .of_step h rfl .call

theorem history_callEnded (l : Registration (Handler σ)) (o : Outcome) :
    (s.callEnded l e o).history =
      s.history ++ .returned l.id l.name e o :: reports l.id l.name e o := by
  rw [callEnded, Outcome.notice?_eq_lineDue?, reports]
  cases lineDue? l.id l.name e o <;> simp [record]

theorem endings_callEnded (l : Registration (Handler σ)) (o : Outcome) :
    (s.callEnded l e o).endings = s.endings ++ [⟨l.id, l.name, e, o⟩] := by
  rw [endings, history_callEnded, List.filterMap_append, List.filterMap_cons,
    filterMap_ending_reports]
  rfl

theorem endings_shutdown : s.shutdown.endings = s.endings := by
  simp [endings, shutdown, log, record, Happening.ending?]

theorem bus_callEnded (l : Registration (Handler σ)) (o : Outcome) :
    (s.callEnded l e o).bus = s.bus := by
  cases o <;> rfl

theorem leads_callEnded (h : s.bus.Distinct) (l : Registration (Handler σ)) (o : Outcome) :
    s.Leads (⟨e, due, some (l.id, l.name)⟩ :: ds) (s.callEnded l e o) (⟨e, due, none⟩ :: ds) := by
  have hbus : (s.callEnded l e o).bus = s.bus := bus_callEnded l o
  refine .of_step (hbus ▸ h) (history_callEnded l o) ?_
  rw [hbus]
  exact .returned o

theorem leads_finish (h : s.bus.Distinct) :
    s.Leads (⟨e, [], none⟩ :: ds) (s.record (.postEnded e)) ds :=
  .of_step h rfl .finish

end Moves

end Session

/-- A dispatch under way, apart from what its listeners do. -/
def Frame.dispatch (f : Frame σ) : Dispatch where
  event := f.event
  due := f.due.map fun l => (l.id, l.name)
  calling := f.calling.map fun c => (c.1.id, c.1.name)

namespace Scene

def dispatches (c : Scene σ) : List Dispatch := c.frames.map Frame.dispatch

theorem Step.leads {c d : Scene σ} (h : Step c d) (hc : c.session.bus.Distinct) :
    c.session.Leads c.dispatches d.session d.dispatches := by
  obtain ⟨s, fs⟩ := c
  cases fs with
  | nil => cases h
  | cons f fs =>
    obtain ⟨e, due, calling⟩ := f
    cases calling with
    | none =>
      cases due with
      | nil =>
        cases h
        exact Session.leads_finish hc
      | cons l due =>
        cases h
        exact Session.leads_called hc l
    | some calling =>
      obtain ⟨l, r⟩ := calling
      cases r with
      | finish o =>
        cases h
        exact Session.leads_callEnded hc l o
      | log n next =>
        cases h
        exact Session.leads_log rfl hc n
      | update g next =>
        cases h
        exact Session.leads_update hc (g s.state)
      | look next | read next =>
        cases h
        exact Session.Leads.refl hc
      | subscribe name handler next =>
        cases h
        exact Session.leads_subscribe rfl hc name handler
      | unsubscribe id next =>
        cases h
        exact Session.leads_unsubscribe rfl hc id
      | post f next =>
        cases h
        exact Session.leads_begin rfl hc f
      | shutdown next =>
        cases h
        exact Session.leads_shutdown rfl

theorem Reaches.leads {c d : Scene σ} (h : Reaches c d) (hc : c.session.bus.Distinct) :
    c.session.Leads c.dispatches d.session d.dispatches := by
  induction h with
  | refl => exact .refl hc
  | tail _ hstep ih => exact ih.trans (hstep.leads ih.distinct)

section Endings

variable {c d : Scene σ}

/-- The call that ends with the next move, with what the reaction of its listener has come to. -/
def ending? : Scene σ → Option Ending
  | ⟨_, ⟨e, _, some (l, .finish o)⟩ :: _⟩ => some ⟨l.id, l.name, e, o⟩
  | _ => none

/-- The machine gets from one place to another, and these are the calls that end on its way. -/
inductive EndsCalls (c : Scene σ) : List Ending → Scene σ → Prop where
  | refl : EndsCalls c [] c
  | tail {ends : List Ending} {d d' : Scene σ} :
      EndsCalls c ends d → Step d d' → EndsCalls c (ends ++ d.ending?.toList) d'

theorem reaches_iff_exists_endsCalls : Reaches c d ↔ ∃ ends, EndsCalls c ends d := by
  constructor
  · intro h
    induction h with
    | refl => exact ⟨[], .refl⟩
    | tail _ hstep ih =>
      obtain ⟨ends, hends⟩ := ih
      exact ⟨_, hends.tail hstep⟩
  · rintro ⟨ends, h⟩
    induction h with
    | refl => exact .refl
    | tail _ hstep ih => exact ih.tail hstep

/-- The history has every call that ends, and ended as its listener's reaction did. -/
theorem Step.endings (h : Step c d) :
    d.session.endings = c.session.endings ++ c.ending?.toList := by
  obtain ⟨s, fs⟩ := c
  cases fs with
  | nil => cases h
  | cons f fs =>
    obtain ⟨e, due, calling⟩ := f
    cases calling with
    | none =>
      cases due <;> cases h <;> exact Session.endings_record
    | some calling =>
      obtain ⟨l, r⟩ := calling
      cases r with
      | finish o =>
        cases h
        exact Session.endings_callEnded l o
      | update | look | read =>
        cases h
        exact (List.append_nil _).symm
      | log | subscribe | unsubscribe | post =>
        cases h
        exact Session.endings_record
      | shutdown next =>
        cases h
        exact Session.endings_shutdown.trans (List.append_nil _).symm

theorem EndsCalls.endings {ends : List Ending} (h : EndsCalls c ends d) :
    d.session.endings = c.session.endings ++ ends := by
  induction h with
  | refl => exact (List.append_nil _).symm
  | tail _ hstep ih => rw [hstep.endings, ih, List.append_assoc]

end Endings

/-- Between the beginning of a post and its end there is one dispatch, with everything that is
nested in it. -/
theorem exists_body {n : Nat} {s t : Session σ} {e : Event} (hs : s.bus.Distinct)
    (h : s.post n e = some t) : ∃ body,
      t.history = s.history ++ .postBegan e :: body ++ [.postEnded e] ∧
      Moment.Run ⟨s.bus.registry, [⟨e, s.bus.registry, none⟩]⟩ body
        ⟨t.bus.registry, [⟨e, [], none⟩]⟩ := by
  cases n with
  | zero => cases h
  | succ n =>
    obtain ⟨u, hu, rfl⟩ := exists_deliver_of_post h
    have hwalk : Walk _ (start s e []) ⟨u, [⟨e, [], none⟩]⟩ := walk_deliver (walksPost n) hu
    obtain ⟨body, hhist, hrun⟩ := (hwalk.reaches.leads (hs.store e)).exists_run
    refine ⟨body, ?_, ?_⟩
    · show u.history ++ [.postEnded e] = _
      rw [show u.history = s.history ++ [.postBegan e] ++ body from hhist]
      simp
    · have hreg : (start s e []).session.bus.registry = s.bus.registry := Bus.registry_store
      rwa [hreg] at hrun

end Scene

namespace Moment

/-- In the history of a post, every dispatch that begins calls those who are registered then. -/
theorem Run.callsOf_of_split {reg reg' : Registry} {e f : Event} {body before later : List Happening}
    (hnd : reg.ids.Nodup) (h : Run ⟨reg, [⟨e, reg, none⟩]⟩ body ⟨reg', [⟨e, [], none⟩]⟩)
    (heq : .postBegan e :: body ++ [.postEnded e] = before ++ .postBegan f :: later) :
    (before.foldl Registry.after reg).ids.Nodup ∧
      callsOf 0 later = some ((before.foldl Registry.after reg).map fun l => (l.1, f)) := by
  have hwhole := h.append Step.finish.run
  cases before with
  | nil =>
    obtain ⟨hef, rfl⟩ := List.cons.inj heq
    obtain rfl := Happening.postBegan.inj hef
    exact ⟨hnd, hwhole.callsOf_eq [] _ rfl (Nat.le_refl _)⟩
  | cons x before =>
    obtain ⟨rfl, hrest⟩ := List.cons.inj heq
    obtain ⟨m, hbefore, hm, hlater⟩ := hwhole.split before hrest
    have hreg : before.foldl Registry.after reg = m.registry := hbefore.foldl_after
    show (before.foldl Registry.after reg).ids.Nodup ∧
      _ = some ((before.foldl Registry.after reg).map _)
    rw [hreg]
    exact ⟨hm, hlater.callsOf_eq [] _ rfl (Nat.zero_le _)⟩

end Moment

namespace Session

/-- Every post whose dispatches do not pile up without end returns, however the calls of listeners
end, with what the machine ends with. Every dispatch that begins with it, its own and those nested
in it, calls those who are registered when it begins, each of them once and in the order of their
registration, and comes to its end before the dispatch around it goes on. The calls end as the
reactions of their listeners do, and for each that fails the bus logs the one line that is due. -/
theorem post_delivers {s : Session σ} {e : Event} {taken : List ListenerId}
    (hb : s.bus.Reachable taken) (hn : Scene.FinitelyNested s e) :
    ∃ t body ends, (∃ n, ∀ depth, n ≤ depth → s.post depth e = some t) ∧
      Scene.EndsCalls (Scene.start s e []) ends ⟨t, []⟩ ∧
      t.history = s.history ++ .postBegan e :: body ++ [.postEnded e] ∧
      Moment.Run ⟨s.bus.registry, [⟨e, s.bus.registry, none⟩]⟩ body
        ⟨t.bus.registry, [⟨e, [], none⟩]⟩ ∧
      (∀ before f later, .postBegan e :: body ++ [.postEnded e] = before ++ .postBegan f :: later →
        (before.foldl Registry.after s.bus.registry).ids.Nodup ∧
          callsOf 0 later =
            some ((before.foldl Registry.after s.bus.registry).map fun l => (l.1, f))) ∧
      body.filterMap Happening.ending? = ends ∧
      body.filterMap Happening.report? = ends.filterMap Ending.line? := by
  obtain ⟨n, t, ht⟩ := Scene.finitelyNested_iff.mp hn
  obtain ⟨body, hhist, hrun⟩ := Scene.exists_body hb.distinct ht
  obtain ⟨ends, hway⟩ :=
    Scene.reaches_iff_exists_endsCalls.mp (Scene.walksPost n ht []).reaches
  have hends : body.filterMap Happening.ending? = ends := by
    have hbegin : (Scene.start s e []).session.endings = s.endings :=
      endings_record.trans (List.append_nil _)
    have hbody : t.endings = s.endings ++ body.filterMap Happening.ending? := by
      simp [endings, hhist, List.filterMap_cons, Happening.ending?]
    have hmachine : t.endings = s.endings ++ ends := hbegin ▸ hway.endings
    exact List.append_cancel_left (hbody.symm.trans hmachine)
  refine ⟨t, body, ends, ⟨n, fun depth => Scene.post_eq_some_of_le ht⟩, hway, hhist, hrun, ?_,
    hends, ?_⟩
  · exact fun before f later => hrun.callsOf_of_split hb.distinct.nodup
  · exact hends ▸ hrun.reports_eq

def bell : Event := ⟨"bell", .ui, true, none, by decide⟩

/-- Of two listeners the first removes the second, posts within a post and fails at the end; the
second detaches everybody and panics. -/
def quarrel : Session Unit :=
  let first : Handler Unit := fun e =>
    .unsubscribe 2 fun _ =>
      if e.stable then .post ⟨"b", .system, false, none, by decide⟩ (.finish (.failure ⟨["late"]⟩))
      else .finish .success
  let second : Handler Unit := fun _ => .shutdown (.finish (.panic .other))
  ((Session.subscribe { state := () } "first" first).2.subscribe "second" second).2

theorem post_delivers_quarrel :
    ∃ t body ends, (∃ n, ∀ depth, n ≤ depth → quarrel.post depth bell = some t) ∧
      Scene.EndsCalls (Scene.start quarrel bell []) ends ⟨t, []⟩ ∧
      t.history = quarrel.history ++ .postBegan bell :: body ++ [.postEnded bell] ∧
      Moment.Run ⟨[(1, "first"), (2, "second")],
          [⟨bell, [(1, "first"), (2, "second")], none⟩]⟩ body
        ⟨t.bus.registry, [⟨bell, [], none⟩]⟩ ∧
      (∀ before f later, .postBegan bell :: body ++ [.postEnded bell] =
          before ++ .postBegan f :: later →
        (before.foldl Registry.after [(1, "first"), (2, "second")]).ids.Nodup ∧
          callsOf 0 later = some
            ((before.foldl Registry.after [(1, "first"), (2, "second")]).map fun l => (l.1, f))) ∧
      body.filterMap Happening.ending? = ends ∧
      body.filterMap Happening.report? = ends.filterMap Ending.line? ∧
      body.filterMap Happening.report? =
        [.listenerFailed 1 "first" "bell" "late",
          .listenerPanicked 2 "second" "bell" "unknown panic"] := by
  have hb : quarrel.bus.Reachable [] := (Bus.Reachable.empty.subscribe _ _).subscribe _ _
  have hn : Scene.FinitelyNested quarrel bell := Scene.finitelyNested_iff.mpr ⟨2, _, rfl⟩
  obtain ⟨t, body, ends, ⟨n, ht⟩, hway, hhist, hrun, hcalls, hends, hlines⟩ :=
    post_delivers hb hn
  have hpost : quarrel.post (max n 2) bell = quarrel.post 2 bell :=
    Scene.post_eq_some_of_le rfl (Nat.le_max_right n 2)
  have hbody : body.filterMap Happening.report? = t.history.filterMap Happening.report? := by
    rw [hhist, List.filterMap_append, List.filterMap_append]
    exact (List.append_nil _).symm
  refine ⟨t, body, ends, ⟨n, ht⟩, hway, hhist, hrun, hcalls, hends, hlines, hbody.trans ?_⟩
  obtain rfl := Option.some.inj ((ht _ (Nat.le_max_left n 2)).symm.trans hpost)
  rfl

end Session

end HomeAutomation
