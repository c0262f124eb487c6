import HomeAutomation.Proofs.Home.Listening
import HomeAutomation.Proofs.Scheduler.Containment

/-! Actions that cannot fail. They end well wherever they are carried out, and so do their tasks, as
soon as the posts that they make return. -/

namespace HomeAutomation

open Rules Scheduler

namespace Rules

variable {κ ω : Type}

/-- Every event that the action posts has an id, and there is no embedded code in it. -/
inductive Action.Safe : Action κ → Prop where
  | post {id : String} {value : Option Value} {transient : Bool} :
      id ≠ "" → Safe (.post id value transient)
  | log {message : String} : Safe (.log message)
  | sequence {as : List (Action κ)} : (∀ a ∈ as, Safe a) → Safe (.sequence as)

/-- The events that an action posts, unless it is stopped before. -/
inductive Action.Posts : Action κ → Event → Prop where
  | post {id : String} {value : Option Value} {transient : Bool} (hid : id ≠ "") :
      Posts (.post id value transient) ⟨id, .rules, !transient, value, hid⟩
  | sequence {as : List (Action κ)} {a : Action κ} {e : Event} :
      a ∈ as → Posts a e → Posts (.sequence as) e

section Execution

variable {w : Surroundings κ ω} {rule : String} {trigger : Event}

theorem execute_post {id : String} {value : Option Value} {transient : Bool} (hid : id ≠ "")
    (s : ω) : Action.execute w rule trigger (.post id value transient) s =
      (.success, w.post ⟨id, .rules, !transient, value, hid⟩ s) := by
  rw [Action.execute, Event.make, dif_neg hid]

theorem executeAll_eq_success {as : List (Action κ)}
    (h : ∀ a ∈ as, ∀ s, (a.execute w rule trigger s).1 = .success) (s : ω) :
    (Action.executeAll w rule trigger as s).1 = .success := by
  induction as generalizing s with
  | nil => rfl
  | cons a as ih =>
    obtain ⟨ha, has⟩ := List.forall_mem_cons.mp h
    rw [Action.executeAll]
    split
    · rfl
    · have hsplit : a.execute w rule trigger s = (.success, (a.execute w rule trigger s).2) :=
        Prod.ext (ha s) rfl
      rw [hsplit]
      exact ih has _

theorem Action.Safe.execute_eq_success {a : Action κ} (h : a.Safe) (s : ω) :
    (a.execute w rule trigger s).1 = .success := by
  induction h generalizing s with
  | post hid => rw [execute_post hid]
  | log => rfl
  | sequence _ ih =>
    rw [Action.execute]
    exact executeAll_eq_success ih s

end Execution

theorem Action.Safe.ofList {as : List (Action κ)} (h : ∀ a ∈ as, a.Safe) :
    (Action.ofList as).Safe := by
  match as with
  | [] => exact .sequence h
  | [a] => exact h a List.mem_cons_self
  | a :: b :: as => exact .sequence h

section Loading

variable {ds : List (Definition κ)}

/-- Of definitions with names, one is only left out for its trigger or for a name that is taken. -/
theorem verdicts_spec (h : ∀ d ∈ ds, Text.allBlank d.name = false) (loaded : List String) :
    ∀ v ∈ verdicts loaded ds, ∃ d ∈ ds,
      (∃ trigger, v = .ok ⟨d.name, trigger, d.action⟩) ∨
      (∃ e, Trigger.compile d.trigger = .error e ∧ v = .error (.compile d.name e)) ∨
      v = .error (.duplicate d.name) := by
  induction ds generalizing loaded with
  | nil => exact fun v hv => absurd hv List.not_mem_nil
  | cons d ds ih =>
    obtain ⟨hd, hds⟩ := List.forall_mem_cons.mp h
    have hlater : ∀ names, ∀ v ∈ verdicts names ds, ∃ d' ∈ d :: ds, _ := fun names v hv =>
      (ih hds names v hv).imp fun d' hd' => hd'.imp_left (List.mem_cons_of_mem d)
    intro v hv
    rw [verdicts, Definition.compile, hd, if_neg Bool.false_ne_true] at hv
    split at hv
    · rcases List.mem_cons.mp hv with rfl | hv
      · exact ⟨d, List.mem_cons_self, .inr (.inr rfl)⟩
      · exact hlater _ v hv
    · cases hc : Trigger.compile d.trigger with
      | error e =>
        rw [hc] at hv
        rcases List.mem_cons.mp hv with rfl | hv
        · exact ⟨d, List.mem_cons_self, .inr (.inl ⟨e, hc, rfl⟩)⟩
        · exact hlater _ v hv
      | ok trigger =>
        rw [hc] at hv
        rcases List.mem_cons.mp hv with rfl | hv
        · exact ⟨d, List.mem_cons_self, .inl ⟨trigger, rfl⟩⟩
        · exact hlater _ v hv

theorem errors_load (h : ∀ d ∈ ds, Text.allBlank d.name = false) :
    ∀ e ∈ (load ds).errors, ∃ d ∈ ds,
      (∃ ce, Trigger.compile d.trigger = .error ce ∧ e = .compile d.name ce) ∨
        e = .duplicate d.name := by
  intro e he
  obtain ⟨v, hv, hve⟩ := List.mem_filterMap.mp he
  obtain ⟨d, hd, hspec⟩ := verdicts_spec h [] v hv
  refine ⟨d, hd, ?_⟩
  rcases hspec with ⟨trigger, rfl⟩ | ⟨ce, hce, rfl⟩ | rfl
  · cases hve
  · cases hve
    exact .inl ⟨ce, hce, rfl⟩
  · cases hve
    exact .inr rfl

theorem rules_load (h : ∀ d ∈ ds, Text.allBlank d.name = false) :
    ∀ r ∈ (load ds).rules, ∃ d ∈ ds, r.name = d.name ∧ r.action = d.action := by
  intro r hr
  obtain ⟨v, hv, hvr⟩ := List.mem_filterMap.mp hr
  obtain ⟨d, hd, hspec⟩ := verdicts_spec h [] v hv
  refine ⟨d, hd, ?_⟩
  rcases hspec with ⟨trigger, rfl⟩ | ⟨ce, hce, rfl⟩ | rfl
  · cases hvr
    exact ⟨rfl, rfl⟩
  · cases hvr
  · cases hvr

end Loading

end Rules

namespace Session

variable {σ : Type} {P : Event → Prop}

/-- What an action does to a session: a post that returns, or a line in the log. -/
inductive Acts (P : Event → Prop) : Session σ → Session σ → Prop where
  | post {s t : Session σ} {depth : Nat} {e : Event} :
      P e → s.post depth e = some t → Acts P s t
  | log {s : Session σ} (n : Notice) : Acts P s (s.log n)

abbrev Onward (P : Event → Prop) : Session σ → Session σ → Prop :=
  Relation.ReflTransGen (Acts P)

/-- Wherever posts of these events and lines in the log lead to, the posts do not nest without
end. -/
def PostsEnd (P : Event → Prop) (s : Session σ) : Prop :=
  ∀ t e, Onward P s t → P e → Scene.FinitelyNested t e

theorem PostsEnd.onward {s t : Session σ} (h : s.PostsEnd P) (ht : Onward P s t) : t.PostsEnd P :=
  fun u e hu => h u e (ht.trans hu)

end Session

namespace Home

open Session

variable {P : Event → Prop} {id : TaskId} {task rule : String} {trigger : Event}

theorem Onward.orderlyBus {rank : String → Nat} {s t : State} (h : Onward P s t)
    (hs : OrderlyBus rank s) : OrderlyBus rank t := by
  induction h with
  | refl => exact hs
  | tail _ hacts ih =>
    cases hacts with
    | log n => exact ih
    | @post _ depth e _ hpost =>
      obtain ⟨v, hv, hproceeds⟩ := postsReturn (rank e.id + 1) _ e (Nat.lt_succ_self _) ih
      have hpost' := Scene.post_eq_some_of_le hpost (Nat.le_max_left depth (rank e.id + 1))
      have hv' := Scene.post_eq_some_of_le hv (Nat.le_max_right depth (rank e.id + 1))
      rw [Option.some.inj (hpost'.symm.trans hv')]
      exact hproceeds.bus

/-- On a bus with orderly listeners, whether they fail or panic, all posts return. -/
theorem postsEnd_of_orderlyBus {rank : String → Nat} {s : State} (hs : OrderlyBus rank s) :
    s.PostsEnd P := by
  intro t e ht _
  obtain ⟨u, hu, -⟩ := postsReturn (rank e.id + 1) t e (Nat.lt_succ_self _)
    (Onward.orderlyBus ht hs)
  exact Scene.finitelyNested_iff.mpr ⟨_, u, hu⟩

/-- Where the posts of these events return, the action gets to its end and ends well. -/
def Completes (P : Event → Prop) (a : Action Embedded) (id : TaskId) (task rule : String)
    (trigger : Event) : Prop :=
  ∀ s : State, s.PostsEnd P → ∃ n t, Onward P s t ∧ ∀ m, n ≤ m →
    a.execute (surroundings m id task) rule trigger (some s) = (.success, some t)

theorem completes_sequence {as : List (Action Embedded)}
    (h : ∀ a ∈ as, Completes P a id task rule trigger) :
    Completes P (.sequence as) id task rule trigger := by
  intro s hs
  simp only [Action.execute]
  induction as generalizing s with
  | nil => exact ⟨0, s, .refl, fun _ _ => rfl⟩
  | cons a as ih =>
    obtain ⟨ha, has⟩ := List.forall_mem_cons.mp h
    by_cases hstop : s.state.scheduler.isInterrupted id = true
    · refine ⟨0, s, .refl, fun m _ => ?_⟩
      rw [Action.executeAll]
      exact if_pos hstop
    · obtain ⟨n, t, ht, hfirst⟩ := ha s hs
      obtain ⟨n', u, hu, hrest⟩ := ih has t (hs.onward ht)
      -- One bound on the nesting has to do for the first action and for the rest.
      refine ⟨max n n', u, ht.trans hu, fun m hm => ?_⟩
      have hgo : (surroundings m id task).isInterrupted (some s) ≠ true := hstop
      rw [Action.executeAll, if_neg hgo, hfirst m (Nat.le_trans (Nat.le_max_left n n') hm)]
      exact hrest m (Nat.le_trans (Nat.le_max_right n n') hm)

theorem completes_of_safe {a : Action Embedded} (ha : a.Safe) (hP : ∀ e, a.Posts e → P e) :
    Completes P a id task rule trigger := by
  induction ha with
  | @post eid value transient hid =>
    intro s hs
    let e : Event := ⟨eid, .rules, !transient, value, hid⟩
    have he : P e := hP e (.post hid)
    obtain ⟨n, t, ht⟩ := Scene.finitelyNested_iff.mp (hs s e .refl he)
    refine ⟨n, t, .single (.post he ht), fun m hm => ?_⟩
    have hpost : s.post m e = some t := Scene.post_eq_some_of_le ht hm
    rw [execute_post hid]
    exact congrArg (Prod.mk Outcome.success) hpost
  | log => exact fun s _ => ⟨0, _, .single (.log _), fun _ _ => rfl⟩
  | sequence _ ih =>
    exact completes_sequence fun a ha => ih a ha fun e he => hP e (.sequence ha he)

section Tasks

variable {h : Home} {t : Scheduler.Task (Firing Embedded)}

/-- What a home comes to when a task has ended well: nothing was logged about its end, and if it was
running until then, whoever waits for it is told that it succeeded. -/
def EndsWell (h : Home) (id : TaskId) (h' : Home) : Prop :=
  ∃ s : State, h' = { h with session := finishTask s id .success } ∧
    h'.session.history = s.history ∧
    (s.state.scheduler.phase? id = some .running →
      h'.session.state.scheduler.result? id = some (.ok ()))

theorem endsWell_finishTask (h : Home) (s : State) (id : TaskId) :
    EndsWell h id { h with session := finishTask s id .success } := by
  let scheduler := (s.state.scheduler.finish id .success).1
  have hnotices : (s.state.scheduler.finish id .success).2 = [] := by
    show (s.state.scheduler.conclude id .success).2 = []
    unfold Scheduler.conclude
    split
    · split <;> rfl
    · rfl
  have hfinish : finishTask s id .success = { s with state := { s.state with scheduler } } := by
    show Session.logAll _ (s.state.scheduler.finish id .success).2 = _
    rw [hnotices]
    rfl
  refine ⟨s, rfl, by rw [hfinish], fun hrunning => ?_⟩
  have hconcluded : ((s.state.scheduler.conclude id .success).1.phase? id).bind Phase.outcome? =
      some .success := by
    have hending := phase?_conclude (o := .success) hrunning
    rw [Move.apply] at hending
    rw [hending]
    rfl
  have hended : scheduler.phase? id = some (.ended .success) := phase?_release hconcluded
  rw [hfinish]
  show scheduler.result? id = _
  rw [Scheduler.result?, hended]
  rfl

/-- The task of an action that cannot fail ends well if it ends, and it does where posts return. -/
theorem runTask_of_safe (ht : h.session.state.scheduler.tasks[id]? = some t)
    (ha : t.work.action.Safe) :
    (∀ bound h', runTask bound h id = some h' → EndsWell h id h') ∧
    ((beginTask h.session id).PostsEnd t.work.action.Posts →
      ∃ n h', EndsWell h id h' ∧ ∀ m, n ≤ m → runTask m h id = some h') := by
  let s := beginTask h.session id
  by_cases halive : h.alive = true
  · have hrun : ∀ m, runTask m h id =
        (t.work.action.execute (surroundings m id t.name) t.work.rule t.work.trigger
          (some s)).2.map fun s => { h with session := finishTask s id .success } := by
      intro m
      rw [runTask, ht]
      simp only [halive, if_true, ha.execute_eq_success]
      rfl
    constructor
    · intro m h' hm
      rw [hrun m] at hm
      obtain ⟨u, -, rfl⟩ := Option.map_eq_some_iff.mp hm
      exact endsWell_finishTask h u id
    · intro hposts
      obtain ⟨n, u, -, hexec⟩ := completes_of_safe ha (fun _ he => he) s hposts
      refine ⟨n, _, endsWell_finishTask h u id, fun m hm => ?_⟩
      rw [hrun m, hexec m hm]
      rfl
  · have hrun : ∀ m, runTask m h id = some { h with session := finishTask s id .success } := by
      intro m
      rw [runTask, ht]
      exact if_neg halive
    refine ⟨fun m h' hm => ?_, fun _ => ⟨0, _, endsWell_finishTask h s id, fun m _ => hrun m⟩⟩
    rw [← Option.some.inj ((hrun m).symm.trans hm)]
    exact endsWell_finishTask h s id

end Tasks

end Home

end HomeAutomation
