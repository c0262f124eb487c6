import HomeAutomation.Home
import HomeAutomation.Proofs.Scheduler.Submitting

/-! Rules do not get into each other's way. What comes of an event that is put to a list of rules
is what each of them does by itself, one after the other: it fires, warns of a mismatch or does
nothing. -/

namespace HomeAutomation

open Rules Scheduler

namespace Rules

variable {κ : Type}

def Rule.fires (r : Rule κ) (e : Event) (values : Trigger.Values) : Bool :=
  r.trigger.references e.id &&
    match r.trigger.eval e values with
    | .ok holds => holds
    | .error _ => false

def Rule.mismatch? (r : Rule κ) (e : Event) (values : Trigger.Values) :
    Option Trigger.TypeMismatch :=
  if r.trigger.references e.id then
    match r.trigger.eval e values with
    | .ok _ => none
    | .error m => some m
  else none

/-- The actions of the rules that fire, in the order of the rules. -/
def firings (rs : List (Rule κ)) (e : Event) (values : Trigger.Values) : List (Firing κ) :=
  (rs.filter fun r => r.fires e values).map fun r => ⟨r.name, r.action, e⟩

/-- The line that the log gets on account of a rule: its trigger is at fault, or it fires and its
action is rejected. -/
def warnings (accepting : Bool) (e : Event) (values : Trigger.Values) (r : Rule κ) : List Notice :=
  match r.mismatch? e values with
  | some m => [.triggerFailed r.name e.id m.message]
  | none => if r.fires e values && !accepting then [.taskRejected ("rule:" ++ r.name)] else []

section Verdicts

variable {r : Rule κ} {e : Event} {values : Trigger.Values}

theorem Rule.fires_iff : r.fires e values = true ↔
    r.trigger.references e.id = true ∧ r.trigger.eval e values = .ok true := by
  rw [Rule.fires, Bool.and_eq_true]
  cases r.trigger.eval e values with
  | ok holds => simp
  | error m => simp

theorem Rule.mismatch?_eq_some_iff {m : Trigger.TypeMismatch} : r.mismatch? e values = some m ↔
    r.trigger.references e.id = true ∧ r.trigger.eval e values = .error m := by
  rw [Rule.mismatch?]
  cases r.trigger.references e.id with
  | false => simp
  | true => cases r.trigger.eval e values <;> simp

/-- What a rule does, told by whether it fires and which mismatch there is. -/
theorem Rule.verdict_spec (r : Rule κ) (e : Event) (values : Trigger.Values) :
    match r.verdict e values with
    | .unconcerned | .quiet => r.fires e values = false ∧ r.mismatch? e values = none
    | .fires => r.fires e values = true ∧ r.mismatch? e values = none
    | .mismatch m => r.fires e values = false ∧ r.mismatch? e values = some m := by
  rw [Rule.verdict, Rule.fires, Rule.mismatch?]
  cases r.trigger.references e.id with
  | false => exact ⟨rfl, rfl⟩
  | true =>
    cases r.trigger.eval e values with
    | error m => exact ⟨rfl, rfl⟩
    | ok holds => cases holds <;> exact ⟨rfl, rfl⟩

end Verdicts

theorem firings_append (rs rs' : List (Rule κ)) (e : Event) (values : Trigger.Values) :
    firings (rs ++ rs') e values = firings rs e values ++ firings rs' e values := by
  rw [firings, List.filter_append, List.map_append]
  rfl

end Rules

namespace Scheduler

variable {κ : Type}

/-- The task that a rule's action becomes. -/
def ruleTask (stopped : Bool) (f : Firing κ) : Task (Firing κ) :=
  ⟨"rule:" ++ f.rule, .worker, true, f, false, if stopped then .dropped else .queued⟩

/-- A scheduler that was given actions of rules, in this order. -/
def given (s : Scheduler (Firing κ)) (fs : List (Firing κ)) : Scheduler (Firing κ) :=
  if s.accepting then
    { s with
      tasks := s.tasks ++ fs.map (ruleTask s.stopped)
      active := if s.stopped then s.active else s.active + fs.length }
  else s

section Given

variable {s : Scheduler (Firing κ)} {fs gs : List (Firing κ)} {f : Firing κ}

theorem given_nil : s.given [] = s := by
  rw [given]
  split
  · cases s with
    | mk settings tasks accepting interrupted active stopped => cases stopped <;> simp
  · rfl

theorem accepting_given : (s.given fs).accepting = s.accepting := by
  rw [given]
  split <;> rfl

theorem given_given : (s.given fs).given gs = s.given (fs ++ gs) := by
  by_cases h : s.accepting = true
  · have hgiven : s.given fs = { s with
        tasks := s.tasks ++ fs.map (ruleTask s.stopped)
        active := if s.stopped then s.active else s.active + fs.length } := if_pos h
    rw [hgiven, given, given, if_pos h, if_pos h]
    cases s.stopped <;> simp [Nat.add_assoc]
  · rw [given, given, given, if_neg h, if_neg h, if_neg h]

theorem submit_eq_given : (s.submit f.task none).2 =
    (s.given [f], if s.accepting then [] else [.taskRejected ("rule:" ++ f.rule)]) := by
  by_cases h : s.accepting = true
  · rw [submit_eq_accepted h (.inr rfl), given, if_pos h, if_pos h]
    cases hstopped : s.stopped <;> simp [taking, ruleTask, Firing.task, hstopped]
  · have hrejected := (submit_of_not_accepting ((Bool.not_eq_true _).mp h) f.task none).2
    rw [hrejected, given, if_neg h, if_neg h]
    rfl

end Given

end Scheduler

namespace Home

/-- A session whose event was put to rules. -/
def told (s : State) (rs : List (Rule Embedded)) (e : Event) (values : Trigger.Values) : State :=
  { s with
    state := { s.state with scheduler := s.state.scheduler.given (firings rs e values) }
    history := s.history ++
      (rs.flatMap (warnings s.state.scheduler.accepting e values)).map .logged }

section Told

variable {s : State} {e : Event} {values : Trigger.Values}
  {post : State → Event → Option State}

theorem told_nil : told s [] e values = s := by
  have hgiven : s.state.scheduler.given (firings [] e values) = s.state.scheduler := given_nil
  simp [told, hgiven]

theorem told_append (rs rs' : List (Rule Embedded)) :
    told s (rs ++ rs') e values = told (told s rs e values) rs' e values := by
  simp only [told, firings_append, given_given, accepting_given, List.flatMap_append,
    List.map_append, List.append_assoc]

theorem react_logAll (ns : List Notice) (next : Reaction Surface) :
    Session.react post (Rules.logAll ns next) s = Session.react post next (s.logAll ns) := by
  induction ns generalizing s with
  | nil => rfl
  | cons n ns ih => exact ih

theorem logAll_eq (ns : List Notice) :
    s.logAll ns = { s with history := s.history ++ ns.map .logged } := by
  induction ns generalizing s with
  | nil => simp [Session.logAll]
  | cons n ns ih =>
    have hcons : s.logAll (n :: ns) = (s.log n).logAll ns := rfl
    rw [hcons, ih]
    simp [Session.log, Session.record]

theorem submit_eq (f : Firing Embedded) (x : Surface) :
    submit f x = ({ x with scheduler := x.scheduler.given [f] },
      if x.scheduler.accepting then [] else [.taskRejected ("rule:" ++ f.rule)]) := by
  show ({ x with scheduler := (x.scheduler.submit f.task none).2.1 },
    (x.scheduler.submit f.task none).2.2) = _
  rw [submit_eq_given]

theorem told_singleton_of_quiet {r : Rule Embedded} (h : r.fires e values = false) :
    told s [r] e values =
      s.logAll (warnings s.state.scheduler.accepting e values r) := by
  have hfirings : firings [r] e values = [] := by simp [firings, h]
  rw [told, hfirings, given_nil, logAll_eq, List.flatMap_singleton]

theorem told_singleton_of_fires {r : Rule Embedded} (h : r.fires e values = true)
    (hm : r.mismatch? e values = none) : told s [r] e values =
      { s with state := (submit ⟨r.name, r.action, e⟩ s.state).1 }.logAll
        (submit ⟨r.name, r.action, e⟩ s.state).2 := by
  have hfirings : firings [r] e values = [⟨r.name, r.action, e⟩] := by simp [firings, h]
  have hwarnings : warnings s.state.scheduler.accepting e values r =
      if s.state.scheduler.accepting then [] else [.taskRejected ("rule:" ++ r.name)] := by
    rw [warnings, hm, h]
    cases s.state.scheduler.accepting <;> rfl
  rw [told, hfirings, submit_eq, logAll_eq, List.flatMap_singleton, hwarnings]

/-- A rule reacts by itself, and then the other rules do. -/
theorem react_cons (r : Rule Embedded) (rs : List (Rule Embedded)) :
    Session.react post (reactAll submit e values (r :: rs)) s =
      Session.react post (reactAll submit e values rs) (told s [r] e values) := by
  have hverdict := r.verdict_spec e values
  rw [reactAll]
  cases hr : r.verdict e values with
  | unconcerned | quiet =>
    rw [hr] at hverdict
    obtain ⟨hfires, hmismatch⟩ := hverdict
    have hwarnings : warnings s.state.scheduler.accepting e values r = [] := by
      rw [warnings, hmismatch, hfires]
      rfl
    rw [told_singleton_of_quiet hfires, hwarnings]
    rfl
  | mismatch m =>
    rw [hr] at hverdict
    obtain ⟨hfires, hmismatch⟩ := hverdict
    have hwarnings : warnings s.state.scheduler.accepting e values r =
        [.triggerFailed r.name e.id m.message] := by rw [warnings, hmismatch]
    rw [told_singleton_of_quiet hfires, hwarnings]
    rfl
  | fires =>
    rw [hr] at hverdict
    obtain ⟨hfires, hmismatch⟩ := hverdict
    rw [told_singleton_of_fires hfires hmismatch]
    exact react_logAll _ _

theorem react_reactAll (rs : List (Rule Embedded)) :
    Session.react post (reactAll submit e values rs) s =
      some (.success, told s rs e values) := by
  induction rs generalizing s with
  | nil =>
    rw [told_nil]
    rfl
  | cons r rs ih =>
    rw [react_cons, ih, ← told_append]
    rfl

end Told

/-- Rules always end well. To every one that fires the scheduler is given its action, in the order
of the rules, and one line is logged about every one whose trigger is at fault; a scheduler that is
shut down rejects the actions with a line for each. A list of rules does what the rules of its
first part do and then those of its second part. -/
theorem direct_spec (bound : Nat) (h : Home) (e : Event) :
    (h.alive = false → ∀ rs, h.direct bound rs e = some (.success, h)) ∧
      (h.alive = true → ∀ rs,
        let s := h.session
        let scheduler := s.state.scheduler
        let values := s.bus.values
        h.direct bound rs e = some (.success, { h with session := { s with
          state := { s.state with scheduler := scheduler.given (firings rs e values) }
          history := s.history ++
            (rs.flatMap (warnings scheduler.accepting e values)).map .logged } })) ∧
      ∀ rs rs', h.direct bound (rs ++ rs') e =
        (h.direct bound rs e).bind fun (_, t) => t.direct bound rs' e := by
  have hgone : h.alive = false → ∀ rs, h.direct bound rs e = some (.success, h) := by
    intro halive rs
    rw [direct, halive]
    rfl
  have htold : ∀ k : Home, k.alive = true → ∀ rs, k.direct bound rs e =
      some (.success, { k with session := told k.session rs e k.session.bus.values }) := by
    intro k halive rs
    rw [direct, if_pos halive]
    show (Session.react _ (reactAll submit e k.session.bus.values rs) k.session).map _ = _
    rw [react_reactAll]
    rfl
  refine ⟨hgone, htold h, fun rs rs' => ?_⟩
  cases halive : h.alive with
  | false =>
    rw [hgone halive, hgone halive]
    exact (hgone halive rs').symm
  | true =>
    rw [htold h halive, htold h halive, told_append]
    exact (htold { h with session := told h.session rs e h.session.bus.values } halive rs').symm

def door : Event := ⟨"door", .ui, true, some (.bool true), by decide⟩

/-- One rule with a trigger at fault, one that fires, one that does not and one that is not
concerned. -/
def crowd : List (Rule Embedded) :=
  [⟨"broken", ⟨"", .compare ⟨"door", .eq, .literal (.string "open"), 1⟩⟩, .log "broken"⟩,
    ⟨"watch", ⟨"", .transient "door"⟩, .log "open"⟩,
    ⟨"night", ⟨"", .compare ⟨"door", .eq, .literal (.bool false), 1⟩⟩, .log "closed"⟩,
    ⟨"bell", ⟨"", .transient "bell"⟩, .log "bell"⟩]

theorem direct_spec_crowd :
    let h : Home := { session := { state := { scheduler := { settings := ⟨1, 1, 5⟩ } } } }
    (∃ t, h.direct 0 crowd door = some (.success, t) ∧
      t.session.state.scheduler.tasks =
        [⟨"rule:watch", .worker, true, ⟨"watch", .log "open", door⟩, false, .queued⟩] ∧
      t.session.notices = [.triggerFailed "broken" "door"
        "line 1: type error: door is not a string (found boolean)"]) ∧
      ({ h with alive := false } : Home).direct 0 crowd door =
        some (.success, { h with alive := false }) := by
  intro h
  refine ⟨⟨_, (direct_spec 0 h door).2.1 rfl crowd, ?_, ?_⟩, ?_⟩
  · rfl
  · rfl
  · exact (direct_spec 0 { h with alive := false } door).1 rfl crowd

end Home

end HomeAutomation
