import Mathlib.Logic.Relation
import HomeAutomation.Bus.Traffic
import HomeAutomation.Proofs.Bus.Enrolment

/-! Who is registered while several threads, and the listeners that they call, come and go on one
bus. The registry keeps to what was observed, and every step changes it as it is observed to do. A
thread that has the bus to itself gets through its posts as the bus does on one thread. -/

namespace HomeAutomation.Bus

variable {σ : Type}

/-- The id that a job has taken and is yet to register. -/
def Job.taken : Job σ → List ListenerId
  | .register r => [r.id]
  | .run _ _ | .read _ | .deliver _ _ => []

namespace Traffic

def taken (js : List (Job σ)) : List ListenerId := js.flatMap Job.taken

variable {t : Traffic σ} {n : Nat} {js : List (Job σ)}

theorem step_eq_self (h : t.threads[n]? = none) : t.step n = t := by
  rw [step, h]

theorem step_eq (h : t.threads[n]? = some js) : t.step n =
    ⟨(jobStep n t.session js).1, t.threads.set n (jobStep n t.session js).2.1,
      t.observed ++ (jobStep n t.session js).2.2⟩ := by
  rw [step, h]

theorem act_jobStep (n : Nat) (s : Session σ) (js : List (Job σ)) :
    Act n s.bus (taken js) (jobStep n s js).2.2 (jobStep n s js).1.bus
      (taken (jobStep n s js).2.1) := by
  cases js with
  | nil => exact .silent
  | cons j js =>
    cases j with
    | read e => exact .silent
    | deliver e due =>
      cases due with
      | nil => exact .silent
      | cons l due => exact .received l.id e
    | register r => exact .registered r
    | run r called =>
      cases r with
      | finish o =>
        cases called with
        | none => exact .silent
        | some call => cases o <;> exact .silent
      | log notice next | update f next | look next | read next => exact .silent
      | subscribe name react next => exact .subscribed
      | unsubscribe id next => exact .unsubscribed id
      | post e next => exact .posted e
      | shutdown next => exact .detached

section Registering

/-- The bus is as the observations tell, with the ids that the threads have taken. -/
def Told (t : Traffic σ) : Prop :=
  ∃ ids, Enrolled t.observed ids t.session.bus ∧ ids.Perm (t.threads.flatMap taken)

theorem Told.step (h : t.Told) (n : Nat) : (t.step n).Told := by
  cases hn : t.threads[n]? with
  | none => rwa [step_eq_self hn]
  | some js =>
    obtain ⟨ids, hb, hids⟩ := h
    -- What the other threads have taken is the same before and after the step.
    obtain ⟨others, hbefore, hafter⟩ := exists_others hn taken
    obtain ⟨ids', hb', hids'⟩ :=
      (act_jobStep n t.session js).enrolled hb (hids.trans hbefore)
    rw [step_eq hn]
    exact ⟨ids', hb', hids'.trans (hafter _).symm⟩

theorem Told.run (h : t.Told) (schedule : List Nat) : (t.run schedule).Told := by
  induction schedule generalizing t with
  | nil => exact h
  | cons n schedule ih => exact ih (h.step n)

theorem Told.onRecord (h : t.Told) : OnRecord t.observed t.session.bus := by
  obtain ⟨ids, hb, -⟩ := h
  exact hb.onRecord

theorem Told.change (h : t.Told) (n : Nat) : ∃ seen, (t.step n).observed = t.observed ++ seen ∧
    Change n t.session.bus.listeners seen (t.step n).session.bus.listeners := by
  cases hn : t.threads[n]? with
  | none =>
    rw [step_eq_self hn]
    exact ⟨[], (List.append_nil _).symm, .none (by simp)⟩
  | some js =>
    have hnodup := h.onRecord.ids_nodup
    have hnodup' := (h.step n).onRecord.ids_nodup
    rw [step_eq hn] at hnodup' ⊢
    exact ⟨_, rfl, (act_jobStep n t.session js).change hnodup hnodup'⟩

/-- A listener registers another one while it is called, and a shutdown comes in between. -/
example :
    let quiet : Handler Unit := fun _ => .finish .success
    let hall : Handler Unit := fun _ => .subscribe "porch" quiet fun _ => .finish .success
    let bell : Event := ⟨"bell", .ui, false, none, by decide⟩
    let t := (start () [.subscribe "hall" hall fun _ => .post bell (.finish .success),
      .shutdown (.finish .success)]).run [0, 0, 0, 0, 0, 0, 1, 0]
    given t.observed = [1, 2] ∧ t.session.bus.registry.ids = [2] := by
  decide

end Registering

section Alone

/-- What a thread gets to, together with the session, while nobody else makes a step. -/
abbrev Alone (n : Nat) : Session σ × List (Job σ) → Session σ × List (Job σ) → Prop :=
  Relation.ReflTransGen fun c d => ((jobStep n c.1 c.2).1, (jobStep n c.1 c.2).2.1) = d

/-- A thread gets through a post that returns, with what the post returns. -/
def Passes (σ : Type) (n depth : Nat) : Prop :=
  ∀ {s t : Session σ} {e : Event}, s.post depth e = some t →
    ∀ js, Alone n (s.begin e, .read e :: js) (t, js)

variable {depth : Nat} {s u : Session σ} {e : Event} {r : Reaction σ}
  {called : Option (Registration (Handler σ) × Event)}

theorem alone_react (hp : Passes σ n depth) {o : Outcome}
    (h : Session.react (Session.post depth) r s = some (o, u)) :
    Alone n (s, .run r called :: js) (u, .run (.finish o) called :: js) := by
  induction r generalizing s with
  | finish o =>
    cases h
    exact .refl
  | log _ _ ih | update _ _ ih | shutdown _ ih => exact .head rfl (ih h)
  | look _ ih | read _ ih | unsubscribe _ _ ih => exact .head rfl (ih _ h)
  | subscribe name react next _ ih => exact .head rfl (.head rfl (ih _ h))
  | post f next ih =>
    obtain ⟨v, hv, h⟩ := Option.bind_eq_some_iff.mp h
    exact .head rfl ((hp hv (.run next called :: js)).trans (ih h))

theorem alone_deliver (hp : Passes σ n depth) {due : List (Registration (Handler σ))}
    (h : Session.deliver (Session.post depth) e due s = some u) :
    Alone n (s, .deliver e due :: js) (u.record (.postEnded e), js) := by
  induction due generalizing s with
  | nil =>
    cases h
    exact .single rfl
  | cons l due ih =>
    obtain ⟨⟨o, v⟩, hv, h⟩ := Option.bind_eq_some_iff.mp h
    exact .head rfl ((alone_react hp hv).trans (.head rfl (ih h)))

theorem passes (n depth : Nat) : Passes σ n depth := by
  induction depth with
  | zero =>
    intro s t e h
    cases h
  | succ depth ih =>
    intro s t e h js
    obtain ⟨u, hu, rfl⟩ := Option.map_eq_some_iff.mp h
    exact .head rfl (alone_deliver ih hu)

theorem exists_run_of_alone {c d : Session σ × List (Job σ)} (h : Alone n c d)
    (hs : t.session = c.1) (hn : t.threads[n]? = some c.2) :
    ∃ k, (t.run (List.replicate k n)).session = d.1 ∧
      (t.run (List.replicate k n)).threads = t.threads.set n d.2 := by
  induction h using Relation.ReflTransGen.head_induction_on generalizing t with
  | refl =>
    obtain ⟨hlt, heq⟩ := List.getElem?_eq_some_iff.mp hn
    refine ⟨0, hs, ?_⟩
    rw [← heq, List.set_getElem_self]
    rfl
  | @head c _ hstep _ ih =>
    obtain rfl := hstep
    have hnext := step_eq hn
    rw [hs] at hnext
    have hself : (t.step n).threads[n]? = some (jobStep n c.1 c.2).2.1 := by
      rw [hnext]
      exact List.getElem?_set_self (List.getElem?_eq_some_iff.mp hn).1
    obtain ⟨k, hsession, hthreads⟩ := ih (congrArg session hnext) hself
    refine ⟨k + 1, hsession, hthreads.trans ?_⟩
    rw [hnext, List.set_set]

/-- A reaction that returns on one thread is gone through by a thread that nobody comes between,
with the same effect. -/
theorem exists_run_react {o : Outcome}
    (h : Session.react (Session.post depth) r t.session = some (o, u))
    (hn : t.threads[n]? = some (.run r called :: js)) :
    ∃ k, (t.run (List.replicate k n)).session = u ∧
      (t.run (List.replicate k n)).threads = t.threads.set n (.run (.finish o) called :: js) :=
  exists_run_of_alone (alone_react (passes n depth) h) rfl hn

end Alone

end Traffic

end HomeAutomation.Bus
