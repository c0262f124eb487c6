import HomeAutomation.Proofs.Bus.Registry

/-! Histories of exact delivery. The rules say what may happen next on a bus while dispatches are
under way; a history that keeps to them can be read off for what every dispatch in it called. -/

namespace HomeAutomation

/-- A dispatch under way: the listeners that are still to be called with its event, and the one
that is being called. -/
structure Dispatch where
  event : Event
  due : Registry
  calling : Option (ListenerId × String)

/-- A moment on a bus: who is registered, and the dispatches under way, the innermost first. -/
structure Moment where
  registry : Registry
  dispatches : List Dispatch

/-- A call that has come to its end. -/
structure Ending where
  listener : ListenerId
  name : String
  event : Event
  outcome : Outcome

/-- The line that is due when a call ends: none if it ended well, and else one that names the
listener and the event and says what went wrong. -/
def lineDue? (id : ListenerId) (name : String) (e : Event) : Outcome → Option Notice
  | .success => none
  | .failure f => some (.listenerFailed id name e.id (": ".intercalate f.chain))
  | .panic (.text p) => some (.listenerPanicked id name e.id p)
  | .panic .other => some (.listenerPanicked id name e.id "unknown panic")

def Ending.line? (x : Ending) : Option Notice := lineDue? x.listener x.name x.event x.outcome

theorem Outcome.notice?_eq_lineDue? (o : Outcome) (id : ListenerId) (name : String) (e : Event) :
    o.notice? id name e = lineDue? id name e o := by
  cases o with
  | success | failure f => rfl
  | panic p => cases p <;> rfl

/-- What the bus logs at the end of a call: the line that is due, and nothing else. -/
def reports (id : ListenerId) (name : String) (e : Event) (o : Outcome) : List Happening :=
  (lineDue? id name e o).toList.map .reported

/-- What may happen next. Only the innermost dispatch calls a listener, the first one that is due,
and it ends when none is. Whatever a listener does while it is called, nobody else becomes due and
nobody ceases to be. -/
inductive Moment.Step : Moment → List Happening → Moment → Prop where
  | call {reg due : Registry} {e : Event} {id : ListenerId} {name : String} {ds : List Dispatch} :
      Step ⟨reg, ⟨e, (id, name) :: due, none⟩ :: ds⟩ [.called id e]
        ⟨reg, ⟨e, due, some (id, name)⟩ :: ds⟩
  | returned {reg due : Registry} {e : Event} {id : ListenerId} {name : String}
      {ds : List Dispatch} (o : Outcome) :
      Step ⟨reg, ⟨e, due, some (id, name)⟩ :: ds⟩ (.returned id name e o :: reports id name e o)
        ⟨reg, ⟨e, due, none⟩ :: ds⟩
  | finish {reg : Registry} {e : Event} {ds : List Dispatch} :
      Step ⟨reg, ⟨e, [], none⟩ :: ds⟩ [.postEnded e] ⟨reg, ds⟩
  /-- A nested dispatch is due to those who are registered now, to each of them once. -/
  | begin {reg : Registry} {d : Dispatch} {ds : List Dispatch} (e : Event) :
      d.calling.isSome = true → reg.ids.Nodup →
      Step ⟨reg, d :: ds⟩ [.postBegan e] ⟨reg, ⟨e, reg, none⟩ :: d :: ds⟩
  | subscribe {reg : Registry} {d : Dispatch} {ds : List Dispatch} (id : ListenerId)
      (name : String) : d.calling.isSome = true → id ∉ reg.ids →
      Step ⟨reg, d :: ds⟩ [.subscribed id name] ⟨reg ++ [(id, name)], d :: ds⟩
  | unsubscribe {reg : Registry} {d : Dispatch} {ds : List Dispatch} (id : ListenerId)
      (removed : Bool) : d.calling.isSome = true → (removed = true ↔ id ∈ reg.ids) →
      Step ⟨reg, d :: ds⟩ [.unsubscribed id removed] ⟨reg.without id, d :: ds⟩
  | detach {reg : Registry} {d : Dispatch} {ds : List Dispatch} : d.calling.isSome = true →
      Step ⟨reg, d :: ds⟩ [.detached reg.length] ⟨[], d :: ds⟩
  | log {reg : Registry} {d : Dispatch} {ds : List Dispatch} (n : Notice) :
      d.calling.isSome = true → Step ⟨reg, d :: ds⟩ [.logged n] ⟨reg, d :: ds⟩

/-- A history from one moment to another. -/
inductive Moment.Run : Moment → List Happening → Moment → Prop where
  | nil {m : Moment} : Run m [] m
  | step {m m₁ m₂ : Moment} {hs hs' : List Happening} :
      Step m hs m₁ → Run m₁ hs' m₂ → Run m (hs ++ hs') m₂

theorem Moment.Run.append {m m₁ m₂ : Moment} {hs hs' : List Happening} (h : Run m hs m₁)
    (h' : Run m₁ hs' m₂) : Run m (hs ++ hs') m₂ := by
  induction h with
  | nil => exact h'
  | step hstep _ ih =>
    rw [List.append_assoc]
    exact .step hstep (ih h')

theorem Moment.Step.run {m m' : Moment} {hs : List Happening} (h : Step m hs m') :
    Run m hs m' := by
  have hrun := Run.step h .nil
  rwa [List.append_nil] at hrun

/-- Who is registered after a happening. -/
def Registry.after (reg : Registry) : Happening → Registry
  | .subscribed id name => reg ++ [(id, name)]
  | .unsubscribed id _ => reg.without id
  | .detached _ => []
  | _ => reg

/-- The calls of the dispatch that has begun just now, up to its own end; there is none in a history
without it. Dispatches nested in it, `depth` of them at the time, make calls of their own. -/
def callsOf : Nat → List Happening → Option (List (ListenerId × Event))
  | _, [] => none
  | 0, .postEnded _ :: _ => some []
  | depth + 1, .postEnded _ :: hs => callsOf depth hs
  | depth, .postBegan _ :: hs => callsOf (depth + 1) hs
  | 0, .called id e :: hs => (callsOf 0 hs).map ((id, e) :: ·)
  | depth, _ :: hs => callsOf depth hs

/-- The line that the bus logs, if that is what happens. -/
def Happening.report? : Happening → Option Notice
  | .reported n => some n
  | _ => none

/-- The call that ends, if that is what happens. -/
def Happening.ending? : Happening → Option Ending
  | .returned id name e o => some ⟨id, name, e, o⟩
  | _ => none

section Reports

variable {id : ListenerId} {name : String} {e : Event} {o : Outcome}

theorem callsOf_reports {depth : Nat} {hs : List Happening} :
    callsOf depth (reports id name e o ++ hs) = callsOf depth hs := by
  rw [reports]
  cases lineDue? id name e o <;> simp [callsOf]

theorem filterMap_report_reports :
    (reports id name e o).filterMap Happening.report? = (lineDue? id name e o).toList := by
  rw [reports]
  cases lineDue? id name e o <;> rfl

theorem filterMap_ending_reports :
    (reports id name e o).filterMap Happening.ending? = [] := by
  rw [reports]
  cases lineDue? id name e o <;> rfl

theorem foldl_after_reports {reg : Registry} :
    (reports id name e o).foldl Registry.after reg = reg := by
  rw [reports]
  cases lineDue? id name e o <;> rfl

theorem postBegan_notMem_reports {f : Event} : .postBegan f ∉ reports id name e o := by
  simp [reports]

end Reports

namespace Moment

theorem Step.foldl_after {m m' : Moment} {hs : List Happening} (h : Step m hs m') :
    hs.foldl Registry.after m.registry = m'.registry := by
  cases h with
  | returned o => exact foldl_after_reports
  | _ => rfl

theorem Run.foldl_after {m m' : Moment} {hs : List Happening} (h : Run m hs m') :
    hs.foldl Registry.after m.registry = m'.registry := by
  induction h with
  | nil => rfl
  | step hstep _ ih => rw [List.foldl_append, hstep.foldl_after, ih]

theorem Run.reports_eq {m m' : Moment} {hs : List Happening} (h : Run m hs m') :
    hs.filterMap Happening.report? = (hs.filterMap Happening.ending?).filterMap Ending.line? := by
  induction h with
  | nil => rfl
  | step hstep _ ih =>
    rw [List.filterMap_append, List.filterMap_append, List.filterMap_append, ih]
    congr 1
    cases hstep with
    | @returned reg due e id name ds o =>
      rw [List.filterMap_cons, List.filterMap_cons, filterMap_report_reports,
        filterMap_ending_reports]
      show (lineDue? id name e o).toList = [Ending.mk id name e o].filterMap Ending.line?
      rw [List.filterMap_cons, Ending.line?]
      cases lineDue? id name e o <;> rfl
    | _ => rfl

/-- A nested post begins with nothing but its own beginning. -/
theorem Step.begin_inv {m m' : Moment} {hs : List Happening} {f : Event} (h : Step m hs m')
    (hf : .postBegan f ∈ hs) :
    hs = [.postBegan f] ∧ m.registry.ids.Nodup ∧
      m' = ⟨m.registry, ⟨f, m.registry, none⟩ :: m.dispatches⟩ := by
  cases h with
  | begin e hc hnd =>
    obtain rfl : f = e := by simpa using hf
    exact ⟨rfl, hnd, rfl⟩
  | returned o => simp [postBegan_notMem_reports] at hf
  | _ => cases List.mem_singleton.mp hf

/-- A run with a nested post in it goes on from the beginning of that post. -/
theorem Run.split {m m' : Moment} {hs later : List Happening} {f : Event} (h : Run m hs m')
    (before : List Happening) (heq : hs = before ++ .postBegan f :: later) :
    ∃ m₁ : Moment, Run m before m₁ ∧ m₁.registry.ids.Nodup ∧
      Run ⟨m₁.registry, ⟨f, m₁.registry, none⟩ :: m₁.dispatches⟩ later m' := by
  induction h generalizing before with
  | nil => simp at heq
  | @step m m₁ m₂ hs hs' hstep hrun ih =>
    rcases List.append_eq_append_iff.mp heq with ⟨between, rfl, heq'⟩ | ⟨cut, hcut, hrest⟩
    · obtain ⟨m₃, hbefore, hnd, hlater⟩ := ih between heq'
      exact ⟨m₃, .step hstep hbefore, hnd, hlater⟩
    · cases cut with
      | nil =>
        obtain rfl : hs = before := by simpa using hcut
        obtain ⟨m₃, hbefore, hnd, hlater⟩ := ih [] hrest.symm
        refine ⟨m₃, ?_, hnd, hlater⟩
        simpa using Run.step hstep hbefore
      | cons x cut =>
        obtain ⟨rfl, rfl⟩ := List.cons.inj hrest
        obtain ⟨hsingle, hnd, rfl⟩ := hstep.begin_inv (f := f) (by simp [hcut])
        rw [hsingle] at hcut
        rcases List.singleton_eq_append_iff.mp hcut with ⟨rfl, hlast⟩ | ⟨-, hlast⟩
        · obtain rfl := (List.cons.inj hlast).2
          exact ⟨m, .nil, hnd, hrun⟩
        · cases hlast

/-- A dispatch that comes to its end has called exactly those who were due, in their order. The
induction is on the history, with the nested dispatches that come and go in front of this one. -/
theorem Run.callsOf_eq {m m' : Moment} {hs : List Happening} (h : Run m hs m')
    (nested : List Dispatch) (d : Dispatch) {outer : List Dispatch}
    (hm : m.dispatches = nested ++ d :: outer)
    (hend : m'.dispatches.length ≤ outer.length) :
    callsOf nested.length hs = some (d.due.map fun l => (l.1, d.event)) := by
  induction h generalizing nested d with
  | nil =>
    rw [hm] at hend
    simp at hend
    omega
  | step hstep _ ih =>
    cases hstep with
    | @call reg due f id name ds =>
      cases nested with
      | nil =>
        obtain ⟨rfl, rfl⟩ := List.cons.inj hm
        exact congrArg (Option.map ((id, f) :: ·)) (ih [] ⟨f, due, some (id, name)⟩ rfl hend)
      | cons x nested =>
        obtain ⟨rfl, rfl⟩ := List.cons.inj hm
        exact ih (⟨f, due, some (id, name)⟩ :: nested) d rfl hend
    | @returned reg due f id name ds o =>
      simp only [List.cons_append, callsOf, callsOf_reports]
      cases nested with
      | nil =>
        obtain ⟨rfl, rfl⟩ := List.cons.inj hm
        exact ih [] ⟨f, due, none⟩ rfl hend
      | cons x nested =>
        obtain ⟨rfl, rfl⟩ := List.cons.inj hm
        exact ih (⟨f, due, none⟩ :: nested) d rfl hend
    | finish =>
      cases nested with
      | nil =>
        obtain ⟨rfl, rfl⟩ := List.cons.inj hm
        rfl
      | cons x nested =>
        obtain ⟨rfl, rfl⟩ := List.cons.inj hm
        exact ih nested d rfl hend
    | begin f => exact ih (_ :: nested) d (congrArg (_ :: ·) hm) hend
    | subscribe | unsubscribe | detach | log => exact ih nested d hm hend

end Moment

end HomeAutomation
