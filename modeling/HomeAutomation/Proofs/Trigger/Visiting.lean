import HomeAutomation.Trigger.Eval
import Mathlib.Data.List.Basic

/-! Which leaves of a condition a run comes to. It goes from left to right and comes to no leaf
twice; a disjunction ends with its first child that holds, a conjunction with its first that does
not, and both with an error. What a run does not come to cannot change it. -/

namespace HomeAutomation.Trigger

inductive Leaf where
  | transient (token : String)
  | compare (c : Comparison)

namespace Leaf

def references (id : String) : Leaf → Bool
  | .transient token => matchesTransient token id
  | .compare c => c.id == id

def run (event : Event) (values : Values) : Leaf → Run
  | .transient token => ⟨[], .ok (matchesTransient token event.id)⟩
  | .compare c => ⟨[c], c.eval event values⟩

def comparison? : Leaf → Option Comparison
  | .transient _ => none
  | .compare c => some c

theorem run_eq_of_not_references {l : Leaf} {e f : Event} {values : Values}
    (he : l.references e.id = false) (hf : l.references f.id = false) :
    l.run e values = l.run f values := by
  cases l with
  | transient token =>
    have heq : matchesTransient token e.id = matchesTransient token f.id := he.trans hf.symm
    simp only [run, heq]
  | compare c =>
    have hne : c.id ≠ e.id := by simpa [references] using he
    have hnf : c.id ≠ f.id := by simpa [references] using hf
    simp only [run, Comparison.eval, Comparison.resolve, if_neg hne, if_neg hnf]

theorem run_eq_of_values {l : Leaf} {id : String} {e : Event} {values values' : Values}
    (hl : l.references id = false) (hv : ∀ i, i ≠ id → values i = values' i) :
    l.run e values = l.run e values' := by
  cases l with
  | transient token => rfl
  | compare c =>
    have hne : c.id ≠ id := by simpa [references] using hl
    simp only [run, Comparison.eval, Comparison.resolve, hv c.id hne]

theorem run_congr {l : Leaf} {e : Event} {values values' : Values}
    (h : ∀ c, l.comparison? = some c → values' c.id = values c.id) :
    l.run e values = l.run e values' := by
  cases l with
  | transient token => rfl
  | compare c => simp only [run, Comparison.eval, Comparison.resolve, h c rfl]

end Leaf

namespace Run

/-- Whether a run over several children goes on behind the one that ends like this. -/
def leavesOpen (deciding : Bool) (r : Run) : Bool :=
  match r.result with
  | .ok b => b != deciding
  | .error _ => false

variable {r : Run} {deciding : Bool}

theorem leavesOpen_iff : r.leavesOpen deciding = true ↔ r.result = .ok (!deciding) := by
  obtain ⟨visited, result⟩ := r
  cases result with
  | ok b => cases b <;> cases deciding <;> simp [leavesOpen]
  | error m => simp [leavesOpen]

end Run

namespace Expr

mutual

/-- From left to right. -/
def leaves : Expr → List Leaf
  | .or es => leavesAll es
  | .and es => leavesAll es
  | .not e => leaves e
  | .transient token => [.transient token]
  | .compare c => [.compare c]

def leavesAll : List Expr → List Leaf
  | [] => []
  | e :: es => leaves e ++ leavesAll es

end

section Visits

variable (event : Event) (values : Values)

mutual

/-- The leaves that a run comes to, one after another. -/
def visits : Expr → List Leaf
  | .or es => visitsUntil true es
  | .and es => visitsUntil false es
  | .not e => visits e
  | .transient token => [.transient token]
  | .compare c => [.compare c]

def visitsUntil (deciding : Bool) : List Expr → List Leaf
  | [] => []
  | e :: es =>
    if (run event values e).leavesOpen deciding then visits e ++ visitsUntil deciding es
    else visits e

end

/-- A run over several children passes those that leave it open and ends with the first that does
not, if there is one. -/
def EndsWithFirst (deciding : Bool) (es : List Expr) (visited : List Leaf)
    (result : Except TypeMismatch Bool) : Prop :=
  ∃ passed rest, es = passed ++ rest ∧
    (∀ e ∈ passed, (run event values e).result = .ok (!deciding)) ∧
    (∀ e ∈ rest.head?, (run event values e).result ≠ .ok (!deciding)) ∧
    visited = (passed ++ rest.head?.toList).flatMap (visits event values) ∧
    result = rest.head?.elim (.ok (!deciding)) fun e => (run event values e).result

end Visits

section Children

variable {event : Event} {values : Values} {deciding : Bool} {e : Expr} {es : List Expr}

theorem runUntil_cons : runUntil event values deciding (e :: es) =
    if (run event values e).leavesOpen deciding then
      ⟨(run event values e).visited ++ (runUntil event values deciding es).visited,
        (runUntil event values deciding es).result⟩
    else run event values e := by
  rw [runUntil, Run.leavesOpen]
  generalize run event values e = r
  obtain ⟨visited, result⟩ := r
  cases result with
  | ok b => by_cases hb : b = deciding <;> simp [hb]
  | error m => rfl

theorem endsWithFirst_runUntil (event : Event) (values : Values) (deciding : Bool)
    (es : List Expr) :
    EndsWithFirst event values deciding es (visitsUntil event values deciding es)
      (runUntil event values deciding es).result := by
  induction es with
  | nil => exact ⟨[], [], rfl, by simp, by simp, rfl, rfl⟩
  | cons e es ih =>
    by_cases hopen : (run event values e).leavesOpen deciding = true
    · obtain ⟨passed, rest, rfl, hpassed, hrest, hvisits, hresult⟩ := ih
      refine ⟨e :: passed, rest, rfl, ?_, hrest, ?_, ?_⟩
      · exact List.forall_mem_cons.mpr ⟨Run.leavesOpen_iff.mp hopen, hpassed⟩
      · rw [visitsUntil, if_pos hopen, hvisits]
        rfl
      · rw [runUntil_cons, if_pos hopen]
        exact hresult
    · refine ⟨[], e :: es, rfl, by simp, ?_, ?_, ?_⟩
      · simpa using mt Run.leavesOpen_iff.mpr hopen
      · rw [visitsUntil, if_neg hopen]
        simp
      · rw [runUntil_cons, if_neg hopen]
        rfl

end Children

section Visits

variable {event : Event} {values : Values}

mutual

theorem visited_run : ∀ t : Expr,
    (run event values t).visited = (visits event values t).filterMap Leaf.comparison?
  | .or es => visited_runUntil true es
  | .and es => visited_runUntil false es
  | .not t => visited_run t
  | .transient _ | .compare _ => rfl

theorem visited_runUntil (deciding : Bool) : ∀ ts : List Expr,
    (runUntil event values deciding ts).visited =
      (visitsUntil event values deciding ts).filterMap Leaf.comparison?
  | [] => rfl
  | t :: ts => by
    rw [runUntil_cons, visitsUntil]
    split
    · rw [List.filterMap_append, ← visited_run t, ← visited_runUntil deciding ts]
    · exact visited_run t

end

mutual

theorem visits_sublist : ∀ t : Expr, (visits event values t).Sublist (leaves t)
  | .or es => visitsUntil_sublist true es
  | .and es => visitsUntil_sublist false es
  | .not t => visits_sublist t
  | .transient _ | .compare _ => .refl _

theorem visitsUntil_sublist (deciding : Bool) : ∀ ts : List Expr,
    (visitsUntil event values deciding ts).Sublist (leavesAll ts)
  | [] => .slnil
  | t :: ts => by
    rw [visitsUntil, leavesAll]
    split
    · exact (visits_sublist t).append (visitsUntil_sublist deciding ts)
    · exact (visits_sublist t).trans (List.sublist_append_left _ _)

end

end Visits

section Congruence

variable {e f : Event} {values values' : Values}

mutual

/-- Two runs are the same, and come to the same leaves, if they are so at the leaves that the first
one comes to. -/
theorem run_congr_visits : ∀ t : Expr,
    (∀ l ∈ visits e values t, l.run e values = l.run f values') →
      run e values t = run f values' t ∧ visits e values t = visits f values' t
  | .or es, h => runUntil_congr_visits true es h
  | .and es, h => runUntil_congr_visits false es h
  | .not t, h => by
    obtain ⟨hrun, hvisits⟩ := run_congr_visits t h
    rw [run, run, hrun]
    exact ⟨rfl, hvisits⟩
  | .transient token, h => ⟨h (.transient token) List.mem_cons_self, rfl⟩
  | .compare c, h => ⟨h (.compare c) List.mem_cons_self, rfl⟩

theorem runUntil_congr_visits (deciding : Bool) : ∀ ts : List Expr,
    (∀ l ∈ visitsUntil e values deciding ts, l.run e values = l.run f values') →
      runUntil e values deciding ts = runUntil f values' deciding ts ∧
        visitsUntil e values deciding ts = visitsUntil f values' deciding ts
  | [], _ => ⟨rfl, rfl⟩
  | t :: ts, h => by
    rw [visitsUntil] at h
    by_cases hopen : (run e values t).leavesOpen deciding = true
    · rw [if_pos hopen] at h
      obtain ⟨hrun, hvisits⟩ := run_congr_visits t fun l hl => h l (List.mem_append_left _ hl)
      obtain ⟨hruns, hrest⟩ :=
        runUntil_congr_visits deciding ts fun l hl => h l (List.mem_append_right _ hl)
      rw [runUntil_cons, runUntil_cons, visitsUntil, visitsUntil, hrun, hruns, hvisits, hrest]
      exact ⟨rfl, rfl⟩
    · -- The second run ends with the same child, so what it would have met later does not matter.
      rw [if_neg hopen] at h
      obtain ⟨hrun, hvisits⟩ := run_congr_visits t h
      rw [runUntil_cons, runUntil_cons, visitsUntil, visitsUntil, if_neg hopen, if_neg hopen,
        ← hrun, ← hvisits, if_neg hopen, if_neg hopen]
      exact ⟨rfl, rfl⟩

end

end Congruence

end Expr

section Mismatches

variable {c : Comparison} {event : Event} {values : Values} {m : TypeMismatch}

theorem Comparison.eval_eq_error_iff : c.eval event values = .error m ↔
    ∃ v found, c.operand = .literal v ∧ c.resolve event values = some found ∧
      v.kind ≠ found.kind ∧ m = ⟨c.line, c.id, v.kind, found.kind⟩ := by
  rw [Comparison.eval]
  cases c.resolve event values with
  | none => cases hop : c.operand <;> simp [Comparison.holds, hop]
  | some found =>
    cases hop : c.operand with
    | unknown => simp [Comparison.holds, hop]
    | literal v =>
      by_cases hkind : v.kind = found.kind
      · simp [Comparison.holds, hop, hkind]
      · simp [Comparison.holds, hop, hkind, Ne.symm hkind, eq_comm]

/-- How the comparisons that a run came to account for its result. -/
def Run.Accounts (event : Event) (values : Values) (r : Run) : Prop :=
  match r.result with
  | .ok _ => ∀ c ∈ r.visited, ∃ b, c.eval event values = .ok b
  | .error m => ∃ before c, r.visited = before ++ [c] ∧ c.eval event values = .error m ∧
      ∀ d ∈ before, ∃ b, d.eval event values = .ok b

namespace Expr

mutual

theorem accounts_run : ∀ t : Expr, (run event values t).Accounts event values
  | .or es => accounts_runUntil true es
  | .and es => accounts_runUntil false es
  | .not t => by
    have h := accounts_run t
    rw [run]
    unfold Run.Accounts at h ⊢
    cases hr : (run event values t).result with
    | ok b =>
      rw [hr] at h
      exact h
    | error m =>
      rw [hr] at h
      exact h
  | .transient token => by simp [run, Run.Accounts]
  | .compare c => by
    rw [run, Run.Accounts]
    cases hc : c.eval event values with
    | ok b => simp [hc]
    | error m => exact ⟨[], c, rfl, hc, by simp⟩

theorem accounts_runUntil (deciding : Bool) : ∀ ts : List Expr,
    (runUntil event values deciding ts).Accounts event values
  | [] => by simp [runUntil, Run.Accounts]
  | t :: ts => by
    have ht := accounts_run t
    rw [runUntil_cons]
    split
    · next hopen =>
      have hts := accounts_runUntil deciding ts
      unfold Run.Accounts at ht hts ⊢
      -- The child came to an answer, so none of its comparisons was a mismatch.
      rw [Run.leavesOpen_iff.mp hopen] at ht
      cases hr : (runUntil event values deciding ts).result with
      | ok b =>
        rw [hr] at hts
        simp only [List.forall_mem_append]
        exact ⟨ht, hts⟩
      | error m =>
        rw [hr] at hts
        obtain ⟨before, c, heq, hc, hbefore⟩ := hts
        refine ⟨(run event values t).visited ++ before, c, ?_, hc, ?_⟩
        · simp [heq]
        · exact List.forall_mem_append.mpr ⟨ht, hbefore⟩
    · exact ht

end

end Expr

end Mismatches

namespace Expr

/-- Only the comparisons that a run comes to count: with other values that agree with the first ones
at their ids it goes the same way to the same end. If that is a type mismatch, it is the one of the
comparison that the run came to last. -/
theorem only_visited_count (t : Expr) (event : Event) (values : Values) :
    (visits event values t).Sublist (leaves t) ∧
    (run event values t).visited = (visits event values t).filterMap Leaf.comparison? ∧
    (∀ es, t = .or es → EndsWithFirst event values true es (visits event values t)
      (run event values t).result) ∧
    (∀ es, t = .and es → EndsWithFirst event values false es (visits event values t)
      (run event values t).result) ∧
    (∀ values' : Values, (∀ c ∈ (run event values t).visited, values' c.id = values c.id) →
      run event values' t = run event values t ∧ visits event values' t = visits event values t) ∧
    (∀ m, (run event values t).result = .error m → ∃ before c v found,
      (run event values t).visited = before ++ [c] ∧ c.operand = .literal v ∧
        c.resolve event values = some found ∧ m = ⟨c.line, c.id, v.kind, found.kind⟩ ∧
        m.expected ≠ m.found ∧ ∀ d ∈ before, ∃ b, d.eval event values = .ok b) ∧
    ∀ c ∈ (run event values t).visited, ∀ m, c.eval event values = .error m →
      (run event values t).result = .error m := by
  have haccounts : (run event values t).Accounts event values := accounts_run t
  unfold Run.Accounts at haccounts
  refine ⟨visits_sublist t, visited_run t, ?_, ?_, fun values' hagree => ?_, fun m hm => ?_,
    fun c hc m hm => ?_⟩
  · rintro es rfl
    exact endsWithFirst_runUntil event values true es
  · rintro es rfl
    exact endsWithFirst_runUntil event values false es
  · obtain ⟨hrun, hvisits⟩ := run_congr_visits t fun l hl => Leaf.run_congr fun c hc =>
      hagree c (visited_run t ▸ List.mem_filterMap.mpr ⟨l, hl, hc⟩)
    exact ⟨hrun.symm, hvisits.symm⟩
  · rw [hm] at haccounts
    obtain ⟨before, c, hvisited, hc, hbefore⟩ := haccounts
    obtain ⟨v, found, hop, hfound, hkind, rfl⟩ := Comparison.eval_eq_error_iff.mp hc
    exact ⟨before, c, v, found, hvisited, hop, hfound, rfl, hkind, hbefore⟩
  · cases hr : (run event values t).result with
    | ok b =>
      rw [hr] at haccounts
      obtain ⟨b, hb⟩ := haccounts c hc
      cases hb.symm.trans hm
    | error m' =>
      rw [hr] at haccounts
      obtain ⟨before, d, hvisited, hd, hbefore⟩ := haccounts
      rw [hvisited, List.mem_append, List.mem_singleton] at hc
      rcases hc with hc | rfl
      · obtain ⟨b, hb⟩ := hbefore c hc
        cases hb.symm.trans hm
      · exact hd.symm.trans hm

def armed : Comparison := ⟨"armed", .eq, .literal (.bool true), 1⟩

def locked : Comparison := ⟨"lock", .eq, .literal (.string "shut"), 2⟩

/-- The lock is only looked at as long as nobody is at the door. -/
def watched : Expr := .and [.or [.compare armed, .compare locked], .not (.transient "door"),
  .compare locked]

/-- The lock is no text here; the first look at it is skipped, and the second one is not. -/
theorem only_visited_count_watched :
    let door : Event := ⟨"door.open", .ui, false, none, by decide⟩
    let ready := Lifecycle.ready.event
    let values : Values := fun _ => some (.bool true)
    let values' : Values := fun id => if id = "armed" then some (.bool true) else none
    run door values' watched = run door values watched ∧
      visits door values' watched = [.compare armed, .transient "door"] ∧
      (run door values watched).result = .ok false ∧
      (run ready values watched).visited = [armed, locked] ∧
      (run ready values watched).result = .error ⟨2, "lock", .string, .boolean⟩ := by
  intro door ready values values'
  have hopened : (run door values watched).visited = [armed] := by decide
  have hunlocked : (run ready values watched).visited = [armed, locked] := by decide
  have hagree : ∀ c ∈ (run door values watched).visited, values' c.id = values c.id := by
    simp [hopened, values, values', armed]
  obtain ⟨-, -, -, -, hother, -, -⟩ := only_visited_count watched door values
  obtain ⟨hrun, hvisits⟩ := hother values' hagree
  obtain ⟨-, -, -, -, -, -, hreached⟩ := only_visited_count watched ready values
  exact ⟨hrun, hvisits.trans (by cbv), by cbv, hunlocked,
    hreached locked (by simp [hunlocked]) _ (by cbv)⟩

end Expr

end HomeAutomation.Trigger
