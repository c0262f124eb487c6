import HomeAutomation.Proofs.Trigger.Visiting
import Mathlib.Data.List.Forall2
import Mathlib.Logic.Relation

/-! Conditions in which negations stand at leaves only and no group stands in a group of its kind.
Every condition can be brought to this form, and to one such condition only; each move on the way
leaves alone which comparisons a run comes to, in which order, and how it ends. For that, runs in a
row are one run, however they are taken together. -/

namespace HomeAutomation.Trigger

namespace Run

/-- The run over no children. -/
def idle (deciding : Bool) : Run := ⟨[], .ok (!deciding)⟩

/-- A run, and the run over the children behind it if it leaves these open. -/
def followed (deciding : Bool) (r rest : Run) : Run :=
  if r.leavesOpen deciding then ⟨r.visited ++ rest.visited, rest.result⟩ else r

def negated (r : Run) : Run := ⟨r.visited, r.result.map Bool.not⟩

variable {deciding : Bool} {r rest : Run}

theorem followed_of_open (h : r.leavesOpen deciding = true) :
    r.followed deciding rest = ⟨r.visited ++ rest.visited, rest.result⟩ := if_pos h

theorem followed_of_closed (h : r.leavesOpen deciding = false) :
    r.followed deciding rest = r := if_neg (by simp [h])

theorem idle_followed (r : Run) : (idle deciding).followed deciding r = r :=
  followed_of_open (leavesOpen_iff.mpr rfl)

theorem followed_idle (r : Run) : r.followed deciding (idle deciding) = r := by
  cases h : r.leavesOpen deciding with
  | false => exact followed_of_closed h
  | true =>
    obtain ⟨visited, result⟩ := r
    obtain rfl : result = .ok (!deciding) := leavesOpen_iff.mp h
    rw [followed_of_open h]
    simp [idle]

theorem followed_assoc (r s t : Run) :
    (r.followed deciding s).followed deciding t =
      r.followed deciding (s.followed deciding t) := by
  cases hr : r.leavesOpen deciding with
  | false => rw [followed_of_closed hr, followed_of_closed hr, followed_of_closed hr]
  | true =>
    have hrest : (⟨r.visited ++ s.visited, s.result⟩ : Run).leavesOpen deciding =
        s.leavesOpen deciding := rfl
    rw [followed_of_open hr, followed_of_open hr]
    cases hs : s.leavesOpen deciding with
    | false => rw [followed_of_closed (hrest.trans hs), followed_of_closed hs]
    | true => rw [followed_of_open (hrest.trans hs), followed_of_open hs, List.append_assoc]

theorem negated_negated (r : Run) : r.negated.negated = r := by
  obtain ⟨visited, _ | b⟩ := r
  · rfl
  · simp [negated, Except.map]

theorem leavesOpen_negated : r.negated.leavesOpen (!deciding) = r.leavesOpen deciding := by
  obtain ⟨visited, _ | b⟩ := r
  · rfl
  · cases b <;> cases deciding <;> rfl

theorem negated_followed :
    (r.followed deciding rest).negated = r.negated.followed (!deciding) rest.negated := by
  cases h : r.leavesOpen deciding with
  | false => rw [followed_of_closed h, followed_of_closed (leavesOpen_negated.trans h)]
  | true =>
    rw [followed_of_open h, followed_of_open (leavesOpen_negated.trans h)]
    rfl

end Run

namespace Expr

/-- A group that its first child with this result decides. -/
def junction (deciding : Bool) (es : List Expr) : Expr := bif deciding then .or es else .and es

def isJunction (deciding : Bool) : Expr → Bool
  | .or _ => deciding
  | .and _ => !deciding
  | _ => false

def isLeaf : Expr → Bool
  | .transient _ | .compare _ => true
  | _ => false

section Runs

variable {event : Event} {values : Values} {deciding : Bool}

theorem run_junction (es : List Expr) :
    run event values (junction deciding es) = runUntil event values deciding es := by
  cases deciding <;> rfl

theorem runUntil_append (es fs : List Expr) : runUntil event values deciding (es ++ fs) =
    (runUntil event values deciding es).followed deciding (runUntil event values deciding fs) := by
  induction es with
  | nil => exact (Run.idle_followed _).symm
  | cons e es ih =>
    have hcons (es : List Expr) : runUntil event values deciding (e :: es) =
        (run event values e).followed deciding (runUntil event values deciding es) := runUntil_cons
    rw [List.cons_append, hcons, hcons, ih, Run.followed_assoc]

theorem runUntil_singleton (e : Expr) :
    runUntil event values deciding [e] = run event values e :=
  runUntil_cons.trans (Run.followed_idle _)

theorem runUntil_map_not (es : List Expr) : runUntil event values (!deciding) (es.map .not) =
    (runUntil event values deciding es).negated := by
  induction es with
  | nil => cases deciding <;> rfl
  | cons e es ih =>
    have hnot : run event values (.not e) = (run event values e).negated := rfl
    calc runUntil event values (!deciding) (.not e :: es.map .not)
      _ = (run event values (.not e)).followed (!deciding)
            (runUntil event values (!deciding) (es.map .not)) := runUntil_cons
      _ = ((run event values e).followed deciding (runUntil event values deciding es)).negated := by
            rw [hnot, ih, Run.negated_followed]
      _ = (runUntil event values deciding (e :: es)).negated :=
            congrArg Run.negated runUntil_cons.symm

end Runs

/-- One move towards the form: De Morgan's laws and double negation push a negation down, and a
group goes into the group of its kind around it. -/
inductive Simplifies : Expr → Expr → Prop
  | pushGroup (deciding : Bool) (es : List Expr) :
      Simplifies (.not (junction deciding es)) (junction (!deciding) (es.map .not))
  | pushTwice (e : Expr) : Simplifies (.not (.not e)) e
  | splice (deciding : Bool) (before inner after : List Expr) :
      Simplifies (junction deciding (before ++ junction deciding inner :: after))
        (junction deciding (before ++ inner ++ after))
  | within (deciding : Bool) (before : List Expr) {e f : Expr} (after : List Expr) :
      Simplifies e f →
      Simplifies (junction deciding (before ++ e :: after))
        (junction deciding (before ++ f :: after))
  | underNot {e f : Expr} : Simplifies e f → Simplifies (.not e) (.not f)

theorem Simplifies.run_eq {t u : Expr} (h : Simplifies t u) (event : Event) (values : Values) :
    run event values u = run event values t := by
  have hgroup (deciding : Bool) (before : List Expr) (e : Expr) (after : List Expr) :
      run event values (junction deciding (before ++ e :: after)) =
        ((runUntil event values deciding before).followed deciding
          (run event values e)).followed deciding (runUntil event values deciding after) := by
    rw [run_junction, List.append_cons, runUntil_append, runUntil_append,
      runUntil_singleton]
  induction h with
  | pushGroup deciding es =>
    calc run event values (junction (!deciding) (es.map .not))
      _ = (runUntil event values deciding es).negated := by rw [run_junction, runUntil_map_not]
      _ = run event values (.not (junction deciding es)) := by rw [← run_junction]; rfl
  | pushTwice e => exact (Run.negated_negated _).symm
  | splice deciding before inner after =>
    rw [hgroup, run_junction, run_junction, runUntil_append, runUntil_append]
  | within deciding before after _ ih => rw [hgroup, hgroup, ih]
  | underNot _ ih => exact congrArg Run.negated ih

theorem run_eq_of_steps {t u : Expr} (h : Relation.ReflTransGen Simplifies t u) (event : Event)
    (values : Values) : run event values u = run event values t := by
  induction h with
  | refl => rfl
  | tail _ hstep ih => rw [hstep.run_eq, ih]

def signed (negated : Bool) (e : Expr) : Expr := bif negated then .not e else e

mutual

/-- A condition, or its negation, with every negation at a leaf. -/
def pushed (negated : Bool) : Expr → Expr
  | .or es => junction (!negated) (pushedAll negated es)
  | .and es => junction negated (pushedAll negated es)
  | .not e => pushed (!negated) e
  | .transient token => signed negated (.transient token)
  | .compare c => signed negated (.compare c)

def pushedAll (negated : Bool) : List Expr → List Expr
  | [] => []
  | e :: es => pushed negated e :: pushedAll negated es

end

/-- What a condition puts into a group around it. -/
def children (deciding : Bool) : Expr → List Expr
  | .or es => bif deciding then es else [.or es]
  | .and es => bif deciding then [.and es] else es
  | e => [e]

mutual

/-- A condition with every group put into the group of its kind around it. -/
def spliced : Expr → Expr
  | .or es => .or (splicedUnder true es)
  | .and es => .and (splicedUnder false es)
  | .not e => .not (spliced e)
  | .transient token => .transient token
  | .compare c => .compare c

def splicedUnder (deciding : Bool) : List Expr → List Expr
  | [] => []
  | e :: es => children deciding (spliced e) ++ splicedUnder deciding es

end

def normal (t : Expr) : Expr := spliced (pushed false t)

/-- Negations stand at leaves only, and no group stands in a group of its kind. -/
inductive IsNormal : Expr → Prop
  | or {es : List Expr} : (∀ e ∈ es, IsNormal e) → (∀ e ∈ es, e.isJunction true = false) →
      IsNormal (.or es)
  | and {es : List Expr} : (∀ e ∈ es, IsNormal e) → (∀ e ∈ es, e.isJunction false = false) →
      IsNormal (.and es)
  | leaf {e : Expr} : e.isLeaf = true → IsNormal e
  | notLeaf {e : Expr} : e.isLeaf = true → IsNormal (.not e)

section Forms

variable {deciding negated : Bool} {e t u : Expr} {es : List Expr}

theorem pushedAll_eq_map (es : List Expr) : pushedAll negated es = es.map (pushed negated) := by
  induction es with
  | nil => rfl
  | cons e es ih => rw [pushedAll, ih, List.map_cons]

theorem pushed_junction : pushed negated (junction deciding es) =
    junction (negated ^^ deciding) (es.map (pushed negated)) := by
  cases deciding <;> simp [junction, pushed, pushedAll_eq_map]

theorem splicedUnder_eq_flatMap (es : List Expr) :
    splicedUnder deciding es = es.flatMap fun e => children deciding (spliced e) := by
  induction es with
  | nil => rfl
  | cons e es ih => rw [splicedUnder, ih, List.flatMap_cons]

theorem spliced_junction : spliced (junction deciding es) =
    junction deciding (es.flatMap fun e => children deciding (spliced e)) := by
  cases deciding <;> simp [junction, spliced, splicedUnder_eq_flatMap]

theorem children_junction : children deciding (junction deciding es) = es := by
  cases deciding <;> rfl

theorem children_cases (deciding : Bool) (e : Expr) : (∃ es, e = junction deciding es) ∨
    e.isJunction deciding = false ∧ children deciding e = [e] := by
  cases e <;> cases deciding <;> simp [junction, isJunction, children]

theorem isJunction_junction : (junction deciding es).isJunction deciding = true := by
  cases deciding <;> rfl

theorem isNormal_junction_iff : (junction deciding es).IsNormal ↔
    ∀ e ∈ es, e.IsNormal ∧ e.isJunction deciding = false := by
  constructor
  · intro h e he
    cases deciding with
    | true =>
      cases h with
      | or hnormal hkind => exact ⟨hnormal e he, hkind e he⟩
      | leaf hleaf => cases hleaf
    | false =>
      cases h with
      | and hnormal hkind => exact ⟨hnormal e he, hkind e he⟩
      | leaf hleaf => cases hleaf
  · intro h
    cases deciding with
    | true => exact .or (fun e he => (h e he).1) fun e he => (h e he).2
    | false => exact .and (fun e he => (h e he).1) fun e he => (h e he).2

theorem IsNormal.children (h : e.IsNormal) :
    ∀ f ∈ children deciding e, f.IsNormal ∧ f.isJunction deciding = false := by
  rcases children_cases deciding e with ⟨es, rfl⟩ | ⟨hkind, heq⟩
  · rw [children_junction]
    exact isNormal_junction_iff.mp h
  · simp [heq, h, hkind]

mutual

theorem isNormal_spliced_pushed : ∀ (t : Expr) (negated : Bool),
    (spliced (pushed negated t)).IsNormal
  | .or es, negated => by
    rw [pushed, pushedAll_eq_map, spliced_junction, isNormal_junction_iff]
    exact isNormal_children_spliced_pushed es negated _
  | .and es, negated => by
    rw [pushed, pushedAll_eq_map, spliced_junction, isNormal_junction_iff]
    exact isNormal_children_spliced_pushed es negated _
  | .not t, negated => isNormal_spliced_pushed t !negated
  | .transient token, negated => by
    cases negated <;> [exact .leaf rfl; exact .notLeaf rfl]
  | .compare c, negated => by
    cases negated <;> [exact .leaf rfl; exact .notLeaf rfl]

theorem isNormal_children_spliced_pushed : ∀ (ts : List Expr) (negated deciding : Bool),
    ∀ e ∈ (ts.map (pushed negated)).flatMap fun e => children deciding (spliced e),
      e.IsNormal ∧ e.isJunction deciding = false
  | [], _, _ => by simp
  | t :: ts, negated, deciding => by
    rw [List.map_cons, List.flatMap_cons, List.forall_mem_append]
    exact ⟨(isNormal_spliced_pushed t negated).children,
      isNormal_children_spliced_pushed ts negated deciding⟩

end

end Forms

section Steps

open Relation

variable {deciding : Bool} {t u : Expr} {es fs : List Expr}

theorem steps_within (deciding : Bool) (before after : List Expr)
    (h : ReflTransGen Simplifies t u) :
    ReflTransGen Simplifies (junction deciding (before ++ t :: after))
      (junction deciding (before ++ u :: after)) :=
  h.lift (fun e => junction deciding (before ++ e :: after)) fun _ _ hstep =>
    hstep.within deciding before after

theorem steps_junction (deciding : Bool) (before : List Expr)
    (h : List.Forall₂ (ReflTransGen Simplifies) es fs) :
    ReflTransGen Simplifies (junction deciding (before ++ es))
      (junction deciding (before ++ fs)) := by
  induction h generalizing before with
  | nil => exact .refl
  | @cons e f es fs he _ ih =>
    have hrest := ih (before ++ [f])
    simp only [List.append_assoc, List.singleton_append] at hrest
    exact (steps_within deciding before es he).trans hrest

mutual

theorem steps_pushed : ∀ (t : Expr) (negated : Bool),
    ReflTransGen Simplifies (signed negated t) (pushed negated t)
  | .or es, false => by
    rw [pushed, pushedAll_eq_map]
    exact steps_junction true [] (by simpa [signed] using steps_pushedAll es false)
  | .or es, true => by
    rw [pushed, pushedAll_eq_map]
    exact .head (.pushGroup true es)
      (steps_junction false [] (by simpa [signed] using steps_pushedAll es true))
  | .and es, false => by
    rw [pushed, pushedAll_eq_map]
    exact steps_junction false [] (by simpa [signed] using steps_pushedAll es false)
  | .and es, true => by
    rw [pushed, pushedAll_eq_map]
    exact .head (.pushGroup false es)
      (steps_junction true [] (by simpa [signed] using steps_pushedAll es true))
  | .not t, false => steps_pushed t true
  | .not t, true => .head (.pushTwice t) (steps_pushed t false)
  | .transient _, _ | .compare _, _ => .refl

theorem steps_pushedAll : ∀ (ts : List Expr) (negated : Bool),
    List.Forall₂ (ReflTransGen Simplifies) (ts.map (signed negated)) (ts.map (pushed negated))
  | [], _ => .nil
  | t :: ts, negated => .cons (steps_pushed t negated) (steps_pushedAll ts negated)

end

theorem steps_children (deciding : Bool) (before after : List Expr) (e : Expr) :
    ReflTransGen Simplifies (junction deciding (before ++ e :: after))
      (junction deciding (before ++ children deciding e ++ after)) := by
  rcases children_cases deciding e with ⟨es, rfl⟩ | ⟨-, heq⟩
  · rw [children_junction]
    exact .single (.splice deciding before es after)
  · rw [heq, List.append_assoc, List.singleton_append]

mutual

theorem steps_spliced : ∀ t : Expr, ReflTransGen Simplifies t (spliced t)
  | .or es => steps_splicedUnder es true []
  | .and es => steps_splicedUnder es false []
  | .not t => (steps_spliced t).lift Expr.not fun _ _ => .underNot
  | .transient _ | .compare _ => .refl

theorem steps_splicedUnder : ∀ (ts : List Expr) (deciding : Bool) (before : List Expr),
    ReflTransGen Simplifies (junction deciding (before ++ ts))
      (junction deciding (before ++ splicedUnder deciding ts))
  | [], _, _ => .refl
  | t :: ts, deciding, before => by
    have hhead := steps_within deciding before ts (steps_spliced t)
    have hrest := steps_splicedUnder ts deciding (before ++ children deciding (spliced t))
    rw [splicedUnder, ← List.append_assoc]
    exact (hhead.trans (steps_children deciding before ts (spliced t))).trans hrest

end

theorem steps_normal (t : Expr) : ReflTransGen Simplifies t t.normal :=
  (steps_pushed t false).trans (steps_spliced (pushed false t))

theorem Simplifies.spliced_pushed_eq (h : Simplifies t u) :
    ∀ negated, spliced (pushed negated t) = spliced (pushed negated u) := by
  induction h with
  | pushGroup deciding es =>
    intro negated
    have hnot : (es.map .not).map (pushed negated) = es.map (pushed !negated) := by
      rw [List.map_map]
      rfl
    rw [pushed, pushed_junction, pushed_junction, hnot]
    cases negated <;> cases deciding <;> rfl
  | pushTwice e =>
    intro negated
    rw [pushed, pushed, Bool.not_not]
  | splice deciding before inner after =>
    intro negated
    simp only [pushed_junction, spliced_junction, List.map_append, List.map_cons,
      List.flatMap_append, List.flatMap_cons, children_junction, List.append_assoc]
  | within deciding before after _ ih =>
    intro negated
    simp only [pushed_junction, spliced_junction, List.map_append, List.map_cons,
      List.flatMap_append, List.flatMap_cons, ih negated]
  | underNot _ ih => exact fun negated => ih !negated

theorem normal_eq_of_steps (h : ReflTransGen Simplifies t u) : t.normal = u.normal := by
  induction h with
  | refl => rfl
  | tail _ hstep ih => exact ih.trans (hstep.spliced_pushed_eq false)

theorem not_simplifies_of_isLeaf (h : t.isLeaf = true) : ¬ Simplifies t u := by
  intro hstep
  cases hstep with
  | splice deciding | within deciding => cases deciding <;> cases h
  | pushGroup | pushTwice | underNot => cases h

theorem IsNormal.not_simplifies (h : t.IsNormal) : ¬ Simplifies t u := by
  intro hstep
  induction hstep with
  | pushGroup deciding es =>
    cases h with
    | leaf hleaf => cases hleaf
    | notLeaf hleaf => cases deciding <;> cases hleaf
  | pushTwice e =>
    cases h with
    | leaf hleaf | notLeaf hleaf => cases hleaf
  | splice deciding before inner after =>
    have hinner := (isNormal_junction_iff.mp h _ (List.mem_append_right _ List.mem_cons_self)).2
    rw [isJunction_junction] at hinner
    cases hinner
  | within deciding before after _ ih =>
    exact ih (isNormal_junction_iff.mp h _ (List.mem_append_right _ List.mem_cons_self)).1
  | underNot hstep _ =>
    cases h with
    | leaf hleaf => cases hleaf
    | notLeaf hleaf => exact not_simplifies_of_isLeaf hleaf hstep

theorem IsNormal.normal_eq (h : t.IsNormal) : t.normal = t := by
  rcases (steps_normal t).cases_head with heq | ⟨u, hstep, -⟩
  · exact heq.symm
  · exact absurd hstep h.not_simplifies

end Steps

/-- Every condition runs like the one form of it in which negations stand at leaves only and no
group stands in a group of its kind, and like all that it goes through on the way there: the same
comparisons in the same order, and the same answer or the same type mismatch. -/
theorem runs_alike_in_normal_form (t : Expr) :
    (∀ event values, run event values t.normal = run event values t) ∧
    Relation.ReflTransGen Simplifies t t.normal ∧ t.normal.IsNormal ∧
    ∀ u, Relation.ReflTransGen Simplifies t u →
      (∀ event values, run event values u = run event values t) ∧ (u.IsNormal → u = t.normal) := by
  refine ⟨run_eq_of_steps (steps_normal t), steps_normal t, isNormal_spliced_pushed t false,
    fun u hu => ⟨run_eq_of_steps hu, fun hnormal => ?_⟩⟩
  exact hnormal.normal_eq.symm.trans (normal_eq_of_steps hu).symm

/-- The alarm is armed, the lock is not shut, and the door was not opened. -/
def guarded : Expr := .not (.or [.or [], .not (.and [.compare armed, .not (.compare locked)]),
  .or [.transient "door"]])

/-- The lock is no text here, which comes out however far the condition is rewritten. -/
theorem runs_alike_in_normal_form_guarded :
    let ready := Lifecycle.ready.event
    let values : Values := fun _ => some (.bool true)
    let halfway : Expr := .not (.or [.not (.and [.compare armed, .not (.compare locked)]),
      .or [.transient "door"]])
    guarded.normal =
      .and [.compare armed, .not (.compare locked), .not (.transient "door")] ∧
    Relation.ReflTransGen Simplifies guarded halfway ∧
    run ready values halfway = run ready values guarded ∧
    (run ready values guarded.normal).visited = [armed, locked] ∧
    (run ready values guarded.normal).result = .error ⟨2, "lock", .string, .boolean⟩ := by
  intro ready values halfway
  have hhalfway : Relation.ReflTransGen Simplifies guarded halfway :=
    .single (.underNot (.splice true [] [] _))
  obtain ⟨hrun, -, -, hsteps⟩ := runs_alike_in_normal_form guarded
  refine ⟨by decide, hhalfway, (hsteps halfway hhalfway).1 ready values, ?_, ?_⟩
  · rw [hrun]
    decide
  · rw [hrun]
    cbv

end Expr

end HomeAutomation.Trigger
