import HomeAutomation.Proofs.Bus.Cache
import HomeAutomation.Proofs.Trigger.Visiting

/-! Which events matter to a condition. Its leaves decide what it evaluates to and which comparisons
that takes, and no leaf takes notice of an event that it does not reference, neither as the one that
arrives nor as a latest one. -/

namespace HomeAutomation.Trigger

namespace Expr

mutual

theorem references_eq_any {id : String} :
    ∀ t : Expr, references id t = (leaves t).any (Leaf.references id)
  | .or es => referencesAny_eq_any es
  | .and es => referencesAny_eq_any es
  | .not e => references_eq_any e
  | .transient token => by simp [references, leaves, Leaf.references]
  | .compare c => by simp [references, leaves, Leaf.references]

theorem referencesAny_eq_any {id : String} :
    ∀ ts : List Expr, referencesAny id ts = (leavesAll ts).any (Leaf.references id)
  | [] => rfl
  | t :: ts => by
    rw [referencesAny, leavesAll, List.any_append, references_eq_any t, referencesAny_eq_any ts]

end

theorem references_leaf {id : String} {t : Expr} (h : references id t = false) :
    ∀ l ∈ leaves t, l.references id = false := by
  rw [references_eq_any, List.any_eq_false] at h
  exact fun l hl => Bool.eq_false_iff.mpr (h l hl)

/-- Two runs are the same if they are so at the leaves, errors and visited comparisons included. -/
theorem run_congr {e f : Event} {values values' : Values} (t : Expr)
    (h : ∀ l ∈ leaves t, l.run e values = l.run f values') : run e values t = run f values' t :=
  (run_congr_visits t fun l hl => h l ((visits_sublist t).subset hl)).1

end Expr

theorem values_store {β : Type} {b : Bus β} {e : Event} {id : String} (h : id ≠ e.id) :
    (b.store e).values id = b.values id := by
  unfold Bus.store
  split
  · exact Cache.values_put.trans (if_neg h)
  · rfl

namespace Condition

/-- An event that a condition does not reference counts as little as any other such event when it
arrives, and for no event later on when the bus keeps it. -/
theorem eval_unreferenced {c : Condition} {e : Event} (h : c.references e.id = false) :
    (∀ (values : Values) (f : Event), c.references f.id = false →
      c.eval e values = c.eval f values) ∧
    ∀ (β : Type) (b : Bus β) (p : Event), c.eval p (b.store e).values = c.eval p b.values := by
  have hleaf := Expr.references_leaf h
  constructor
  · intro values f hf
    have hleaf' := Expr.references_leaf hf
    exact congrArg Run.result <| Expr.run_congr c.root fun l hl =>
      Leaf.run_eq_of_not_references (hleaf l hl) (hleaf' l hl)
  · intro β b p
    exact congrArg Run.result <| Expr.run_congr c.root fun l hl =>
      Leaf.run_eq_of_values (hleaf l hl) fun i hi => values_store hi

def guarded : Condition :=
  ⟨"armed == true & !door", .and [.compare ⟨"armed", .eq, .literal (.bool true), 1⟩,
    .not (.transient "door")]⟩

def doorbell : Event := ⟨"doorbell", .ui, true, some (.string "long"), by decide⟩

theorem eval_unreferenced_doorbell :
    guarded.references "doorbell" = false ∧
    (∀ values : Values, guarded.eval doorbell values =
      guarded.eval (Lifecycle.ready).event values) ∧
    ∀ (b : Bus Unit) (p : Event),
      guarded.eval p (b.store doorbell).values = guarded.eval p b.values := by
  have h : guarded.references doorbell.id = false := by decide
  have hready : guarded.references (Lifecycle.ready).event.id = false := by decide
  obtain ⟨harrives, hkept⟩ := eval_unreferenced h
  exact ⟨h, fun values => harrives values _ hready, hkept Unit⟩

end Condition

end HomeAutomation.Trigger
