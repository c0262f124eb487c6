import HomeAutomation.Proofs.Trigger.Parsing
import HomeAutomation.Trigger.Canonical

/-! Which conditions have a text: groups of at least two, well-formed ids, finite numbers, order
only where there is one, and parentheses that do not nest too deep. Every condition that was
compiled is of this kind, whatever lines its comparisons stand on. -/

namespace HomeAutomation.Trigger

/-- Not-a-number and the infinities have no numeral. -/
def Operand.IsFinite : Operand → Prop
  | .literal (.number x) => x.isFinite = true
  | _ => True

namespace Expr

mutual

/-- The condition with every comparison on line zero. -/
def withoutLines : Expr → Expr
  | .or es => .or (withoutLinesAll es)
  | .and es => .and (withoutLinesAll es)
  | .not e => .not e.withoutLines
  | .transient token => .transient token
  | .compare c => .compare { c with line := 0 }

def withoutLinesAll : List Expr → List Expr
  | [] => []
  | e :: es => e.withoutLines :: withoutLinesAll es

end

mutual

/-- How deep the parentheses around groups nest in the canonical text. -/
def parentheses : Expr → Nat
  | .or es => parenthesesAll isOr es
  | .and es => parenthesesAll isOrAnd es
  | .not e => e.parentheses + e.isOrAndNot.toNat
  | .transient _ | .compare _ => 0

/-- The same over operands that stand in parentheses where `grouped` says so. -/
def parenthesesAll (grouped : Expr → Bool) : List Expr → Nat
  | [] => 0
  | e :: es => max (e.parentheses + (grouped e).toNat) (parenthesesAll grouped es)

end

/-- Whether every node can be written, apart from the depth of parentheses. -/
inductive Writable : Expr → Prop where
  | or {es : List Expr} : 2 ≤ es.length → (∀ e ∈ es, Writable e) → Writable (.or es)
  | and {es : List Expr} : 2 ≤ es.length → (∀ e ∈ es, Writable e) → Writable (.and es)
  | not {e : Expr} : Writable e → Writable (.not e)
  | transient {token : String} : IsId token → Writable (.transient token)
  | compare {c : Comparison} :
      IsId c.id → c.operand.IsFinite → c.op.Admits c.operand → Writable (.compare c)

section WithoutLines

@[simp] theorem withoutLinesAll_eq_map (es : List Expr) :
    withoutLinesAll es = es.map withoutLines := by
  induction es with
  | nil => rfl
  | cons e es ih => simp [withoutLinesAll, ih]

@[simp] theorem isOr_withoutLines (e : Expr) : e.withoutLines.isOr = e.isOr := by
  cases e <;> rfl

@[simp] theorem isOrAnd_withoutLines (e : Expr) : e.withoutLines.isOrAnd = e.isOrAnd := by
  cases e <;> rfl

@[simp] theorem isOrAndNot_withoutLines (e : Expr) : e.withoutLines.isOrAndNot = e.isOrAndNot := by
  cases e <;> rfl

mutual

theorem chars_withoutLines : ∀ e : Expr, e.withoutLines.chars = e.chars
  | .or es => by simpa [withoutLines, chars] using disjuncts_withoutLines es
  | .and es => by simpa [withoutLines, chars] using conjuncts_withoutLines es
  | .not e => by simp [withoutLines, chars, chars_withoutLines e]
  | .transient token => rfl
  | .compare c => rfl

theorem disjuncts_withoutLines : ∀ es : List Expr, disjuncts (es.map withoutLines) = disjuncts es
  | [] => rfl
  | [e] => by simp [disjuncts, chars_withoutLines e]
  | e :: f :: es => by
    have h := disjuncts_withoutLines (f :: es)
    simp only [List.map_cons] at h
    simp [disjuncts, chars_withoutLines e, h]

theorem conjuncts_withoutLines : ∀ es : List Expr, conjuncts (es.map withoutLines) = conjuncts es
  | [] => rfl
  | [e] => by simp [conjuncts, chars_withoutLines e]
  | e :: f :: es => by
    have h := conjuncts_withoutLines (f :: es)
    simp only [List.map_cons] at h
    simp [conjuncts, chars_withoutLines e, h]

end

mutual

theorem parentheses_withoutLines : ∀ e : Expr, e.withoutLines.parentheses = e.parentheses
  | .or es => by
    simpa [withoutLines, parentheses] using parenthesesAll_withoutLines isOr_withoutLines es
  | .and es => by
    simpa [withoutLines, parentheses] using parenthesesAll_withoutLines isOrAnd_withoutLines es
  | .not e => by simp [withoutLines, parentheses, parentheses_withoutLines e]
  | .transient token => rfl
  | .compare c => rfl

theorem parenthesesAll_withoutLines {grouped : Expr → Bool}
    (hg : ∀ e : Expr, grouped e.withoutLines = grouped e) : ∀ es : List Expr,
    parenthesesAll grouped (es.map withoutLines) = parenthesesAll grouped es
  | [] => rfl
  | e :: es => by
    simp [parenthesesAll, hg, parentheses_withoutLines e, parenthesesAll_withoutLines hg es]

end

/-- Operands that differ in lines alone stand at the same places. -/
theorem exists_mem_of_map_eq {es fs : List Expr}
    (h : es.map withoutLines = fs.map withoutLines) {f : Expr} (hf : f ∈ fs) :
    ∃ e ∈ es, e.withoutLines = f.withoutLines :=
  List.mem_map.mp (h ▸ List.mem_map_of_mem hf)

/-- Conditions that differ in lines alone are both writable or both not. -/
theorem Writable.of_withoutLines_eq {e f : Expr} (h : Writable e)
    (hf : e.withoutLines = f.withoutLines) : Writable f := by
  induction h generalizing f with
  | @or es hlen _ ih =>
    cases f with
    | or fs =>
      simp only [withoutLines, withoutLinesAll_eq_map, Expr.or.injEq] at hf
      have hlength : es.length = fs.length := by simpa using congrArg List.length hf
      refine .or (hlength ▸ hlen) fun f hmem => ?_
      obtain ⟨e, he, hef⟩ := exists_mem_of_map_eq hf hmem
      exact ih e he hef
    | _ => simp [withoutLines] at hf
  | @and es hlen _ ih =>
    cases f with
    | and fs =>
      simp only [withoutLines, withoutLinesAll_eq_map, Expr.and.injEq] at hf
      have hlength : es.length = fs.length := by simpa using congrArg List.length hf
      refine .and (hlength ▸ hlen) fun f hmem => ?_
      obtain ⟨e, he, hef⟩ := exists_mem_of_map_eq hf hmem
      exact ih e he hef
    | _ => simp [withoutLines] at hf
  | not _ ih =>
    cases f with
    | not f => exact .not (ih (by simpa [withoutLines] using hf))
    | _ => simp [withoutLines] at hf
  | transient hid =>
    cases f with
    | transient token =>
      obtain rfl := Expr.transient.inj hf
      exact .transient hid
    | _ => simp [withoutLines] at hf
  | @compare c hid hfin hop =>
    cases f with
    | compare d =>
      obtain ⟨id, op, operand, line⟩ := c
      obtain ⟨id', op', operand', line'⟩ := d
      simp only [withoutLines, Expr.compare.injEq, Comparison.mk.injEq, and_true] at hf
      obtain ⟨rfl, rfl, rfl⟩ := hf
      exact .compare hid hfin hop
    | _ => simp [withoutLines] at hf

end WithoutLines

end Expr

namespace Grammar

open HomeAutomation.Trigger.Expr

section Image

theorem Conjunction.operands_ne_nil (c : Conjunction) : c.operands ≠ [] := by
  cases c <;> simp [Conjunction.operands]

theorem Disjunction.operands_ne_nil (d : Disjunction) : d.operands ≠ [] := by
  cases d <;> simp [Disjunction.operands]

theorem isFinite_operand {l : Option (Operand × Position)}
    (h : ∀ t ∈ literalTokens l, t.kind.Scanned) : (operand l).IsFinite := by
  cases l with
  | none => trivial
  | some l =>
    obtain ⟨o, p⟩ := l
    have ho : o.kind.Scanned := h ⟨o.kind, p⟩ (by simp [literalTokens])
    cases o with
    | unknown => trivial
    | literal v => cases v <;> exact ho

mutual

/-- What the tokens of a text mean can be written. -/
theorem Disjunction.writable : ∀ d : Disjunction, (∀ t ∈ d.tokens, t.kind.Scanned) → d.Ordered →
    d.tree.Writable ∧ ∀ e ∈ d.operands, e.Writable
  | .one c, ht, ho => by
    have hc := (Conjunction.writable c ht ho).1
    exact ⟨hc, by simpa [Disjunction.operands] using hc⟩
  | .more c bar d, ht, ho => by
    have hc := (Conjunction.writable c (fun t h => ht t (by simp [Disjunction.tokens, h])) ho.1).1
    have hd := (Disjunction.writable d (fun t h => ht t (by simp [Disjunction.tokens, h])) ho.2).2
    have hall : ∀ e ∈ c.tree :: d.operands, e.Writable := List.forall_mem_cons.mpr ⟨hc, hd⟩
    have hlen : 0 < d.operands.length := List.length_pos_iff.mpr d.operands_ne_nil
    exact ⟨.or (by simp; omega) hall, hall⟩

theorem Conjunction.writable : ∀ c : Conjunction, (∀ t ∈ c.tokens, t.kind.Scanned) → c.Ordered →
    c.tree.Writable ∧ ∀ e ∈ c.operands, e.Writable
  | .one n, ht, ho => by
    have hn := Negation.writable n ht ho
    exact ⟨hn, by simpa [Conjunction.operands] using hn⟩
  | .more n ampersand c, ht, ho => by
    have hn := Negation.writable n (fun t h => ht t (by simp [Conjunction.tokens, h])) ho.1
    have hc := (Conjunction.writable c (fun t h => ht t (by simp [Conjunction.tokens, h])) ho.2).2
    have hall : ∀ e ∈ n.tree :: c.operands, e.Writable := List.forall_mem_cons.mpr ⟨hn, hc⟩
    have hlen : 0 < c.operands.length := List.length_pos_iff.mpr c.operands_ne_nil
    exact ⟨.and (by simp; omega) hall, hall⟩

theorem Negation.writable : ∀ n : Negation, (∀ t ∈ n.tokens, t.kind.Scanned) → n.Ordered →
    n.tree.Writable
  | .plain a, ht, ho => Atom.writable a ht ho
  | .not mark a, ht, ho =>
    .not (Atom.writable a (fun t h => ht t (by simp [Negation.tokens, h])) ho)

theorem Atom.writable : ∀ a : Atom, (∀ t ∈ a.tokens, t.kind.Scanned) → a.Ordered →
    a.tree.Writable
  | .arrival name p, ht, _ => .transient (ht ⟨.id name, p⟩ (by simp [Atom.tokens]))
  | .comparison name p op q l, ht, ho =>
    .compare (ht ⟨.id name, p⟩ (by simp [Atom.tokens]))
      (isFinite_operand fun t h => ht t (by simp [Atom.tokens, h])) ho
  | .group opening d closing, ht, ho =>
    (Disjunction.writable d (fun t h => ht t (by simp [Atom.tokens, h])) ho).1

end

mutual

/-- Parentheses in the canonical text stand where the source had a group. -/
theorem Disjunction.parentheses_le : ∀ d : Disjunction, d.tree.parentheses ≤ d.nesting ∧
    parenthesesAll isOr d.operands ≤ d.nesting
  | .one c => by
    have hc := (Conjunction.parentheses_le c).1
    simp only [Disjunction.tree, Disjunction.operands, Disjunction.nesting, parenthesesAll]
    omega
  | .more c bar d => by
    have hc := (Conjunction.parentheses_le c).1
    have hd := (Disjunction.parentheses_le d).2
    simp only [Disjunction.tree, Disjunction.operands, Disjunction.nesting, parentheses,
      parenthesesAll]
    omega

theorem Conjunction.parentheses_le : ∀ c : Conjunction,
    c.tree.parentheses + c.tree.isOr.toNat ≤ c.nesting ∧
      parenthesesAll isOrAnd c.operands ≤ c.nesting
  | .one n => by
    have hn := Negation.parentheses_le n
    have hle : n.tree.isOr.toNat ≤ n.tree.isOrAnd.toNat := by
      cases n.tree <;> simp [isOr, isOrAnd]
    simp only [Conjunction.tree, Conjunction.operands, Conjunction.nesting, parenthesesAll]
    omega
  | .more n ampersand c => by
    have hn := Negation.parentheses_le n
    have hc := (Conjunction.parentheses_le c).2
    simp only [Conjunction.tree, Conjunction.operands, Conjunction.nesting, parentheses,
      parenthesesAll, isOr, Bool.toNat_false]
    omega

theorem Negation.parentheses_le : ∀ n : Negation,
    n.tree.parentheses + n.tree.isOrAnd.toNat ≤ n.nesting
  | .plain a => by
    have ha := Atom.parentheses_le a
    have hle : a.tree.isOrAnd.toNat ≤ a.tree.isOrAndNot.toNat := by
      cases a.tree <;> simp [isOrAnd, isOrAndNot]
    simp only [Negation.tree, Negation.nesting]
    omega
  | .not mark a => by
    have ha := Atom.parentheses_le a
    simpa [Negation.tree, Negation.nesting, parentheses, isOrAnd] using ha

theorem Atom.parentheses_le : ∀ a : Atom,
    a.tree.parentheses + a.tree.isOrAndNot.toNat ≤ a.nesting
  | .arrival name p => by simp [Atom.tree, Atom.nesting, parentheses, isOrAndNot]
  | .comparison name p op q l => by simp [Atom.tree, Atom.nesting, parentheses, isOrAndNot]
  | .group opening d closing => by
    have hd := (Disjunction.parentheses_le d).1
    have hle := Bool.toNat_le d.tree.isOrAndNot
    simp only [Atom.tree, Atom.nesting]
    omega

end

end Image

end Grammar

/-- Every condition that was compiled can be written. -/
theorem writable_of_compile {source : String} {c : Condition} (h : compile source = .ok c) :
    c.root.Writable ∧ c.root.parentheses ≤ Parser.maxNesting := by
  obtain ⟨d, p, -, hbody, hn, ho, htree⟩ := exists_derivation_of_compile h
  rw [← htree]
  exact ⟨(d.writable hbody ho).1, Nat.le_trans d.parentheses_le.1 hn⟩

end HomeAutomation.Trigger
