import HomeAutomation.Trigger.Parser

/-! The grammar of conditions. A derivation is built from the tokens it covers, with the place of
each; it says which tokens these are, how deep its groups nest and which condition it means. No
two derivations cover the same tokens. -/

namespace HomeAutomation.Trigger

/-- The token that a literal is written as. -/
def Operand.kind : Operand → Token.Kind
  | .unknown => .unknown
  | .literal v => .literal v

/-- Strings and numbers come in an order; booleans and presence do not. -/
def Operand.HasOrder : Operand → Prop
  | .literal (.string _) | .literal (.number _) => True
  | .literal (.bool _) | .unknown => False

/-- Whether an operator may stand before an operand. -/
def Operator.Admits (op : Operator) (o : Operand) : Prop := op.isEquality = true ∨ o.HasOrder

namespace Grammar

mutual

/-- Conjunctions with bars between them. -/
inductive Disjunction where
  | one (c : Conjunction)
  | more (c : Conjunction) (bar : Position) (rest : Disjunction)

/-- Negations with ampersands between them. -/
inductive Conjunction where
  | one (n : Negation)
  | more (n : Negation) (ampersand : Position) (rest : Conjunction)

/-- An atom behind at most one exclamation mark. -/
inductive Negation where
  | plain (a : Atom)
  | not (mark : Position) (a : Atom)

inductive Atom where
  | arrival (name : String) (p : Position)
  | comparison (name : String) (p : Position) (op : Operator) (q : Position)
      (literal : Option (Operand × Position))
  | group (opening : Position) (inside : Disjunction) (closing : Position)

end

/-- The tokens of a literal, if it is written. -/
def literalTokens (literal : Option (Operand × Position)) : List Token :=
  literal.toList.map fun l => ⟨l.1.kind, l.2⟩

/-- A literal that is left out asks for presence, as the word for it does. -/
def operand (literal : Option (Operand × Position)) : Operand :=
  (literal.map Prod.fst).getD .unknown

mutual

/-- The tokens that a derivation covers. -/
def Disjunction.tokens : Disjunction → List Token
  | .one c => c.tokens
  | .more c bar rest => c.tokens ++ ⟨.or, bar⟩ :: rest.tokens

def Conjunction.tokens : Conjunction → List Token
  | .one n => n.tokens
  | .more n ampersand rest => n.tokens ++ ⟨.and, ampersand⟩ :: rest.tokens

def Negation.tokens : Negation → List Token
  | .plain a => a.tokens
  | .not mark a => ⟨.not, mark⟩ :: a.tokens

def Atom.tokens : Atom → List Token
  | .arrival name p => [⟨.id name, p⟩]
  | .comparison name p op q literal => ⟨.id name, p⟩ :: ⟨.op op, q⟩ :: literalTokens literal
  | .group opening d closing => ⟨.openGroup, opening⟩ :: (d.tokens ++ [⟨.closeGroup, closing⟩])

end

mutual

/-- How many groups are open at once, at most. -/
def Disjunction.nesting : Disjunction → Nat
  | .one c => c.nesting
  | .more c _ rest => max c.nesting rest.nesting

def Conjunction.nesting : Conjunction → Nat
  | .one n => n.nesting
  | .more n _ rest => max n.nesting rest.nesting

def Negation.nesting : Negation → Nat
  | .plain a | .not _ a => a.nesting

def Atom.nesting : Atom → Nat
  | .arrival _ _ | .comparison _ _ _ _ _ => 0
  | .group _ d _ => d.nesting + 1

end

mutual

/-- Every comparison by order has a literal that comes in an order. -/
def Disjunction.Ordered : Disjunction → Prop
  | .one c => c.Ordered
  | .more c _ rest => c.Ordered ∧ rest.Ordered

def Conjunction.Ordered : Conjunction → Prop
  | .one n => n.Ordered
  | .more n _ rest => n.Ordered ∧ rest.Ordered

def Negation.Ordered : Negation → Prop
  | .plain a | .not _ a => a.Ordered

def Atom.Ordered : Atom → Prop
  | .arrival _ _ => True
  | .comparison _ _ op _ literal => op.Admits (operand literal)
  | .group _ d _ => d.Ordered

end

mutual

/-- The condition that a derivation means. One conjunction alone is no disjunction, and a group is
what stands in it. -/
def Disjunction.tree : Disjunction → Expr
  | .one c => c.tree
  | .more c _ rest => .or (c.tree :: rest.operands)

def Disjunction.operands : Disjunction → List Expr
  | .one c => [c.tree]
  | .more c _ rest => c.tree :: rest.operands

def Conjunction.tree : Conjunction → Expr
  | .one n => n.tree
  | .more n _ rest => .and (n.tree :: rest.operands)

def Conjunction.operands : Conjunction → List Expr
  | .one n => [n.tree]
  | .more n _ rest => n.tree :: rest.operands

def Negation.tree : Negation → Expr
  | .plain a => a.tree
  | .not _ a => .not a.tree

def Atom.tree : Atom → Expr
  | .arrival name _ => .transient name
  | .comparison name p op _ literal => .compare ⟨name, op, operand literal, p.line⟩
  | .group _ d _ => d.tree

end

/-- What comes next, if anything does, is of one of these kinds. -/
def Follows (kinds : List Token.Kind) (rest : List Token) : Prop :=
  ∀ t ∈ rest.head?, t.kind ∈ kinds

def afterDisjunction : List Token.Kind := [.closeGroup, .endOfText]

def afterConjunction : List Token.Kind := .or :: afterDisjunction

def afterNegation : List Token.Kind := .and :: afterConjunction

theorem follows_cons {kinds : List Token.Kind} {t : Token} {rest : List Token} :
    Follows kinds (t :: rest) ↔ t.kind ∈ kinds := by
  simp [Follows]

theorem follows_nil {kinds : List Token.Kind} : Follows kinds [] := by
  simp [Follows]

theorem Follows.weaken {kinds : List Token.Kind} {k : Token.Kind} {rest : List Token}
    (h : Follows kinds rest) : Follows (k :: kinds) rest :=
  fun t ht => List.mem_cons_of_mem k (h t ht)

theorem literalTokens_inj {l l' : Option (Operand × Position)} {rest rest' : List Token}
    (hr : Follows afterNegation rest) (hr' : Follows afterNegation rest')
    (h : literalTokens l ++ rest = literalTokens l' ++ rest') : l = l' ∧ rest = rest' := by
  have notLiteral (o : Operand) : o.kind ∉ afterNegation := by
    cases o <;> simp [Operand.kind, afterNegation, afterConjunction, afterDisjunction]
  cases l with
  | none =>
    cases l' with
    | none => exact ⟨rfl, by simpa [literalTokens] using h⟩
    | some l' =>
      simp only [literalTokens, Option.toList, List.map, List.nil_append] at h
      rw [h] at hr
      exact absurd (follows_cons.mp hr) (notLiteral l'.1)
  | some l =>
    cases l' with
    | none =>
      simp only [literalTokens, Option.toList, List.map, List.nil_append] at h
      rw [← h] at hr'
      exact absurd (follows_cons.mp hr') (notLiteral l.1)
    | some l' =>
      obtain ⟨o, p⟩ := l
      obtain ⟨o', p'⟩ := l'
      simp only [literalTokens, Option.toList, List.map, List.cons_append, List.nil_append,
        List.cons.injEq, Token.mk.injEq] at h
      have ho : o = o' := by
        cases o <;> cases o' <;> simp_all [Operand.kind]
      exact ⟨by rw [ho, h.1.2], h.2⟩

mutual

/-- The tokens of a derivation, before something that may follow it, are read in one way. -/
theorem Disjunction.tokens_inj : ∀ (d d' : Disjunction) {rest rest' : List Token},
    Follows afterDisjunction rest → Follows afterDisjunction rest' →
    d.tokens ++ rest = d'.tokens ++ rest' → d = d' ∧ rest = rest'
  | .one c, .one c', _, _, hr, hr', h => by
    have hc := Conjunction.tokens_inj c c' hr.weaken hr'.weaken h
    exact ⟨by rw [hc.1], hc.2⟩
  | .one c, .more c' bar' d', rest, rest', hr, hr', h => by
    simp only [Disjunction.tokens, List.append_assoc, List.cons_append] at h
    have hc := Conjunction.tokens_inj c c' hr.weaken (follows_cons.mpr (by simp [afterConjunction])) h
    rw [hc.2] at hr
    simp [follows_cons, afterDisjunction] at hr
  | .more c bar d, .one c', rest, rest', hr, hr', h => by
    simp only [Disjunction.tokens, List.append_assoc, List.cons_append] at h
    have hc := Conjunction.tokens_inj c c' (follows_cons.mpr (by simp [afterConjunction])) hr'.weaken h
    rw [← hc.2] at hr'
    simp [follows_cons, afterDisjunction] at hr'
  | .more c bar d, .more c' bar' d', rest, rest', hr, hr', h => by
    simp only [Disjunction.tokens, List.append_assoc, List.cons_append] at h
    have hc := Conjunction.tokens_inj c c' (follows_cons.mpr (by simp [afterConjunction]))
      (follows_cons.mpr (by simp [afterConjunction])) h
    simp only [List.cons.injEq, Token.mk.injEq, true_and] at hc
    have hd := Disjunction.tokens_inj d d' hr hr' hc.2.2
    exact ⟨by rw [hc.1, hc.2.1, hd.1], hd.2⟩

theorem Conjunction.tokens_inj : ∀ (c c' : Conjunction) {rest rest' : List Token},
    Follows afterConjunction rest → Follows afterConjunction rest' →
    c.tokens ++ rest = c'.tokens ++ rest' → c = c' ∧ rest = rest'
  | .one n, .one n', _, _, hr, hr', h => by
    have hn := Negation.tokens_inj n n' hr.weaken hr'.weaken h
    exact ⟨by rw [hn.1], hn.2⟩
  | .one n, .more n' ampersand' c', rest, rest', hr, hr', h => by
    simp only [Conjunction.tokens, List.append_assoc, List.cons_append] at h
    have hn := Negation.tokens_inj n n' hr.weaken (follows_cons.mpr (by simp [afterNegation])) h
    rw [hn.2] at hr
    simp [follows_cons, afterConjunction, afterDisjunction] at hr
  | .more n ampersand c, .one n', rest, rest', hr, hr', h => by
    simp only [Conjunction.tokens, List.append_assoc, List.cons_append] at h
    have hn := Negation.tokens_inj n n' (follows_cons.mpr (by simp [afterNegation])) hr'.weaken h
    rw [← hn.2] at hr'
    simp [follows_cons, afterConjunction, afterDisjunction] at hr'
  | .more n ampersand c, .more n' ampersand' c', rest, rest', hr, hr', h => by
    simp only [Conjunction.tokens, List.append_assoc, List.cons_append] at h
    have hn := Negation.tokens_inj n n' (follows_cons.mpr (by simp [afterNegation]))
      (follows_cons.mpr (by simp [afterNegation])) h
    simp only [List.cons.injEq, Token.mk.injEq, true_and] at hn
    have hc := Conjunction.tokens_inj c c' hr hr' hn.2.2
    exact ⟨by rw [hn.1, hn.2.1, hc.1], hc.2⟩

theorem Negation.tokens_inj : ∀ (n n' : Negation) {rest rest' : List Token},
    Follows afterNegation rest → Follows afterNegation rest' →
    n.tokens ++ rest = n'.tokens ++ rest' → n = n' ∧ rest = rest'
  | .plain a, .plain a', _, _, hr, hr', h => by
    have ha := Atom.tokens_inj a a' hr hr' h
    exact ⟨by rw [ha.1], ha.2⟩
  | .plain a, .not mark' a', _, _, _, _, h => by
    cases a <;> simp [Negation.tokens, Atom.tokens] at h
  | .not mark a, .plain a', _, _, _, _, h => by
    cases a' <;> simp [Negation.tokens, Atom.tokens] at h
  | .not mark a, .not mark' a', _, _, hr, hr', h => by
    simp only [Negation.tokens, List.cons_append, List.cons.injEq, Token.mk.injEq, true_and] at h
    have ha := Atom.tokens_inj a a' hr hr' h.2
    exact ⟨by rw [h.1, ha.1], ha.2⟩

theorem Atom.tokens_inj : ∀ (a a' : Atom) {rest rest' : List Token},
    Follows afterNegation rest → Follows afterNegation rest' →
    a.tokens ++ rest = a'.tokens ++ rest' → a = a' ∧ rest = rest'
  | .arrival name p, .arrival name' p', _, _, _, _, h => by
    simpa [Atom.tokens, and_assoc] using h
  | .arrival name p, .comparison name' p' op' q' literal', rest, rest', hr, _, h => by
    simp only [Atom.tokens, List.cons_append, List.nil_append, List.cons.injEq] at h
    rw [h.2] at hr
    simp [follows_cons, afterNegation, afterConjunction, afterDisjunction] at hr
  | .comparison name p op q literal, .arrival name' p', rest, rest', _, hr', h => by
    simp only [Atom.tokens, List.cons_append, List.nil_append, List.cons.injEq] at h
    rw [← h.2] at hr'
    simp [follows_cons, afterNegation, afterConjunction, afterDisjunction] at hr'
  | .comparison name p op q literal, .comparison name' p' op' q' literal', _, _, hr, hr', h => by
    simp only [Atom.tokens, List.cons_append, List.cons.injEq, Token.mk.injEq, Token.Kind.id.injEq,
      Token.Kind.op.injEq] at h
    obtain ⟨⟨hname, hp⟩, ⟨hop, hq⟩, hl⟩ := h
    have hl := literalTokens_inj hr hr' hl
    exact ⟨by rw [hname, hp, hop, hq, hl.1], hl.2⟩
  | .group opening d closing, .group opening' d' closing', rest, rest', _, _, h => by
    simp only [Atom.tokens, List.cons_append, List.append_assoc, List.nil_append, List.cons.injEq,
      Token.mk.injEq, true_and] at h
    have hd := Disjunction.tokens_inj d d' (follows_cons.mpr (by simp [afterDisjunction]))
      (follows_cons.mpr (by simp [afterDisjunction])) h.2
    simp only [List.cons.injEq, Token.mk.injEq, true_and] at hd
    exact ⟨by rw [h.1, hd.1, hd.2.1], hd.2.2⟩
  | .group _ _ _, .arrival _ _, _, _, _, _, h | .arrival _ _, .group _ _ _, _, _, _, _, h
  | .group _ _ _, .comparison _ _ _ _ _, _, _, _, _, h
  | .comparison _ _ _ _ _, .group _ _ _, _, _, _, _, h => by
    simp [Atom.tokens] at h

end

/-- A list of tokens has at most one derivation. -/
theorem Disjunction.eq_of_tokens_eq {d d' : Disjunction} (h : d.tokens = d'.tokens) : d = d' :=
  (d.tokens_inj d' follows_nil follows_nil (by simpa using h)).1

end Grammar

end HomeAutomation.Trigger
