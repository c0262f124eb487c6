import Mathlib
import HomeAutomation.Proofs.Trigger.Grammar
import HomeAutomation.Proofs.Trigger.Lexemes
import HomeAutomation.Trigger.Compile

/-! The reader of conditions follows the grammar: what it reads off the front of a list of tokens
is covered by a derivation, and what a derivation covers it reads. -/

namespace HomeAutomation.Trigger.Parser

open Grammar

/-- The reader of groups where so many may still be opened. -/
def inside : Nat → Option (List Token → Parse Expr)
  | 0 => none
  | budget + 1 => some (condition budget)

theorem condition_eq (budget : Nat) : condition budget = disjunction (inside budget) := by
  cases budget <;> rfl

theorem checkOperand_eq_ok {operator : Token} {op : Operator} {o : Operand} :
    checkOperand operator op o = .ok () ↔ op.Admits o := by
  unfold checkOperand Operator.Admits
  split <;> simp [Operand.HasOrder]

theorem group_conjunction (c : Conjunction) : group .and c.operands = c.tree := by
  cases c with
  | one n => rfl
  | more n _ rest => cases rest <;> rfl

theorem group_disjunction (d : Disjunction) : group .or d.operands = d.tree := by
  cases d with
  | one c => rfl
  | more c _ rest => cases rest <;> rfl

section Separated

variable {sep : Token.Kind} {item : List Token → Parse Expr}

theorem separated_last {ts rest : List Token} {e : Expr} {t : Token}
    (hi : item ts = .ok (e, t :: rest)) (ht : t.kind ≠ sep) :
    separated sep item ts = .ok ([e], t :: rest) := by
  rw [separated, hi]
  simp [ht]

theorem separated_more {ts rest more : List Token} {e : Expr} {es : List Expr} {t : Token}
    (hi : item ts = .ok (e, t :: rest)) (ht : t.kind = sep) (hlen : rest.length < ts.length)
    (hs : separated sep item rest = .ok (es, more)) :
    separated sep item ts = .ok (e :: es, more) := by
  rw [separated, hi]
  simp [ht, hlen, hs, Except.map]

/-- Items that were read with separators between them were read one by one. -/
theorem separated_induction {motive : List Token → List Expr → List Token → Prop}
    (last : ∀ ts e t rest, item ts = .ok (e, t :: rest) → t.kind ≠ sep → motive ts [e] (t :: rest))
    (more : ∀ ts e t mid es rest, item ts = .ok (e, t :: mid) → t.kind = sep →
      motive mid es rest → motive ts (e :: es) rest)
    {ts : List Token} {es : List Expr} {rest : List Token}
    (h : separated sep item ts = .ok (es, rest)) : motive ts es rest := by
  fun_induction separated sep item ts generalizing es with
  | case1 | case2 | case4 => simp at h
  | case3 ts e t mid hi ht hlen ih =>
    obtain ⟨r, hs, hr⟩ := map_eq_ok.mp h
    obtain ⟨rfl, rfl⟩ := Prod.mk.inj hr
    exact more ts e t mid r.1 r.2 hi ht (ih hs)
  | case5 ts e t mid hi ht =>
    simp only [Except.ok.injEq, Prod.mk.injEq] at h
    obtain ⟨rfl, rfl⟩ := h
    exact last ts e t mid hi ht

end Separated

section Soundness

theorem operand_sound {ts rest : List Token} {o : Operand} (h : operand ts = .ok (o, rest)) :
    ∃ l, ts = literalTokens l ++ rest ∧ Grammar.operand l = o := by
  cases ts with
  | nil => simp [operand] at h
  | cons t ts =>
    obtain ⟨k, p⟩ := t
    cases k with
    | literal v =>
      simp only [operand, Except.ok.injEq, Prod.mk.injEq] at h
      exact ⟨some (.literal v, p), by simp [literalTokens, Operand.kind, h.2], h.1⟩
    | unknown =>
      simp only [operand, Except.ok.injEq, Prod.mk.injEq] at h
      exact ⟨some (.unknown, p), by simp [literalTokens, Operand.kind, h.2], h.1⟩
    | or | and | closeGroup | endOfText =>
      simp only [operand, Except.ok.injEq, Prod.mk.injEq] at h
      exact ⟨none, by simp [literalTokens, h.2], h.1⟩
    | id _ | not | openGroup | op _ => simp [operand] at h

theorem leaf_sound {name : String} {p : Position} {ts rest : List Token} {e : Expr}
    (h : leaf name p.line ts = .ok (e, rest)) :
    ∃ a : Atom, ⟨.id name, p⟩ :: ts = a.tokens ++ rest ∧ a.nesting = 0 ∧ a.Ordered ∧ a.tree = e := by
  cases ts with
  | nil => simp [leaf] at h
  | cons t ts =>
    obtain ⟨k, q⟩ := t
    have transient (hk : leaf name p.line (⟨k, q⟩ :: ts) = .ok (.transient name, ⟨k, q⟩ :: ts)) :
        ∃ a : Atom, ⟨.id name, p⟩ :: ⟨k, q⟩ :: ts = a.tokens ++ rest ∧ a.nesting = 0 ∧
          a.Ordered ∧ a.tree = e := by
      rw [hk] at h
      simp only [Except.ok.injEq, Prod.mk.injEq] at h
      exact ⟨.arrival name p, by simp [Atom.tokens, h.2], by simp [Atom.nesting],
        by simp [Atom.Ordered], h.1⟩
    cases k with
    | op op =>
      simp only [leaf] at h
      cases ho : operand ts with
      | error f => simp [ho] at h
      | ok r =>
        obtain ⟨o, more⟩ := r
        cases hc : checkOperand ⟨.op op, q⟩ op o with
        | error f => simp [ho, hc] at h
        | ok u =>
          simp only [ho, hc, Except.ok.injEq, Prod.mk.injEq] at h
          obtain ⟨rfl, rfl⟩ := h
          obtain ⟨l, rfl, rfl⟩ := operand_sound ho
          exact ⟨.comparison name p op q l, by simp [Atom.tokens], by simp [Atom.nesting],
            checkOperand_eq_ok.mp hc, rfl⟩
    | _ => exact transient rfl

/-- What a reader of groups reads is covered by a derivation whose groups nest less deep. -/
def SoundBelow (n : Nat) (g : Option (List Token → Parse Expr)) : Prop :=
  ∀ inner ∈ g, ∀ ts e rest, inner ts = .ok (e, rest) →
    ∃ d : Disjunction, ts = d.tokens ++ rest ∧ d.nesting < n ∧ d.Ordered ∧ d.tree = e

variable {n : Nat} {g : Option (List Token → Parse Expr)}

theorem atom_sound (hg : SoundBelow n g) {ts rest : List Token} {e : Expr}
    (h : atom g ts = .ok (e, rest)) :
    ∃ a : Atom, ts = a.tokens ++ rest ∧ a.nesting ≤ n ∧ a.Ordered ∧ a.tree = e := by
  cases ts with
  | nil => simp [atom] at h
  | cons t ts =>
    obtain ⟨k, p⟩ := t
    cases k with
    | id name =>
      obtain ⟨a, hts, hn, ha, he⟩ := leaf_sound h
      exact ⟨a, hts, by omega, ha, he⟩
    | openGroup =>
      cases hgo : g with
      | none => simp [atom, hgo] at h
      | some inner =>
        cases hi : inner ts with
        | error f => simp [atom, hgo, hi] at h
        | ok r =>
          obtain ⟨e', mid⟩ := r
          cases mid with
          | nil => simp [atom, hgo, hi] at h
          | cons close mid =>
            by_cases hclose : close.kind = .closeGroup
            · simp only [atom, hgo, hi, hclose, if_true, Except.ok.injEq, Prod.mk.injEq] at h
              obtain ⟨rfl, rfl⟩ := h
              obtain ⟨d, rfl, hn, hd, rfl⟩ := hg inner hgo ts e' (close :: mid) hi
              refine ⟨.group p d close.position, ?_, hn, hd, rfl⟩
              simp [Atom.tokens, ← hclose]
            · simp [atom, hgo, hi, hclose] at h
    | _ => simp [atom] at h

theorem negation_sound (hg : SoundBelow n g) {ts rest : List Token} {e : Expr}
    (h : negation g ts = .ok (e, rest)) :
    ∃ x : Negation, ts = x.tokens ++ rest ∧ x.nesting ≤ n ∧ x.Ordered ∧ x.tree = e := by
  cases ts with
  | nil => simp [negation] at h
  | cons t ts =>
    by_cases ht : t.kind = .not
    · simp only [negation, ht, if_true] at h
      obtain ⟨r, ha, hr⟩ := map_eq_ok.mp h
      obtain ⟨rfl, rfl⟩ := Prod.mk.inj hr
      obtain ⟨a, hts, hn, ho, he⟩ := atom_sound hg ha
      exact ⟨.not t.position a, by simp [Negation.tokens, ← ht, hts], hn, ho,
        by rw [Negation.tree, he]⟩
    · simp only [negation, ht, if_false] at h
      obtain ⟨a, hts, hn, ho, hr⟩ := atom_sound hg h
      exact ⟨.plain a, hts, hn, ho, hr⟩

theorem conjuncts_sound (hg : SoundBelow n g) {ts rest : List Token} {es : List Expr}
    (h : separated .and (negation g) ts = .ok (es, rest)) :
    ∃ c : Conjunction, ts = c.tokens ++ rest ∧ c.nesting ≤ n ∧ c.Ordered ∧ c.operands = es := by
  refine separated_induction (motive := fun ts es rest => ∃ c : Conjunction,
    ts = c.tokens ++ rest ∧ c.nesting ≤ n ∧ c.Ordered ∧ c.operands = es) ?_ ?_ h
  · intro ts e t rest hi _
    obtain ⟨x, hts, hn, ho, he⟩ := negation_sound hg hi
    exact ⟨.one x, hts, hn, ho, by rw [Conjunction.operands, he]⟩
  · intro ts e t mid es rest hi ht ⟨c, hmid, hcn, hco, hce⟩
    obtain ⟨x, hts, hn, ho, he⟩ := negation_sound hg hi
    exact ⟨.more x t.position c, by simp [Conjunction.tokens, hts, hmid, ← ht],
      Nat.max_le.mpr ⟨hn, hcn⟩, ⟨ho, hco⟩, by rw [Conjunction.operands, he, hce]⟩

theorem conjunction_sound (hg : SoundBelow n g) {ts rest : List Token} {e : Expr}
    (h : conjunction g ts = .ok (e, rest)) :
    ∃ c : Conjunction, ts = c.tokens ++ rest ∧ c.nesting ≤ n ∧ c.Ordered ∧ c.tree = e := by
  obtain ⟨r, hs, hr⟩ := map_eq_ok.mp h
  obtain ⟨rfl, rfl⟩ := Prod.mk.inj hr
  obtain ⟨c, hts, hn, ho, hc⟩ := conjuncts_sound hg hs
  exact ⟨c, hts, hn, ho, by rw [← hc, group_conjunction]⟩

theorem disjuncts_sound (hg : SoundBelow n g) {ts rest : List Token} {es : List Expr}
    (h : separated .or (conjunction g) ts = .ok (es, rest)) :
    ∃ d : Disjunction, ts = d.tokens ++ rest ∧ d.nesting ≤ n ∧ d.Ordered ∧ d.operands = es := by
  refine separated_induction (motive := fun ts es rest => ∃ d : Disjunction,
    ts = d.tokens ++ rest ∧ d.nesting ≤ n ∧ d.Ordered ∧ d.operands = es) ?_ ?_ h
  · intro ts e t rest hi _
    obtain ⟨c, hts, hn, ho, he⟩ := conjunction_sound hg hi
    exact ⟨.one c, hts, hn, ho, by rw [Disjunction.operands, he]⟩
  · intro ts e t mid es rest hi ht ⟨d, hmid, hdn, hdo, hde⟩
    obtain ⟨c, hts, hn, ho, he⟩ := conjunction_sound hg hi
    exact ⟨.more c t.position d, by simp [Disjunction.tokens, hts, hmid, ← ht],
      Nat.max_le.mpr ⟨hn, hdn⟩, ⟨ho, hdo⟩, by rw [Disjunction.operands, he, hde]⟩

theorem disjunction_sound (hg : SoundBelow n g) {ts rest : List Token} {e : Expr}
    (h : disjunction g ts = .ok (e, rest)) :
    ∃ d : Disjunction, ts = d.tokens ++ rest ∧ d.nesting ≤ n ∧ d.Ordered ∧ d.tree = e := by
  obtain ⟨r, hs, hr⟩ := map_eq_ok.mp h
  obtain ⟨rfl, rfl⟩ := Prod.mk.inj hr
  obtain ⟨d, hts, hn, ho, hd⟩ := disjuncts_sound hg hs
  exact ⟨d, hts, hn, ho, by rw [← hd, group_disjunction]⟩

theorem condition_sound (budget : Nat) {ts rest : List Token} {e : Expr}
    (h : condition budget ts = .ok (e, rest)) :
    ∃ d : Disjunction, ts = d.tokens ++ rest ∧ d.nesting ≤ budget ∧ d.Ordered ∧ d.tree = e := by
  induction budget generalizing ts rest e with
  | zero => exact disjunction_sound (fun _ hi => absurd hi (by simp)) h
  | succ budget ih =>
    refine disjunction_sound (fun inner hi ts e rest h => ?_) h
    obtain rfl : condition budget = inner := by simpa using hi
    obtain ⟨d, hts, hn, ho, he⟩ := ih h
    exact ⟨d, hts, by omega, ho, he⟩

end Soundness

section Completeness

theorem operand_complete {l : Option (Operand × Position)} {t : Token} (rest : List Token)
    (ht : t.kind ∈ afterNegation) :
    operand (literalTokens l ++ t :: rest) = .ok (Grammar.operand l, t :: rest) := by
  cases l with
  | none =>
    simp only [afterNegation, afterConjunction, afterDisjunction, List.mem_cons,
      List.not_mem_nil, or_false] at ht
    rcases ht with h | h | h | h <;> simp [literalTokens, operand, h, Grammar.operand]
  | some l =>
    obtain ⟨o, p⟩ := l
    cases o <;> simp [literalTokens, operand, Operand.kind, Grammar.operand]

mutual

theorem atom_complete : ∀ (a : Atom) (rest : List Token) {n : Nat} {t : Token},
    a.nesting ≤ n → a.Ordered → t.kind ∈ afterNegation →
    atom (inside n) (a.tokens ++ t :: rest) = .ok (a.tree, t :: rest)
  | .arrival name p, rest, n, t, _, _, ht => by
    simp only [afterNegation, afterConjunction, afterDisjunction, List.mem_cons,
      List.not_mem_nil, or_false] at ht
    rcases ht with h | h | h | h <;> simp [Atom.tokens, atom, leaf, h, Atom.tree]
  | .comparison name p op q l, rest, n, t, _, ho, ht => by
    have hl := operand_complete (l := l) rest ht
    have hc : checkOperand ⟨.op op, q⟩ op (Grammar.operand l) = .ok () :=
      checkOperand_eq_ok.mpr (by simpa [Atom.Ordered] using ho)
    simp [Atom.tokens, atom, leaf, hl, hc, Atom.tree]
  | .group p d q, _, 0, t, hn, _, _ => by simp [Atom.nesting] at hn
  | .group p d q, rest, n + 1, t, hn, ho, ht => by
    have hs := disjuncts_complete d (t :: rest) (n := n) (t := ⟨.closeGroup, q⟩)
      (by simpa [Atom.nesting] using hn) (by simpa [Atom.Ordered] using ho)
      (by simp [afterDisjunction])
    have hd : condition n (d.tokens ++ ⟨.closeGroup, q⟩ :: t :: rest) =
        .ok (d.tree, ⟨.closeGroup, q⟩ :: t :: rest) := by
      rw [condition_eq, disjunction, hs]
      simp [Except.map, group_disjunction]
    simp [Atom.tokens, atom, inside, hd, Atom.tree]

theorem negation_complete : ∀ (x : Negation) (rest : List Token) {n : Nat} {t : Token},
    x.nesting ≤ n → x.Ordered → t.kind ∈ afterNegation →
    negation (inside n) (x.tokens ++ t :: rest) = .ok (x.tree, t :: rest)
  | .plain a, rest, n, t, hn, ho, ht => by
    have ha := atom_complete a rest (by simpa [Negation.nesting] using hn)
      (by simpa [Negation.Ordered] using ho) ht
    cases a <;> simpa [Negation.tokens, Negation.tree, negation, Atom.tokens] using ha
  | .not p a, rest, n, t, hn, ho, ht => by
    have ha := atom_complete a rest (by simpa [Negation.nesting] using hn)
      (by simpa [Negation.Ordered] using ho) ht
    simp [Negation.tokens, Negation.tree, negation, ha, Except.map]

theorem conjuncts_complete : ∀ (c : Conjunction) (rest : List Token) {n : Nat} {t : Token},
    c.nesting ≤ n → c.Ordered → t.kind ∈ afterConjunction →
    separated .and (negation (inside n)) (c.tokens ++ t :: rest) = .ok (c.operands, t :: rest)
  | .one x, rest, n, t, hn, ho, ht => by
    have hx := negation_complete x rest (by simpa [Conjunction.nesting] using hn)
      (by simpa [Conjunction.Ordered] using ho) (List.mem_cons_of_mem _ ht)
    refine separated_last (by simpa [Conjunction.tokens] using hx) ?_
    rintro h
    simp [h, afterConjunction, afterDisjunction] at ht
  | .more x p c, rest, n, t, hn, ho, ht => by
    have hn := Nat.max_le.mp hn
    have hx := negation_complete x (c.tokens ++ t :: rest) (t := ⟨.and, p⟩) hn.1 ho.1
      (by simp [afterNegation])
    have hc := conjuncts_complete c rest hn.2 ho.2 ht
    rw [Conjunction.tokens, List.append_assoc, List.cons_append]
    exact separated_more hx rfl (by simp; omega) hc

theorem disjuncts_complete : ∀ (d : Disjunction) (rest : List Token) {n : Nat} {t : Token},
    d.nesting ≤ n → d.Ordered → t.kind ∈ afterDisjunction →
    separated .or (conjunction (inside n)) (d.tokens ++ t :: rest) = .ok (d.operands, t :: rest)
  | .one c, rest, n, t, hn, ho, ht => by
    have hs := conjuncts_complete c rest (by simpa [Disjunction.nesting] using hn)
      (by simpa [Disjunction.Ordered] using ho) (List.mem_cons_of_mem _ ht)
    have hc : conjunction (inside n) (c.tokens ++ t :: rest) = .ok (c.tree, t :: rest) := by
      rw [conjunction, hs]
      simp [Except.map, group_conjunction]
    refine separated_last hc ?_
    rintro h
    simp [h, afterDisjunction] at ht
  | .more c p d, rest, n, t, hn, ho, ht => by
    have hn := Nat.max_le.mp hn
    have hs := conjuncts_complete c (d.tokens ++ t :: rest) (t := ⟨.or, p⟩) hn.1 ho.1
      (by simp [afterConjunction])
    have hc : conjunction (inside n) (c.tokens ++ ⟨.or, p⟩ :: (d.tokens ++ t :: rest)) =
        .ok (c.tree, ⟨.or, p⟩ :: (d.tokens ++ t :: rest)) := by
      rw [conjunction, hs]
      simp [Except.map, group_conjunction]
    have hd := disjuncts_complete d rest hn.2 ho.2 ht
    rw [Disjunction.tokens, List.append_assoc, List.cons_append]
    exact separated_more hc rfl (by simp; omega) hd

end

theorem condition_complete (d : Disjunction) (rest : List Token) {n : Nat} {t : Token}
    (hn : d.nesting ≤ n) (ho : d.Ordered) (ht : t.kind ∈ afterDisjunction) :
    condition n (d.tokens ++ t :: rest) = .ok (d.tree, t :: rest) := by
  rw [condition_eq, disjunction, disjuncts_complete d rest hn ho ht]
  simp [Except.map, group_disjunction]

end Completeness

/-- A reading that stops at the only end of the text has read everything before it. -/
theorem eq_of_append_endOfText {body read rest : List Token} {t : Token} {p : Position}
    (hbody : ∀ t ∈ body, t.kind ≠ .endOfText) (ht : t.kind = .endOfText)
    (h : body ++ [⟨.endOfText, p⟩] = read ++ t :: rest) : read = body := by
  rcases List.append_eq_append_iff.mp h with ⟨as, hread, hlast⟩ | ⟨bs, hb, hlast⟩
  · cases as with
    | nil => simpa using hread
    | cons a as => simp at hlast
  · cases bs with
    | nil => simpa using hb.symm
    | cons b bs =>
      simp only [List.cons_append, List.cons.injEq] at hlast
      exact absurd ht (hbody t (by simp [hb, hlast.1]))

theorem parse_complete (d : Disjunction) {p : Position} (hn : d.nesting ≤ maxNesting)
    (ho : d.Ordered) : parse (d.tokens ++ [⟨.endOfText, p⟩]) = .ok d.tree := by
  rw [parse, condition_complete d [] hn ho (by simp [afterDisjunction])]
  simp

theorem parse_eq_ok_iff {body : List Token} {p : Position} {e : Expr}
    (hbody : ∀ t ∈ body, t.kind ≠ .endOfText) :
    parse (body ++ [⟨.endOfText, p⟩]) = .ok e ↔
      ∃ d : Disjunction, d.tokens = body ∧ d.nesting ≤ maxNesting ∧ d.Ordered ∧ d.tree = e := by
  constructor
  · intro h
    cases hc : condition maxNesting (body ++ [⟨.endOfText, p⟩]) with
    | error f => simp [parse, hc] at h
    | ok r =>
      obtain ⟨e', rest⟩ := r
      cases rest with
      | nil => simp [parse, hc] at h
      | cons t rest =>
        by_cases ht : t.kind = .endOfText
        · simp only [parse, hc, ht, if_true, Except.ok.injEq] at h
          obtain ⟨d, hts, hn, ho, he⟩ := condition_sound maxNesting hc
          exact ⟨d, eq_of_append_endOfText hbody ht hts, hn, ho, he.trans h⟩
        · simp [parse, hc, ht] at h
  · rintro ⟨d, rfl, hn, ho, rfl⟩
    exact parse_complete d hn ho

end HomeAutomation.Trigger.Parser

namespace HomeAutomation.Trigger

open Grammar

theorem tokenize_scanned {source : String} {ts : List Token} (h : tokenize source = .ok ts) :
    ∃ body p, ts = body ++ [⟨.endOfText, p⟩] ∧ ∀ t ∈ body, t.kind.Scanned := by
  unfold tokenize at h
  split at h
  · simp at h
  · rename_i ts' hts
    obtain rfl : ts' = ts := by simpa using h
    exact Lexer.tokens_scanned hts

theorem Token.Kind.Scanned.ne_endOfText {k : Token.Kind} (h : k.Scanned) : k ≠ .endOfText := by
  rintro rfl
  exact h

/-- A compiled condition is what a derivation of the tokens of its source means. -/
theorem exists_derivation_of_compile {source : String} {c : Condition}
    (h : compile source = .ok c) : ∃ (d : Disjunction) (p : Position),
      tokenize source = .ok (d.tokens ++ [⟨.endOfText, p⟩]) ∧ (∀ t ∈ d.tokens, t.kind.Scanned) ∧
      d.nesting ≤ Parser.maxNesting ∧ d.Ordered ∧ d.tree = c.root := by
  unfold compile at h
  split at h
  · cases h
  · rename_i ts hts
    split at h
    · cases h
    · rename_i root hroot
      obtain rfl : (⟨source, root⟩ : Condition) = c := Except.ok.inj h
      obtain ⟨body, p, rfl, hbody⟩ := tokenize_scanned hts
      obtain ⟨d, rfl, hn, ho, htree⟩ :=
        (Parser.parse_eq_ok_iff fun t ht => (hbody t ht).ne_endOfText).mp hroot
      exact ⟨d, p, hts, hbody, hn, ho, htree⟩

/-- The tokens of a text are a condition exactly if they have a derivation that opens no more than
256 groups at once and compares by order only what comes in one. There is at most one derivation,
and the condition is the one it means. -/
theorem parse_eq_ok_iff_derivation {source : String} {ts : List Token}
    (h : tokenize source = .ok ts) :
    ∃ body p, ts = body ++ [⟨.endOfText, p⟩] ∧ (∀ t ∈ body, t.kind ≠ .endOfText) ∧
      (∀ e, Parser.parse ts = .ok e ↔
        ∃ d : Disjunction, d.tokens = body ∧ d.nesting ≤ 256 ∧ d.Ordered ∧ d.tree = e) ∧
      ∀ d d' : Disjunction, d.tokens = body → d'.tokens = body → d = d' := by
  obtain ⟨body, p, rfl, hbody⟩ := tokenize_scanned h
  have hne : ∀ t ∈ body, t.kind ≠ .endOfText := fun t ht => (hbody t ht).ne_endOfText
  refine ⟨body, p, rfl, hne, fun e => Parser.parse_eq_ok_iff hne, ?_⟩
  rintro d d' rfl hd'
  exact Disjunction.eq_of_tokens_eq hd'.symm

theorem parse_eq_ok_iff_derivation_grouped :
    ∃ ts, tokenize "!(a | b(1)) &\n c >= \"x\"" = .ok ts ∧
      ∃ body p, ts = body ++ [⟨.endOfText, p⟩] ∧ (∀ t ∈ body, t.kind ≠ .endOfText) ∧
        (∀ e, Parser.parse ts = .ok e ↔
          ∃ d : Disjunction, d.tokens = body ∧ d.nesting ≤ 256 ∧ d.Ordered ∧ d.tree = e) ∧
        ∀ d d' : Disjunction, d.tokens = body → d'.tokens = body → d = d' := by
  have h : tokenize "!(a | b(1)) &\n c >= \"x\"" =
      .ok [⟨.not, ⟨1, 1⟩⟩, ⟨.openGroup, ⟨1, 2⟩⟩, ⟨.id "a", ⟨1, 3⟩⟩, ⟨.or, ⟨1, 5⟩⟩,
        ⟨.id "b(1)", ⟨1, 7⟩⟩, ⟨.closeGroup, ⟨1, 11⟩⟩, ⟨.and, ⟨1, 13⟩⟩, ⟨.id "c", ⟨2, 2⟩⟩,
        ⟨.op .ge, ⟨2, 4⟩⟩, ⟨.literal (.string "x"), ⟨2, 7⟩⟩, ⟨.endOfText, ⟨2, 10⟩⟩] := by cbv
  exact ⟨_, h, parse_eq_ok_iff_derivation h⟩

end HomeAutomation.Trigger
