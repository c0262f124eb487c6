import HomeAutomation.Proofs.Trigger.Layout
import HomeAutomation.Proofs.Trigger.Visiting

/-! The leaves of a condition from left to right. Each comes from one id among the tokens, and the
ids come in the same order; nesting and the collapse of groups neither drop nor move a leaf. -/

namespace HomeAutomation.Trigger

def Leaf.id : Leaf → String
  | .transient token => token
  | .compare c => c.id

namespace Expr

mutual

theorem ids_eq_map_leaves : ∀ e : Expr, e.ids = e.leaves.map Leaf.id
  | .or es => idsAll_eq_map_leaves es
  | .and es => idsAll_eq_map_leaves es
  | .not e => ids_eq_map_leaves e
  | .transient _ => rfl
  | .compare _ => rfl

theorem idsAll_eq_map_leaves : ∀ es : List Expr, idsAll es = (leavesAll es).map Leaf.id
  | [] => rfl
  | e :: es => by
    rw [idsAll, leavesAll, List.map_append, ids_eq_map_leaves e, idsAll_eq_map_leaves es]

end

end Expr

def Token.id? (t : Token) : Option String :=
  match t.kind with
  | .id name => some name
  | _ => none

def operandAt : List Token → Operand
  | [] => .unknown
  | t :: _ =>
    match t.kind with
    | .literal v => .literal v
    | _ => .unknown

/-- What an id on this line means, if these tokens stand behind it. -/
def leafAt (name : String) (line : Nat) : List Token → Leaf
  | [] => .transient name
  | t :: ts =>
    match t.kind with
    | .op op => .compare ⟨name, op, operandAt ts, line⟩
    | _ => .transient name

def leavesOf : List Token → List Leaf
  | [] => []
  | t :: ts =>
    match t.kind with
    | .id name => leafAt name t.position.line ts :: leavesOf ts
    | _ => leavesOf ts

theorem id_leafAt (name : String) (line : Nat) (ts : List Token) :
    (leafAt name line ts).id = name := by
  unfold leafAt
  split
  · rfl
  · split <;> rfl

theorem map_id_leavesOf (ts : List Token) :
    (leavesOf ts).map Leaf.id = ts.filterMap Token.id? := by
  induction ts with
  | nil => rfl
  | cons t ts ih =>
    obtain ⟨k, p⟩ := t
    cases k with
    | id name =>
      show (leafAt name p.line ts).id :: (leavesOf ts).map Leaf.id = _
      rw [id_leafAt, ih]
      rfl
    | _ => exact ih

namespace Grammar

open HomeAutomation.Trigger.Expr

theorem Follows.eq_nil_or_cons {rest : List Token} (h : Follows afterNegation rest) :
    rest = [] ∨ ∃ t ts, rest = t :: ts ∧
      (t.kind = .and ∨ t.kind = .or ∨ t.kind = .closeGroup ∨ t.kind = .endOfText) := by
  cases rest with
  | nil => exact .inl rfl
  | cons t ts =>
    have ht := follows_cons.mp h
    simp only [afterNegation, afterConjunction, afterDisjunction, List.mem_cons,
      List.not_mem_nil, or_false] at ht
    exact .inr ⟨t, ts, rfl, ht⟩

theorem leafAt_of_follows {name : String} {line : Nat} {rest : List Token}
    (h : Follows afterNegation rest) : leafAt name line rest = .transient name := by
  rcases h.eq_nil_or_cons with rfl | ⟨t, ts, rfl, ht⟩
  · rfl
  · rcases ht with ht | ht | ht | ht <;> simp [leafAt, ht]

theorem operandAt_of_follows {l : Option (Operand × Position)} {rest : List Token}
    (h : Follows afterNegation rest) : operandAt (literalTokens l ++ rest) = operand l := by
  cases l with
  | some l =>
    obtain ⟨o, p⟩ := l
    cases o <;> rfl
  | none =>
    rcases h.eq_nil_or_cons with rfl | ⟨t, ts, rfl, ht⟩
    · rfl
    · rcases ht with ht | ht | ht | ht <;> simp [literalTokens, operandAt, operand, ht]

theorem leavesOf_literalTokens (l : Option (Operand × Position)) (rest : List Token) :
    leavesOf (literalTokens l ++ rest) = leavesOf rest := by
  cases l with
  | none => rfl
  | some l =>
    obtain ⟨o, p⟩ := l
    cases o <;> rfl

theorem Conjunction.leaves_tree (c : Conjunction) : c.tree.leaves = leavesAll c.operands := by
  cases c with
  | one n => exact (List.append_nil _).symm
  | more n ampersand c => rfl

theorem Disjunction.leaves_tree (d : Disjunction) : d.tree.leaves = leavesAll d.operands := by
  cases d with
  | one c => exact (List.append_nil _).symm
  | more c bar d => rfl

mutual

/-- The ids among the tokens of a derivation mean the leaves of its condition, where something that
may follow it stands behind them. -/
theorem Disjunction.leavesOf_tokens : ∀ (d : Disjunction) {rest : List Token},
    Follows afterDisjunction rest →
      leavesOf (d.tokens ++ rest) = leavesAll d.operands ++ leavesOf rest
  | .one c, rest, hrest => by
    have hc := Conjunction.leavesOf_tokens c hrest.weaken
    rw [Disjunction.tokens, hc, Disjunction.operands, leavesAll, leavesAll, List.append_nil,
      c.leaves_tree]
  | .more c bar d, rest, hrest => by
    have hbar : Follows afterConjunction (⟨.or, bar⟩ :: (d.tokens ++ rest)) :=
      follows_cons.mpr (by simp [afterConjunction])
    have hc := Conjunction.leavesOf_tokens c hbar
    have hd := Disjunction.leavesOf_tokens d hrest
    have hskip : leavesOf (⟨.or, bar⟩ :: (d.tokens ++ rest)) = leavesOf (d.tokens ++ rest) := rfl
    rw [Disjunction.tokens, List.append_assoc, List.cons_append, hc, hskip, hd,
      Disjunction.operands, leavesAll, List.append_assoc, c.leaves_tree]

theorem Conjunction.leavesOf_tokens : ∀ (c : Conjunction) {rest : List Token},
    Follows afterConjunction rest →
      leavesOf (c.tokens ++ rest) = leavesAll c.operands ++ leavesOf rest
  | .one n, rest, hrest => by
    have hn := Negation.leavesOf_tokens n hrest.weaken
    rw [Conjunction.tokens, hn, Conjunction.operands, leavesAll, leavesAll, List.append_nil]
  | .more n ampersand c, rest, hrest => by
    have hampersand : Follows afterNegation (⟨.and, ampersand⟩ :: (c.tokens ++ rest)) :=
      follows_cons.mpr (by simp [afterNegation])
    have hn := Negation.leavesOf_tokens n hampersand
    have hc := Conjunction.leavesOf_tokens c hrest
    have hskip : leavesOf (⟨.and, ampersand⟩ :: (c.tokens ++ rest)) =
      leavesOf (c.tokens ++ rest) := rfl
    rw [Conjunction.tokens, List.append_assoc, List.cons_append, hn, hskip, hc,
      Conjunction.operands, leavesAll, List.append_assoc]

theorem Negation.leavesOf_tokens : ∀ (n : Negation) {rest : List Token},
    Follows afterNegation rest → leavesOf (n.tokens ++ rest) = n.tree.leaves ++ leavesOf rest
  | .plain a, _, hrest => Atom.leavesOf_tokens a hrest
  | .not _ a, _, hrest => Atom.leavesOf_tokens a hrest

theorem Atom.leavesOf_tokens : ∀ (a : Atom) {rest : List Token},
    Follows afterNegation rest → leavesOf (a.tokens ++ rest) = a.tree.leaves ++ leavesOf rest
  | .arrival name p, rest, hrest => by
    show leafAt name p.line rest :: leavesOf rest = _
    rw [leafAt_of_follows hrest]
    rfl
  | .comparison name p op q l, rest, hrest => by
    show Leaf.compare ⟨name, op, operandAt (literalTokens l ++ rest), p.line⟩ ::
      leavesOf (literalTokens l ++ rest) = _
    rw [operandAt_of_follows hrest, leavesOf_literalTokens]
    rfl
  | .group opening d closing, rest, _ => by
    have hclosing : Follows afterDisjunction (⟨.closeGroup, closing⟩ :: rest) :=
      follows_cons.mpr (by simp [afterDisjunction])
    have hd := Disjunction.leavesOf_tokens d hclosing
    show leavesOf (d.tokens ++ [⟨.closeGroup, closing⟩] ++ rest) = d.tree.leaves ++ leavesOf rest
    rw [List.append_assoc, d.leaves_tree]
    exact hd

end

end Grammar

namespace Lexer

theorem toList_of_word {cs : List Char} {name : String} (h : word cs = .id name) :
    name.toList = cs := by
  unfold word at h
  split at h
  · cases h
  · cases h
  · cases h
  · cases h
    exact String.toList_ofList

/-- An id is what is written where it is scanned. -/
theorem eq_append_of_scan_id {cs rest : List Char} {name : String}
    (h : scan cs = .ok (.id name, rest)) : cs = name.toList ++ rest := by
  unfold scan at h
  split at h
  case h_14 c body _ _ _ _ _ _ _ _ _ _ _ _ _ =>
    split at h
    · obtain ⟨r, _, hk⟩ := map_eq_ok.mp h
      cases hk
    · split at h
      · simp only [number] at h
        split at h
        · cases h
        · split at h <;> cases h
      · split at h
        · obtain ⟨⟨text, more⟩, hbody, hk⟩ := map_eq_ok.mp h
          obtain ⟨hword, rfl⟩ := Prod.mk.inj hk
          rw [toList_of_word hword]
          exact idBody_append hbody
        · cases h
  all_goals cases h

end Lexer

/-- The leaves of a compiled condition are what the ids of its source mean, in order, so that its
ids are these. An id with an operator behind it is compared with the literal behind that, or with
nothing; its line is that of the place in the source where the id is written. -/
theorem leaves_follow_ids {source : String} {c : Condition} (h : compile source = .ok c) :
    ∃ ts, tokenize source = .ok ts ∧ c.root.leaves = leavesOf ts ∧
      c.ids = ts.filterMap Token.id? ∧
      ∀ name p, ⟨.id name, p⟩ ∈ ts → ∃ front rest,
        source.toList = front ++ (name.toList ++ rest) ∧
        Lexer.Reached front (name.toList ++ rest) ∧ p = .behind front ∧
        p.line = 1 + front.count '\n' := by
  unfold compile at h
  split at h
  · cases h
  · rename_i ts hts
    split at h
    · cases h
    · rename_i root hroot
      obtain rfl : (⟨source, root⟩ : Condition) = c := Except.ok.inj h
      obtain ⟨body, p, rfl, hbody⟩ := tokenize_scanned hts
      obtain ⟨d, rfl, -, -, rfl⟩ :=
        (Parser.parse_eq_ok_iff fun t ht => (hbody t ht).ne_endOfText).mp hroot
      have hend : Grammar.Follows Grammar.afterDisjunction [⟨.endOfText, p⟩] :=
        Grammar.follows_cons.mpr (by simp [Grammar.afterDisjunction])
      have hleaves : d.tree.leaves = leavesOf (d.tokens ++ [⟨.endOfText, p⟩]) := by
        rw [d.leavesOf_tokens hend, d.leaves_tree]
        exact (List.append_nil _).symm
      refine ⟨_, hts, hleaves, ?_, fun name q hq => ?_⟩
      · rw [Condition.ids, Expr.ids_eq_map_leaves, hleaves, map_id_leavesOf]
      · obtain ⟨front, text, rest, hcs, hplace, hreached, hscan, -⟩ :=
          Lexer.exists_reached (tokenize_eq_ok.mp hts) hq
        have hname := Lexer.eq_append_of_scan_id hscan
        rw [hname] at hcs hreached
        rw [Position.start_after] at hplace
        exact ⟨front, rest, hcs, hreached, hplace, congrArg Position.line hplace⟩

theorem leaves_follow_ids_nested : ∃ c ts, compile "a >= 'x' |\n!(b & c !=)" = .ok c ∧
    tokenize "a >= 'x' |\n!(b & c !=)" = .ok ts ∧
    c.root.leaves = leavesOf ts ∧ leavesOf ts = [.compare ⟨"a", .ge, .literal (.string "x"), 1⟩,
      .transient "b", .compare ⟨"c", .ne, .unknown, 2⟩] ∧
    c.ids = ts.filterMap Token.id? ∧ ts.filterMap Token.id? = ["a", "b", "c"] := by
  have hread : tokenize "a >= 'x' |\n!(b & c !=)" = .ok [⟨.id "a", ⟨1, 1⟩⟩, ⟨.op .ge, ⟨1, 3⟩⟩,
      ⟨.literal (.string "x"), ⟨1, 6⟩⟩, ⟨.or, ⟨1, 10⟩⟩, ⟨.not, ⟨2, 1⟩⟩, ⟨.openGroup, ⟨2, 2⟩⟩,
      ⟨.id "b", ⟨2, 3⟩⟩, ⟨.and, ⟨2, 5⟩⟩, ⟨.id "c", ⟨2, 7⟩⟩, ⟨.op .ne, ⟨2, 9⟩⟩,
      ⟨.closeGroup, ⟨2, 11⟩⟩, ⟨.endOfText, ⟨2, 12⟩⟩] := by cbv
  have hc : compile "a >= 'x' |\n!(b & c !=)" = .ok ⟨"a >= 'x' |\n!(b & c !=)",
      .or [.compare ⟨"a", .ge, .literal (.string "x"), 1⟩,
        .not (.and [.transient "b", .compare ⟨"c", .ne, .unknown, 2⟩])]⟩ := by
    set_option maxRecDepth 4000 in cbv
  obtain ⟨ts, hts, hleaves, hids, -⟩ := leaves_follow_ids hc
  obtain rfl := Except.ok.inj (hread.symm.trans hts)
  exact ⟨_, _, hc, hts, hleaves, rfl, hids, rfl⟩

end HomeAutomation.Trigger
