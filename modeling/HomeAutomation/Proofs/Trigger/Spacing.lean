import HomeAutomation.Proofs.Trigger.Layout
import HomeAutomation.Proofs.Trigger.Writable

/-! Blanks between the words of a text. Nothing that is scanned looks beyond a blank, so that words
stay what they are wherever blanks come in, and the reader of conditions does not look at places. -/

namespace HomeAutomation.Trigger

def Token.unplaced (t : Token) : Token := ⟨t.kind, ⟨0, 0⟩⟩

theorem map_unplaced (ts : List Token) :
    ts.map Token.unplaced = (ts.map Token.kind).map fun k => ⟨k, ⟨0, 0⟩⟩ := by
  rw [List.map_map]
  rfl

namespace Parser

def Fault.unplaced : Fault → Fault
  | .trailing t => .trailing t.unplaced
  | .tooDeep t => .tooDeep t.unplaced
  | .expectedClose t => .expectedClose t.unplaced
  | .expectedAtom t => .expectedAtom t.unplaced
  | .expectedLiteral t => .expectedLiteral t.unplaced
  | .orderedBooleans t op => .orderedBooleans t.unplaced op
  | .orderedPresence t op => .orderedPresence t.unplaced op
  | .outOfTokens => .outOfTokens

theorem Fault.message_unplaced (f : Fault) : f.unplaced.message = f.message := by
  cases f <;> rfl

section Readers

variable {α : Type} {g : Option (List Token → Parse Expr)} {p : List Token → Parse Expr}

/-- What was read without the places in it, which `strip` takes out of the result. -/
def unplaced (strip : α → α) : Parse α → Parse α
  | .error f => .error f.unplaced
  | .ok (a, rest) => .ok (strip a, rest.map Token.unplaced)

/-- A reader that reads tokens without places as it reads the same ones with them. -/
def Placeless (p : List Token → Parse Expr) : Prop :=
  ∀ ts, p (ts.map Token.unplaced) = unplaced Expr.withoutLines (p ts)

theorem unplaced_map {β : Type} (strip : α → α) (strip' : β → β) (f f' : α → β)
    (hf : ∀ a, f' (strip a) = strip' (f a)) (r : Parse α) :
    ((unplaced strip r).map fun (a, rest) => (f' a, rest)) =
      unplaced strip' (r.map fun (a, rest) => (f a, rest)) := by
  cases r with
  | error e => rfl
  | ok r => simp [unplaced, Except.map, hf]

theorem operand_unplaced (ts : List Token) :
    operand (ts.map Token.unplaced) = unplaced id (operand ts) := by
  cases ts with
  | nil => rfl
  | cons t ts =>
    obtain ⟨k, place⟩ := t
    cases k <;> rfl

theorem checkOperand_unplaced (t : Token) (op : Operator) (o : Operand) :
    checkOperand t.unplaced op o = (checkOperand t op o).mapError Fault.unplaced := by
  unfold checkOperand
  split
  · split <;> rfl
  · split <;> rfl
  · rfl
  · rfl

theorem leaf_unplaced (name : String) (line : Nat) (ts : List Token) :
    leaf name 0 (ts.map Token.unplaced) = unplaced Expr.withoutLines (leaf name line ts) := by
  cases ts with
  | nil => rfl
  | cons t ts =>
    by_cases hop : ∃ op, t.kind = .op op
    · obtain ⟨op, ht⟩ := hop
      have ht' : t.unplaced.kind = .op op := ht
      have hoperand := operand_unplaced ts
      cases ho : operand ts with
      | error f =>
        rw [ho] at hoperand
        simp [leaf, ht, ht', ho, hoperand, unplaced]
      | ok r =>
        obtain ⟨o, rest⟩ := r
        have hcheck := checkOperand_unplaced t op o
        rw [ho] at hoperand
        cases hc : checkOperand t op o with
        | error f =>
          rw [hc] at hcheck
          simp [leaf, ht, ht', ho, hoperand, hc, hcheck, unplaced, Except.mapError]
        | ok =>
          rw [hc] at hcheck
          simp [leaf, ht, ht', ho, hoperand, hc, hcheck, unplaced, Except.mapError,
            Expr.withoutLines]
    · obtain ⟨k, place⟩ := t
      cases k with
      | op op => exact absurd ⟨op, rfl⟩ hop
      | _ => rfl

theorem placeless_atom (hg : ∀ inner ∈ g, Placeless inner) : Placeless (atom g) := by
  intro ts
  cases ts with
  | nil => rfl
  | cons t ts =>
    obtain ⟨k, place⟩ := t
    cases k with
    | id name => exact leaf_unplaced name place.line ts
    | openGroup =>
      cases hinner : g with
      | none => rfl
      | some inner =>
        have hread := hg inner hinner ts
        cases hi : inner ts with
        | error f =>
          rw [hi] at hread
          simp [atom, hread, hi, unplaced, Token.unplaced]
        | ok r =>
          obtain ⟨e, _ | ⟨close, rest⟩⟩ := r
          · rw [hi] at hread
            simp [atom, hread, hi, unplaced, Token.unplaced, Fault.unplaced]
          · rw [hi] at hread
            by_cases hclose : close.kind = .closeGroup
            · simp [atom, hread, hi, hclose, unplaced, Token.unplaced]
            · simp [atom, hread, hi, hclose, unplaced, Token.unplaced, Fault.unplaced]
    | _ => rfl

theorem placeless_negation (hg : ∀ inner ∈ g, Placeless inner) : Placeless (negation g) := by
  intro ts
  cases ts with
  | nil => rfl
  | cons t ts =>
    by_cases ht : t.kind = .not
    · have ht' : t.unplaced.kind = .not := ht
      have hatom := placeless_atom hg ts
      have hmap := unplaced_map Expr.withoutLines Expr.withoutLines Expr.not Expr.not
        (fun e => by rw [Expr.withoutLines]) (atom g ts)
      rw [List.map_cons, negation, negation, if_pos ht, if_pos ht', hatom, hmap]
    · have ht' : ¬ t.unplaced.kind = .not := ht
      have hatom := placeless_atom hg (t :: ts)
      rw [List.map_cons] at hatom ⊢
      rw [negation, negation, if_neg ht, if_neg ht', hatom]

theorem separated_unplaced {sep : Token.Kind} (hp : Placeless p) (ts : List Token) :
    separated sep p (ts.map Token.unplaced) =
      unplaced (List.map Expr.withoutLines) (separated sep p ts) := by
  fun_induction separated sep p ts with
  | case1 ts f hi =>
    have hread := hp ts
    rw [hi] at hread
    rw [separated, hread]
    rfl
  | case2 ts e hi =>
    have hread := hp ts
    rw [hi] at hread
    rw [separated, hread]
    rfl
  | case3 ts e t rest hi ht hlen ih =>
    have hread := hp ts
    have ht' : t.unplaced.kind = sep := ht
    rw [hi] at hread
    have hmap := unplaced_map (List.map Expr.withoutLines) (List.map Expr.withoutLines)
      (e :: ·) (e.withoutLines :: ·) (fun _ => rfl) (separated sep p rest)
    rw [separated, hread]
    simp only [unplaced, List.map_cons, ht', if_true, List.length_map, hlen, ih] at hmap ⊢
    exact hmap
  | case4 ts e t rest hi ht hlen =>
    have hread := hp ts
    have ht' : t.unplaced.kind = sep := ht
    rw [hi] at hread
    rw [separated, hread]
    simp [unplaced, ht', hlen, Fault.unplaced]
  | case5 ts e t rest hi ht =>
    have hread := hp ts
    have ht' : ¬ t.unplaced.kind = sep := ht
    rw [hi] at hread
    rw [separated, hread]
    simp [unplaced, ht']

theorem group_withoutLines {node : List Expr → Expr}
    (hnode : ∀ es, (node es).withoutLines = node (es.map Expr.withoutLines)) (es : List Expr) :
    group node (es.map Expr.withoutLines) = (group node es).withoutLines := by
  rcases es with _ | ⟨e, _ | ⟨e', es⟩⟩
  · exact (hnode []).symm
  · rfl
  · exact (hnode (e :: e' :: es)).symm

theorem placeless_conjunction (hg : ∀ inner ∈ g, Placeless inner) : Placeless (conjunction g) := by
  intro ts
  rw [conjunction, conjunction, separated_unplaced (placeless_negation hg)]
  exact unplaced_map _ _ _ _ (group_withoutLines fun es => by simp [Expr.withoutLines]) _

theorem placeless_disjunction (hg : ∀ inner ∈ g, Placeless inner) : Placeless (disjunction g) := by
  intro ts
  rw [disjunction, disjunction, separated_unplaced (placeless_conjunction hg)]
  exact unplaced_map _ _ _ _ (group_withoutLines fun es => by simp [Expr.withoutLines]) _

theorem placeless_condition (budget : Nat) : Placeless (condition budget) := by
  induction budget with
  | zero => exact placeless_disjunction (by simp)
  | succ budget ih => exact placeless_disjunction (by simpa using ih)

theorem parse_unplaced (ts : List Token) : parse (ts.map Token.unplaced) =
    ((parse ts).map Expr.withoutLines).mapError Fault.unplaced := by
  have hread := placeless_condition maxNesting ts
  rw [parse, parse, hread]
  cases condition maxNesting ts with
  | error f => rfl
  | ok r =>
    obtain ⟨e, _ | ⟨t, rest⟩⟩ := r
    · rfl
    · by_cases hend : t.kind = .endOfText
      · simp [unplaced, Token.unplaced, hend, Except.map, Except.mapError]
      · simp [unplaced, Token.unplaced, hend, Except.map, Except.mapError, Fault.unplaced]

/-- Tokens of the same kinds are read to conditions that differ in lines alone. -/
theorem parse_congr {ts us : List Token} (h : ts.map Token.kind = us.map Token.kind) :
    ((parse ts).map Expr.withoutLines).mapError Fault.unplaced =
      ((parse us).map Expr.withoutLines).mapError Fault.unplaced := by
  have hkinds : ts.map Token.unplaced = us.map Token.unplaced := by
    rw [map_unplaced, map_unplaced, h]
  rw [← parse_unplaced, ← parse_unplaced, hkinds]

end Readers

end Parser

namespace Lexer

open Text

/-- The same token with blanks before it that may be others. -/
structure Word.Moves (w u : Word) : Prop where
  text_eq : u.text = w.text
  kind_eq : u.kind = w.kind
  blank : Blank u.gap

/-- A token that stays apart from the one before it, if it was. -/
def Word.Spaced (w u : Word) : Prop := w.Moves u ∧ (w.gap ≠ [] → u.gap ≠ [])

/-- The same tokens with other blanks: any before the first one, and before each of the others at
least one if there was one. -/
inductive Relaid : List Word → List Word → Prop
  | nil : Relaid [] []
  | cons {w u : Word} {ws us : List Word} :
      w.Moves u → List.Forall₂ Word.Spaced ws us → Relaid (w :: ws) (u :: us)

section Blanks

instance (cs : List Char) : Decidable (Blank cs) :=
  decidable_of_iff (cs.all isBlank = true) List.all_eq_true

variable {w u : Word} {ws us : List Word} {cs rest rest' : List Char}

theorem cut_of_blank (h : Blank rest') : Cut rest rest' := by
  cases rest' with
  | nil => exact .nil
  | cons c rest' => exact .blank (h c (by simp))

theorem cut_written (h : List.Forall₂ Word.Spaced ws us) (hrest : Cut rest rest') :
    Cut (written ws ++ rest) (written us ++ rest') := by
  induction h with
  | nil => exact hrest
  | @cons w u ws us hword _ ih =>
    obtain ⟨hmoves, hapart⟩ := hword
    rw [written_cons, written_cons, List.append_assoc, List.append_assoc, Word.chars, Word.chars]
    -- Either a blank comes first now, or there was none before and both texts go on alike.
    cases hgap : u.gap with
    | nil =>
      have hclose : w.gap = [] := by
        by_contra hne
        exact hapart hne hgap
      rw [hclose, hmoves.text_eq]
      exact ih.append w.text
    | cons c gap => exact .blank (hmoves.blank c (by simp [hgap]))

/-- A word that is moved is scanned as before, where the text behind it is cut at a blank. -/
theorem Spelled.moves (h : Spelled (w :: ws) rest) (hmoves : w.Moves u)
    (hcut : Cut (written ws ++ rest) (written us ++ rest')) (hrest : Spelled us rest') :
    Spelled (u :: us) rest' := by
  obtain ⟨hgap, ⟨c, tail, htext, hc⟩, hscan, -⟩ := h
  have hscan' := hscan
  rw [htext] at hscan'
  obtain ⟨text, hsplit, hread⟩ := scan_cut hscan'
  have heq : w.text = text := by
    rw [htext]
    exact List.append_cancel_right hsplit
  have hmoved := hread _ hcut
  rw [← heq, ← hmoves.text_eq, ← hmoves.kind_eq] at hmoved
  exact ⟨hmoves.blank, ⟨c, tail, hmoves.text_eq.trans htext, hc⟩, hmoved, hrest⟩

theorem Spelled.spaced (h : Spelled ws rest) (hws : List.Forall₂ Word.Spaced ws us)
    (hcut : Cut rest rest') : Spelled us rest' := by
  induction hws with
  | nil => trivial
  | cons hword hws ih => exact h.moves hword.1 (cut_written hws hcut) (ih h.2.2.2)

theorem Lays.relaid {trailing trailing' : List Char} (h : Lays ws trailing cs)
    (hws : Relaid ws us) (hblank : Blank trailing') :
    Lays us trailing' (written us ++ trailing') := by
  refine ⟨rfl, hblank, ?_⟩
  have hcut : Cut trailing trailing' := cut_of_blank hblank
  cases hws with
  | nil => trivial
  | cons hmoves hws =>
    exact h.spelled.moves hmoves (cut_written hws hcut) (h.spelled.2.2.2.spaced hws hcut)

theorem map_kind_spaced (h : List.Forall₂ Word.Spaced ws us) :
    us.map Word.kind = ws.map Word.kind := by
  induction h with
  | nil => rfl
  | cons hword _ ih => rw [List.map_cons, List.map_cons, hword.1.kind_eq, ih]

theorem Relaid.map_kind (h : Relaid ws us) : us.map Word.kind = ws.map Word.kind := by
  cases h with
  | nil => rfl
  | cons hmoves hws => rw [List.map_cons, List.map_cons, hmoves.kind_eq, map_kind_spaced hws]

/-- The kinds of the tokens of a text are those of the words it is made of. -/
theorem Lays.map_kind {trailing : List Char} {p : Position} {ts : List Token}
    (h : Lays ws trailing cs) (hts : tokens p cs = .ok ts) :
    ts.map Token.kind = ws.map Word.kind ++ [.endOfText] := by
  obtain rfl := Except.ok.inj ((h.tokens_eq p).symm.trans hts)
  rw [List.map_append, map_kind_placed]
  rfl

end Blanks

end Lexer

/-- Two sources that have the same condition, up to lines, or are refused in the same words. -/
def Alike : Except CompileError Condition → Except CompileError Condition → Prop
  | .ok c, .ok d => c.root.withoutLines = d.root.withoutLines
  | .error e, .error f => e.message = f.message
  | _, _ => False

theorem alike_of_kinds {source source' : String} {ts us : List Token}
    (hts : tokenize source = .ok ts) (hus : tokenize source' = .ok us)
    (h : ts.map Token.kind = us.map Token.kind) : Alike (compile source) (compile source') := by
  have hparse := Parser.parse_congr h
  cases hread : Parser.parse ts with
  | error f =>
    cases hread' : Parser.parse us with
    | error f' =>
      simp only [hread, hread', Except.map, Except.mapError, Except.error.injEq] at hparse
      have hmessage : f.message = f'.message := by
        rw [← f.message_unplaced, hparse, f'.message_unplaced]
      simpa [compile, hts, hus, hread, hread', Alike, CompileError.message] using hmessage
    | ok e' => simp [hread, hread', Except.map, Except.mapError] at hparse
  | ok e =>
    cases hread' : Parser.parse us with
    | error f' => simp [hread, hread', Except.map, Except.mapError] at hparse
    | ok e' =>
      simp only [hread, hread', Except.map, Except.mapError, Except.ok.injEq] at hparse
      simpa [compile, hts, hus, hread, hread', Alike] using hparse

/-- A source that has tokens is made of words with blanks between them. With any blanks before the
first and behind the last one, with others where there are some between two words, and with some or
none where there are none, it has the same tokens and the same condition, or the same fault. -/
theorem compile_relaid {source : String} {ts : List Token} (h : tokenize source = .ok ts) :
    (∃ ws trailing, Lexer.Lays ws trailing source.toList) ∧
    ∀ ws trailing us trailing', Lexer.Lays ws trailing source.toList → Lexer.Relaid ws us →
      Lexer.Blank trailing' →
      (∃ ts', tokenize (String.ofList (Lexer.written us ++ trailing')) = .ok ts' ∧
        ts'.map Token.kind = ts.map Token.kind) ∧
      Alike (compile source) (compile (String.ofList (Lexer.written us ++ trailing'))) := by
  have htokens := tokenize_eq_ok.mp h
  obtain ⟨ws, trailing, hlays, -⟩ := Lexer.exists_lays htokens
  refine ⟨⟨ws, trailing, hlays⟩, fun ws trailing us trailing' hlays hws hblank => ?_⟩
  have hmoved : Lexer.Lays us trailing'
      (String.ofList (Lexer.written us ++ trailing')).toList := by
    rw [String.toList_ofList]
    exact hlays.relaid hws hblank
  have htokens' := hmoved.tokens_eq .start
  have hkinds := hmoved.map_kind htokens'
  rw [hws.map_kind, ← hlays.map_kind htokens] at hkinds
  have hts' := tokenize_eq_ok.mpr htokens'
  exact ⟨⟨_, hts', hkinds⟩, alike_of_kinds h hts' hkinds.symm⟩

theorem compile_relaid_spread :
    (∃ ts, tokenize "\tx\n>=! y " = .ok ts ∧
      ts.map Token.kind = [.id "x", .op .ge, .not, .id "y", .endOfText]) ∧
    Alike (compile "x >=!y") (compile "\tx\n>=! y ") := by
  have htokens : tokenize "x >=!y" = .ok [⟨.id "x", ⟨1, 1⟩⟩, ⟨.op .ge, ⟨1, 3⟩⟩, ⟨.not, ⟨1, 5⟩⟩,
      ⟨.id "y", ⟨1, 6⟩⟩, ⟨.endOfText, ⟨1, 7⟩⟩] := by cbv
  have hlays : Lexer.Lays [⟨[], ['x'], .id "x"⟩, ⟨[' '], ['>', '='], .op .ge⟩,
      ⟨[], ['!'], .not⟩, ⟨[], ['y'], .id "y"⟩] [] "x >=!y".toList := by
    have hx : Lexer.scan ['x', ' ', '>', '=', '!', 'y'] =
        .ok (.id "x", [' ', '>', '=', '!', 'y']) := by cbv
    have hy : Lexer.scan ['y'] = .ok (.id "y", []) := by cbv
    exact ⟨by decide, by decide, by decide, ⟨'x', [], rfl, by decide⟩, hx, by decide,
      ⟨'>', ['='], rfl, by decide⟩, rfl, by decide, ⟨'!', [], rfl, by decide⟩, rfl, by decide,
      ⟨'y', [], rfl, by decide⟩, hy, trivial⟩
  have hrelaid : Lexer.Relaid [⟨[], ['x'], .id "x"⟩, ⟨[' '], ['>', '='], .op .ge⟩,
      ⟨[], ['!'], .not⟩, ⟨[], ['y'], .id "y"⟩] [⟨['\t'], ['x'], .id "x"⟩,
      ⟨['\n'], ['>', '='], .op .ge⟩, ⟨[], ['!'], .not⟩, ⟨[' '], ['y'], .id "y"⟩] :=
    .cons ⟨rfl, rfl, by decide⟩
      (.cons ⟨⟨rfl, rfl, by decide⟩, by decide⟩ (.cons ⟨⟨rfl, rfl, by decide⟩, by decide⟩
        (.cons ⟨⟨rfl, rfl, by decide⟩, by decide⟩ .nil)))
  have htext : "\tx\n>=! y " = String.ofList (Lexer.written [⟨['\t'], ['x'], .id "x"⟩,
      ⟨['\n'], ['>', '='], .op .ge⟩, ⟨[], ['!'], .not⟩, ⟨[' '], ['y'], .id "y"⟩] ++ [' ']) := by
    decide
  obtain ⟨-, hread⟩ := compile_relaid htokens
  rw [htext]
  exact hread _ _ _ [' '] hlays hrelaid (by decide)

end HomeAutomation.Trigger
