import HomeAutomation.Proofs.Trigger.Reading
import HomeAutomation.Proofs.Trigger.Writable

/-! The canonical text of a condition compiles to it. Whatever the printer puts parentheses around,
the text is covered by a derivation of the kind that its place asks for, so the reader takes it for
the condition that was written. -/

namespace HomeAutomation.Trigger

open Text Lexer Grammar HomeAutomation.Trigger.Expr

section Pieces

variable {p : Position} {rest : List Char}

theorem scan_not (h : ∀ c ∈ rest.head?, c ≠ '=') : scan ('!' :: rest) = .ok (.not, rest) := by
  cases rest with
  | nil => rfl
  | cons c cs =>
    have hc : c ≠ '=' := h c (by simp)
    simp [scan, hc]

theorem reads_not (h : ∀ c ∈ rest.head?, c ≠ '=') : Reads p ['!'] [⟨.not, p⟩] rest :=
  reads_scan (by decide) (scan_not h)

theorem reads_blanked {c : Char} {k : Token.Kind} (hc : isBlank c = false)
    (hs : scan (c :: ' ' :: rest) = .ok (k, ' ' :: rest)) :
    Reads p [' ', c, ' '] [⟨k, p.next ' '⟩] rest := by
  have hblank : Reads p [' '] [] (c :: ' ' :: rest) := reads_blank (by decide)
  have htoken : Reads (p.after [' ']) [c] [⟨k, p.next ' '⟩] (' ' :: rest) := reads_scan hc hs
  have hlast : Reads ((p.after [' ']).after [c]) [' '] [] rest := reads_blank (by decide)
  exact hblank.append (htoken.append hlast)

theorem reads_operator (op : Operator) :
    Reads p op.symbol.toList [⟨.op op, p⟩] (' ' :: rest) := by
  cases op <;> exact reads_scan (by decide) rfl

theorem reads_operand {o : Operand} (h : o.IsFinite) (hr : Delimited rest) :
    Reads p o.chars [⟨o.kind, p⟩] rest := by
  have hreserved := reads_reserved (p := p) hr
  cases o with
  | unknown => exact hreserved.1
  | literal v =>
    cases v with
    | bool b => cases b <;> [exact hreserved.2.2; exact hreserved.2.1]
    | string s => exact reads_string
    | number x =>
      cases x with
      | finite s m => exact reads_number hr
      | nan | infinite s => simp [Operand.IsFinite, Double.isFinite] at h

end Pieces

namespace Expr

/-- From here on, the text of a condition, in parentheses if it is grouped, gives tokens that a
derivation of this nesting covers and that mean the condition. -/
structure Prints (p : Position) (rest : List Char) (e : Expr) (grouped : Bool)
    (ts : List Token) (nesting : Nat) (tree : Expr) : Prop where
  reads : Reads p (wrap grouped e.chars) ts rest
  nesting_le : nesting ≤ e.parentheses + grouped.toNat
  tree_eq : tree.withoutLines = e.withoutLines

/-- Within a disjunction, or alone, the text is read as a disjunction. -/
def AsDisjunction (e : Expr) : Prop :=
  ∀ p rest, Delimited rest → ∃ d : Disjunction,
    Prints p rest e false d.tokens d.nesting d.tree ∧ d.Ordered

def AsConjunction (e : Expr) : Prop :=
  ∀ p rest, Delimited rest → ∃ c : Conjunction,
    Prints p rest e e.isOr c.tokens c.nesting c.tree ∧ c.Ordered

def AsNegation (e : Expr) : Prop :=
  ∀ p rest, Delimited rest → ∃ n : Negation,
    Prints p rest e e.isOrAnd n.tokens n.nesting n.tree ∧ n.Ordered

def AsAtom (e : Expr) : Prop :=
  ∀ p rest, Delimited rest → ∃ a : Atom,
    Prints p rest e e.isOrAndNot a.tokens a.nesting a.tree ∧ a.Ordered

/-- The text of a condition, read in each place where it can stand. -/
structure Printed (e : Expr) : Prop where
  asDisjunction : AsDisjunction e
  asConjunction : AsConjunction e
  asNegation : AsNegation e
  asAtom : AsAtom e

section Places

variable {e : Expr}

/-- Parentheses make an atom of anything. -/
theorem AsDisjunction.asAtom (h : AsDisjunction e) (he : e.isOrAndNot = true) : AsAtom e := by
  intro p rest _
  obtain ⟨d, hd, ho⟩ := h (p.next '(') (')' :: rest) (delimited_close rest)
  refine ⟨.group p d ((p.next '(').after e.chars), ⟨?_, ?_, hd.tree_eq⟩, ho⟩
  · have hopen : Reads p ['('] [⟨.openGroup, p⟩] (e.chars ++ [')'] ++ rest) :=
      reads_scan (by decide) rfl
    have hclose : Reads ((p.after ['(']).after e.chars) [')']
        [⟨.closeGroup, (p.next '(').after e.chars⟩] rest := reads_scan (by decide) rfl
    have hinner : Reads (p.after ['(']) e.chars d.tokens (')' :: rest) := hd.reads
    rw [he]
    exact hopen.append (hinner.append hclose)
  · have := hd.nesting_le
    simp only [he, Bool.toNat_false, Bool.toNat_true, Atom.nesting] at this ⊢
    omega

theorem AsAtom.asNegation (h : AsAtom e) (he : e.isOrAnd = e.isOrAndNot) : AsNegation e := by
  intro p rest hr
  obtain ⟨a, ha, ho⟩ := h p rest hr
  exact ⟨.plain a, he ▸ ha, ho⟩

theorem AsNegation.asConjunction (h : AsNegation e) (he : e.isOr = e.isOrAnd) :
    AsConjunction e := by
  intro p rest hr
  obtain ⟨n, hn, ho⟩ := h p rest hr
  exact ⟨.one n, he ▸ hn, ho⟩

theorem AsConjunction.asDisjunction (h : AsConjunction e) (he : e.isOr = false) :
    AsDisjunction e := by
  intro p rest hr
  obtain ⟨c, hc, ho⟩ := h p rest hr
  exact ⟨.one c, he ▸ hc, ho⟩

end Places

section Nodes

theorem printed_transient {token : String} (h : IsId token) : Printed (.transient token) := by
  have hatom : AsAtom (.transient token) := fun p rest hr =>
    ⟨.arrival token p, ⟨reads_id h hr, Nat.zero_le _, rfl⟩, trivial⟩
  have hneg := hatom.asNegation rfl
  have hconj := hneg.asConjunction rfl
  exact ⟨hconj.asDisjunction rfl, hconj, hneg, hatom⟩

theorem printed_compare {c : Comparison} (hid : IsId c.id) (hfin : c.operand.IsFinite)
    (hop : c.op.Admits c.operand) : Printed (.compare c) := by
  have hatom : AsAtom (.compare c) := by
    intro p rest hr
    let q := (p.after c.id.toList).after [' ']
    let r := (q.after c.op.symbol.toList).after [' ']
    refine ⟨.comparison c.id p c.op q (some (c.operand, r)), ⟨?_, Nat.zero_le _, rfl⟩, hop⟩
    -- from the last piece to the first, as each has to know what stands behind it
    have hoperand : Reads r c.operand.chars [⟨c.operand.kind, r⟩] rest := reads_operand hfin hr
    have hblank : Reads (q.after c.op.symbol.toList) [' '] [] (c.operand.chars ++ rest) :=
      reads_blank (by decide)
    have hsymbol : Reads q c.op.symbol.toList [⟨.op c.op, q⟩] ([' '] ++ c.operand.chars ++ rest) :=
      reads_operator c.op
    have hcompared := hsymbol.append (hblank.append hoperand)
    have hblank : Reads (p.after c.id.toList) [' '] []
        (c.op.symbol.toList ++ ([' '] ++ c.operand.chars) ++ rest) := reads_blank (by decide)
    have hname : Reads p c.id.toList [⟨.id c.id, p⟩]
        ([' '] ++ (c.op.symbol.toList ++ ([' '] ++ c.operand.chars)) ++ rest) :=
      reads_id hid (delimited_blank _)
    have htext : wrap false (chars (.compare c)) =
        c.id.toList ++ ([' '] ++ (c.op.symbol.toList ++ ([' '] ++ c.operand.chars))) := by
      simp [wrap, chars, Comparison.chars]
    show Reads p (wrap false (chars (.compare c))) _ rest
    rw [htext]
    exact hname.append (hblank.append hcompared)
  have hneg := hatom.asNegation rfl
  have hconj := hneg.asConjunction rfl
  exact ⟨hconj.asDisjunction rfl, hconj, hneg, hatom⟩

/-- No atom starts with the sign that would make another operator of an exclamation mark. -/
theorem head_atom_ne_equals {e : Expr} (h : Writable e) (rest : List Char) :
    ∀ c ∈ (wrap e.isOrAndNot e.chars ++ rest).head?, c ≠ '=' := by
  have hid {name : String} (hname : IsId name) (more : List Char) :
      ∀ c ∈ (name.toList ++ more).head?, c ≠ '=' := by
    obtain ⟨⟨d, ds, hds, hd, -⟩, -⟩ := hname
    intro c hc
    obtain rfl : d = c := by simpa [hds] using hc
    rintro rfl
    revert hd
    decide
  cases h with
  | or | and | not => simp [isOrAndNot, wrap]
  | transient hname => exact hid hname rest
  | @compare c hname =>
    show ∀ d ∈ (c.chars ++ rest).head?, d ≠ '='
    rw [Comparison.chars, List.append_assoc, List.append_assoc]
    exact hid hname _

theorem printed_not {e : Expr} (he : Writable e) (h : AsAtom e) : Printed (.not e) := by
  have hneg : AsNegation (.not e) := by
    intro p rest hr
    obtain ⟨a, ha, ho⟩ := h (p.next '!') rest hr
    refine ⟨.not p a, ⟨?_, ?_, ?_⟩, ho⟩
    · have hmark : Reads p ['!'] [⟨.not, p⟩] (wrap e.isOrAndNot e.chars ++ rest) :=
        reads_not (head_atom_ne_equals he rest)
      exact hmark.append ha.reads
    · simpa [Negation.nesting, parentheses, isOrAnd] using ha.nesting_le
    · simp [Negation.tree, withoutLines, ha.tree_eq]
  have hconj := hneg.asConjunction rfl
  have hdisj := hconj.asDisjunction rfl
  exact ⟨hdisj, hconj, hneg, hdisj.asAtom rfl⟩

/-- Operands with separators between them are read one after another. -/
theorem exists_disjuncts {es : List Expr} (hne : es ≠ []) (h : ∀ e ∈ es, AsConjunction e)
    (p : Position) {rest : List Char} (hr : Delimited rest) : ∃ d : Disjunction,
      Reads p (disjuncts es) d.tokens rest ∧ d.nesting ≤ parenthesesAll isOr es ∧ d.Ordered ∧
        d.operands.map withoutLines = es.map withoutLines := by
  induction es generalizing p with
  | nil => exact absurd rfl hne
  | cons e es ih =>
    cases es with
    | nil =>
      obtain ⟨c, hc, ho⟩ := h e (by simp) p rest hr
      refine ⟨.one c, hc.reads, ?_, ho, ?_⟩
      · simpa [Disjunction.nesting, parenthesesAll] using hc.nesting_le
      · simpa [Disjunction.operands] using hc.tree_eq
    | cons f es =>
      obtain ⟨c, hc, ho⟩ := h e (by simp) p (' ' :: '|' :: ' ' :: disjuncts (f :: es) ++ rest)
        (delimited_blank _)
      let q := p.after (wrap e.isOr e.chars)
      obtain ⟨d, hd, hdn, hdo, hdt⟩ := ih (by simp) (fun e he => h e (by simp [he]))
        (q.after [' ', '|', ' '])
      have hbar : Reads q [' ', '|', ' '] [⟨.or, q.next ' '⟩] (disjuncts (f :: es) ++ rest) :=
        reads_blanked (by decide) rfl
      refine ⟨.more c (q.next ' ') d, ?_, ?_, ⟨ho, hdo⟩, ?_⟩
      · exact hc.reads.append (hbar.append hd)
      · have := hc.nesting_le
        rw [parenthesesAll, Disjunction.nesting]
        omega
      · simp [Disjunction.operands, hc.tree_eq, hdt]

theorem exists_conjuncts {es : List Expr} (hne : es ≠ []) (h : ∀ e ∈ es, AsNegation e)
    (p : Position) {rest : List Char} (hr : Delimited rest) : ∃ c : Conjunction,
      Reads p (conjuncts es) c.tokens rest ∧ c.nesting ≤ parenthesesAll isOrAnd es ∧ c.Ordered ∧
        c.operands.map withoutLines = es.map withoutLines := by
  induction es generalizing p with
  | nil => exact absurd rfl hne
  | cons e es ih =>
    cases es with
    | nil =>
      obtain ⟨n, hn, ho⟩ := h e (by simp) p rest hr
      refine ⟨.one n, hn.reads, ?_, ho, ?_⟩
      · simpa [Conjunction.nesting, parenthesesAll] using hn.nesting_le
      · simpa [Conjunction.operands] using hn.tree_eq
    | cons f es =>
      obtain ⟨n, hn, ho⟩ := h e (by simp) p (' ' :: '&' :: ' ' :: conjuncts (f :: es) ++ rest)
        (delimited_blank _)
      let q := p.after (wrap e.isOrAnd e.chars)
      obtain ⟨c, hc, hcn, hco, hct⟩ := ih (by simp) (fun e he => h e (by simp [he]))
        (q.after [' ', '&', ' '])
      have hsign : Reads q [' ', '&', ' '] [⟨.and, q.next ' '⟩] (conjuncts (f :: es) ++ rest) :=
        reads_blanked (by decide) rfl
      refine ⟨.more n (q.next ' ') c, ?_, ?_, ⟨ho, hco⟩, ?_⟩
      · exact hn.reads.append (hsign.append hc)
      · have := hn.nesting_le
        rw [parenthesesAll, Conjunction.nesting]
        omega
      · simp [Conjunction.operands, hn.tree_eq, hct]

theorem printed_or {es : List Expr} (hlen : 2 ≤ es.length) (h : ∀ e ∈ es, AsConjunction e) :
    Printed (.or es) := by
  have hdisj : AsDisjunction (.or es) := by
    intro p rest hr
    obtain ⟨d, hd, hn, ho, ht⟩ := exists_disjuncts (List.ne_nil_of_length_pos (by omega)) h p hr
    refine ⟨d, ⟨hd, hn, ?_⟩, ho⟩
    cases d with
    | one c =>
      have := congrArg List.length ht
      simp only [Disjunction.operands, List.map_cons, List.map_nil, List.length_cons,
        List.length_nil, List.length_map] at this
      omega
    | more c bar d =>
      simpa [Disjunction.tree, Disjunction.operands, withoutLines] using ht
  have hatom := hdisj.asAtom rfl
  have hneg := hatom.asNegation rfl
  exact ⟨hdisj, hneg.asConjunction rfl, hneg, hatom⟩

theorem printed_and {es : List Expr} (hlen : 2 ≤ es.length) (h : ∀ e ∈ es, AsNegation e) :
    Printed (.and es) := by
  have hconj : AsConjunction (.and es) := by
    intro p rest hr
    obtain ⟨c, hc, hn, ho, ht⟩ := exists_conjuncts (List.ne_nil_of_length_pos (by omega)) h p hr
    refine ⟨c, ⟨hc, hn, ?_⟩, ho⟩
    cases c with
    | one n =>
      have := congrArg List.length ht
      simp only [Conjunction.operands, List.map_cons, List.map_nil, List.length_cons,
        List.length_nil, List.length_map] at this
      omega
    | more n ampersand c =>
      simpa [Conjunction.tree, Conjunction.operands, withoutLines] using ht
  have hdisj := hconj.asDisjunction rfl
  have hatom := hdisj.asAtom rfl
  exact ⟨hdisj, hconj, hatom.asNegation rfl, hatom⟩

end Nodes

theorem Writable.printed {e : Expr} (h : Writable e) : Printed e := by
  induction h with
  | or hlen _ ih => exact printed_or hlen fun e he => (ih e he).asConjunction
  | and hlen _ ih => exact printed_and hlen fun e he => (ih e he).asNegation
  | not he ih => exact printed_not he ih.asAtom
  | transient hid => exact printed_transient hid
  | compare hid hfin hop => exact printed_compare hid hfin hop

end Expr

/-- A condition that can be written is compiled from its text. -/
theorem compile_text {e : Expr} (h : e.Writable) (hp : e.parentheses ≤ Parser.maxNesting) :
    ∃ c, compile e.text = .ok c ∧ c.root.withoutLines = e.withoutLines := by
  obtain ⟨d, hd, ho⟩ := h.printed.asDisjunction .start [] delimited_nil
  have hlast : tokens (Position.start.after e.chars) [] =
      .ok [⟨.endOfText, Position.start.after e.chars⟩] := tokens_nil rfl
  have htokens : tokenize e.text =
      .ok (d.tokens ++ [⟨.endOfText, Position.start.after e.chars⟩]) := by
    have hreads : tokens .start (e.chars ++ []) =
        (tokens (Position.start.after e.chars) []).map (d.tokens ++ ·) := hd.reads
    rw [hlast, List.append_nil] at hreads
    rw [tokenize, Expr.text, String.toList_ofList, hreads]
    rfl
  have hparse := Parser.parse_complete d (p := Position.start.after e.chars)
    (Nat.le_trans hd.nesting_le hp) ho
  exact ⟨⟨e.text, d.tree⟩, by simp [compile, htokens, hparse], hd.tree_eq⟩

/-- Exactly the conditions that can be written are compiled from their texts: all groups have two
members or more, ids are well-formed and none of the reserved words, numbers are finite, booleans
and presence are compared for equality only, and parentheses nest no deeper than 256. -/
theorem compile_text_eq_iff (e : Expr) :
    (∃ c, compile e.text = .ok c ∧ c.root.withoutLines = e.withoutLines) ↔
      e.Writable ∧ e.parentheses ≤ 256 := by
  constructor
  · rintro ⟨c, hc, he⟩
    have hw := writable_of_compile hc
    refine ⟨hw.1.of_withoutLines_eq he, ?_⟩
    rw [← parentheses_withoutLines, ← he, parentheses_withoutLines]
    exact hw.2
  · rintro ⟨hw, hp⟩
    exact compile_text hw hp

/-- The text of a compiled condition compiles to the same condition apart from lines, and is the
text of that condition too; compiled once more it gives the very same, lines included. -/
theorem compile_text_of_compile {source : String} {c : Condition} (h : compile source = .ok c) :
    ∃ d, compile c.text = .ok d ∧ d.root.withoutLines = c.root.withoutLines ∧ d.text = c.text ∧
      compile d.text = .ok d := by
  have hw := writable_of_compile h
  obtain ⟨d, hd, he⟩ := compile_text hw.1 hw.2
  have htext : d.text = c.text := by
    show String.ofList d.root.chars = String.ofList c.root.chars
    rw [← chars_withoutLines d.root, he, chars_withoutLines]
  exact ⟨d, hd, he, htext, htext ▸ hd⟩

theorem compile_text_of_compile_grouped :
    ∃ c, compile "!(a | !b(1, '|')) &\n c == 'x\"' | d !=" = .ok c ∧
      ∃ d, compile c.text = .ok d ∧ d.root.withoutLines = c.root.withoutLines ∧
        d.text = c.text ∧ compile d.text = .ok d := by
  have h : compile "!(a | !b(1, '|')) &\n c == 'x\"' | d !=" =
      .ok ⟨"!(a | !b(1, '|')) &\n c == 'x\"' | d !=", .or [
        .and [.not (.or [.transient "a", .not (.transient "b(1, '|')")]),
          .compare ⟨"c", .eq, .literal (.string "x\""), 2⟩],
        .compare ⟨"d", .ne, .unknown, 2⟩]⟩ := by
    set_option maxRecDepth 4000 in cbv
  exact ⟨_, h, compile_text_of_compile h⟩

end HomeAutomation.Trigger
