import HomeAutomation.Proofs.Trigger.RoundTrip

/-! What is scanned first in a text does not depend on all that stands behind it. It is scanned from
every text that goes on like this one up to some place and ends there, or has a blank there. -/

namespace HomeAutomation.Trigger.Lexer

open Text

/-- The second text goes on like the first one up to some place, and there it ends or has a
blank. -/
inductive Cut : List Char → List Char → Prop
  | nil {cs : List Char} : Cut cs []
  | blank {cs ds : List Char} {c : Char} : isBlank c = true → Cut cs (c :: ds)
  | cons {cs ds : List Char} (c : Char) : Cut cs ds → Cut (c :: cs) (c :: ds)

section Scanning

variable {cs text rest rest' : List Char}

theorem Cut.append (h : Cut rest rest') (text : List Char) :
    Cut (text ++ rest) (text ++ rest') := by
  induction text with
  | nil => exact h
  | cons c text ih => exact .cons c ih

theorem eq_false_of_isBlank {p : Char → Bool} (h : ∀ c, p c = true → isBlank c = false) {c : Char}
    (hc : isBlank c = true) : p c = false := by
  by_contra hp
  simp [h c (by simpa using hp)] at hc

theorem head_cases (p : Char → Bool) (cs : List Char) :
    (∃ c ds, cs = c :: ds ∧ p c = true) ∨ ∀ c ∈ cs.head?, p c = false := by
  cases cs with
  | nil => simp
  | cons c cs => cases hc : p c <;> simp [hc]

/-- What no blank is and the first text does not go on with, the second one does not either. -/
theorem Cut.head_eq_false {p : Char → Bool} (h : Cut rest rest')
    (hblank : ∀ c, p c = true → isBlank c = false) (hrest : ∀ c ∈ rest.head?, p c = false) :
    ∀ c ∈ rest'.head?, p c = false := by
  intro c hc
  cases h with
  | nil => cases hc
  | blank hb => exact Option.some.inj hc ▸ eq_false_of_isBlank hblank hb
  | cons d _ => exact hrest c hc

theorem isBlank_of_isDigit {c : Char} (h : c.isDigit = true) : isBlank c = false := by
  have := toNat_of_isDigit h
  exact isBlank_eq_false (by omega) (by omega)

theorem isBlank_of_beq {c d : Char} (hd : isBlank d = false) (h : (c == d) = true) :
    isBlank c = false :=
  beq_iff_eq.mp h ▸ hd

def isSign (c : Char) : Bool := c == '-' || c == '+'

theorem isBlank_of_isSign {c : Char} (h : isSign c = true) : isBlank c = false := by
  simp only [isSign, Bool.or_eq_true, beq_iff_eq] at h
  rcases h with rfl | rfl <;> decide

theorem digits_cut (h : digits cs = (text, rest)) (hcut : Cut rest rest') :
    digits (text ++ rest') = (text, rest') := by
  obtain ⟨htext, hrest⟩ := Prod.mk.inj h
  have hdigits : ∀ c ∈ text, c.isDigit = true := fun c hc =>
    List.mem_takeWhile_imp (htext.symm ▸ hc)
  have hend : ∀ c ∈ rest.head?, c.isDigit = false := by
    intro c hc
    have hhead := List.head?_dropWhile_not Char.isDigit cs
    rwa [hrest, Option.mem_def.mp hc] at hhead
  have hspan := span_digits rest' hdigits (hcut.head_eq_false (fun _ => isBlank_of_isDigit) hend)
  rw [digits, hspan.1, hspan.2]

theorem sign_cons {c : Char} (h : isSign c = true) (cs : List Char) : sign (c :: cs) = ([c], cs) :=
  if_pos h

theorem sign_cons_other {c : Char} (h : isSign c = false) (cs : List Char) :
    sign (c :: cs) = ([], c :: cs) :=
  if_neg (by simpa [isSign] using h)

theorem sign_eq_nil (h : ∀ c ∈ cs.head?, isSign c = false) : sign cs = ([], cs) := by
  cases cs with
  | nil => rfl
  | cons c cs => exact sign_cons_other (h c rfl) cs

theorem sign_cut (h : sign cs = (text, rest)) (hcut : Cut rest rest') :
    sign (text ++ rest') = (text, rest') := by
  rcases head_cases isSign cs with ⟨c, cs, rfl, hsign⟩ | hsign
  · obtain ⟨rfl, rfl⟩ := Prod.mk.inj ((sign_cons hsign cs).symm.trans h)
    exact sign_cons hsign rest'
  · obtain ⟨rfl, rfl⟩ := Prod.mk.inj ((sign_eq_nil hsign).symm.trans h)
    exact sign_eq_nil (hcut.head_eq_false (fun _ => isBlank_of_isSign) hsign)

theorem fraction_eq_nil (h : ∀ c ∈ cs.head?, (c == '.') = false) : fraction cs = ([], cs) := by
  unfold fraction
  split
  · simp at h
  · rfl

theorem fraction_cut (h : fraction cs = (text, rest)) (hcut : Cut rest rest') :
    fraction (text ++ rest') = (text, rest') := by
  rcases head_cases (· == '.') cs with ⟨c, cs, rfl, hpoint⟩ | hpoint
  · obtain rfl := beq_iff_eq.mp hpoint
    obtain ⟨rfl, hrest⟩ := Prod.mk.inj h
    have hdigits : digits cs = ((digits cs).1, rest) := Prod.ext rfl hrest
    simp [fraction, digits_cut hdigits hcut]
  · obtain ⟨rfl, rfl⟩ := Prod.mk.inj ((fraction_eq_nil hpoint).symm.trans h)
    exact fraction_eq_nil (hcut.head_eq_false (fun _ => isBlank_of_beq (by decide)) hpoint)

def isExponent (c : Char) : Bool := c == 'e' || c == 'E'

theorem isBlank_of_isExponent {c : Char} (h : isExponent c = true) : isBlank c = false := by
  simp only [isExponent, Bool.or_eq_true, beq_iff_eq] at h
  rcases h with rfl | rfl <;> decide

/-- Whether there are digits behind a sign, if there is one. -/
def hasDigits (cs : List Char) : Bool := !(digits (sign cs).2).1.isEmpty

theorem hasDigits_eq_false_iff :
    hasDigits cs = false ↔ ∀ c ∈ (sign cs).2.head?, c.isDigit = false := by
  rw [hasDigits, Bool.not_eq_false', digits]
  cases (sign cs).2 with
  | nil => simp
  | cons c cs => by_cases hc : c.isDigit <;> simp [hc]

theorem hasDigits_cut (h : hasDigits cs = false) (hcut : Cut cs rest') :
    hasDigits rest' = false := by
  rw [hasDigits_eq_false_iff] at h ⊢
  cases hcut with
  | nil => simp [sign]
  | blank hc =>
    intro d hd
    rw [sign_cons_other (eq_false_of_isBlank (fun _ => isBlank_of_isSign) hc)] at hd
    exact Option.some.inj hd ▸ eq_false_of_isBlank (fun _ => isBlank_of_isDigit) hc
  | @cons cs ds c hcut =>
    cases hsign : isSign c with
    | true =>
      rw [sign_cons hsign] at h ⊢
      exact hcut.head_eq_false (fun _ => isBlank_of_isDigit) h
    | false =>
      rw [sign_cons_other hsign] at h ⊢
      exact fun d hd => h d hd

theorem exponent_cons (c : Char) (cs : List Char) : exponent (c :: cs) =
    if isExponent c && hasDigits cs then
      (c :: (sign cs).1 ++ (digits (sign cs).2).1, (digits (sign cs).2).2)
    else ([], c :: cs) := rfl

theorem exponent_eq_nil (h : ∀ c ∈ cs.head?, isExponent c = false) : exponent cs = ([], cs) := by
  cases cs with
  | nil => rfl
  | cons c cs =>
    rw [exponent_cons, h c rfl]
    rfl

theorem exponent_cut (h : exponent cs = (text, rest)) (hcut : Cut rest rest') :
    exponent (text ++ rest') = (text, rest') := by
  rcases head_cases isExponent cs with ⟨c, cs, rfl, hexp⟩ | hexp
  · rw [exponent_cons, hexp, Bool.true_and] at h
    cases hdigits : hasDigits cs with
    | true =>
      rw [hdigits, if_pos rfl] at h
      obtain ⟨rfl, hrest⟩ := Prod.mk.inj h
      have hds := digits_cut
        (Prod.ext rfl hrest : digits (sign cs).2 = ((digits (sign cs).2).1, rest)) hcut
      have hcut' : Cut (sign cs).2 ((digits (sign cs).2).1 ++ rest') := by
        have happend := hcut.append (digits (sign cs).2).1
        rwa [← hrest, digits_append] at happend
      have hs := sign_cut (Prod.ext rfl rfl : sign cs = ((sign cs).1, (sign cs).2)) hcut'
      have hhas : hasDigits ((sign cs).1 ++ ((digits (sign cs).2).1 ++ rest')) = true := by
        rw [hasDigits, hs, hds]
        exact hdigits
      rw [List.append_assoc, List.cons_append, exponent_cons, hexp, hhas, hs, hds]
      simp
    | false =>
      rw [hdigits, if_neg (by simp)] at h
      obtain ⟨rfl, rfl⟩ := Prod.mk.inj h
      cases hcut with
      | nil => rfl
      | blank hblank =>
        refine exponent_eq_nil fun d hd => ?_
        exact Option.some.inj hd ▸ eq_false_of_isBlank (fun _ => isBlank_of_isExponent) hblank
      | cons c hcut =>
        rw [List.nil_append, exponent_cons, hasDigits_cut hdigits hcut, Bool.and_false,
          if_neg (by simp)]
  · obtain ⟨rfl, rfl⟩ := Prod.mk.inj ((exponent_eq_nil hexp).symm.trans h)
    exact exponent_eq_nil (hcut.head_eq_false (fun _ => isBlank_of_isExponent) hexp)

theorem two_le_length_fraction : 2 ≤ (fraction cs).1.length ↔
    ∃ d ds, cs = '.' :: d :: ds ∧ d.isDigit = true := by
  rcases head_cases (· == '.') cs with ⟨c, cs, rfl, hpoint⟩ | hpoint
  · obtain rfl := beq_iff_eq.mp hpoint
    cases cs with
    | nil => simp [fraction, digits]
    | cons d ds => by_cases hd : d.isDigit <;> simp [fraction, digits, hd]
  · rw [fraction_eq_nil hpoint]
    constructor
    · simp
    · rintro ⟨d, ds, rfl, -⟩
      simp at hpoint

/-- A number starts with digits, or with a point and digits, behind a sign if there is one. -/
theorem startsNumber_iff : startsNumber cs = true ↔
    hasDigits cs = true ∨ 2 ≤ (fraction (digits (sign cs).2).2).1.length := by
  rw [two_le_length_fraction]
  cases cs with
  | nil => simp [startsNumber, hasDigits, sign, digits]
  | cons c cs =>
    by_cases hsign : isSign c = true
    · have hconsume := sign_cons hsign cs
      have hdigit : c.isDigit = false := by
        simp only [isSign, Bool.or_eq_true, beq_iff_eq] at hsign
        rcases hsign with rfl | rfl <;> decide
      have hpoint : c ≠ '.' := by
        rintro rfl
        cases hsign
      simp only [isSign] at hsign
      cases cs with
      | nil => simp [startsNumber, hasDigits, hconsume, hdigit, digits]
      | cons d ds =>
        by_cases hd : d.isDigit = true
        · have hd' : d ≠ '.' := by
            rintro rfl
            cases hd
          simp [startsNumber, hasDigits, hconsume, hdigit, hpoint, hsign, digits, hd, hd']
        · by_cases hd' : d = '.'
          · subst hd'
            cases ds <;> simp [startsNumber, hasDigits, hconsume, hdigit, hpoint, hsign, digits]
          · simp [startsNumber, hasDigits, hconsume, hdigit, hpoint, hsign, digits, hd, hd']
    · have hkeep := sign_cons_other (Bool.eq_false_iff.mpr hsign) cs
      simp only [isSign] at hsign
      by_cases hdigit : c.isDigit = true
      · simp [startsNumber, hasDigits, hkeep, digits, hdigit]
      · cases cs with
        | nil => simp [startsNumber, hasDigits, hkeep, digits, hdigit]
        | cons d ds =>
          by_cases hpoint : c = '.'
          · subst hpoint
            simp [startsNumber, hasDigits, hkeep, digits]
          · simp [startsNumber, hasDigits, hkeep, digits, hdigit, hpoint, hsign]

theorem numeral_cut (h : numeral cs = (text, rest)) (hcut : Cut rest rest') :
    numeral (text ++ rest') = (text, rest') ∧
      (startsNumber cs = true → startsNumber (text ++ rest') = true) := by
  obtain ⟨s, r, hs⟩ : ∃ s r, sign cs = (s, r) := ⟨_, _, rfl⟩
  obtain ⟨ds, r₁, hds⟩ : ∃ ds r₁, digits r = (ds, r₁) := ⟨_, _, rfl⟩
  obtain ⟨f, r₂, hf⟩ : ∃ f r₂, fraction r₁ = (f, r₂) := ⟨_, _, rfl⟩
  obtain ⟨e, r₃, he⟩ : ∃ e r₃, exponent r₂ = (e, r₃) := ⟨_, _, rfl⟩
  have hnumeral : numeral cs = (s ++ ds ++ f ++ e, r₃) := by
    simp only [numeral, hs, hds, hf, he]
  obtain ⟨rfl, rfl⟩ := Prod.mk.inj (hnumeral.symm.trans h)
  -- What each part goes on with is cut where the number ends.
  have hafterFraction : Cut r₂ (e ++ rest') := by
    rw [← exponent_append r₂, he]
    exact hcut.append e
  have hafterDigits : Cut r₁ (f ++ (e ++ rest')) := by
    rw [← fraction_append r₁, hf]
    exact hafterFraction.append f
  have hafterSign : Cut r (ds ++ (f ++ (e ++ rest'))) := by
    rw [← digits_append r, hds]
    exact hafterDigits.append ds
  have hs' := sign_cut hs hafterSign
  have hds' := digits_cut hds hafterDigits
  have hf' := fraction_cut hf hafterFraction
  have he' := exponent_cut he hcut
  simp only [List.append_assoc]
  constructor
  · simp only [numeral, hs', hds', hf', he', List.append_assoc]
  · simp only [startsNumber_iff, hasDigits, hs, hds, hf, hs', hds', hf', imp_self]

/-- What is scanned first in a text is scanned first as well where the text behind it is cut. -/
def SurvivesCut (cs : List Char) (k : Token.Kind) (rest : List Char) : Prop :=
  ∃ text, cs = text ++ rest ∧ ∀ rest', Cut rest rest' → scan (text ++ rest') = .ok (k, rest')

theorem notMem_marks_of_startsNumber {c : Char} (h : startsNumber (c :: cs) = true) :
    c ∉ marks := by
  have hc : c.isDigit = true ∨ c = '.' ∨ c = '-' ∨ c = '+' := by
    by_contra hnone
    simp only [not_or] at hnone
    cases cs <;> simp [startsNumber, hnone] at h
  rcases hc with hdigit | rfl | rfl | rfl
  · exact StartsNumeral.notMem_marks (.inr (toNat_of_isDigit hdigit))
  all_goals decide

theorem scan_number (h : startsNumber cs = true) : scan cs = number cs := by
  cases cs with
  | nil => cases h
  | cons c cs => rw [scan_open (notMem_marks_of_startsNumber h), if_pos h]

theorem number_cut {k : Token.Kind} (hstart : startsNumber cs = true)
    (h : number cs = .ok (k, rest)) : SurvivesCut cs k rest := by
  obtain ⟨text, rest₁, hnumeral⟩ : ∃ text rest₁, numeral cs = (text, rest₁) := ⟨_, _, rfl⟩
  have hcs := numeral_append cs
  simp only [number, hnumeral] at h hcs
  cases hread : Numeral.read? text with
  | none => simp [hread] at h
  | some x =>
    cases hfinite : x.isFinite with
    | false => simp [hread, hfinite] at h
    | true =>
      simp only [hread, hfinite, if_true, Except.ok.injEq, Prod.mk.injEq] at h
      obtain ⟨rfl, rfl⟩ := h
      refine ⟨text, hcs.symm, fun rest' hcut => ?_⟩
      obtain ⟨hnumeral', hstart'⟩ := numeral_cut hnumeral hcut
      rw [scan_number (hstart' hstart)]
      simp only [number, hnumeral', hread, hfinite, if_true]

theorem stringBody_cut {quote : Char} {whole s : List Char}
    (h : stringBody quote whole cs = .ok (s, rest)) :
    ∃ text, cs = text ++ rest ∧
      ∀ whole' rest', stringBody quote whole' (text ++ rest') = .ok (s, rest') := by
  fun_induction stringBody quote whole cs generalizing s with
  | case1 | case3 | case4 => cases h
  | case2 c cs hquote =>
    obtain rfl := beq_iff_eq.mp hquote
    cases h
    exact ⟨[c], rfl, fun whole' rest' => stringBody_end⟩
  | case5 c hquote hslash d ds e hescape ih =>
    obtain ⟨tail, rfl, ht⟩ := keep_eq_ok.mp h
    obtain ⟨text, rfl, htext⟩ := ih ht
    refine ⟨c :: d :: text, rfl, fun whole' rest' => ?_⟩
    rw [List.cons_append, List.cons_append, stringBody.eq_def]
    simp [hquote, hslash, hescape, htext whole' rest', keep, Except.map]
  | case6 c cs hquote hslash ih =>
    obtain ⟨tail, rfl, ht⟩ := keep_eq_ok.mp h
    obtain ⟨text, rfl, htext⟩ := ih ht
    refine ⟨c :: text, rfl, fun whole' rest' => ?_⟩
    rw [List.cons_append, stringBody.eq_def]
    simp [hquote, hslash, htext whole' rest', keep, Except.map]

theorem endsId_of_idBody {whole name : List Char} {depth : Option Nat}
    (h : idBody whole depth cs = .ok (name, rest)) : EndsId rest := by
  fun_induction idBody whole depth cs generalizing name with
  | case1 =>
    cases h
    simp [EndsId]
  | case2 | case7 => cases h
  | case5 c cs hid hopen =>
    cases h
    intro d hd
    obtain rfl := Option.some.inj hd
    exact ⟨by simpa using hid, by simpa using hopen⟩
  | case3 | case4 | case6 | case8 | case9 | case10 =>
    rename_i ih
    obtain ⟨tail, -, ht⟩ := keep_eq_ok.mp h
    exact ih ht

theorem isBlank_of_isIdChar {c : Char} (h : isIdChar c = true) : isBlank c = false := by
  simp only [isIdChar, Char.isAlphanum, Bool.or_eq_true, beq_iff_eq] at h
  rcases h with ((((h | h) | rfl) | rfl) | rfl) | rfl
  · have := toNat_of_isAlpha h
    exact isBlank_eq_false (by omega) (by omega)
  · exact isBlank_of_isDigit h
  all_goals decide

theorem EndsId.cut (h : EndsId rest) (hcut : Cut rest rest') : EndsId rest' := by
  intro c hc
  have hend := hcut.head_eq_false (p := fun c => isIdChar c || c == '(')
    (fun c hc => by
      rcases Bool.or_eq_true_iff.mp hc with hid | hopen
      · exact isBlank_of_isIdChar hid
      · exact isBlank_of_beq (by decide) hopen)
    (fun c hc => by simp [h c hc]) c hc
  simpa using hend

theorem scan_id {c : Char} (hc : isIdStart c = true) (cs : List Char) :
    scan (c :: cs) = id (c :: cs) := by
  have hnat := toNat_of_isIdStart hc
  have hmark : c ∉ marks := by
    refine notMem_marks ?_
    simp only [marks, List.map_cons, List.map_nil, List.mem_cons, List.not_mem_nil, or_false,
      Char.reduceToNat]
    omega
  rw [scan_open hmark, startsNumber_of_isIdStart hc, if_neg (by simp), if_pos hc]

theorem id_cut {c : Char} {k : Token.Kind} (hc : isIdStart c = true)
    (h : id (c :: cs) = .ok (k, rest)) : SurvivesCut (c :: cs) k rest := by
  obtain ⟨⟨name, rest₁⟩, hbody, hword⟩ := map_eq_ok.mp h
  obtain ⟨rfl, rfl⟩ := Prod.mk.inj hword
  have hname : IdTail name := idBody_sound (by simp) hbody
  have hend := endsId_of_idBody hbody
  have heq := idBody_append hbody
  refine ⟨name, heq, fun rest' hcut => ?_⟩
  cases name with
  | nil =>
    obtain rfl : c :: cs = rest₁ := heq
    exact absurd (isIdChar_of_isIdStart hc) (by simp [(hend c rfl).1])
  | cons d name =>
    obtain ⟨rfl, -⟩ := List.cons.inj heq
    rw [List.cons_append, scan_id hc, id, ← List.cons_append,
      idBody_complete hname (EndsId.cut hend hcut)]
    rfl

theorem scan_gt (h : ∀ c ∈ rest.head?, (c == '=') = false) :
    scan ('>' :: rest) = .ok (.op .gt, rest) := by
  cases rest with
  | nil => rfl
  | cons c cs =>
    have hc : c ≠ '=' := by simpa using h c rfl
    simp [scan, hc]

theorem scan_lt (h : ∀ c ∈ rest.head?, (c == '=') = false) :
    scan ('<' :: rest) = .ok (.op .lt, rest) := by
  cases rest with
  | nil => rfl
  | cons c cs =>
    have hc : c ≠ '=' := by simpa using h c rfl
    simp [scan, hc]

/-- One of the tokens that an equals sign would make another one of. -/
theorem survivesCut_of_head {c : Char} {k k' : Token.Kind}
    (hplain : ∀ rest, (∀ d ∈ rest.head?, (d == '=') = false) → scan (c :: rest) = .ok (k, rest))
    (hequals : ∀ rest, scan (c :: '=' :: rest) = .ok (k', rest)) {kind : Token.Kind}
    (h : scan (c :: cs) = .ok (kind, rest)) : SurvivesCut (c :: cs) kind rest := by
  rcases head_cases (· == '=') cs with ⟨d, cs, rfl, hd⟩ | hhead
  · obtain rfl := beq_iff_eq.mp hd
    rw [hequals] at h
    cases h
    exact ⟨[c, '='], rfl, fun rest' _ => hequals rest'⟩
  · rw [hplain cs hhead] at h
    cases h
    exact ⟨[c], rfl, fun rest' hcut => hplain rest'
      (hcut.head_eq_false (fun _ => isBlank_of_beq (by decide)) hhead)⟩

theorem scan_quote {quote : Char} (hquote : quote = '"' ∨ quote = '\'') (cs : List Char) :
    scan (quote :: cs) = (stringBody quote (quote :: cs) cs).map fun (s, rest) =>
      (.literal (.string (String.ofList s)), rest) := by
  rcases hquote with rfl | rfl <;> rfl

theorem quote_cut {quote : Char} {k : Token.Kind} (hquote : quote = '"' ∨ quote = '\'')
    (h : scan (quote :: cs) = .ok (k, rest)) : SurvivesCut (quote :: cs) k rest := by
  rw [scan_quote hquote] at h
  obtain ⟨⟨s, rest₁⟩, hbody, heq⟩ := map_eq_ok.mp h
  obtain ⟨rfl, rfl⟩ := Prod.mk.inj heq
  obtain ⟨text, rfl, htext⟩ := stringBody_cut hbody
  refine ⟨quote :: text, rfl, fun rest' _ => ?_⟩
  rw [List.cons_append, scan_quote hquote, htext]
  rfl

theorem scan_cut {c : Char} {k : Token.Kind} (h : scan (c :: cs) = .ok (k, rest)) :
    SurvivesCut (c :: cs) k rest := by
  by_cases hmark : c ∈ marks
  · simp only [marks, List.mem_cons, List.not_mem_nil, or_false] at hmark
    rcases hmark with rfl | rfl | rfl | rfl | rfl | rfl | rfl | rfl | hquote
    · cases h
      exact ⟨['|'], rfl, fun _ _ => rfl⟩
    · cases h
      exact ⟨['&'], rfl, fun _ _ => rfl⟩
    · cases h
      exact ⟨['('], rfl, fun _ _ => rfl⟩
    · cases h
      exact ⟨[')'], rfl, fun _ _ => rfl⟩
    · exact survivesCut_of_head (fun rest hrest => scan_not fun d hd => by simpa using hrest d hd)
        (fun _ => rfl) h
    · cases cs with
      | nil => cases h
      | cons d cs =>
        by_cases hd : d = '='
        · subst hd
          cases h
          exact ⟨['=', '='], rfl, fun _ _ => rfl⟩
        · simp [scan, hd] at h
    · exact survivesCut_of_head (fun _ => scan_gt) (fun _ => rfl) h
    · exact survivesCut_of_head (fun _ => scan_lt) (fun _ => rfl) h
    · exact quote_cut hquote h
  · rw [scan_open hmark] at h
    by_cases hnumber : startsNumber (c :: cs) = true
    · rw [if_pos hnumber] at h
      exact number_cut hnumber h
    · rw [if_neg hnumber] at h
      by_cases hid : isIdStart c = true
      · rw [if_pos hid] at h
        exact id_cut hid h
      · rw [if_neg hid] at h
        cases h

end Scanning

end HomeAutomation.Trigger.Lexer
