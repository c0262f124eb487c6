import Mathlib
import HomeAutomation.Proofs.Number.ReadBack
import HomeAutomation.Proofs.Trigger.Lexemes
import HomeAutomation.Trigger.Canonical

/-! Reading what a canonical text is put together from. Every piece of it, before a blank, a closing
parenthesis or the end, gives its own token and leaves the rest alone. -/

namespace HomeAutomation.Trigger.Lexer

open Text

/-- What stands behind an id or a literal in a canonical text. -/
def Delimited (rest : List Char) : Prop := ∀ c ∈ rest.head?, c = ' ' ∨ c = ')'

/-- From this place on, a text gives these tokens before those of the rest. -/
def Reads (p : Position) (cs : List Char) (ts : List Token) (rest : List Char) : Prop :=
  tokens p (cs ++ rest) = (tokens (p.after cs) rest).map (ts ++ ·)

theorem delimited_nil : Delimited [] := by simp [Delimited]

theorem delimited_blank (rest : List Char) : Delimited (' ' :: rest) := by simp [Delimited]

theorem delimited_close (rest : List Char) : Delimited (')' :: rest) := by simp [Delimited]

theorem after_append (p : Position) (cs ds : List Char) :
    p.after (cs ++ ds) = (p.after cs).after ds := List.foldl_append

section Steps

variable {p : Position} {cs : List Char}

theorem tokens_nil (h : cs.dropWhile isBlank = []) :
    tokens p cs = .ok [⟨.endOfText, p.after (cs.takeWhile isBlank)⟩] := by
  rw [tokens]
  split
  · rfl
  · rename_i hb
    rw [h] at hb
    simp at hb

theorem tokens_error {c : Char} {body rest : List Char} {f : Fault}
    (h : cs.dropWhile isBlank = c :: body) (hs : scan (c :: body) = .error (f, rest)) :
    tokens p cs =
      .error (f, (p.after (cs.takeWhile isBlank)).after (used (c :: body) rest)) := by
  rw [tokens]
  split
  · rename_i hb
    rw [h] at hb
    simp at hb
  · rename_i hb
    rw [h] at hb
    obtain ⟨rfl, rfl⟩ := List.cons.inj hb
    split <;> rename_i hs' <;> rw [hs] at hs' <;>
      simp only [Except.error.injEq, Prod.mk.injEq, reduceCtorEq] at hs'
    rw [hs'.1, hs'.2]

theorem tokens_scan {c : Char} {body rest : List Char} {k : Token.Kind}
    (h : cs.dropWhile isBlank = c :: body) (hs : scan (c :: body) = .ok (k, rest)) :
    tokens p cs =
      (tokens ((p.after (cs.takeWhile isBlank)).after (used (c :: body) rest)) rest).map
        (⟨k, p.after (cs.takeWhile isBlank)⟩ :: ·) := by
  rw [tokens]
  split
  · rename_i hb
    rw [h] at hb
    simp at hb
  · rename_i hb
    rw [h] at hb
    obtain ⟨rfl, rfl⟩ := List.cons.inj hb
    split <;> rename_i hs' <;> rw [hs] at hs' <;>
      simp only [Except.ok.injEq, Prod.mk.injEq, reduceCtorEq] at hs'
    rw [hs'.1, hs'.2]

/-- A blank in front only moves the place on. -/
theorem tokens_blank {c : Char} (hc : isBlank c = true) :
    tokens p (c :: cs) = tokens (p.next c) cs := by
  have hdrop : (c :: cs).dropWhile isBlank = cs.dropWhile isBlank := by simp [hc]
  have htake : p.after ((c :: cs).takeWhile isBlank) = (p.next c).after (cs.takeWhile isBlank) := by
    simp [hc, Position.after]
  cases hb : cs.dropWhile isBlank with
  | nil => rw [tokens_nil hb, tokens_nil (hdrop.trans hb), htake]
  | cons d body =>
    cases hs : scan (d :: body) with
    | error f => rw [tokens_error hb hs, tokens_error (hdrop.trans hb) hs, htake]
    | ok r => rw [tokens_scan hb hs, tokens_scan (hdrop.trans hb) hs, htake]

end Steps

section Reads

variable {p : Position} {rest : List Char}

theorem reads_blank {c : Char} (hc : isBlank c = true) : Reads p [c] [] rest := by
  unfold Reads
  rw [List.singleton_append, tokens_blank hc]
  show tokens (p.next c) rest = (tokens (p.next c) rest).map ([] ++ ·)
  cases tokens (p.next c) rest <;> rfl

theorem reads_scan {c : Char} {cs : List Char} {k : Token.Kind} (hc : isBlank c = false)
    (hs : scan (c :: (cs ++ rest)) = .ok (k, rest)) : Reads p (c :: cs) [⟨k, p⟩] rest := by
  have hdrop : (c :: (cs ++ rest)).dropWhile isBlank = c :: (cs ++ rest) := by simp [hc]
  have h := tokens_scan (p := p) hdrop hs
  have hused : used (c :: (cs ++ rest)) rest = c :: cs := by
    have hlen : (c :: (cs ++ rest)).length - rest.length = (c :: cs).length := by simp; omega
    rw [used, hlen, ← List.cons_append, List.take_left]
  unfold Reads
  rw [List.cons_append, h, hused]
  simp [hc, Position.after]

theorem Reads.append {cs ds : List Char} {ts us : List Token} (h : Reads p cs ts (ds ++ rest))
    (h' : Reads (p.after cs) ds us rest) : Reads p (cs ++ ds) (ts ++ us) rest := by
  unfold Reads at h h' ⊢
  rw [List.append_assoc, h, h', after_append]
  cases tokens ((p.after cs).after ds) rest <;> simp [Except.map]

end Reads

theorem isBlank_eq_false {c : Char} (hlow : 0x20 < c.toNat) (hhigh : c.toNat < 0x7F) :
    isBlank c = false := by
  simp only [isBlank, blankRanges, List.any_cons, List.any_nil, Bool.or_false,
    Bool.or_eq_false_iff, Bool.and_eq_false_iff, decide_eq_false_iff_not]
  omega

/-- What a string or a token of fixed characters starts with. -/
def marks : List Char := ['|', '&', '(', ')', '!', '=', '>', '<', '"', '\'']

theorem notMem_marks {c : Char} (h : c.toNat ∉ marks.map Char.toNat) : c ∉ marks :=
  fun hmem => h (List.mem_map_of_mem hmem)

theorem scan_open {c : Char} {cs : List Char} (h : c ∉ marks) :
    scan (c :: cs) =
      if startsNumber (c :: cs) then number (c :: cs)
      else if isIdStart c then id (c :: cs)
      else .error (.unexpected c, c :: cs) := by
  unfold scan
  split <;> simp_all [marks]

theorem toNat_of_isAlpha {c : Char} (h : c.isAlpha = true) :
    65 ≤ c.toNat ∧ c.toNat ≤ 90 ∨ 97 ≤ c.toNat ∧ c.toNat ≤ 122 := by
  simpa [Char.isAlpha, Char.isUpper, Char.isLower, UInt32.le_iff_toNat_le] using h

theorem toNat_of_isDigit {c : Char} (h : c.isDigit = true) : 48 ≤ c.toNat ∧ c.toNat ≤ 57 := by
  simpa [Char.isDigit, UInt32.le_iff_toNat_le] using h

section Ids

theorem toNat_of_isIdStart {c : Char} (h : isIdStart c = true) :
    65 ≤ c.toNat ∧ c.toNat ≤ 90 ∨ 97 ≤ c.toNat ∧ c.toNat ≤ 122 ∨ c.toNat = 95 := by
  simp only [isIdStart, Bool.or_eq_true, beq_iff_eq] at h
  rcases h with h | rfl
  · have := toNat_of_isAlpha h
    omega
  · decide

/-- A character whose code is among given ones is none of a list of others. -/
theorem ne_of_toNat_ne {c d : Char} (h : c.toNat ≠ d.toNat) : c ≠ d := fun hcd => h (by rw [hcd])

theorem EndsId.of_delimited {rest : List Char} (h : Delimited rest) : EndsId rest := by
  intro c hc
  rcases h c hc with rfl | rfl <;> decide

theorem startsNumber_of_isIdStart {c : Char} {cs : List Char} (h : isIdStart c = true) :
    startsNumber (c :: cs) = false := by
  have hc := toNat_of_isIdStart h
  have hdigit : c.isDigit = false := by
    rw [Bool.eq_false_iff]
    intro hd
    have := toNat_of_isDigit hd
    omega
  have hpoint : c ≠ '.' := ne_of_toNat_ne (by rw [show '.'.toNat = 46 from rfl]; omega)
  have hminus : c ≠ '-' := ne_of_toNat_ne (by rw [show '-'.toNat = 45 from rfl]; omega)
  have hplus : c ≠ '+' := ne_of_toNat_ne (by rw [show '+'.toNat = 43 from rfl]; omega)
  cases cs <;> simp [startsNumber, hdigit, hpoint, hminus, hplus]

theorem scan_word {c : Char} {cs rest : List Char} (hc : isIdStart c = true) (hcs : IdTail cs)
    (hr : Delimited rest) : scan (c :: (cs ++ rest)) = .ok (word (c :: cs), rest) := by
  have hnat := toNat_of_isIdStart hc
  have hopen : c ∉ marks := by
    refine notMem_marks ?_
    simp only [marks, List.map_cons, List.map_nil, List.mem_cons, List.not_mem_nil, or_false,
      Char.reduceToNat]
    omega
  have hbody : idBody (c :: (cs ++ rest)) none (c :: (cs ++ rest)) = .ok (c :: cs, rest) :=
    idBody_complete (.char (isIdChar_of_isIdStart hc) hcs) (EndsId.of_delimited hr)
  rw [scan_open hopen, startsNumber_of_isIdStart hc]
  simp only [Bool.false_eq_true, if_false, hc, if_true, id, hbody]
  rfl

theorem isBlank_of_isIdStart {c : Char} (hc : isIdStart c = true) : isBlank c = false := by
  have := toNat_of_isIdStart hc
  exact isBlank_eq_false (by omega) (by omega)

theorem reads_word {p : Position} {c : Char} {cs rest : List Char} (hc : isIdStart c = true)
    (hcs : IdTail cs) (hr : Delimited rest) :
    Reads p (c :: cs) [⟨word (c :: cs), p⟩] rest :=
  reads_scan (isBlank_of_isIdStart hc) (scan_word hc hcs hr)

theorem reads_id {p : Position} {name : String} {rest : List Char} (h : IsId name)
    (hr : Delimited rest) : Reads p name.toList [⟨.id name, p⟩] rest := by
  have hword := word_of_isId h
  obtain ⟨⟨c, cs, hname, hc, hcs⟩, -⟩ := h
  rw [hname] at hword ⊢
  rw [← hword]
  exact reads_word hc hcs hr

end Ids

section Literals

theorem idTail_of_isIdChar {cs : List Char} (h : ∀ c ∈ cs, isIdChar c = true) : IdTail cs := by
  induction cs with
  | nil => exact .nil
  | cons c cs ih => exact .char (h c (by simp)) (ih fun d hd => h d (by simp [hd]))

/-- The three words that are no ids are read as what they stand for. -/
theorem reads_reserved {p : Position} {rest : List Char} (hr : Delimited rest) :
    Reads p "unknown".toList [⟨.unknown, p⟩] rest ∧
      Reads p "true".toList [⟨.literal (.bool true), p⟩] rest ∧
      Reads p "false".toList [⟨.literal (.bool false), p⟩] rest := by
  refine ⟨?_, ?_, ?_⟩
  · have htail : IdTail "nknown".toList := idTail_of_isIdChar (List.all_eq_true.mp (by decide))
    exact reads_word (c := 'u') (by decide) htail hr
  · have htail : IdTail "rue".toList := idTail_of_isIdChar (List.all_eq_true.mp (by decide))
    exact reads_word (c := 't') (by decide) htail hr
  · have htail : IdTail "alse".toList := idTail_of_isIdChar (List.all_eq_true.mp (by decide))
    exact reads_word (c := 'f') (by decide) htail hr

theorem stringBody_end {quote : Char} {whole rest : List Char} :
    stringBody quote whole (quote :: rest) = .ok ([], rest) := by
  unfold stringBody
  simp

theorem stringBody_unescape {quote d e : Char} {whole ds : List Char} (hq : '\\' ≠ quote)
    (h : unescape? d = some e) :
    stringBody quote whole ('\\' :: d :: ds) = keep e (stringBody quote whole ds) := by
  rw [stringBody.eq_def]
  simp [hq, h]

theorem stringBody_plain {quote c : Char} {whole cs : List Char} (hq : c ≠ quote)
    (hb : c ≠ '\\') :
    stringBody quote whole (c :: cs) = keep c (stringBody quote whole cs) := by
  rw [stringBody.eq_def]
  simp [hq, hb]

theorem stringBody_escape {c : Char} {whole cs : List Char} :
    stringBody '"' whole (Value.escape c ++ cs) = keep c (stringBody '"' whole cs) := by
  unfold Value.escape
  split
  case h_5 hquote hbackslash _ _ => exact stringBody_plain hquote hbackslash
  all_goals exact stringBody_unescape (by decide) rfl

theorem stringBody_flatMap_escape {whole rest : List Char} (cs : List Char) :
    stringBody '"' whole (cs.flatMap Value.escape ++ '"' :: rest) = .ok (cs, rest) := by
  induction cs with
  | nil => exact stringBody_end
  | cons c cs ih =>
    rw [List.flatMap_cons, List.append_assoc, stringBody_escape]
    exact keep_eq_ok.mpr ⟨cs, rfl, ih⟩

theorem reads_string {p : Position} {s : String} {rest : List Char} :
    Reads p (Value.quoted s) [⟨.literal (.string s), p⟩] rest := by
  refine reads_scan (by decide) ?_
  simp [scan, stringBody_flatMap_escape, Except.map]

theorem isDigit_eq_false_of_delimited {rest : List Char} (h : Delimited rest) :
    ∀ c ∈ rest.head?, c.isDigit = false := by
  intro c hc
  rcases h c hc with rfl | rfl <;> decide

theorem isDigit_head_pointText {f rest : List Char} (h : Delimited rest) :
    ∀ c ∈ (pointText f ++ rest).head?, c.isDigit = false := by
  intro c hc
  by_cases hf : f = []
  · exact isDigit_eq_false_of_delimited h c (by simpa [pointText, hf] using hc)
  · obtain rfl : '.' = c := by simpa [pointText, hf] using hc
    decide

theorem sign_signed {s : Bool} {d : Char} {ds : List Char} (hd : d.isDigit = true) :
    sign (Double.signed s (d :: ds)) = (Double.signed s [], d :: ds) := by
  cases s with
  | true => rfl
  | false =>
    have hminus : d ≠ '-' := fun h => by simp [h] at hd
    have hplus : d ≠ '+' := fun h => by simp [h] at hd
    simp [sign, Double.signed, hminus, hplus]

theorem fraction_pointText {f rest : List Char} (hf : ∀ d ∈ f, d.isDigit = true)
    (hr : Delimited rest) : fraction (pointText f ++ rest) = (pointText f, rest) := by
  by_cases hnil : f = []
  · simp only [pointText, hnil, if_true, List.nil_append]
    unfold fraction
    split
    · rcases hr '.' (by simp) with h | h <;> simp at h
    · rfl
  · have hspan := span_digits rest hf (isDigit_eq_false_of_delimited hr)
    simp [pointText, hnil, fraction, digits, hspan.1, hspan.2]

theorem exponent_delimited {rest : List Char} (h : Delimited rest) :
    exponent rest = ([], rest) := by
  cases rest with
  | nil => rfl
  | cons c rest =>
    rcases h c (by simp) with rfl | rfl <;> simp [exponent]

theorem numeral_positional {s : Bool} {whole f rest : List Char} {c : Nat} {e : Int}
    (h : IsPositional whole f c e) (hr : Delimited rest) :
    numeral (Double.signed s (whole ++ pointText f) ++ rest) =
      (Double.signed s (whole ++ pointText f), rest) := by
  obtain ⟨d, ds, rfl⟩ := List.exists_cons_of_ne_nil h.whole_ne_nil
  have hassoc : Double.signed s (d :: ds ++ pointText f) ++ rest =
      Double.signed s (d :: (ds ++ (pointText f ++ rest))) := by
    cases s <;> simp [Double.signed]
  have hspan := span_digits (pointText f ++ rest) h.isDigit_whole
    (isDigit_head_pointText hr)
  rw [hassoc, numeral, sign_signed (h.isDigit_whole d (by simp)), ← List.cons_append]
  simp only [digits, hspan.1, hspan.2, fraction_pointText h.isDigit_fraction hr,
    exponent_delimited hr]
  cases s <;> simp [Double.signed]

/-- The characters that a number starts with. -/
def StartsNumeral (c : Char) : Prop := c = '-' ∨ 48 ≤ c.toNat ∧ c.toNat ≤ 57

theorem StartsNumeral.isBlank {c : Char} (h : StartsNumeral c) : isBlank c = false := by
  rcases h with rfl | h
  · decide
  · exact isBlank_eq_false (by omega) (by omega)

theorem StartsNumeral.notMem_marks {c : Char} (h : StartsNumeral c) : c ∉ marks := by
  rcases h with rfl | h
  · decide
  · refine Lexer.notMem_marks ?_
    simp only [marks, List.map_cons, List.map_nil, List.mem_cons, List.not_mem_nil, or_false,
      Char.reduceToNat]
    omega

theorem exists_positional_cons {s : Bool} {whole f : List Char} {c : Nat} {e : Int}
    (h : IsPositional whole f c e) : ∃ first tail,
      Double.signed s (whole ++ pointText f) = first :: tail ∧ StartsNumeral first := by
  obtain ⟨d, ds, rfl⟩ := List.exists_cons_of_ne_nil h.whole_ne_nil
  cases s with
  | true => exact ⟨'-', d :: (ds ++ pointText f), rfl, .inl rfl⟩
  | false => exact ⟨d, ds ++ pointText f, rfl, .inr (toNat_of_isDigit (h.isDigit_whole d (by simp)))⟩

theorem startsNumber_positional {s : Bool} {whole f : List Char} {c : Nat} {e : Int}
    (h : IsPositional whole f c e) (rest : List Char) :
    startsNumber (Double.signed s (whole ++ pointText f) ++ rest) = true := by
  obtain ⟨d, ds, rfl⟩ := List.exists_cons_of_ne_nil h.whole_ne_nil
  have hd := h.isDigit_whole d (by simp)
  cases s with
  | true =>
    have hpoint : d ≠ '.' := fun hc => by simp [hc] at hd
    simp [Double.signed, startsNumber, hpoint, hd]
  | false => simp [Double.signed, startsNumber, hd]

theorem reads_number {p : Position} {s : Bool} {m : Magnitude} {rest : List Char}
    (hr : Delimited rest) :
    Reads p (Double.finite s m).chars [⟨.literal (.number (.finite s m)), p⟩] rest := by
  have hread := read?_chars s m
  obtain ⟨whole, f, c, e, htext, hpos, -⟩ := exists_chars s m
  rw [htext] at hread ⊢
  have hnum := numeral_positional (s := s) hpos hr
  have hstart := startsNumber_positional (s := s) hpos rest
  obtain ⟨first, tail, hcons, hfirst⟩ := exists_positional_cons (s := s) hpos
  rw [hcons] at hread hnum hstart ⊢
  rw [List.cons_append] at hnum hstart
  refine reads_scan hfirst.isBlank ?_
  rw [scan_open hfirst.notMem_marks]
  simp only [hstart, if_true, number, hnum, hread, Double.isFinite]

end Literals

end HomeAutomation.Trigger.Lexer
