import HomeAutomation.Proofs.Trigger.Diagnosis
import HomeAutomation.Proofs.Trigger.Layout

/-! The places in a source that tokens and faults name. A token is named where it begins, and so is
one that cannot be read to its end; only a bad escape is named where it stands within its string. -/

namespace HomeAutomation.Trigger

namespace Lexer

def quotes : List Char := ['"', '\'']

/-- What was read of a token before the place of a fault, and what stands there. -/
def Fault.StandsAt (read back : List Char) : Fault → Prop
  | .lonelyEquals => read = [] ∧ ∃ rest, back = '=' :: rest ∧ rest.head? ≠ some '='
  | .unexpected c => read = [] ∧ back.head? = some c
  | .outOfRange n | .invalidNumber n => read = [] ∧ startsNumber back = true ∧ n.toList <+: back
  | .unterminatedString => read = [] ∧ ∃ quote ∈ quotes, back.head? = some quote
  | .invalidEscape c => back.head? = some c ∧ unescape? c = none ∧
      ∃ quote ∈ quotes, ∃ inside, read = quote :: inside ++ ['\\']
  | .unclosedParameters id | .unopenedParameters id => read = [] ∧ back = id.toList ∧
      ∃ c ∈ back.head?, isIdStart c = true

section Faults

variable {c quote : Char} {cs whole rest : List Char} {f : Fault}

theorem keep_eq_error {s : Scan (List Char)} :
    keep c s = .error (f, rest) ↔ s = .error (f, rest) := by
  cases s <;> simp [keep, Except.map]

theorem map_eq_error {ε α β : Type} {g : α → β} {x : Except ε α} {e : ε} :
    x.map g = .error e ↔ x = .error e := by
  cases x <;> simp [Except.map]

theorem stringBody_error (h : stringBody quote whole cs = .error (f, rest)) :
    f = .unterminatedString ∧ rest = whole ∨
      ∃ d, f = .invalidEscape d ∧ rest.head? = some d ∧ unescape? d = none ∧
        ∃ inside, cs = inside ++ '\\' :: rest := by
  fun_induction stringBody quote whole cs with
  | case1 | case3 =>
    obtain ⟨rfl, rfl⟩ := Prod.mk.inj (Except.error.inj h)
    exact .inl ⟨rfl, rfl⟩
  | case2 => cases h
  | case4 b _ hslash d ds hnone =>
    obtain ⟨rfl, rfl⟩ := Prod.mk.inj (Except.error.inj h)
    obtain rfl := beq_iff_eq.mp hslash
    exact .inr ⟨d, rfl, rfl, hnone, [], rfl⟩
  | case5 b _ _ d ds e _ ih =>
    rcases ih (keep_eq_error.mp h) with hopen | ⟨d', hf, hhead, hnone, inside, rfl⟩
    · exact .inl hopen
    · exact .inr ⟨d', hf, hhead, hnone, b :: d :: inside, rfl⟩
  | case6 b ds _ _ ih =>
    rcases ih (keep_eq_error.mp h) with hopen | ⟨d', hf, hhead, hnone, inside, rfl⟩
    · exact .inl hopen
    · exact .inr ⟨d', hf, hhead, hnone, b :: inside, rfl⟩

theorem idBody_error {depth : Option Nat} (h : idBody whole depth cs = .error (f, rest)) :
    (f = .unclosedParameters (String.ofList whole) ∨
      f = .unopenedParameters (String.ofList whole)) ∧ rest = whole := by
  fun_induction idBody whole depth cs with
  | case1 | case5 => cases h
  | case2 =>
    obtain ⟨rfl, rfl⟩ := Prod.mk.inj (Except.error.inj h)
    exact ⟨.inl rfl, rfl⟩
  | case7 =>
    obtain ⟨rfl, rfl⟩ := Prod.mk.inj (Except.error.inj h)
    exact ⟨.inr rfl, rfl⟩
  | case3 | case4 | case6 | case8 | case9 | case10 =>
    rename_i ih
    exact ih (keep_eq_error.mp h)

theorem quote_standsAt (hquote : quote ∈ quotes) (h : scan (quote :: cs) = .error (f, rest)) :
    ∃ read, quote :: cs = read ++ rest ∧ f.StandsAt read rest := by
  have hmark : quote = '"' ∨ quote = '\'' := by simpa [quotes] using hquote
  rw [scan_quote hmark, map_eq_error] at h
  rcases stringBody_error h with ⟨rfl, rfl⟩ | ⟨d, rfl, hhead, hnone, inside, rfl⟩
  · exact ⟨[], rfl, rfl, quote, hquote, rfl⟩
  · exact ⟨quote :: inside ++ ['\\'], by simp, hhead, hnone, quote, hquote, inside, rfl⟩

theorem number_standsAt (hstart : startsNumber cs = true) (h : number cs = .error (f, rest)) :
    rest = cs ∧ f.StandsAt [] cs := by
  have htext : (String.ofList (numeral cs).1).toList <+: cs :=
    ⟨(numeral cs).2, by rw [String.toList_ofList, numeral_append]⟩
  cases hread : Numeral.read? (numeral cs).1 with
  | none =>
    simp only [number, hread, Except.error.injEq, Prod.mk.injEq] at h
    obtain ⟨rfl, rfl⟩ := h
    exact ⟨rfl, rfl, hstart, htext⟩
  | some x =>
    by_cases hfinite : x.isFinite = true
    · simp [number, hread, hfinite] at h
    · simp only [number, hread, hfinite, Bool.false_eq_true, if_false, Except.error.injEq,
        Prod.mk.injEq] at h
      obtain ⟨rfl, rfl⟩ := h
      exact ⟨rfl, rfl, hstart, htext⟩

theorem id_standsAt (hstart : isIdStart c = true) (h : id (c :: cs) = .error (f, rest)) :
    rest = c :: cs ∧ f.StandsAt [] (c :: cs) := by
  rw [id, map_eq_error] at h
  obtain ⟨rfl | rfl, rfl⟩ := idBody_error h
  · exact ⟨rfl, rfl, String.toList_ofList.symm, c, rfl, hstart⟩
  · exact ⟨rfl, rfl, String.toList_ofList.symm, c, rfl, hstart⟩

theorem scan_equals (h : ∀ d ∈ cs.head?, (d == '=') = false) :
    scan ('=' :: cs) = .error (.lonelyEquals, '=' :: cs) := by
  cases cs with
  | nil => rfl
  | cons d cs =>
    have hd : d ≠ '=' := by simpa using h d rfl
    simp [scan, hd]

/-- Only an equals sign and the quotes among the marks can begin what is no token. -/
theorem mem_of_scan_mark (hmark : c ∈ marks) (h : scan (c :: cs) = .error (f, rest)) :
    c = '=' ∨ c ∈ quotes := by
  simp only [marks, List.mem_cons, List.not_mem_nil, or_false] at hmark
  rcases head_cases (· == '=') cs with ⟨d, ds, rfl, hd⟩ | hhead
  · obtain rfl := beq_iff_eq.mp hd
    rcases hmark with rfl | rfl | rfl | rfl | rfl | rfl | rfl | rfl | rfl | rfl
    all_goals first | exact .inr (by decide) | cases h
  · have hnot := scan_not fun d hd => by simpa using hhead d hd
    rcases hmark with rfl | rfl | rfl | rfl | rfl | rfl | rfl | rfl | rfl | rfl
    · cases h
    · cases h
    · cases h
    · cases h
    · cases hnot.symm.trans h
    · exact .inl rfl
    · cases (scan_gt hhead).symm.trans h
    · cases (scan_lt hhead).symm.trans h
    · exact .inr (by decide)
    · exact .inr (by decide)

theorem equals_standsAt (h : scan ('=' :: cs) = .error (f, rest)) :
    rest = '=' :: cs ∧ f.StandsAt [] ('=' :: cs) := by
  rcases head_cases (· == '=') cs with ⟨d, ds, rfl, hd⟩ | hhead
  · obtain rfl := beq_iff_eq.mp hd
    cases h
  · rw [scan_equals hhead] at h
    obtain ⟨rfl, rfl⟩ := Prod.mk.inj (Except.error.inj h)
    refine ⟨rfl, rfl, cs, rfl, fun heq => ?_⟩
    simpa using hhead '=' heq

/-- A fault is found where a token begins, or behind a backslash in a string that begins there. -/
theorem scan_standsAt (h : scan (c :: cs) = .error (f, rest)) :
    ∃ read, c :: cs = read ++ rest ∧ f.StandsAt read rest := by
  by_cases hmark : c ∈ marks
  · rcases mem_of_scan_mark hmark h with rfl | hquote
    · obtain ⟨rfl, hf⟩ := equals_standsAt h
      exact ⟨[], rfl, hf⟩
    · exact quote_standsAt hquote h
  · rw [scan_open hmark] at h
    by_cases hnumber : startsNumber (c :: cs) = true
    · rw [if_pos hnumber] at h
      obtain ⟨rfl, hf⟩ := number_standsAt hnumber h
      exact ⟨[], rfl, hf⟩
    · rw [if_neg hnumber] at h
      by_cases hid : isIdStart c = true
      · rw [if_pos hid] at h
        obtain ⟨rfl, hf⟩ := id_standsAt hid h
        exact ⟨[], rfl, hf⟩
      · rw [if_neg hid] at h
        obtain ⟨rfl, rfl⟩ := Prod.mk.inj (Except.error.inj h)
        exact ⟨[], rfl, rfl, rfl⟩

end Faults

end Lexer

theorem tokenize_eq_error {source : String} {e : CompileError} : tokenize source = .error e ↔
    ∃ f p, Lexer.tokens .start source.toList = .error (f, p) ∧ e = .lexical f p := by
  unfold tokenize
  split
  · rename_i f p hf
    simp [hf, eq_comm]
  · rename_i ts hts
    simp [hts]

/-- The place of an error is that of a token, or of what cannot be scanned to its end. -/
def CompileError.Names (e : CompileError) (source front back : List Char) : Prop :=
  match e with
  | .grammatical f => ∃ ts t rest, Lexer.tokens .start source = .ok ts ∧ t ∈ ts ∧
      f.token? = some t ∧ Lexer.Reached front back ∧ Lexer.scan back = .ok (t.kind, rest)
  | .lexical f _ => ∃ start read, front = start ++ read ∧ Lexer.Reached start (read ++ back) ∧
      f.StandsAt read back

theorem names_of_tokens_error {cs : List Char} {f : Lexer.Fault} {p : Position}
    (h : Lexer.tokens .start cs = .error (f, p)) : ∃ front back, cs = front ++ back ∧
      p = .behind front ∧ (CompileError.lexical f p).Names cs front back := by
  obtain ⟨start, c, body, back, rfl, hreached, hscan, rfl⟩ := Lexer.exists_reached_of_error h
  obtain ⟨read, hread, hf⟩ := Lexer.scan_standsAt hscan
  rw [hread] at hreached ⊢
  rw [Lexer.used_append, Position.start_after]
  exact ⟨start ++ read, back, (List.append_assoc ..).symm, rfl, start, read, rfl, hreached, hf⟩

theorem names_of_parse_error {cs : List Char} {ts : List Token} {f : Parser.Fault}
    (hts : Lexer.tokens .start cs = .ok ts) (h : Parser.parse ts = .error f) :
    ∃ front back, cs = front ++ back ∧
      (CompileError.grammatical f).position = .behind front ∧
      (CompileError.grammatical f).Names cs front back := by
  have hended : Parser.Ended ts := by
    obtain ⟨ws, trailing, -, rfl⟩ := Lexer.exists_lays hts
    exact ⟨_, List.mem_append_right _ (List.mem_singleton_self _), rfl⟩
  obtain ⟨before, t, after, rfl, htoken, -⟩ := Parser.parse_error hended h
  have ht : t ∈ before ++ t :: after := by simp
  obtain ⟨front, text, rest, hcs, hplace, hreached, hscan, -⟩ := Lexer.exists_reached hts ht
  refine ⟨front, text ++ rest, hcs, ?_, _, t, rest, hts, ht, htoken, hreached, hscan⟩
  rw [← Position.start_after, ← hplace]
  simp [CompileError.position, htoken]

/-- Each token of a source has the place of its first character, the end of the text has that of
the end, and each place is behind the one before it. The place of an error is the first character of
a token, of a numeral that is out of range, or of a string or an id that does not end; it is a
character that begins no token, or one that stands behind a backslash and cannot stand there. -/
theorem positions_point_into_source (source : String) :
    (∀ ts, tokenize source = .ok ts →
      (∀ t ∈ ts, ∃ front text rest, source.toList = front ++ (text ++ rest) ∧
        t.position = .behind front ∧ Lexer.Reached front (text ++ rest) ∧
        Lexer.scan (text ++ rest) = .ok (t.kind, rest) ∧
        (t.kind ≠ .endOfText ∧ text ≠ [] ∨ t.kind = .endOfText ∧ front = source.toList)) ∧
      ts.Pairwise fun t u => t.position.Precedes u.position) ∧
    ∀ e, compile source = .error e → ∃ front back, source.toList = front ++ back ∧
      e.position = .behind front ∧ e.Names source.toList front back := by
  refine ⟨fun ts h => ?_, fun e h => ?_⟩
  · have hts := tokenize_eq_ok.mp h
    refine ⟨fun t ht => ?_, (Lexer.precedes_of_tokens hts).2⟩
    simpa only [Position.start_after] using Lexer.exists_reached hts ht
  · cases htokens : tokenize source with
    | error e' =>
      obtain rfl : e' = e := by simpa [compile, htokens] using h
      obtain ⟨f, p, hf, rfl⟩ := tokenize_eq_error.mp htokens
      exact names_of_tokens_error hf
    | ok ts =>
      cases hparse : Parser.parse ts with
      | error f =>
        obtain rfl : .grammatical f = e := by simpa [compile, htokens, hparse] using h
        exact names_of_parse_error (tokenize_eq_ok.mp htokens) hparse
      | ok root => simp [compile, htokens, hparse] at h

theorem positions_point_into_source_escape :
    (∃ ts, tokenize "a >=\n 'x'" = .ok ts ∧
      (∀ t ∈ ts, ∃ front text rest, "a >=\n 'x'".toList = front ++ (text ++ rest) ∧
        t.position = .behind front ∧ Lexer.Reached front (text ++ rest) ∧
        Lexer.scan (text ++ rest) = .ok (t.kind, rest) ∧
        (t.kind ≠ .endOfText ∧ text ≠ [] ∨ t.kind = .endOfText ∧ front = "a >=\n 'x'".toList)) ∧
      ts.Pairwise fun t u => t.position.Precedes u.position) ∧
    ∃ e, compile "a &\n 'b\\q'" = .error e ∧ e.position = ⟨2, 5⟩ ∧
      ∃ front back, "a &\n 'b\\q'".toList = front ++ back ∧ e.position = .behind front ∧
        e.Names "a &\n 'b\\q'".toList front back := by
  have hread : tokenize "a >=\n 'x'" = .ok [⟨.id "a", ⟨1, 1⟩⟩, ⟨.op .ge, ⟨1, 3⟩⟩,
      ⟨.literal (.string "x"), ⟨2, 2⟩⟩, ⟨.endOfText, ⟨2, 5⟩⟩] := by cbv
  have hbroken : compile "a &\n 'b\\q'" = .error (.lexical (.invalidEscape 'q') ⟨2, 5⟩) := by cbv
  obtain ⟨htokens, -⟩ := positions_point_into_source "a >=\n 'x'"
  obtain ⟨-, hfault⟩ := positions_point_into_source "a &\n 'b\\q'"
  exact ⟨⟨_, hread, htokens _ hread⟩, _, hbroken, rfl, hfault _ hbroken⟩

end HomeAutomation.Trigger
