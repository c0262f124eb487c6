import HomeAutomation.Proofs.Number.Numerals
import HomeAutomation.Proofs.Trigger.Counters
import HomeAutomation.Proofs.Trigger.Places

/-! What no source comes to. A number is collected only where one starts, so that what is collected
reads as one; a parenthesis that closes a parameter list was counted when it opened; and there is
always a token where the reader looks for one. So compiling fails only for what a source says. -/

namespace HomeAutomation.Trigger

namespace Lexer

section Numbers

variable {cs rest : List Char} {f : Fault}

theorem isSign_sign (cs : List Char) : Numeral.IsSign (sign cs).1 := by
  rcases head_cases isSign cs with ⟨c, cs, rfl, hsign⟩ | hsign
  · rw [sign_cons hsign]
    simp only [isSign, Bool.or_eq_true, beq_iff_eq] at hsign
    rcases hsign with rfl | rfl
    · exact .inr (.inl rfl)
    · exact .inr (.inr rfl)
  · rw [sign_eq_nil hsign]
    exact .inl rfl

theorem isFraction_fraction (cs : List Char) : Numeral.IsFraction (fraction cs).1 := by
  rcases head_cases (· == '.') cs with ⟨c, cs, rfl, hpoint⟩ | hpoint
  · obtain rfl := beq_iff_eq.mp hpoint
    exact .inr ⟨_, rfl, Numeral.allDigits_takeWhile cs⟩
  · rw [fraction_eq_nil hpoint]
    exact .inl rfl

theorem isExponent_exponent (cs : List Char) : Numeral.IsExponent (exponent cs).1 := by
  cases cs with
  | nil => exact .inl rfl
  | cons e cs =>
    rw [exponent_cons]
    split
    · rename_i h
      simp only [isExponent, hasDigits, Bool.and_eq_true, Bool.or_eq_true, beq_iff_eq,
        Bool.not_eq_true', List.isEmpty_eq_false_iff] at h
      exact .inr ⟨e, _, _, rfl, h.1, isSign_sign cs, h.2, Numeral.allDigits_takeWhile _⟩
    · exact .inl rfl

/-- Where a number starts, one is collected. -/
theorem written_numeral (h : startsNumber cs = true) : Numeral.Written (numeral cs).1 := by
  have hdigit : (digits (sign cs).2).1 ≠ [] ∨ 2 ≤ (fraction (digits (sign cs).2).2).1.length := by
    simpa [hasDigits] using startsNumber_iff.mp h
  have hparts : Numeral.AreParts (sign cs).1 (digits (sign cs).2).1
      (fraction (digits (sign cs).2).2).1 (exponent (fraction (digits (sign cs).2).2).2).1 :=
    ⟨hdigit, isSign_sign cs, Numeral.allDigits_takeWhile _, isFraction_fraction _,
      isExponent_exponent _⟩
  exact ⟨_, _, _, _, by simp only [numeral, List.append_assoc], hparts⟩

theorem number_error (hstart : startsNumber cs = true) (h : number cs = .error (f, rest)) :
    f = .outOfRange (String.ofList (numeral cs).1) := by
  obtain ⟨x, hx⟩ := Numeral.exists_read?_iff.mpr (written_numeral hstart)
  simp only [number, hx] at h
  split at h
  · cases h
  · exact (Prod.mk.inj (Except.error.inj h)).1.symm

end Numbers

section Parameters

def further (c : Char) (counts : List Nat) (r : Scan (List Char) × List Nat) :
    Scan (List Char) × List Nat :=
  (keep c r.1, counts ++ r.2)

/-- The scanner of ids with what its counter was at each parenthesis that it closes. One is taken
from the counter there, whatever it was. -/
def recorded (whole : List Char) : Option Nat → List Char → Scan (List Char) × List Nat
  | none, [] => (.ok ([], []), [])
  | some _, [] => (.error (.unclosedParameters (String.ofList whole), whole), [])
  | none, c :: cs =>
    if isIdChar c then further c [] (recorded whole none cs)
    else if c == '(' then further c [] (recorded whole (some 1) cs)
    else (.ok ([], c :: cs), [])
  | some depth, c :: cs =>
    if c == '(' then further c [] (recorded whole (some (depth + 1)) cs)
    else if c == ')' then
      further c [depth] (recorded whole (if depth - 1 = 0 then none else some (depth - 1)) cs)
    else further c [] (recorded whole (some depth) cs)

variable {whole cs rest : List Char} {depth : Option Nat} {f : Fault}

/-- The counter is not zero within a list: it is one behind the parenthesis that opens it, and the
list ends where it would come to zero. -/
theorem recorded_follows (h : depth ≠ some 0) :
    (recorded whole depth cs).1 = idBody whole depth cs ∧
      ∀ d ∈ (recorded whole depth cs).2, 1 ≤ d := by
  fun_induction recorded whole depth cs with
  | case1 | case2 => simp [idBody]
  | case3 c cs hid ih =>
    obtain ⟨hbody, hcounts⟩ := ih (by simp)
    exact ⟨by simp [further, hbody, idBody, hid], hcounts⟩
  | case4 c cs hid hopen ih =>
    obtain ⟨hbody, hcounts⟩ := ih (by simp)
    exact ⟨by simp [further, hbody, idBody, hid, hopen], hcounts⟩
  | case5 c cs hid hopen => simp [idBody, hid, hopen]
  | case6 depth c cs hopen ih =>
    obtain ⟨hbody, hcounts⟩ := ih (by simp)
    exact ⟨by simp [further, hbody, idBody, hopen], hcounts⟩
  | case7 depth c cs hopen hclose ih =>
    obtain ⟨d, rfl⟩ : ∃ d, depth = d + 1 := Nat.exists_eq_succ_of_ne_zero fun h0 => h (by rw [h0])
    rw [Nat.add_sub_cancel] at ih ⊢
    obtain ⟨hbody, hcounts⟩ := ih (by split <;> simp_all)
    have hnext : idBody whole (some (d + 1)) (c :: cs) =
        keep c (idBody whole (if d = 0 then none else some d) cs) := by
      cases d <;> simp [idBody, hopen, hclose]
    refine ⟨?_, ?_⟩
    · rw [hnext, ← hbody]
      rfl
    · intro n hn
      rcases List.mem_cons.mp hn with rfl | hn
      · exact Nat.succ_pos d
      · exact hcounts n hn
  | case8 depth c cs hopen hclose ih =>
    obtain ⟨hbody, hcounts⟩ := ih h
    exact ⟨by simp [further, hbody, idBody, hopen, hclose], hcounts⟩

/-- There is one count for each parenthesis that closes in what was read, which is all of the text
where a list does not end. -/
def Counts (cs : List Char) (r : Scan (List Char) × List Nat) : Prop :=
  match r.1 with
  | .ok (name, _) => r.2.length = name.count ')'
  | .error _ => r.2.length = cs.count ')'

theorem Counts.further {c : Char} {counts : List Nat} {r : Scan (List Char) × List Nat}
    (h : Counts cs r) (hc : counts.length = [c].count ')') :
    Counts (c :: cs) (further c counts r) := by
  obtain ⟨_ | ⟨name, rest⟩, seen⟩ := r
  · show (counts ++ seen).length = ([c] ++ cs).count ')'
    rw [List.length_append, List.count_append, hc, h]
  · show (counts ++ seen).length = ([c] ++ name).count ')'
    rw [List.length_append, List.count_append, hc, h]

theorem counts_recorded (whole cs : List Char) (depth : Option Nat) :
    Counts cs (recorded whole depth cs) := by
  fun_induction recorded whole depth cs with
  | case1 | case2 => rfl
  | case3 c cs hid ih =>
    have hne : c ≠ ')' := by
      rintro rfl
      cases hid
    exact ih.further (by simp [hne])
  | case4 c cs _ hopen ih =>
    obtain rfl := beq_iff_eq.mp hopen
    exact ih.further (by decide)
  | case5 => rfl
  | case6 depth c cs hopen ih =>
    obtain rfl := beq_iff_eq.mp hopen
    exact ih.further (by decide)
  | case7 depth c cs hopen hclose ih =>
    obtain rfl := beq_iff_eq.mp hclose
    exact ih.further (by simp)
  | case8 depth c cs hopen hclose ih =>
    exact ih.further (by simp_all)

theorem recorded_error (h : (recorded whole depth cs).1 = .error (f, rest)) :
    f = .unclosedParameters (String.ofList whole) := by
  fun_induction recorded whole depth cs with
  | case1 | case5 => cases h
  | case2 => exact (Prod.mk.inj (Except.error.inj h)).1.symm
  | case3 | case4 | case6 | case7 | case8 =>
    rename_i ih
    exact ih (keep_eq_error.mp h)

end Parameters

/-- A fault that comes from the scanner's own state, not from what stands in the text. -/
def Fault.Internal : Fault → Prop
  | .invalidNumber _ | .unopenedParameters _ => True
  | _ => False

theorem not_internal_of_scan {c : Char} {cs rest : List Char} {f : Fault}
    (h : scan (c :: cs) = .error (f, rest)) : ¬f.Internal := by
  obtain ⟨read, hread, hf⟩ := scan_standsAt h
  cases f with
  | invalidNumber n =>
    obtain ⟨rfl, hstart, -⟩ := hf
    obtain rfl : c :: cs = rest := hread
    rw [scan_number hstart] at h
    cases number_error hstart h
  | unopenedParameters name =>
    obtain ⟨rfl, -, d, hd, hstart⟩ := hf
    obtain rfl : c :: cs = rest := hread
    obtain rfl := Option.some.inj hd
    rw [scan_id hstart, id, map_eq_error, ← (recorded_follows (by simp)).1] at h
    cases recorded_error h
  | _ => exact not_false

end Lexer

/-- An error that comes from the compiler's own state, not from what stands in the source. -/
def CompileError.Internal : CompileError → Prop
  | .lexical f _ => f.Internal
  | .grammatical f => f = .outOfTokens

theorem not_internal_of_tokenize {source : String} {e : CompileError}
    (h : tokenize source = .error e) : ¬e.Internal := by
  obtain ⟨f, p, hf, rfl⟩ := tokenize_eq_error.mp h
  obtain ⟨front, c, body, rest, -, -, hscan, -⟩ := Lexer.exists_reached_of_error hf
  exact Lexer.not_internal_of_scan hscan

theorem not_internal_of_parse {ts : List Token} {f : Parser.Fault} (hts : Counted.Closed ts)
    (h : Parser.parse ts = .error f) : ¬(CompileError.grammatical f).Internal := by
  have hended : Parser.Ended ts := by
    obtain ⟨body, p, rfl⟩ := hts
    exact ⟨_, List.mem_append_right _ (List.mem_singleton_self _), rfl⟩
  obtain ⟨-, t, -, -, htoken, -⟩ := Parser.parse_error hended h
  rintro rfl
  cases htoken

theorem not_internal_of_compile {source : String} {e : CompileError}
    (h : compile source = .error e) : ¬e.Internal := by
  unfold compile at h
  split at h
  · rename_i e' htokens
    exact Except.error.inj h ▸ not_internal_of_tokenize htokens
  · rename_i ts hts
    split at h
    · rename_i f hf
      exact Except.error.inj h ▸ not_internal_of_parse (Counted.closed_of_tokenize hts) hf
    · cases h

/-- Whatever the source is, its tokens come to an end, which is the last of them and no other, or to
an error. Each step of the scanner takes characters, and the counter of a parameter list is at least
one where the scanner takes one from it, as it does for each parenthesis that closes. What is
collected as a number is written as one and reads as one, and no token is looked for outside of the
list. So an error tells of what stands in the source. -/
theorem no_hidden_failure (source : String) :
    ((∃ body p, tokenize source = .ok (body ++ [⟨.endOfText, p⟩]) ∧
        ∀ t ∈ body, t.kind ≠ .endOfText) ∨ ∃ e, tokenize source = .error e) ∧
    (∀ c cs k rest, Lexer.scan (c :: cs) = .ok (k, rest) →
      ∃ used, used ≠ [] ∧ c :: cs = used ++ rest) ∧
    (∀ cs, (Lexer.recorded cs none cs).1 = Lexer.idBody cs none cs ∧
      Lexer.Counts cs (Lexer.recorded cs none cs) ∧
      ∀ d ∈ (Lexer.recorded cs none cs).2, 1 ≤ d) ∧
    (∀ cs, Lexer.startsNumber cs = true → Numeral.Written (Lexer.numeral cs).1 ∧
      ∃ x, Numeral.read? (Lexer.numeral cs).1 = some x) ∧
    (∀ ts, tokenize source = .ok ts → ∀ room, 256 < room →
      ((Counted.whole ts room).ends .start).1 = (Parser.parse ts).mapError .fault ∧
      ∀ m ∈ ((Counted.whole ts room).ends .start).2.moments, m.place < ts.length) ∧
    ∀ e, compile source = .error e → ¬e.Internal := by
  refine ⟨?_, fun c cs k rest => Lexer.scan_append, fun cs => ?_, fun cs hstart => ?_,
    fun ts hts room hroom => ?_, fun e => not_internal_of_compile⟩
  · cases htokens : tokenize source with
    | error e => exact .inr ⟨e, rfl⟩
    | ok ts =>
      obtain ⟨body, p, rfl, hbody⟩ := tokenize_scanned htokens
      exact .inl ⟨body, p, rfl, fun t ht => (hbody t ht).ne_endOfText⟩
  · have houtside : (none : Option Nat) ≠ some 0 := by simp
    obtain ⟨hbody, hcounts⟩ := Lexer.recorded_follows houtside
    exact ⟨hbody, Lexer.counts_recorded cs cs none, hcounts⟩
  · have hwritten := Lexer.written_numeral hstart
    exact ⟨hwritten, Numeral.exists_read?_iff.mpr hwritten⟩
  · obtain ⟨hends, hfits⟩ := Counted.whole_ends (Counted.closed_of_tokenize hts) hroom
    exact ⟨hends, fun m hm => (hfits m hm).place⟩

theorem no_hidden_failure_nested :
    (Lexer.recorded "zone((2)).on".toList none "zone((2)).on".toList).2 = [2, 1] ∧
    (∀ d ∈ (Lexer.recorded "zone((2)).on".toList none "zone((2)).on".toList).2, 1 ≤ d) ∧
    Lexer.numeral "-.5e3 | on".toList = ("-.5e3".toList, " | on".toList) ∧
    Numeral.Written "-.5e3".toList ∧
    (∃ ts, tokenize "on & off" = .ok ts ∧
      (∀ m ∈ ((Counted.whole ts 257).ends .start).2.moments, m.place < ts.length) ∧
      (((Counted.whole ts 257).ends .start).2.moments.map Counted.Moment.place).max? = some 3) ∧
    ∃ e, compile "on & zone(2" = .error e ∧ ¬e.Internal ∧
      e.message = "unclosed parameter list in 'zone(2'" := by
  have hnumeral : Lexer.numeral "-.5e3 | on".toList = ("-.5e3".toList, " | on".toList) := by
    decide +kernel
  have hread : tokenize "on & off" = .ok [⟨.id "on", ⟨1, 1⟩⟩, ⟨.and, ⟨1, 4⟩⟩, ⟨.id "off", ⟨1, 6⟩⟩,
      ⟨.endOfText, ⟨1, 9⟩⟩] := by cbv
  have hbroken : compile "on & zone(2" =
      .error (.lexical (.unclosedParameters "zone(2") ⟨1, 6⟩) := by cbv
  obtain ⟨-, -, hcounter, hnumbers, hplaces, -⟩ := no_hidden_failure "on & off"
  obtain ⟨-, -, -, -, -, herrors⟩ := no_hidden_failure "on & zone(2"
  obtain ⟨-, hinside⟩ := hplaces _ hread 257 (by decide)
  obtain ⟨hwritten, -⟩ := hnumbers "-.5e3 | on".toList (by decide +kernel)
  rw [hnumeral] at hwritten
  exact ⟨by decide +kernel, (hcounter _).2.2, hnumeral, hwritten,
    ⟨_, hread, hinside, by decide +kernel⟩, _, hbroken, herrors _ hbroken, by decide +kernel⟩

end HomeAutomation.Trigger
