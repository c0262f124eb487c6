import HomeAutomation.Proofs.Trigger.Parsing
import HomeAutomation.Proofs.Trigger.Prefixes

/-! The layout of a text: words with blanks before them. Every text begins with words, each of which
is scanned where it stands, up to its end or up to a place where nothing can be scanned; its tokens
are those words, at the places where they stand. -/

namespace HomeAutomation.Trigger

namespace Position

/-- The place of what stands behind this front of a text: a line for each line feed in it, and a
column for each character since the last one. -/
def behind (front : List Char) : Position :=
  ⟨1 + front.count '\n', 1 + (front.reverse.takeWhile (· != '\n')).length⟩

theorem behind_concat (front : List Char) (c : Char) :
    behind (front ++ [c]) = (behind front).next c := by
  by_cases hc : c = '\n'
  · subst hc
    simp [behind, next, Nat.add_assoc]
  · simp [behind, next, hc, Nat.add_assoc]

theorem start_after (front : List Char) : start.after front = behind front := by
  induction front using List.reverseRecOn with
  | nil => rfl
  | append_singleton front c ih =>
    have hlast : start.after (front ++ [c]) = (start.after front).next c := List.foldl_concat ..
    rw [hlast, ih, behind_concat]

end Position

namespace Lexer

open Text

def Blank (cs : List Char) : Prop := ∀ c ∈ cs, isBlank c = true

/-- A token as it is written, and the blanks before it. -/
structure Word where
  gap : List Char
  text : List Char
  kind : Token.Kind

def Word.chars (w : Word) : List Char := w.gap ++ w.text

def written (ws : List Word) : List Char := ws.flatMap Word.chars

/-- The tokens of words, the first of which stands at this place behind its blanks. -/
def placed (p : Position) : List Word → List Token
  | [] => []
  | w :: ws => ⟨w.kind, p.after w.gap⟩ :: placed (p.after w.chars) ws

/-- Each of the words is what is scanned where it stands, with the others and this rest behind it. -/
def Spelled : List Word → List Char → Prop
  | [], _ => True
  | w :: ws, rest =>
    Blank w.gap ∧ (∃ c cs, w.text = c :: cs ∧ isBlank c = false) ∧
      scan (w.text ++ (written ws ++ rest)) = .ok (w.kind, written ws ++ rest) ∧ Spelled ws rest

/-- Words and blanks stand before the back of a text, so that the next token begins there. -/
def Reached (front back : List Char) : Prop :=
  ∃ ws gap, front = written ws ++ gap ∧ Spelled ws (gap ++ back) ∧ Blank gap

/-- A text that is made of words, with blanks behind the last one. -/
structure Lays (ws : List Word) (trailing cs : List Char) : Prop where
  chars : cs = written ws ++ trailing
  blank : Blank trailing
  spelled : Spelled ws trailing

section Words

variable {p : Position} {ws : List Word} {cs rest : List Char}

theorem written_cons (w : Word) (ws : List Word) : written (w :: ws) = w.chars ++ written ws :=
  List.flatMap_cons

theorem written_append (ws us : List Word) : written (ws ++ us) = written ws ++ written us :=
  List.flatMap_append

theorem map_kind_placed (p : Position) (ws : List Word) :
    (placed p ws).map Token.kind = ws.map Word.kind := by
  induction ws generalizing p with
  | nil => rfl
  | cons w ws ih => rw [placed, List.map_cons, List.map_cons, ih]

theorem Spelled.cons {w : Word} (hgap : Blank w.gap) {c : Char} {tail : List Char}
    (htext : w.text = c :: tail) (hc : isBlank c = false)
    (hscan : scan (w.text ++ (written ws ++ rest)) = .ok (w.kind, written ws ++ rest))
    (h : Spelled ws rest) : Spelled (w :: ws) rest :=
  ⟨hgap, ⟨c, tail, htext, hc⟩, hscan, h⟩

theorem Spelled.split {us : List Word} (h : Spelled (ws ++ us) rest) :
    Spelled ws (written us ++ rest) ∧ Spelled us rest := by
  induction ws with
  | nil => exact ⟨trivial, h⟩
  | cons w ws ih =>
    rw [List.cons_append, Spelled, written_append, List.append_assoc] at h
    obtain ⟨hgap, htext, hscan, hrest⟩ := h
    obtain ⟨hws, hus⟩ := ih hrest
    exact ⟨⟨hgap, htext, hscan, hws⟩, hus⟩

theorem Spelled.reads (h : Spelled ws rest) (p : Position) :
    Reads p (written ws) (placed p ws) rest := by
  induction ws generalizing p with
  | nil => exact reads_blanks (by simp [written]) rest
  | cons w ws ih =>
    obtain ⟨hgap, ⟨c, tail, htext, hc⟩, hscan, hrest⟩ := h
    have hblanks : Reads p w.gap [] (w.text ++ written ws ++ rest) := reads_blanks hgap _
    have hword : Reads (p.after w.gap) w.text [⟨w.kind, p.after w.gap⟩] (written ws ++ rest) := by
      rw [htext] at hscan ⊢
      exact reads_scan hc hscan
    have hothers := ih hrest (p.after w.chars)
    rw [Word.chars, after_append] at hothers
    have hfirst := hblanks.append (hword.append hothers)
    rw [written_cons, Word.chars, List.append_assoc, placed, Word.chars, after_append]
    exact hfirst

theorem Spelled.tokens_eq (h : Spelled ws rest) (p : Position) :
    tokens p (written ws ++ rest) =
      (tokens (p.after (written ws)) rest).map (placed p ws ++ ·) :=
  h.reads p

theorem tokens_of_blank (h : Blank cs) (p : Position) :
    tokens p cs = .ok [⟨.endOfText, p.after cs⟩] := by
  have hdrop : cs.dropWhile isBlank = [] := List.dropWhile_eq_nil_iff.mpr h
  have htake : cs.takeWhile isBlank = cs := List.takeWhile_eq_self_iff.mpr h
  rw [tokens_nil hdrop, htake]

theorem Lays.tokens_eq {trailing : List Char} (h : Lays ws trailing cs) (p : Position) :
    tokens p cs = .ok (placed p ws ++ [⟨.endOfText, p.after cs⟩]) := by
  rw [h.chars, h.spelled.tokens_eq, tokens_of_blank h.blank, after_append]
  rfl

theorem takeWhile_blank (gap : List Char) (hgap : Blank gap) {c : Char} (hc : isBlank c = false)
    (body : List Char) : (gap ++ c :: body).takeWhile isBlank = gap ∧
      (gap ++ c :: body).dropWhile isBlank = c :: body := by
  constructor
  · rw [List.takeWhile_append_of_pos hgap, List.takeWhile_cons_of_neg (by simp [hc]),
      List.append_nil]
  · rw [List.dropWhile_append_of_pos hgap, List.dropWhile_cons_of_neg (by simp [hc])]

theorem used_append (read rest : List Char) : used (read ++ rest) rest = read := by
  rw [used, List.length_append, Nat.add_sub_cancel, List.take_left]

/-- Every text is made of words up to blanks behind which it ends or nothing can be scanned. -/
theorem exists_words (cs : List Char) : ∃ ws gap back, cs = written ws ++ (gap ++ back) ∧
    Spelled ws (gap ++ back) ∧ Blank gap ∧
    (back = [] ∨ ∃ c body f, back = c :: body ∧ isBlank c = false ∧ scan back = .error f) := by
  induction hlen : cs.length using Nat.strongRecOn generalizing cs with
  | ind n ih =>
    have hsplit : cs = cs.takeWhile isBlank ++ cs.dropWhile isBlank :=
      List.takeWhile_append_dropWhile.symm
    have hgap : Blank (cs.takeWhile isBlank) := fun c hc => List.mem_takeWhile_imp hc
    cases hback : cs.dropWhile isBlank with
    | nil =>
      rw [hback] at hsplit
      exact ⟨[], _, [], hsplit, trivial, hgap, .inl rfl⟩
    | cons c body =>
      have hc : isBlank c = false := by
        have hhead := List.head?_dropWhile_not isBlank cs
        rwa [hback] at hhead
      rw [hback] at hsplit
      cases hscan : scan (c :: body) with
      | error f => exact ⟨[], _, c :: body, hsplit, trivial, hgap, .inr ⟨c, body, f, rfl, hc, hscan⟩⟩
      | ok r =>
        obtain ⟨k, rest⟩ := r
        obtain ⟨text, hne, htext⟩ := scan_append hscan
        obtain ⟨d, tail, rfl⟩ := List.exists_cons_of_ne_nil hne
        obtain rfl : c = d := by simpa using congrArg List.head? htext
        have hshort : rest.length < n := by
          rw [← hlen, hsplit, htext]
          simp only [List.length_append, List.length_cons]
          omega
        obtain ⟨ws, gap, back, hrest, hspelled, hblank, hend⟩ := ih rest.length hshort rest rfl
        refine ⟨⟨cs.takeWhile isBlank, c :: tail, k⟩ :: ws, gap, back, ?_, ?_, hblank, hend⟩
        · rw [written_cons, List.append_assoc, ← hrest]
          simpa [Word.chars, htext] using hsplit
        · refine .cons hgap rfl hc ?_ hspelled
          show scan (c :: tail ++ (written ws ++ (gap ++ back))) = _
          rw [← hrest, ← htext]
          exact hscan

/-- Tokens are those of one layout of the text. -/
theorem exists_lays {ts : List Token} (h : tokens p cs = .ok ts) :
    ∃ ws trailing, Lays ws trailing cs ∧ ts = placed p ws ++ [⟨.endOfText, p.after cs⟩] := by
  obtain ⟨ws, gap, back, hcs, hspelled, hgap, hend⟩ := exists_words cs
  rcases hend with rfl | ⟨c, body, f, rfl, hc, hscan⟩
  · rw [List.append_nil] at hcs hspelled
    have hlays : Lays ws gap cs := ⟨hcs, hgap, hspelled⟩
    exact ⟨ws, gap, hlays, Except.ok.inj (h.symm.trans (hlays.tokens_eq p))⟩
  · obtain ⟨-, hdrop⟩ := takeWhile_blank gap hgap hc body
    rw [hcs, hspelled.tokens_eq, tokens_error hdrop hscan] at h
    cases h

theorem mem_placed {t : Token} (ht : t ∈ placed p ws) : ∃ before w after,
    ws = before ++ w :: after ∧ t = ⟨w.kind, p.after (written before ++ w.gap)⟩ := by
  induction ws generalizing p with
  | nil => cases ht
  | cons w ws ih =>
    rcases List.mem_cons.mp ht with rfl | ht
    · exact ⟨[], w, ws, rfl, rfl⟩
    · obtain ⟨before, v, after, rfl, rfl⟩ := ih ht
      refine ⟨w :: before, v, after, rfl, ?_⟩
      rw [written_cons, List.append_assoc, after_append p w.chars]

/-- Each token of a text is scanned where it stands, behind the words before it, and what ends the
text stands behind all of it. -/
theorem exists_reached {ts : List Token} {t : Token} (h : tokens p cs = .ok ts) (ht : t ∈ ts) :
    ∃ front text rest, cs = front ++ (text ++ rest) ∧ t.position = p.after front ∧
      Reached front (text ++ rest) ∧ scan (text ++ rest) = .ok (t.kind, rest) ∧
      (t.kind ≠ .endOfText ∧ text ≠ [] ∨ t.kind = .endOfText ∧ front = cs) := by
  obtain ⟨ws, trailing, hlays, rfl⟩ := exists_lays h
  rcases List.mem_append.mp ht with ht | ht
  · obtain ⟨before, w, after, rfl, rfl⟩ := mem_placed ht
    obtain ⟨hbefore, hgap, ⟨c, tail, htext, -⟩, hscan, -⟩ := hlays.spelled.split
    have hback : written (w :: after) ++ trailing =
        w.gap ++ (w.text ++ (written after ++ trailing)) := by
      simp [written_cons, Word.chars]
    rw [hback] at hbefore
    refine ⟨written before ++ w.gap, w.text, written after ++ trailing, ?_, rfl,
      ⟨before, w.gap, rfl, hbefore, hgap⟩, hscan, .inl ⟨?_, by simp [htext]⟩⟩
    · rw [hlays.chars, written_append, List.append_assoc, hback, List.append_assoc]
    · rw [htext] at hscan
      exact (scan_scanned hscan).ne_endOfText
  · obtain rfl := List.mem_singleton.mp ht
    have hreached : Reached cs [] := by
      refine ⟨ws, trailing, hlays.chars, ?_, hlays.blank⟩
      rw [List.append_nil]
      exact hlays.spelled
    exact ⟨cs, [], [], (List.append_nil cs).symm, rfl, hreached, rfl, .inr ⟨rfl, rfl⟩⟩

/-- Where there are no tokens, words come before what cannot be scanned. -/
theorem exists_reached_of_error {f : Fault} {q : Position} (h : tokens p cs = .error (f, q)) :
    ∃ front c body rest, cs = front ++ c :: body ∧ Reached front (c :: body) ∧
      scan (c :: body) = .error (f, rest) ∧ q = p.after (front ++ used (c :: body) rest) := by
  obtain ⟨ws, gap, back, hcs, hspelled, hgap, hend⟩ := exists_words cs
  rcases hend with rfl | ⟨c, body, ⟨f', rest⟩, rfl, hc, hscan⟩
  · rw [List.append_nil] at hcs hspelled
    have hlays : Lays ws gap cs := ⟨hcs, hgap, hspelled⟩
    rw [hlays.tokens_eq p] at h
    cases h
  · obtain ⟨htake, hdrop⟩ := takeWhile_blank gap hgap hc body
    rw [hcs, hspelled.tokens_eq, tokens_error hdrop hscan, htake] at h
    obtain ⟨rfl, hq⟩ := Prod.mk.inj (Except.error.inj h)
    refine ⟨written ws ++ gap, c, body, rest, ?_, ⟨ws, gap, rfl, hspelled, hgap⟩, hscan, ?_⟩
    · rw [hcs, List.append_assoc]
    · rw [after_append, after_append, ← hq]

end Words

end Lexer

theorem tokenize_eq_ok {source : String} {ts : List Token} :
    tokenize source = .ok ts ↔ Lexer.tokens .start source.toList = .ok ts := by
  unfold tokenize
  split <;> simp_all

end HomeAutomation.Trigger
