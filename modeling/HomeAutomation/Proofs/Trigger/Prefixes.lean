import HomeAutomation.Proofs.Trigger.Cutting

/-! The tokens at the front of a text. They stay what they are, where they are, whatever else the
text goes on with behind a blank, so they can be followed by any other tokens. Each token stands
behind the one before it. -/

namespace HomeAutomation.Trigger

namespace Position

/-- Further up, or further left on the same line. -/
def Precedes (p q : Position) : Prop :=
  p.line < q.line ∨ p.line = q.line ∧ p.column < q.column

theorem Precedes.trans {p q r : Position} (h : p.Precedes q) (h' : q.Precedes r) :
    p.Precedes r := by
  unfold Precedes at *
  omega

theorem Precedes.ne {p q : Position} (h : p.Precedes q) : p ≠ q := by
  rintro rfl
  unfold Precedes at h
  omega

theorem precedes_next (p : Position) (c : Char) : p.Precedes (p.next c) := by
  unfold next Precedes
  split <;> simp

theorem eq_or_precedes_after (p : Position) (cs : List Char) :
    p.after cs = p ∨ p.Precedes (p.after cs) := by
  induction cs generalizing p with
  | nil => exact .inl rfl
  | cons c cs ih =>
    have hnext := precedes_next p c
    rcases ih (p.next c) with heq | hlt
    · exact .inr (heq.symm ▸ hnext)
    · exact .inr (hnext.trans hlt)

theorem precedes_after (p : Position) {cs : List Char} (h : cs ≠ []) :
    p.Precedes (p.after cs) := by
  obtain ⟨c, cs, rfl⟩ := List.exists_cons_of_ne_nil h
  have hnext := precedes_next p c
  rcases eq_or_precedes_after (p.next c) cs with heq | hlt
  · exact heq.symm ▸ hnext
  · exact hnext.trans hlt

end Position

namespace Lexer

open Text

section Fronts

variable {cs text rest : List Char}

theorem reads_blanks {p : Position} (h : ∀ c ∈ text, isBlank c = true) (rest : List Char) :
    Reads p text [] rest := by
  induction text generalizing p with
  | nil =>
    show tokens p rest = (tokens p rest).map ([] ++ ·)
    cases tokens p rest <;> rfl
  | cons c text ih =>
    have hfirst : Reads p [c] [] (text ++ rest) := reads_blank (h c (by simp))
    exact hfirst.append (ih fun d hd => h d (by simp [hd]))

/-- A text has the first token of another one if it goes on like that one up to there. -/
theorem reads_cut {p : Position} {c : Char} {body : List Char} {k : Token.Kind}
    (hblank : isBlank c = false) (h : scan (c :: body) = .ok (k, rest)) :
    ∃ text, c :: body = text ++ rest ∧
      ∀ rest', Cut rest rest' → Reads p text [⟨k, p⟩] rest' := by
  obtain ⟨text, htext, hscan⟩ := scan_cut h
  obtain ⟨used, hne, hused⟩ := scan_append h
  obtain rfl : text = used := List.append_cancel_right (htext.symm.trans hused)
  obtain ⟨d, tail, rfl⟩ := List.exists_cons_of_ne_nil hne
  obtain rfl : c = d := by simpa using congrArg List.head? htext
  exact ⟨_, htext, fun rest' hcut => reads_scan hblank (hscan rest' hcut)⟩

/-- The tokens of a text before one of them, and the place where the text can be cut before it. -/
theorem tokens_cut {p : Position} {before after : List Token} {k : Token}
    (h : tokens p cs = .ok (before ++ k :: after)) :
    ∃ kept rest, cs = kept ++ rest ∧ ∀ rest', Cut rest rest' → Reads p kept before rest' := by
  induction before generalizing p cs with
  | nil => exact ⟨[], cs, rfl, fun rest' _ => reads_blanks (by simp) rest'⟩
  | cons t before ih =>
    have hsplit : cs = cs.takeWhile isBlank ++ cs.dropWhile isBlank :=
      List.takeWhile_append_dropWhile.symm
    cases hb : cs.dropWhile isBlank with
    | nil => simp [tokens_nil hb] at h
    | cons c body =>
      have hblank : isBlank c = false := by
        have hhead := List.head?_dropWhile_not isBlank cs
        rwa [hb] at hhead
      cases hs : scan (c :: body) with
      | error f => simp [tokens_error hb hs] at h
      | ok r =>
        obtain ⟨kind, rest⟩ := r
        rw [tokens_scan hb hs] at h
        obtain ⟨more, hmore, heq⟩ := map_eq_ok.mp h
        obtain ⟨rfl, rfl⟩ := List.cons.inj heq
        obtain ⟨kept, rest', rfl, hkept⟩ := ih hmore
        obtain ⟨text, htext, hreads⟩ := reads_cut hblank hs
        have hused : used (c :: body) (kept ++ rest') = text := by
          rw [used, htext, List.length_append, Nat.add_sub_cancel, List.take_left]
        refine ⟨cs.takeWhile isBlank ++ (text ++ kept), rest', ?_, fun rest'' hcut => ?_⟩
        · conv_lhs => rw [hsplit, hb, htext]
          simp
        · have hblanks : Reads p (cs.takeWhile isBlank) [] (text ++ kept ++ rest'') :=
            reads_blanks (fun c hc => List.mem_takeWhile_imp hc) _
          have hfirst := hreads (kept ++ rest'') (hcut.append kept)
          have hothers := hkept rest'' hcut
          rw [hused] at hothers
          exact hblanks.append (hfirst.append hothers)

end Fronts

section Writing

/-- Each token that a text can have is written in some way before a blank. -/
theorem exists_written {k : Token.Kind} (h : k.Scanned) :
    ∃ text, ∀ p rest, Reads p text [⟨k, p⟩] (' ' :: rest) := by
  cases k with
  | id name => exact ⟨_, fun p rest => reads_id h (delimited_blank rest)⟩
  | literal v =>
    have hfinite : (Operand.literal v).IsFinite := by
      cases v <;> exact h
    exact ⟨_, fun p rest => reads_operand hfinite (delimited_blank rest)⟩
  | unknown => exact ⟨_, fun p rest => (reads_reserved (delimited_blank rest)).1⟩
  | or => exact ⟨['|'], fun p rest => reads_scan (by decide) rfl⟩
  | and => exact ⟨['&'], fun p rest => reads_scan (by decide) rfl⟩
  | not => exact ⟨['!'], fun p rest => reads_not (by simp)⟩
  | openGroup => exact ⟨['('], fun p rest => reads_scan (by decide) rfl⟩
  | closeGroup => exact ⟨[')'], fun p rest => reads_scan (by decide) rfl⟩
  | op op => exact ⟨_, fun p rest => reads_operator op⟩
  | endOfText => exact h.elim

theorem exists_writing {ks : List Token.Kind} (h : ∀ k ∈ ks, k.Scanned) (p : Position) :
    ∃ text ts, ts.map Token.kind = ks ∧ Reads p text ts [] := by
  induction ks generalizing p with
  | nil => exact ⟨[], [], rfl, reads_blanks (by simp) []⟩
  | cons k ks ih =>
    obtain ⟨word, hword⟩ := exists_written (h k (by simp))
    obtain ⟨text, ts, hkinds, hreads⟩ :=
      ih (fun k hk => h k (by simp [hk])) ((p.after word).after [' '])
    have hblank : Reads (p.after word) [' '] [] (text ++ []) := reads_blank (by decide)
    refine ⟨word ++ ([' '] ++ text), ⟨k, p⟩ :: ts, by simp [hkinds], ?_⟩
    have hfirst : Reads p word [⟨k, p⟩] ([' '] ++ text ++ []) := by simpa using hword p text
    exact hfirst.append (hblank.append hreads)

/-- The tokens before a token of a text are those of other texts too, with any tokens behind
them that a text can have. -/
theorem exists_continuation {p : Position} {cs : List Char} {before after : List Token}
    {k : Token} (h : tokens p cs = .ok (before ++ k :: after)) {ks : List Token.Kind}
    (hks : ∀ k ∈ ks, k.Scanned) :
    ∃ text fill q, tokens p text = .ok (before ++ fill ++ [⟨.endOfText, q⟩]) ∧
      fill.map Token.kind = ks := by
  obtain ⟨kept, rest, rfl, hkept⟩ := tokens_cut h
  obtain ⟨text, fill, hkinds, hfill⟩ := exists_writing hks ((p.after kept).after [' '])
  have hblank : Reads (p.after kept) [' '] [] (text ++ []) := reads_blank (by decide)
  have hbefore : Reads p kept before ([' '] ++ text ++ []) := hkept _ (.blank (by decide))
  have hreads := hbefore.append (hblank.append hfill)
  have hend : tokens (p.after (kept ++ ([' '] ++ text))) [] = _ := tokens_nil rfl
  rw [Reads, hend] at hreads
  exact ⟨_, fill, _, by simpa [Except.map] using hreads, hkinds⟩

end Writing

section Order

theorem precedes_of_tokens {p : Position} {cs : List Char} {ts : List Token}
    (h : tokens p cs = .ok ts) :
    (∀ t ∈ ts, t.position = p ∨ p.Precedes t.position) ∧
      ts.Pairwise fun t u => t.position.Precedes u.position := by
  fun_induction tokens p cs generalizing ts with
  | case1 p cs hb =>
    obtain rfl := Except.ok.inj h
    exact ⟨by simpa using Position.eq_or_precedes_after p _, List.pairwise_singleton ..⟩
  | case2 => cases h
  | case3 p cs q c body hb kind rest hs =>
    rename_i ih
    obtain ⟨more, hmore, rfl⟩ := map_eq_ok.mp h
    obtain ⟨hle, hpairwise⟩ := ih hmore
    have hq : q = p ∨ p.Precedes q := Position.eq_or_precedes_after p _
    have hstep : q.Precedes (q.after (used (c :: body) rest)) := by
      obtain ⟨text, hne, htext⟩ := scan_append hs
      rw [used, htext, List.length_append, Nat.add_sub_cancel, List.take_left]
      exact Position.precedes_after q hne
    have hlater (t : Token) (ht : t ∈ more) : q.Precedes t.position := by
      rcases hle t ht with heq | hlt
      · exact heq ▸ hstep
      · exact hstep.trans hlt
    refine ⟨?_, List.pairwise_cons.mpr ⟨hlater, hpairwise⟩⟩
    intro t ht
    rcases List.mem_cons.mp ht with rfl | ht
    · exact hq
    · rcases hq with heq | hlt
      · exact .inr (heq ▸ hlater t ht)
      · exact .inr (hlt.trans (hlater t ht))

theorem position_ne_of_tokens {p : Position} {cs : List Char} {before after : List Token}
    {k : Token} (h : tokens p cs = .ok (before ++ k :: after)) :
    ∀ t ∈ before ++ after, t.position ≠ k.position := by
  obtain ⟨-, hk, hcross⟩ := List.pairwise_append.mp (precedes_of_tokens h).2
  intro t ht
  rcases List.mem_append.mp ht with ht | ht
  · exact (hcross t ht k (by simp)).ne
  · exact ((List.pairwise_cons.mp hk).1 t ht).ne.symm

end Order

end Lexer

end HomeAutomation.Trigger
