import HomeAutomation.Trigger.Lexer

/-! What the tokens of a text carry. An id is built of id characters and of parameter groups whose
content is balanced and otherwise free; the reading of ids follows this definition. Numbers are
finite, and only the last token is the end of the text. -/

namespace HomeAutomation.Trigger

open Lexer

theorem map_eq_ok {ε α β : Type} {f : α → β} {x : Except ε α} {b : β} :
    x.map f = .ok b ↔ ∃ a, x = .ok a ∧ f a = b := by
  cases x <;> simp [Except.map]

/-- A text whose parentheses match. -/
inductive Balanced : List Char → Prop where
  | nil : Balanced []
  | char {c : Char} {cs : List Char} : c ≠ '(' → c ≠ ')' → Balanced cs → Balanced (c :: cs)
  | group {inner cs : List Char} :
      Balanced inner → Balanced cs → Balanced ('(' :: inner ++ ')' :: cs)

/-- What an id consists of behind its first character. -/
inductive IdTail : List Char → Prop where
  | nil : IdTail []
  | char {c : Char} {cs : List Char} : isIdChar c = true → IdTail cs → IdTail (c :: cs)
  | parameters {inner cs : List Char} :
      Balanced inner → IdTail cs → IdTail ('(' :: inner ++ ')' :: cs)

/-- The words that are no ids. -/
def reservedWords : List String := ["true", "false", "unknown"]

/-- A text that can stand for an event. -/
def IsId (name : String) : Prop :=
  (∃ c cs, name.toList = c :: cs ∧ isIdStart c = true ∧ IdTail cs) ∧ name ∉ reservedWords

/-- The rest of an id in which so many parameter groups are still open. -/
def IdRest : Nat → List Char → Prop
  | 0, cs => IdTail cs
  | depth + 1, cs => ∃ inner rest, cs = inner ++ ')' :: rest ∧ Balanced inner ∧ IdRest depth rest

/-- Where an id ends. -/
def EndsId (rest : List Char) : Prop := ∀ c ∈ rest.head?, isIdChar c = false ∧ c ≠ '('

/-- What a token of a text carries. -/
def Token.Kind.Scanned : Token.Kind → Prop
  | .id name => IsId name
  | .literal (.number x) => x.isFinite = true
  | .endOfText => False
  | _ => True

namespace Lexer

theorem isIdChar_of_isIdStart {c : Char} (h : isIdStart c = true) : isIdChar c = true := by
  simp only [isIdStart, Bool.or_eq_true, beq_iff_eq] at h
  rcases h with h | h <;> simp [isIdChar, Char.isAlphanum, h]

theorem keep_eq_ok {c : Char} {s : Scan (List Char)} {name rest : List Char} :
    keep c s = .ok (name, rest) ↔ ∃ tail, name = c :: tail ∧ s = .ok (tail, rest) := by
  rw [keep, map_eq_ok]
  constructor
  · rintro ⟨r, hs, hr⟩
    obtain ⟨rfl, rfl⟩ := Prod.mk.inj hr
    exact ⟨r.1, rfl, hs⟩
  · rintro ⟨tail, rfl, hs⟩
    exact ⟨_, hs, rfl⟩

theorem IdRest.char {depth : Nat} {c : Char} {cs : List Char} (hopen : c ≠ '(') (hclose : c ≠ ')')
    (h : IdRest (depth + 1) cs) : IdRest (depth + 1) (c :: cs) := by
  obtain ⟨inner, rest, rfl, hi, hr⟩ := h
  exact ⟨c :: inner, rest, by simp, .char hopen hclose hi, hr⟩

theorem IdRest.opened {depth : Nat} {cs : List Char} (h : IdRest (depth + 1) cs) :
    IdRest depth ('(' :: cs) := by
  obtain ⟨inner, rest, rfl, hi, hr⟩ := h
  cases depth with
  | zero => exact IdTail.parameters hi hr
  | succ depth =>
    obtain ⟨inner', rest', rfl, hi', hr'⟩ := hr
    exact ⟨'(' :: inner ++ ')' :: inner', rest', by simp, .group hi hi', hr'⟩

theorem idBody_sound {whole : List Char} {depth : Option Nat} {cs name rest : List Char}
    (hd : depth ≠ some 0) (h : idBody whole depth cs = .ok (name, rest)) :
    IdRest (depth.getD 0) name := by
  fun_induction idBody whole depth cs generalizing name with
  | case1 =>
    simp only [Except.ok.injEq, Prod.mk.injEq] at h
    exact h.1 ▸ IdTail.nil
  | case2 | case7 => simp at h
  | case3 c cs hc ih =>
    obtain ⟨tail, rfl, ht⟩ := keep_eq_ok.mp h
    exact IdTail.char hc (ih (by simp) ht)
  | case4 c cs _ hc ih =>
    obtain ⟨tail, rfl, ht⟩ := keep_eq_ok.mp h
    rw [beq_iff_eq.mp hc]
    exact IdRest.opened (ih (by simp) ht)
  | case5 =>
    simp only [Except.ok.injEq, Prod.mk.injEq] at h
    exact h.1 ▸ IdTail.nil
  | case6 d c cs hc ih =>
    obtain ⟨tail, rfl, ht⟩ := keep_eq_ok.mp h
    rw [beq_iff_eq.mp hc]
    exact IdRest.opened (ih (by simp) ht)
  | case8 c cs _ hc ih =>
    obtain ⟨tail, rfl, ht⟩ := keep_eq_ok.mp h
    exact ⟨[], tail, by simpa using hc, .nil, ih (by simp) ht⟩
  | case9 c cs _ hc d ih =>
    obtain ⟨tail, rfl, ht⟩ := keep_eq_ok.mp h
    exact ⟨[], tail, by simpa using hc, .nil, ih (by simp) ht⟩
  | case10 d c cs hopen hclose ih =>
    obtain ⟨tail, rfl, ht⟩ := keep_eq_ok.mp h
    cases d with
    | zero => exact absurd rfl hd
    | succ d => exact IdRest.char (by simpa using hopen) (by simpa using hclose) (ih hd ht)

theorem idBody_open {whole cs : List Char} {depth : Nat} :
    idBody whole (some depth) ('(' :: cs) = keep '(' (idBody whole (some (depth + 1)) cs) := by
  simp [idBody]

theorem idBody_close {whole cs : List Char} {depth : Nat} :
    idBody whole (some (depth + 2)) (')' :: cs) =
      keep ')' (idBody whole (some (depth + 1)) cs) := by
  simp [idBody]

theorem idBody_close_last {whole cs : List Char} :
    idBody whole (some 1) (')' :: cs) = keep ')' (idBody whole none cs) := by
  simp [idBody]

theorem idBody_content {whole cs : List Char} {depth : Nat} {c : Char} (hopen : c ≠ '(')
    (hclose : c ≠ ')') :
    idBody whole (some depth) (c :: cs) = keep c (idBody whole (some depth) cs) := by
  simp [idBody, hopen, hclose]

/-- Balanced text within a parameter group is read over. -/
theorem idBody_balanced {whole inner : List Char} (hi : Balanced inner) {depth : Nat}
    {cs name rest : List Char} (h : idBody whole (some (depth + 1)) cs = .ok (name, rest)) :
    idBody whole (some (depth + 1)) (inner ++ cs) = .ok (inner ++ name, rest) := by
  induction hi generalizing depth cs name with
  | nil => simpa using h
  | char hopen hclose _ ih =>
    rw [List.cons_append, idBody_content hopen hclose, keep_eq_ok]
    exact ⟨_, rfl, ih h⟩
  | @group inner inner' _ _ ih ih' =>
    have hclosed : idBody whole (some (depth + 2)) (')' :: (inner' ++ cs)) =
        .ok (')' :: (inner' ++ name), rest) := by
      rw [idBody_close, keep_eq_ok]
      exact ⟨_, rfl, ih' h⟩
    have hinner := ih hclosed
    simp only [List.cons_append, List.append_assoc]
    rw [idBody_open, keep_eq_ok]
    exact ⟨_, rfl, hinner⟩

theorem idBody_complete {whole name : List Char} (hn : IdTail name) {rest : List Char}
    (hr : EndsId rest) : idBody whole none (name ++ rest) = .ok (name, rest) := by
  induction hn with
  | nil =>
    cases rest with
    | nil => rfl
    | cons c rest =>
      have hc := hr c (by simp)
      simp [idBody, hc.1, hc.2]
  | @char c cs hc _ ih =>
    have hstep : idBody whole none (c :: (cs ++ rest)) = keep c (idBody whole none (cs ++ rest)) := by
      simp [idBody, hc]
    rw [List.cons_append, hstep, keep_eq_ok]
    exact ⟨_, rfl, ih⟩
  | @parameters inner tail hi _ ih =>
    have hclosed : idBody whole (some 1) (')' :: (tail ++ rest)) = .ok (')' :: tail, rest) := by
      rw [idBody_close_last, keep_eq_ok]
      exact ⟨_, rfl, ih⟩
    have hstep : idBody whole none ('(' :: (inner ++ ')' :: (tail ++ rest))) =
        keep '(' (idBody whole (some 1) (inner ++ ')' :: (tail ++ rest))) := by
      simp [idBody, show isIdChar '(' = false by decide]
    simp only [List.cons_append, List.append_assoc]
    rw [hstep, keep_eq_ok]
    exact ⟨_, rfl, idBody_balanced hi hclosed⟩

theorem word_scanned {c : Char} {cs : List Char} (hc : isIdStart c = true) (hcs : IdTail cs) :
    (word (c :: cs)).Scanned := by
  unfold word
  split
  · trivial
  · trivial
  · trivial
  · rename_i htrue hfalse hunknown
    refine ⟨⟨c, cs, String.toList_ofList, hc, hcs⟩, ?_⟩
    simp only [reservedWords, List.mem_cons, List.not_mem_nil, or_false, not_or]
    exact ⟨htrue, hfalse, hunknown⟩

theorem word_of_isId {name : String} (h : IsId name) : word name.toList = .id name := by
  have hr := h.2
  simp only [reservedWords, List.mem_cons, List.not_mem_nil, or_false, not_or] at hr
  unfold word
  rw [String.ofList_toList]
  split <;> simp_all

theorem id_scanned {c : Char} {cs rest : List Char} {k : Token.Kind} (hc : isIdStart c = true)
    (h : id (c :: cs) = .ok (k, rest)) : k.Scanned := by
  obtain ⟨⟨name, more⟩, hb, hk⟩ := map_eq_ok.mp h
  obtain ⟨rfl, rfl⟩ := Prod.mk.inj hk
  rw [idBody] at hb
  simp only [isIdChar_of_isIdStart hc, if_true] at hb
  obtain ⟨tail, rfl, ht⟩ := keep_eq_ok.mp hb
  exact word_scanned hc (idBody_sound (by simp) ht)

theorem scan_scanned {c : Char} {cs rest : List Char} {k : Token.Kind}
    (h : scan (c :: cs) = .ok (k, rest)) : k.Scanned := by
  unfold scan at h
  split at h
  case h_14 c body _ _ _ _ _ _ _ _ _ _ _ _ heq =>
    split at h
    · obtain ⟨r, _, hk⟩ := map_eq_ok.mp h
      exact (Prod.mk.inj hk).1 ▸ trivial
    · split at h
      · simp only [number] at h
        split at h
        · simp at h
        · split at h
          · rename_i hfin
            simp only [Except.ok.injEq, Prod.mk.injEq] at h
            exact h.1 ▸ hfin
          · simp at h
      · split at h
        · rename_i hstart
          exact id_scanned hstart h
        · simp at h
  all_goals
    simp only [Except.ok.injEq, Prod.mk.injEq, reduceCtorEq] at h
    try exact h.1 ▸ trivial
  all_goals simp_all

/-- The last token of a text, and no other, is its end. -/
theorem tokens_scanned {p : Position} {cs : List Char} {ts : List Token}
    (h : tokens p cs = .ok ts) :
    ∃ body q, ts = body ++ [⟨.endOfText, q⟩] ∧ ∀ t ∈ body, t.kind.Scanned := by
  fun_induction tokens p cs generalizing ts with
  | case1 p cs hb =>
    simp only [Except.ok.injEq] at h
    exact ⟨[], _, h.symm, by simp⟩
  | case2 => simp at h
  | case3 p cs q c body hb kind rest hs =>
    rename_i ih
    obtain ⟨more, hmore, rfl⟩ := map_eq_ok.mp h
    obtain ⟨front, last, rfl, hfront⟩ := ih hmore
    refine ⟨_ :: front, last, (List.cons_append ..).symm, ?_⟩
    intro t ht
    rcases List.mem_cons.mp ht with rfl | ht
    · exact scan_scanned hs
    · exact hfront t ht

end Lexer

end HomeAutomation.Trigger
