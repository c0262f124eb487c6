import HomeAutomation.Text.Blank
import HomeAutomation.Trigger.Token

/-! From source text to tokens. A scanner takes the characters from the start of a token on and
gives the token with the characters behind it, or a fault with the characters from the faulty
one on; places follow from what was consumed. -/

namespace HomeAutomation.Trigger.Lexer

open Text

inductive Fault where
  | lonelyEquals
  | unexpected (c : Char)
  | outOfRange (number : String)
  /-- A number that denotes nothing; the scanner collects none. -/
  | invalidNumber (number : String)
  | unterminatedString
  | invalidEscape (c : Char)
  | unclosedParameters (id : String)
  /-- A closing parenthesis that nothing opened; the scanner ends an id before one. -/
  | unopenedParameters (id : String)
  deriving DecidableEq

def Fault.message : Fault → String
  | .lonelyEquals => "expected '=='"
  | .unexpected c => "unexpected character '" ++ c.toString ++ "'"
  | .outOfRange n => "number '" ++ n ++ "' is out of range"
  | .invalidNumber n => "invalid number '" ++ n ++ "'"
  | .unterminatedString => "unterminated string literal"
  | .invalidEscape c => "invalid escape sequence '\\" ++ c.toString ++ "'"
  | .unclosedParameters id => "unclosed parameter list in '" ++ id ++ "'"
  | .unopenedParameters id => "unopened parameter list in '" ++ id ++ "'"

/-- What a scanner found and what follows it, or a fault and the characters from it on. -/
abbrev Scan (α : Type) := Except (Fault × List Char) (α × List Char)

def isIdStart (c : Char) : Bool := c.isAlpha || c == '_'

def isIdChar (c : Char) : Bool :=
  c.isAlphanum || c == '_' || c == '-' || c == '.' || c == ':'

/-- Whether a number starts here: a digit, possibly after a sign, a point or both. -/
def startsNumber : List Char → Bool
  | [] => false
  | c :: cs =>
    c.isDigit ||
      match cs with
      | [] => false
      | d :: ds =>
        if c == '.' then d.isDigit
        else if c == '-' || c == '+' then
          if d == '.' then (ds.head?.map Char.isDigit).getD false else d.isDigit
        else false

def sign : List Char → List Char × List Char
  | c :: cs => if c == '-' || c == '+' then ([c], cs) else ([], c :: cs)
  | [] => ([], [])

def digits (cs : List Char) : List Char × List Char :=
  (cs.takeWhile Char.isDigit, cs.dropWhile Char.isDigit)

def fraction : List Char → List Char × List Char
  | '.' :: cs => ('.' :: (digits cs).1, (digits cs).2)
  | cs => ([], cs)

/-- An exponent at the head; without a digit it is none. -/
def exponent : List Char → List Char × List Char
  | [] => ([], [])
  | e :: cs =>
    let (s, rest) := sign cs
    let (ds, rest) := digits rest
    if (e == 'e' || e == 'E') && !ds.isEmpty then (e :: s ++ ds, rest) else ([], e :: cs)

def numeral (cs : List Char) : List Char × List Char :=
  let (s, rest) := sign cs
  let (ds, rest) := digits rest
  let (f, rest) := fraction rest
  let (e, rest) := exponent rest
  (s ++ ds ++ f ++ e, rest)

def number (cs : List Char) : Scan Token.Kind :=
  let (text, rest) := numeral cs
  match Numeral.read? text with
  | none => .error (.invalidNumber (String.ofList text), cs)
  | some x =>
    if x.isFinite then .ok (.literal (.number x), rest)
    else .error (.outOfRange (String.ofList text), cs)

def keep (c : Char) (s : Scan (List Char)) : Scan (List Char) :=
  s.map fun (cs, rest) => (c :: cs, rest)

def unescape? : Char → Option Char
  | 'n' => some '\n'
  | 't' => some '\t'
  | '"' => some '"'
  | '\'' => some '\''
  | '\\' => some '\\'
  | _ => none

/-- The characters of a string up to its closing quote; `whole` is the literal from its opening
quote on, where it counts as unterminated. -/
def stringBody (quote : Char) (whole : List Char) : List Char → Scan (List Char)
  | [] => .error (.unterminatedString, whole)
  | c :: cs =>
    if c == quote then .ok ([], cs)
    else if c == '\\' then
      match cs with
      | [] => .error (.unterminatedString, whole)
      | d :: ds =>
        match unescape? d with
        | none => .error (.invalidEscape d, d :: ds)
        | some e => keep e (stringBody quote whole ds)
    else keep c (stringBody quote whole cs)

/-- The characters of an id; `whole` is the text from its first one on. Inside a parameter list,
where `some` counts the open parentheses, any character belongs to the id. -/
def idBody (whole : List Char) : Option Nat → List Char → Scan (List Char)
  | none, [] => .ok ([], [])
  | some _, [] => .error (.unclosedParameters (String.ofList whole), whole)
  | none, c :: cs =>
    if isIdChar c then keep c (idBody whole none cs)
    else if c == '(' then keep c (idBody whole (some 1) cs)
    else .ok ([], c :: cs)
  | some depth, c :: cs =>
    if c == '(' then keep c (idBody whole (some (depth + 1)) cs)
    else if c == ')' then
      match depth with
      | 0 => .error (.unopenedParameters (String.ofList whole), whole)
      | 1 => keep c (idBody whole none cs)
      | depth + 2 => keep c (idBody whole (some (depth + 1)) cs)
    else keep c (idBody whole (some depth) cs)

def word (cs : List Char) : Token.Kind :=
  match String.ofList cs with
  | "true" => .literal (.bool true)
  | "false" => .literal (.bool false)
  | "unknown" => .unknown
  | name => .id name

def id (cs : List Char) : Scan Token.Kind :=
  (idBody cs none cs).map fun (name, rest) => (word name, rest)

def scan : List Char → Scan Token.Kind
  | [] => .ok (.endOfText, [])
  | '|' :: cs => .ok (.or, cs)
  | '&' :: cs => .ok (.and, cs)
  | '(' :: cs => .ok (.openGroup, cs)
  | ')' :: cs => .ok (.closeGroup, cs)
  | '!' :: '=' :: cs => .ok (.op .ne, cs)
  | '!' :: cs => .ok (.not, cs)
  | '=' :: '=' :: cs => .ok (.op .eq, cs)
  | '=' :: cs => .error (.lonelyEquals, '=' :: cs)
  | '>' :: '=' :: cs => .ok (.op .ge, cs)
  | '>' :: cs => .ok (.op .gt, cs)
  | '<' :: '=' :: cs => .ok (.op .le, cs)
  | '<' :: cs => .ok (.op .lt, cs)
  | c :: cs =>
    if c == '"' || c == '\'' then
      (stringBody c (c :: cs) cs).map fun (s, rest) =>
        (.literal (.string (String.ofList s)), rest)
    else if startsNumber (c :: cs) then number (c :: cs)
    else if isIdStart c then id (c :: cs)
    else .error (.unexpected c, c :: cs)

theorem idBody_append {whole : List Char} {depth : Option Nat} {cs name rest : List Char}
    (h : idBody whole depth cs = .ok (name, rest)) : cs = name ++ rest := by
  fun_induction idBody whole depth cs generalizing name with
  | case1 => simp_all
  | case2 => simp at h
  | case5 => simp_all
  | case7 => simp at h
  | case3 c cs _ ih | case4 c cs _ _ ih | case6 d c cs _ ih | case8 c cs _ _ ih
  | case9 d c cs _ _ ih | case10 d c cs _ _ ih =>
    simp only [keep, Except.map] at h
    split at h <;> simp only [Except.ok.injEq, Prod.mk.injEq, reduceCtorEq] at h
    obtain ⟨rfl, rfl⟩ := h
    simp [ih (by assumption)]

theorem stringBody_append {quote : Char} {whole cs s rest : List Char}
    (h : stringBody quote whole cs = .ok (s, rest)) : ∃ used, used ≠ [] ∧ cs = used ++ rest := by
  fun_induction stringBody quote whole cs generalizing s with
  | case1 | case3 | case4 => simp at h
  | case2 c cs => exact ⟨[c], by simp_all⟩
  | case5 c _ _ d ds e _ ih =>
    simp only [keep, Except.map] at h
    split at h <;> simp only [Except.ok.injEq, Prod.mk.injEq, reduceCtorEq] at h
    obtain ⟨used, _, hu⟩ := ih (by rw [← h.2]; assumption)
    exact ⟨c :: d :: used, by simp, by simp [hu]⟩
  | case6 c cs _ _ ih =>
    simp only [keep, Except.map] at h
    split at h <;> simp only [Except.ok.injEq, Prod.mk.injEq, reduceCtorEq] at h
    obtain ⟨used, _, hu⟩ := ih (by rw [← h.2]; assumption)
    exact ⟨c :: used, by simp, by simp [hu]⟩

theorem sign_append (cs : List Char) : (sign cs).1 ++ (sign cs).2 = cs := by
  cases cs with
  | nil => rfl
  | cons c cs => simp only [sign]; split <;> simp

theorem digits_append (cs : List Char) : (digits cs).1 ++ (digits cs).2 = cs :=
  List.takeWhile_append_dropWhile

theorem fraction_append (cs : List Char) : (fraction cs).1 ++ (fraction cs).2 = cs := by
  unfold fraction
  split
  · simp [digits_append]
  · simp

theorem exponent_append (cs : List Char) : (exponent cs).1 ++ (exponent cs).2 = cs := by
  cases cs with
  | nil => rfl
  | cons c cs =>
    simp only [exponent]
    split
    · simp [digits_append, sign_append]
    · simp

theorem numeral_append (cs : List Char) : (numeral cs).1 ++ (numeral cs).2 = cs := by
  simp [numeral, exponent_append, fraction_append, digits_append, sign_append]

theorem numeral_ne_nil {cs : List Char} (h : startsNumber cs = true) : (numeral cs).1 ≠ [] := by
  cases cs with
  | nil => simp [startsNumber] at h
  | cons c cs =>
    by_cases hs : c = '-' ∨ c = '+'
    · rcases hs with rfl | rfl <;> simp [numeral, sign]
    · have hsign : sign (c :: cs) = ([], c :: cs) := by
        simp only [not_or] at hs
        simp [sign, hs.1, hs.2]
      by_cases hd : c.isDigit
      · simp [numeral, hsign, digits, hd]
      · by_cases hp : c = '.'
        · subst hp
          simp [numeral, sign, digits, fraction]
        · simp only [not_or] at hs
          cases cs <;> simp [startsNumber, hd, hp, hs.1, hs.2] at h

theorem scan_append {c : Char} {cs rest : List Char} {k : Token.Kind}
    (h : scan (c :: cs) = .ok (k, rest)) : ∃ used, used ≠ [] ∧ c :: cs = used ++ rest := by
  have one (a : Char) (as : List Char) : ∃ used, used ≠ [] ∧ a :: as = used ++ as :=
    ⟨[a], by simp, rfl⟩
  have two (a b : Char) (as : List Char) : ∃ used, used ≠ [] ∧ a :: b :: as = used ++ as :=
    ⟨[a, b], by simp, rfl⟩
  unfold scan at h
  split at h
  case h_14 c body _ _ _ _ _ _ _ _ _ _ _ _ heq =>
    rw [heq]
    split at h
    · simp only [Except.map] at h
      split at h <;> simp only [Except.ok.injEq, Prod.mk.injEq, reduceCtorEq] at h
      obtain ⟨used, _, hu⟩ := stringBody_append (by assumption)
      exact ⟨c :: used, by simp, by simp [hu, ← h.2]⟩
    · split at h
      · rename_i hn
        simp only [number] at h
        split at h
        · simp at h
        · split at h <;> simp only [Except.ok.injEq, Prod.mk.injEq, reduceCtorEq] at h
          exact ⟨_, numeral_ne_nil hn, by rw [← h.2, numeral_append]⟩
      · split at h
        · rename_i hi
          simp only [id, Except.map] at h
          split at h <;> simp only [Except.ok.injEq, Prod.mk.injEq, reduceCtorEq] at h
          rename_i name hb
          refine ⟨name.1, ?_, by rw [← h.2]; exact idBody_append hb⟩
          have hc : isIdChar c = true := by
            simp only [isIdStart, Bool.or_eq_true, beq_iff_eq] at hi
            rcases hi with hi | hi <;> simp [isIdChar, Char.isAlphanum, hi]
          unfold idBody at hb
          simp only [hc, if_true, keep, Except.map] at hb
          split at hb <;> simp only [Except.ok.injEq, reduceCtorEq] at hb
          simp [← hb]
        · simp at h
  all_goals
    simp_all only [Except.ok.injEq, Prod.mk.injEq, reduceCtorEq, List.cons.injEq]

def used (cs rest : List Char) : List Char := cs.take (cs.length - rest.length)

/-- The tokens of a text whose first character stands at this place. The last token is the end
of the text, and there is no other such token. -/
def tokens (p : Position) (cs : List Char) :
    Except (Fault × Position) (List Token) :=
  let q := p.after (cs.takeWhile isBlank)
  match _hb : cs.dropWhile isBlank with
  | [] => .ok [⟨.endOfText, q⟩]
  | c :: body =>
    match _hs : scan (c :: body) with
    | .error (fault, rest) => .error (fault, q.after (used (c :: body) rest))
    | .ok (kind, rest) =>
      (tokens (q.after (used (c :: body) rest)) rest).map (⟨kind, q⟩ :: ·)
termination_by cs.length
decreasing_by
  obtain ⟨used, hne, hu⟩ := scan_append _hs
  have hd := (List.dropWhile_suffix (l := cs) isBlank).length_le
  have := congrArg List.length hu
  have := List.length_pos_iff.2 hne
  simp only [_hb, List.length_append] at *
  omega

end HomeAutomation.Trigger.Lexer
