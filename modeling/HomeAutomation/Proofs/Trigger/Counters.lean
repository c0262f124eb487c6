import HomeAutomation.Proofs.Trigger.Parsing

/-! The reader of conditions with what it counts. It stands at a place among all the tokens, keeps
the number of open groups, and has room for so many calls of itself at once. It reads what the
reader without counters does; no call lacks room, no token is looked for outside of the list, and a
part that was read leaves the counters as they were. -/

namespace HomeAutomation.Trigger.Counted

open HomeAutomation.Trigger.Parser (Fault Parse maxNesting checkOperand group)

/-- Where the next token stands, how many groups are open around it, and how many calls for a
condition are under way. -/
structure Moment where
  place : Nat
  groups : Nat
  calls : Nat

namespace Moment

def advanced (m : Moment) : Moment := { m with place := m.place + 1 }

def opened (m : Moment) : Moment := { m with groups := m.groups + 1 }

def closed (m : Moment) : Moment := { m with groups := m.groups - 1 }

def begun (m : Moment) : Moment := { m with calls := m.calls + 1 }

def ended (m : Moment) : Moment := { m with calls := m.calls - 1 }

end Moment

/-- Why a reader stops. Only the first reason lies with the text. -/
inductive Halt where
  | fault (f : Fault)
  /-- There is no token where one was looked for. -/
  | outside
  /-- There is no room for one more call. -/
  | overflow
  /-- There are more items in a row than there are tokens. -/
  | endless
  deriving DecidableEq

structure Progress where
  now : Moment
  past : List Moment

/-- A step of reading. What it counted stays on record even if it stops. -/
abbrev Reading (α : Type) := ExceptT Halt (StateM Progress) α

def Reading.ends {α : Type} (m : Reading α) (s : Progress) : Except Halt α × Progress := m.run.run s

def Progress.start : Progress := ⟨⟨0, 0, 0⟩, []⟩

def Progress.moments (s : Progress) : List Moment := s.now :: s.past

def Progress.pass (s : Progress) (next : Moment → Moment) : Progress := ⟨next s.now, s.moments⟩

def pass (next : Moment → Moment) : Reading Unit := modify fun s => s.pass next

/-- A call is under way until it ends, well or not. -/
def called {α : Type} (m : Reading α) : Reading α :=
  ExceptT.mk do
    modify fun s => s.pass .begun
    let r ← m.run
    modify fun s => s.pass .ended
    return r

section Readers

variable (ts : List Token)

def peek : Reading Token := do
  match ts[min (← get).now.place (ts.length - 1)]? with
  | some t => return t
  | none => throw .outside

/-- Takes a token. The end of the text stays where it is. -/
def advance : Reading Token := do
  let t ← peek ts
  if t.kind ≠ .endOfText then pass .advanced
  return t

def operand : Reading Operand := do
  let t ← peek ts
  match t.kind with
  | .literal v => do
    let _ ← advance ts
    return .literal v
  | .unknown => do
    let _ ← advance ts
    return .unknown
  | .or | .and | .closeGroup | .endOfText => return .unknown
  | .id _ | .not | .openGroup | .op _ => throw (.fault (.expectedLiteral t))

def leaf (name : String) (line : Nat) : Reading Expr := do
  let t ← peek ts
  match t.kind with
  | .op op => do
    let _ ← advance ts
    let o ← operand ts
    match checkOperand t op o with
    | .ok () => return .compare ⟨name, op, o, line⟩
    | .error f => throw (.fault f)
  | _ => return .transient name

/-- A group behind its opening parenthesis. -/
def grouped (opening : Token) (inside : Reading Expr) : Reading Expr := do
  let s ← get
  if s.now.groups = maxNesting then throw (.fault (.tooDeep opening))
  else
    pass .opened
    let e ← inside
    pass .closed
    let close ← advance ts
    if close.kind = .closeGroup then return e else throw (.fault (.expectedClose close))

def atom (inside : Reading Expr) : Reading Expr := do
  let t ← advance ts
  match t.kind with
  | .id name => leaf ts name t.position.line
  | .openGroup => grouped ts t inside
  | _ => throw (.fault (.expectedAtom t))

def negation (inside : Reading Expr) : Reading Expr := do
  let t ← peek ts
  if t.kind = .not then
    let _ ← advance ts
    return .not (← atom ts inside)
  else atom ts inside

/-- Items with a separator between them, and no more of them than this. -/
def separated (sep : Token.Kind) (item : Reading Expr) : Nat → Reading (List Expr)
  | 0 => throw .endless
  | rounds + 1 => do
    let e ← item
    let t ← peek ts
    if t.kind = sep then
      let _ ← advance ts
      return e :: (← separated sep item rounds)
    else return [e]

def conjunction (inside : Reading Expr) : Reading Expr :=
  return group .and (← separated ts .and (negation ts inside) ts.length)

def disjunction (inside : Reading Expr) : Reading Expr :=
  return group .or (← separated ts .or (conjunction ts inside) ts.length)

/-- A condition, with room for so many calls at once. -/
def condition : Nat → Reading Expr
  | 0 => throw .overflow
  | room + 1 => called (disjunction ts (condition room))

def whole (room : Nat) : Reading Expr := do
  let e ← condition ts room
  let t ← peek ts
  if t.kind = .endOfText then return e else throw (.fault (.trailing t))

end Readers

section Ends

variable {α β : Type} {m : Reading α} {s t : Progress}

theorem ends_bind (m : Reading α) (k : α → Reading β) (s : Progress) :
    (m >>= k).ends s =
      match m.ends s with
      | (.ok a, t) => (k a).ends t
      | (.error h, t) => (.error h, t) := by
  simp only [Reading.ends, ExceptT.run_bind, StateT.run_bind]
  rcases m.run.run s with ⟨_ | _, _⟩ <;> rfl

theorem ends_bind_ok {a : α} {k : α → Reading β} (h : m.ends s = (.ok a, t)) :
    (m >>= k).ends s = (k a).ends t := by
  rw [ends_bind, h]

theorem ends_bind_error {e : Halt} {k : α → Reading β} (h : m.ends s = (.error e, t)) :
    (m >>= k).ends s = (.error e, t) := by
  rw [ends_bind, h]

theorem ends_bind_inv {b : β} {u : Progress} {k : α → Reading β}
    (h : (m >>= k).ends s = (.ok b, u)) :
    ∃ a t, m.ends s = (.ok a, t) ∧ (k a).ends t = (.ok b, u) := by
  rw [ends_bind] at h
  rcases hm : m.ends s with ⟨_ | a, t⟩
  · rw [hm] at h
    cases h
  · rw [hm] at h
    exact ⟨a, t, rfl, h⟩

theorem ends_pass (next : Moment → Moment) (s : Progress) :
    (pass next).ends s = (.ok (), s.pass next) := rfl

theorem ends_get (s : Progress) : (get : Reading Progress).ends s = (.ok s, s) := rfl

theorem ends_called (m : Reading α) (s : Progress) : (called m).ends s =
    ((m.ends (s.pass .begun)).1, (m.ends (s.pass .begun)).2.pass .ended) := rfl

end Ends

/-- The end of the text is the last token. -/
def Closed (ts : List Token) : Prop := ∃ body p, ts = body ++ [⟨.endOfText, p⟩]

theorem closed_of_tokenize {source : String} {ts : List Token} (h : tokenize source = .ok ts) :
    Closed ts := by
  obtain ⟨body, p, rfl, -⟩ := tokenize_scanned h
  exact ⟨body, p, rfl⟩

/-- A place within the tokens, no more groups than may be open, and no more than one call for each
of them and one for the whole. -/
structure Moment.Fits (ts : List Token) (m : Moment) : Prop where
  place : m.place < ts.length
  groups : m.groups ≤ maxNesting
  calls : m.calls ≤ m.groups + 1

def Progress.Fits (ts : List Token) (s : Progress) : Prop := ∀ m ∈ s.moments, m.Fits ts

/-- Reading went on from the first progress to the second one, with these tokens ahead, and closed
every group and ended every call that it began. -/
structure Onward (ts : List Token) (s t : Progress) (rest : List Token) : Prop where
  fits : t.Fits ts
  place : s.now.place ≤ t.now.place
  groups : t.now.groups = s.now.groups
  calls : t.now.calls = s.now.calls
  ahead : ts.drop t.now.place = rest

/-- A reading from this progress ended as the plain one did, with what it counted within limits. -/
def Agrees {α : Type} (ts : List Token) (s : Progress) (r : Except Halt α × Progress) :
    Except Fault (α × List Token) → Prop
  | .ok (a, rest) => r.1 = .ok a ∧ Onward ts s r.2 rest
  | .error f => r.1 = .error (.fault f) ∧ r.2.Fits ts

/-- Where so many groups may still be opened, and this many calls are under way beyond those for the
open ones, a reading ends as the plain one does. -/
def Follows {α : Type} (ts : List Token) (budget extra : Nat) (m : Reading α)
    (q : List Token → Parse α) : Prop :=
  ∀ s : Progress, s.Fits ts → s.now.groups + budget = maxNesting →
    s.now.calls = s.now.groups + extra → Agrees ts s (m.ends s) (q (ts.drop s.now.place))

section Steps

variable {α β : Type} {ts rest more : List Token} {s t u : Progress} {x : Token}

theorem Progress.Fits.now (h : s.Fits ts) : s.now.Fits ts := h s.now List.mem_cons_self

theorem Progress.Fits.pass {next : Moment → Moment} (h : s.Fits ts) (hnext : (next s.now).Fits ts) :
    (s.pass next).Fits ts := by
  intro m hm
  rcases List.mem_cons.mp hm with rfl | hm
  · exact hnext
  · exact h m hm

theorem Progress.Fits.exists_ahead (h : s.Fits ts) :
    ∃ x rest, ts.drop s.now.place = x :: rest :=
  ⟨_, _, List.drop_eq_getElem_cons h.now.place⟩

theorem Progress.Fits.onward (h : s.Fits ts) : Onward ts s s (ts.drop s.now.place) :=
  ⟨h, Nat.le_refl _, rfl, rfl, rfl⟩

theorem Onward.trans (h : Onward ts s t rest) (h' : Onward ts t u more) : Onward ts s u more :=
  ⟨h'.fits, h.place.trans h'.place, h'.groups.trans h.groups, h'.calls.trans h.calls, h'.ahead⟩

theorem ends_peek (hs : s.Fits ts) (h : ts.drop s.now.place = x :: rest) :
    (peek ts).ends s = (.ok x, s) := by
  have hplace := hs.now.place
  have hlook : ts[min s.now.place (ts.length - 1)]? = some x := by
    rw [Nat.min_eq_left (by omega), ← List.head?_drop, h]
    rfl
  rw [peek, ends_bind_ok (ends_get s), hlook]
  rfl

/-- Something stands behind a token that is not the end. -/
theorem Closed.ne_nil (hts : Closed ts) {n : Nat} (h : ts.drop n = x :: rest)
    (hx : x.kind ≠ .endOfText) : rest ≠ [] := by
  rintro rfl
  obtain ⟨body, p, rfl⟩ := hts
  have hlast := congrArg List.getLast? h
  have hlength := congrArg List.length h
  rw [List.length_drop, List.length_singleton] at hlength
  rw [List.getLast?_drop, if_neg (by omega), List.getLast?_concat] at hlast
  obtain rfl := Option.some.inj hlast
  exact hx rfl

theorem exists_advance (hts : Closed ts) (hs : s.Fits ts) (h : ts.drop s.now.place = x :: rest) :
    ∃ t, (advance ts).ends s = (.ok x, t) ∧ t.Fits ts ∧
      (x.kind ≠ .endOfText → Onward ts s t rest ∧ s.now.place < t.now.place) := by
  by_cases hx : x.kind = .endOfText
  · refine ⟨s, ?_, hs, fun hne => absurd hx hne⟩
    rw [advance, ends_bind_ok (ends_peek hs h), if_neg (by simpa using hx)]
    rfl
  · have hrest : ts.drop (s.now.place + 1) = rest := by
      rw [← List.drop_drop, h]
      rfl
    have hfits : (s.pass .advanced).Fits ts := by
      refine hs.pass ⟨?_, hs.now.groups, hs.now.calls⟩
      have hne := hts.ne_nil h hx
      rw [← hrest] at hne
      by_contra hout
      exact hne (List.drop_eq_nil_of_le (Nat.le_of_not_lt hout))
    refine ⟨_, ?_, hfits, fun _ => ⟨⟨hfits, Nat.le_succ _, rfl, rfl, hrest⟩, Nat.lt_succ_self _⟩⟩
    rw [advance, ends_bind_ok (ends_peek hs h), if_pos hx]
    rfl

theorem Agrees.from {r : Except Halt α × Progress} {q : Except Fault (α × List Token)}
    (h : Onward ts s t rest) (hr : Agrees ts t r q) : Agrees ts s r q := by
  cases q with
  | error f => exact hr
  | ok p => exact ⟨hr.1, h.trans hr.2⟩

/-- Readings one after the other agree with a plain one that ends as the first part of it does if
that is a fault, and as the rest of it does otherwise. -/
theorem Agrees.bind {m : Reading α} {k : α → Reading β} {q : Except Fault (α × List Token)}
    {q' : Except Fault (β × List Token)} (hm : Agrees ts u (m.ends u) q)
    (herror : ∀ f, q = .error f → q' = .error f)
    (hok : ∀ a t rest, q = .ok (a, rest) → Onward ts u t rest → Agrees ts s ((k a).ends t) q') :
    Agrees ts s ((m >>= k).ends u) q' := by
  cases hr : m.ends u with
  | mk r t =>
    rw [hr] at hm
    cases q with
    | error f =>
      obtain ⟨rfl, ht⟩ := hm
      rw [ends_bind_error hr, herror f rfl]
      exact ⟨rfl, ht⟩
    | ok p =>
      obtain ⟨a, rest⟩ := p
      obtain ⟨rfl, ht⟩ := hm
      rw [ends_bind_ok hr]
      exact hok a t rest rfl ht

theorem Agrees.map {m : Reading α} {q : Except Fault (α × List Token)}
    (h : Agrees ts s (m.ends s) q) (g : α → β) :
    Agrees ts s ((m >>= fun a => pure (g a)).ends s) (q.map fun (a, rest) => (g a, rest)) := by
  refine h.bind (fun f hf => ?_) fun a t rest ha ht => ?_
  · rw [hf]
    rfl
  · rw [ha]
    exact ⟨rfl, ht⟩

end Steps

section Agreement

variable {ts : List Token} {s : Progress}

theorem operand_agrees (hts : Closed ts) (hs : s.Fits ts) :
    Agrees ts s ((operand ts).ends s) (Parser.operand (ts.drop s.now.place)) := by
  obtain ⟨⟨k, p⟩, rest, hahead⟩ := hs.exists_ahead
  obtain ⟨t, hadvance, -, hstep⟩ := exists_advance hts hs hahead
  have hstay := hs.onward
  rw [operand, ends_bind_ok (ends_peek hs hahead)]
  rw [hahead] at hstay ⊢
  cases k with
  | literal v => exact (ends_bind_ok hadvance).symm ▸ ⟨rfl, (hstep (by simp)).1⟩
  | unknown => exact (ends_bind_ok hadvance).symm ▸ ⟨rfl, (hstep (by simp)).1⟩
  | or | and | closeGroup | endOfText => exact ⟨rfl, hstay⟩
  | id _ | not | openGroup | op _ => exact ⟨rfl, hs⟩

theorem leaf_agrees (hts : Closed ts) (hs : s.Fits ts) (name : String) (line : Nat) :
    Agrees ts s ((leaf ts name line).ends s) (Parser.leaf name line (ts.drop s.now.place)) := by
  obtain ⟨⟨k, p⟩, rest, hahead⟩ := hs.exists_ahead
  have hstay := hs.onward
  rw [leaf, ends_bind_ok (ends_peek hs hahead)]
  rw [hahead] at hstay ⊢
  cases k with
  | op op =>
    obtain ⟨t, hadvance, ht, hstep⟩ := exists_advance hts hs hahead
    obtain ⟨hstep, -⟩ := hstep (by simp)
    have hoperand := operand_agrees hts ht
    rw [hstep.ahead] at hoperand
    show Agrees ts s ((advance ts >>= fun _ => _).ends s) _
    rw [ends_bind_ok hadvance]
    refine hoperand.bind (fun f hf => ?_) fun o u more ho hu => ?_
    · simp [Parser.leaf, hf]
    · cases hcheck : checkOperand ⟨.op op, p⟩ op o with
      | error f =>
        simp only [Parser.leaf, ho, hcheck]
        exact ⟨rfl, hu.fits⟩
      | ok =>
        simp only [Parser.leaf, ho, hcheck]
        exact ⟨rfl, hstep.trans hu⟩
  | _ => exact ⟨rfl, hstay⟩

variable {budget : Nat} {inside : Reading Expr}

/-- Groups that may still be opened are read as the plain reader does. -/
def Nests (ts : List Token) (budget : Nat) (inside : Reading Expr) : Prop :=
  ∀ n, budget = n + 1 → Follows ts n 0 inside (Parser.condition n)

theorem grouped_agrees (hts : Closed ts) (hinside : Nests ts budget inside) (hs : s.Fits ts)
    (hgroups : s.now.groups + budget = maxNesting) (hcalls : s.now.calls = s.now.groups + 1)
    {opening : Token} (hopening : opening.kind = .openGroup) :
    Agrees ts s ((grouped ts opening inside).ends s)
      (Parser.atom (Parser.inside budget) (opening :: ts.drop s.now.place)) := by
  rw [grouped, ends_bind_ok (ends_get s)]
  cases budget with
  | zero =>
    rw [if_pos (by simpa using hgroups)]
    simp only [Parser.atom, hopening, Parser.inside]
    exact ⟨rfl, hs⟩
  | succ n =>
    rw [if_neg (by omega), ends_bind_ok (ends_pass _ s)]
    have hopened : (s.pass .opened).Fits ts :=
      hs.pass ⟨hs.now.place, by show s.now.groups + 1 ≤ _; omega, by
        show s.now.calls ≤ s.now.groups + 1 + 1; omega⟩
    refine (hinside n rfl _ hopened (by show s.now.groups + 1 + n = _; omega) hcalls).bind
      (fun f hf => ?_) fun e t rest he ht => ?_
    · replace hf : Parser.condition n (ts.drop s.now.place) = .error f := hf
      simp [Parser.atom, hopening, Parser.inside, hf]
    · replace he : Parser.condition n (ts.drop s.now.place) = .ok (e, rest) := he
      have hcount : t.now.groups = s.now.groups + 1 := ht.groups
      have hsame : t.now.calls = s.now.calls := ht.calls
      -- One group less is open now than within, as many as before it.
      have hclosed : Onward ts s (t.pass .closed) rest := by
        have hback : t.now.groups - 1 = s.now.groups := by omega
        refine ⟨ht.fits.pass ⟨ht.fits.now.place, ?_, ?_⟩, ht.place, hback, hsame, ht.ahead⟩
        · exact hback.trans_le hs.now.groups
        · show t.now.calls ≤ t.now.groups - 1 + 1
          omega
      rw [ends_bind_ok (ends_pass _ t)]
      obtain ⟨close, more, hahead⟩ := hclosed.fits.exists_ahead
      obtain rfl : close :: more = rest := hahead.symm.trans hclosed.ahead
      obtain ⟨u, hadvance, hu, hstep⟩ := exists_advance hts hclosed.fits hahead
      rw [ends_bind_ok hadvance]
      by_cases hclose : close.kind = .closeGroup
      · simp only [Parser.atom, hopening, Parser.inside, he, hclose, if_true]
        exact ⟨rfl, hclosed.trans (hstep (by simp [hclose])).1⟩
      · simp only [Parser.atom, hopening, Parser.inside, he, hclose, if_false]
        exact ⟨rfl, hu⟩

theorem atom_follows (hts : Closed ts) (hinside : Nests ts budget inside) :
    Follows ts budget 1 (atom ts inside) (Parser.atom (Parser.inside budget)) := by
  intro s hs hgroups hcalls
  obtain ⟨⟨k, p⟩, rest, hahead⟩ := hs.exists_ahead
  obtain ⟨t, hadvance, ht, hstep⟩ := exists_advance hts hs hahead
  rw [atom, ends_bind_ok hadvance, hahead]
  cases k with
  | id name =>
    obtain ⟨hstep, -⟩ := hstep (by simp)
    have hleaf := leaf_agrees hts ht name p.line
    rw [hstep.ahead] at hleaf
    exact hleaf.from hstep
  | openGroup =>
    obtain ⟨hstep, -⟩ := hstep (by simp)
    have hopening : (⟨.openGroup, p⟩ : Token).kind = .openGroup := rfl
    have hgroup := grouped_agrees hts hinside ht (hstep.groups ▸ hgroups)
      (by rw [hstep.calls, hstep.groups, hcalls]) hopening
    rw [hstep.ahead] at hgroup
    exact hgroup.from hstep
  | _ => exact ⟨rfl, ht⟩

theorem negation_follows (hts : Closed ts) (hinside : Nests ts budget inside) :
    Follows ts budget 1 (negation ts inside) (Parser.negation (Parser.inside budget)) := by
  intro s hs hgroups hcalls
  obtain ⟨x, rest, hahead⟩ := hs.exists_ahead
  rw [negation, ends_bind_ok (ends_peek hs hahead), hahead]
  by_cases hx : x.kind = .not
  · obtain ⟨t, hadvance, ht, hstep⟩ := exists_advance hts hs hahead
    obtain ⟨hstep, -⟩ := hstep (by simp [hx])
    have hatom := atom_follows hts hinside t ht (hstep.groups ▸ hgroups)
      (by rw [hstep.calls, hstep.groups, hcalls])
    rw [hstep.ahead] at hatom
    simp only [Parser.negation, hx, if_true]
    rw [ends_bind_ok hadvance]
    exact (hatom.map Expr.not).from hstep
  · have hatom := atom_follows hts hinside s hs hgroups hcalls
    simp only [Parser.negation, hx, if_false]
    rwa [hahead] at hatom

theorem separated_agrees (hts : Closed ts) {sep : Token.Kind} (hsep : sep ≠ .endOfText)
    {item : Reading Expr} {q : List Token → Parse Expr} (hitem : Follows ts budget 1 item q)
    (rounds : Nat) (hs : s.Fits ts) (hgroups : s.now.groups + budget = maxNesting)
    (hcalls : s.now.calls = s.now.groups + 1) (hrounds : ts.length ≤ s.now.place + rounds) :
    Agrees ts s ((separated ts sep item rounds).ends s)
      (Parser.separated sep q (ts.drop s.now.place)) := by
  induction rounds generalizing s with
  | zero =>
    have hplace := hs.now.place
    omega
  | succ rounds ih =>
    rw [separated]
    refine (hitem s hs hgroups hcalls).bind (fun f hf => ?_) fun e t rest he ht => ?_
    · rw [Parser.separated, hf]
    · obtain ⟨x, more, hahead⟩ := ht.fits.exists_ahead
      obtain rfl : x :: more = rest := hahead.symm.trans ht.ahead
      rw [ends_bind_ok (ends_peek ht.fits hahead), Parser.separated, he]
      by_cases hx : x.kind = sep
      · obtain ⟨u, hadvance, hu, hstep⟩ := exists_advance hts ht.fits hahead
        obtain ⟨hstep, hplace⟩ := hstep (by rwa [hx])
        have hon := ht.trans hstep
        have hshorter : more.length < (ts.drop s.now.place).length := by
          have hlt := ht.place.trans_lt hplace
          have hin := hu.now.place
          rw [← hstep.ahead, List.length_drop, List.length_drop]
          omega
        have hrest := ih hu (hon.groups ▸ hgroups) (by rw [hon.calls, hon.groups, hcalls])
          (by have hlt := ht.place.trans_lt hplace; omega)
        rw [hstep.ahead] at hrest
        simp only [hx, if_true, hshorter]
        rw [ends_bind_ok hadvance]
        exact (hrest.map (e :: ·)).from hon
      · simp only [hx, if_false]
        exact ⟨rfl, ht⟩

theorem conjunction_follows (hts : Closed ts) (hinside : Nests ts budget inside) :
    Follows ts budget 1 (conjunction ts inside) (Parser.conjunction (Parser.inside budget)) :=
  fun _ hs hgroups hcalls => (separated_agrees hts (by simp) (negation_follows hts hinside) _ hs
    hgroups hcalls (Nat.le_add_left ..)).map _

theorem disjunction_follows (hts : Closed ts) (hinside : Nests ts budget inside) :
    Follows ts budget 1 (disjunction ts inside) (Parser.disjunction (Parser.inside budget)) :=
  fun _ hs hgroups hcalls => (separated_agrees hts (by simp) (conjunction_follows hts hinside) _ hs
    hgroups hcalls (Nat.le_add_left ..)).map _

theorem Follows.called {m : Reading Expr} {q : List Token → Parse Expr}
    (h : Follows ts budget 1 m q) : Follows ts budget 0 (called m) q := by
  intro s hs hgroups hcalls
  have hbegun : (s.pass .begun).Fits ts :=
    hs.pass ⟨hs.now.place, hs.now.groups, by
      show s.now.calls + 1 ≤ s.now.groups + 1
      omega⟩
  have hm := h _ hbegun hgroups (by show s.now.calls + 1 = s.now.groups + 1; omega)
  rw [ends_called]
  replace hm : Agrees ts _ _ (q (ts.drop s.now.place)) := hm
  have hended {t : Progress} (ht : t.Fits ts) :
      (t.pass .ended).Fits ts :=
    ht.pass ⟨ht.now.place, ht.now.groups, (Nat.sub_le ..).trans ht.now.calls⟩
  cases hq : q (ts.drop s.now.place) with
  | error f =>
    rw [hq] at hm
    exact ⟨hm.1, hended hm.2⟩
  | ok r =>
    rw [hq] at hm
    obtain ⟨hr, hon⟩ := hm
    have hback : _ - 1 = s.now.calls := congrArg (· - 1) hon.calls
    exact ⟨hr, hended hon.fits, hon.place, hon.groups, hback, hon.ahead⟩

theorem condition_follows (hts : Closed ts) {budget room : Nat} (hroom : budget < room) :
    Follows ts budget 0 (condition ts room) (Parser.condition budget) := by
  induction budget generalizing room with
  | zero =>
    obtain ⟨room, rfl⟩ := Nat.exists_eq_succ_of_ne_zero (Nat.ne_of_gt hroom)
    have hnests : Nests ts 0 (condition ts room) := fun n hn => by cases hn
    exact (disjunction_follows hts hnests).called
  | succ n ih =>
    obtain ⟨room, rfl⟩ := Nat.exists_eq_succ_of_ne_zero (Nat.ne_of_gt (Nat.zero_lt_of_lt hroom))
    have hnests : Nests ts (n + 1) (condition ts room) := by
      intro k hk
      obtain rfl : n = k := Nat.succ.inj hk
      exact ih (Nat.lt_of_succ_lt_succ hroom)
    exact (disjunction_follows hts hnests).called

theorem start_fits (hts : Closed ts) : Progress.start.Fits ts := by
  intro m hm
  obtain rfl := List.mem_singleton.mp hm
  obtain ⟨body, p, rfl⟩ := hts
  exact ⟨by simp [Progress.start], Nat.zero_le _, Nat.zero_le _⟩

/-- With room for one call more than groups may be open, all of the tokens are read as the reader
without counters does, and what is counted on the way stays within limits. -/
theorem whole_ends (hts : Closed ts) {room : Nat} (hroom : maxNesting < room) :
    ((whole ts room).ends .start).1 = (Parser.parse ts).mapError .fault ∧
      ((whole ts room).ends .start).2.Fits ts := by
  have hcondition := condition_follows hts hroom .start (start_fits hts) (Nat.zero_add _) rfl
  cases hr : (condition ts room).ends .start with
  | mk r t =>
    rw [hr] at hcondition
    replace hcondition : Agrees ts .start (r, t) (Parser.condition maxNesting ts) := hcondition
    cases hq : Parser.condition maxNesting ts with
    | error f =>
      rw [hq] at hcondition
      obtain ⟨rfl, ht⟩ := hcondition
      rw [whole, ends_bind_error hr, Parser.parse, hq]
      exact ⟨rfl, ht⟩
    | ok p =>
      obtain ⟨e, rest⟩ := p
      rw [hq] at hcondition
      obtain ⟨rfl, ht⟩ := hcondition
      obtain ⟨x, more, hahead⟩ := ht.fits.exists_ahead
      obtain rfl : x :: more = rest := hahead.symm.trans ht.ahead
      rw [whole, ends_bind_ok hr, ends_bind_ok (ends_peek ht.fits hahead), Parser.parse, hq]
      by_cases hx : x.kind = .endOfText
      · simp only [hx, if_true]
        exact ⟨rfl, ht.fits⟩
      · simp only [hx, if_false]
        exact ⟨rfl, ht.fits⟩

end Agreement

/-- A reading that ends well leaves as many groups open as it found. -/
def Restores {α : Type} (m : Reading α) : Prop :=
  ∀ s a t, m.ends s = (.ok a, t) → t.now.groups = s.now.groups

section Restoring

variable {α β : Type} {m : Reading α} {k : α → Reading β} (ts : List Token) {inside : Reading Expr}

theorem restores_pure (a : α) : Restores (pure a : Reading α) := by
  intro s b t h
  cases h
  rfl

theorem restores_throw (h : Halt) : Restores (throw h : Reading α) := by
  intro s a t h
  cases h

theorem Restores.bind (hm : Restores m) (hk : ∀ a, Restores (k a)) : Restores (m >>= k) := by
  intro s b u h
  obtain ⟨a, t, ha, hb⟩ := ends_bind_inv h
  exact (hk a t b u hb).trans (hm s a t ha)

theorem Restores.called (hm : Restores m) : Restores (called m) := by
  intro s a t h
  obtain ⟨ha, rfl⟩ := Prod.mk.inj ((ends_called m s).symm.trans h)
  exact hm (s.pass .begun) a (m.ends (s.pass .begun)).2 (Prod.ext ha rfl)

theorem restores_peek : Restores (peek ts) := by
  intro s x t h
  rw [peek, ends_bind_ok (ends_get s)] at h
  split at h
  · cases h
    rfl
  · cases h

theorem restores_advance : Restores (advance ts) := by
  refine (restores_peek ts).bind fun x => ?_
  split
  · refine Restores.bind (fun s u t h => ?_) fun _ => restores_pure x
    cases h
    rfl
  · exact restores_pure x

theorem restores_operand : Restores (operand ts) := by
  refine (restores_peek ts).bind fun x => ?_
  cases x.kind with
  | literal v => exact (restores_advance ts).bind fun _ => restores_pure _
  | unknown => exact (restores_advance ts).bind fun _ => restores_pure _
  | or | and | closeGroup | endOfText => exact restores_pure _
  | id _ | not | openGroup | op _ => exact restores_throw _

theorem restores_leaf (name : String) (line : Nat) : Restores (leaf ts name line) := by
  refine (restores_peek ts).bind fun x => ?_
  cases x.kind with
  | op op =>
    refine (restores_advance ts).bind fun _ => (restores_operand ts).bind fun o => ?_
    split
    · exact restores_pure _
    · exact restores_throw _
  | _ => exact restores_pure _

/-- The closing of a group takes back what its opening counted. -/
theorem restores_grouped (hinside : Restores inside) (opening : Token) :
    Restores (grouped ts opening inside) := by
  intro s e u h
  rw [grouped, ends_bind_ok (ends_get s)] at h
  split at h
  · cases h
  · rw [ends_bind_ok (ends_pass _ s)] at h
    obtain ⟨e', t, hread, hrest⟩ := ends_bind_inv h
    rw [ends_bind_ok (ends_pass _ t)] at hrest
    have hcount := hinside _ _ _ hread
    have hclosing : Restores (advance ts >>= fun close =>
        if close.kind = .closeGroup then (pure e' : Reading Expr)
        else throw (.fault (.expectedClose close))) := by
      refine (restores_advance ts).bind fun close => ?_
      split
      · exact restores_pure e'
      · exact restores_throw _
    calc u.now.groups = t.now.groups - 1 := hclosing _ _ _ hrest
      _ = s.now.groups + 1 - 1 := congrArg (· - 1) hcount
      _ = s.now.groups := Nat.add_sub_cancel ..

theorem restores_atom (hinside : Restores inside) : Restores (atom ts inside) := by
  refine (restores_advance ts).bind fun x => ?_
  cases x.kind with
  | id name => exact restores_leaf ts name _
  | openGroup => exact restores_grouped ts hinside x
  | _ => exact restores_throw _

theorem restores_negation (hinside : Restores inside) : Restores (negation ts inside) := by
  refine (restores_peek ts).bind fun x => ?_
  split
  · refine (restores_advance ts).bind fun _ => (restores_atom ts hinside).bind fun e => ?_
    exact restores_pure _
  · exact restores_atom ts hinside

theorem restores_separated (sep : Token.Kind) {item : Reading Expr} (hitem : Restores item)
    (rounds : Nat) : Restores (separated ts sep item rounds) := by
  induction rounds with
  | zero => exact restores_throw _
  | succ rounds ih =>
    refine hitem.bind fun e => (restores_peek ts).bind fun x => ?_
    split
    · exact (restores_advance ts).bind fun _ => ih.bind fun es => restores_pure _
    · exact restores_pure _

theorem restores_conjunction (hinside : Restores inside) : Restores (conjunction ts inside) :=
  (restores_separated ts _ (restores_negation ts hinside) _).bind fun _ => restores_pure _

theorem restores_disjunction (hinside : Restores inside) : Restores (disjunction ts inside) :=
  (restores_separated ts _ (restores_conjunction ts hinside) _).bind fun _ => restores_pure _

theorem restores_condition (room : Nat) : Restores (condition ts room) := by
  induction room with
  | zero => exact restores_throw _
  | succ room ih => exact (restores_disjunction ts ih).called

end Restoring

end HomeAutomation.Trigger.Counted
