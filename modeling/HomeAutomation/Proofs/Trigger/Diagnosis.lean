import HomeAutomation.Proofs.Trigger.Parsing
import HomeAutomation.Proofs.Trigger.Prefixes

/-! Where the reader of conditions gives up. It looks at one token beyond what it takes, so its
fault names the first token that nothing can follow; only an operator is named late, when what it
is to compare by order turns out to have none. -/

namespace HomeAutomation.Trigger.Parser

open Grammar

section Readers

variable {α β : Type} {p : List Token → Parse α} {q : List Token → Parse β}
  {follow follow' : List Token.Kind} {pre ts read rest : List Token} {a : α} {t : Token} {f : Fault}

/-- These tokens are read as this one, whatever stands behind the next one. -/
def Found (p : List Token → Parse α) (read : List Token) (a : α) (t : Token) : Prop :=
  ∀ more, p (read ++ t :: more) = .ok (a, t :: more)

/-- These tokens are all that is read wherever a token of these kinds comes next. -/
def Whole (p : List Token → Parse α) (follow : List Token.Kind) (read : List Token) (a : α) :
    Prop :=
  ∀ t : Token, t.kind ∈ follow → Found p read a t

/-- Reading takes the front of these tokens, up to this rest. It looks at the first token of the
rest, and no further. -/
def Taken (p : List Token → Parse α) (follow : List Token.Kind) (ts : List Token) (a : α)
    (rest : List Token) : Prop :=
  ∃ read, ts = read ++ rest ∧ (∀ t ∈ read, t.kind ≠ .endOfText) ∧ Whole p follow read a ∧
    ∀ t ∈ rest.head?, Found p read a t

/-- Tokens of the right kinds complete these ones. -/
def Viable (p : List Token → Parse α) (follow : List Token.Kind) (before : List Token) : Prop :=
  ∃ ks : List Token.Kind, (∀ k ∈ ks, k.Scanned) ∧
    ∀ fill : List Token, fill.map Token.kind = ks → ∃ a, Whole p follow (before ++ fill) a

/-- Behind an operator, this is a boolean or `unknown`, or the operand is left out before it. -/
def Orderless (k : Token.Kind) : Prop :=
  (∃ b, k = .literal (.bool b)) ∨ k = .unknown ∨ k ∈ afterNegation

/-- An operator that compares by order stands behind an id and before what has no order. -/
def Disordered (before : List Token) (k : Token) (after : List Token) : Prop :=
  (∃ front name place, before = front ++ [⟨.id name, place⟩]) ∧
    (∃ op : Operator, k.kind = .op op ∧ op.isEquality = false) ∧
    ∃ t more, after = t :: more ∧ Orderless t.kind

/-- The fault names a token. What stands before it can be completed, and together with it nothing
can, unless it is an operator before an operand without order. -/
def Diagnosed (p : List Token → Parse α) (follow : List Token.Kind) (ts : List Token) (f : Fault) :
    Prop :=
  ∃ before k after, ts = before ++ k :: after ∧ f.token? = some k ∧ Viable p follow before ∧
    ((∀ after', p (before ++ k :: after') = .error f) ∨ Disordered before k after)

def Ended (ts : List Token) : Prop := ∃ t ∈ ts, t.kind = .endOfText

/-- A reader that looks one token ahead, and no further, and gives up where it has to. -/
structure Incremental (p : List Token → Parse α) (follow : List Token.Kind) : Prop where
  reads : ∀ {ts a rest}, p ts = .ok (a, rest) → Taken p follow ts a rest
  fails : ∀ {ts f}, Ended ts → p ts = .error f → Diagnosed p follow ts f

theorem Ended.of_append (h : Ended (read ++ rest)) (hread : ∀ t ∈ read, t.kind ≠ .endOfText) :
    Ended rest := by
  obtain ⟨t, ht, hend⟩ := h
  rcases List.mem_append.mp ht with ht | ht
  · exact absurd hend (hread t ht)
  · exact ⟨t, ht, hend⟩

theorem Ended.tail (h : Ended (t :: ts)) (ht : t.kind ≠ .endOfText) : Ended ts := by
  have hsplit : Ended ([t] ++ ts) := h
  exact hsplit.of_append (by simpa using ht)

theorem Ended.exists_cons (h : Ended ts) : ∃ t rest, ts = t :: rest := by
  obtain ⟨t, ht, -⟩ := h
  exact List.exists_cons_of_ne_nil (List.ne_nil_of_mem ht)

/-- Something is always left of a text that ends. -/
theorem Incremental.reads_ended (hp : Incremental p follow) (hts : Ended ts)
    (h : p ts = .ok (a, rest)) :
    ∃ read t more, rest = t :: more ∧ ts = read ++ t :: more ∧
      (∀ t ∈ read, t.kind ≠ .endOfText) ∧ Whole p follow read a ∧ Found p read a t := by
  obtain ⟨read, rfl, hread, hwhole, hfound⟩ := hp.reads h
  obtain ⟨t, more, rfl⟩ := (hts.of_append hread).exists_cons
  exact ⟨read, t, more, rfl, rfl, hread, hwhole, hfound t rfl⟩

/-- A fault stays the same fault within a longer text, if so do all others that come up at the
same token, and if what completes the shorter text completes the longer one. -/
theorem Diagnosed.lift (h : Diagnosed p follow ts f) (pre : List Token) (closing : List Token.Kind)
    (hclosing : ∀ k ∈ closing, k.Scanned)
    (hwhole : ∀ read a, Whole p follow read a → ∀ fill : List Token,
      fill.map Token.kind = closing → ∃ b, Whole q follow' (pre ++ read ++ fill) b)
    (herror : ∀ ts', ts'.head? = ts.head? → p ts' = .error f → q (pre ++ ts') = .error f) :
    Diagnosed q follow' (pre ++ ts) f := by
  obtain ⟨before, k, after, rfl, hk, ⟨ks, hks, hfill⟩, hcause⟩ := h
  refine ⟨pre ++ before, k, after, by simp, hk, ⟨ks ++ closing, ?_, ?_⟩, ?_⟩
  · intro k hk
    rcases List.mem_append.mp hk with hk | hk
    · exact hks k hk
    · exact hclosing k hk
  · intro fill hkinds
    obtain ⟨fill, fill', rfl, hkinds, hkinds'⟩ := List.map_eq_append_iff.mp hkinds
    obtain ⟨a, ha⟩ := hfill fill hkinds
    simpa using hwhole _ a ha fill' hkinds'
  · rcases hcause with hopeless | ⟨⟨front, name, place, rfl⟩, hop, hoperand⟩
    · refine .inl fun after' => ?_
      rw [List.append_assoc]
      refine herror _ ?_ (hopeless after')
      cases before <;> rfl
    · exact .inr ⟨⟨pre ++ front, name, place, by simp⟩, hop, hoperand⟩

theorem Diagnosed.after (h : Diagnosed p follow ts f) (pre : List Token)
    (hwhole : ∀ read a, Whole p follow read a → ∃ b, Whole q follow' (pre ++ read) b)
    (herror : ∀ ts', ts'.head? = ts.head? → p ts' = .error f → q (pre ++ ts') = .error f) :
    Diagnosed q follow' (pre ++ ts) f := by
  refine h.lift pre [] (by simp) (fun read a ha fill hfill => ?_) herror
  obtain rfl := List.map_eq_nil_iff.mp hfill
  simpa using hwhole read a ha

theorem Found.map {g : α → β} (h : Found p read a t) :
    Found (fun ts => (p ts).map fun (a, rest) => (g a, rest)) read (g a) t := by
  intro more
  simp only [h more, Except.map]

theorem Incremental.map (hp : Incremental p follow) (g : α → β) :
    Incremental (fun ts => (p ts).map fun (a, rest) => (g a, rest)) follow where
  reads h := by
    obtain ⟨⟨a, rest⟩, ha, heq⟩ := map_eq_ok.mp h
    obtain ⟨rfl, rfl⟩ := Prod.mk.inj heq
    obtain ⟨read, hts, hread, hwhole, hfound⟩ := hp.reads ha
    exact ⟨read, hts, hread, fun t ht => (hwhole t ht).map, fun t ht => (hfound t ht).map⟩
  fails {ts f} hts h := by
    have hfault {ts' : List Token} :
        ((p ts').map fun (a, rest) => (g a, rest)) = .error f ↔ p ts' = .error f := by
      cases p ts' <;> simp [Except.map]
    exact (hp.fails hts (hfault.mp h)).after []
      (fun read a hwhole => ⟨g a, fun t ht => (hwhole t ht).map⟩) fun ts' _ h => hfault.mpr h

end Readers

section Separated

variable {item : List Token → Parse Expr} {sep : Token.Kind} {follow : List Token.Kind}
  {read ts : List Token} {e : Expr} {es : List Expr} {t u : Token}

theorem found_last (h : Found item read e t) (ht : t.kind ≠ sep) :
    Found (separated sep item) read [e] t :=
  fun more => separated_last (h more) ht

theorem found_more (h : Found item read e t) (ht : t.kind = sep) {others : List Token}
    (hothers : Found (separated sep item) others es u) :
    Found (separated sep item) (read ++ t :: others) (e :: es) u := by
  intro more
  have hread := h (others ++ u :: more)
  rw [List.append_assoc, List.cons_append]
  exact separated_more hread ht (by simp; omega) (hothers more)

theorem separated_more_error (h : Found item read e t) (ht : t.kind = sep) {f : Fault}
    (hrest : separated sep item ts = .error f) :
    separated sep item (read ++ t :: ts) = .error f := by
  rw [separated, h ts]
  simp [ht, hrest, Except.map]
  omega

theorem incremental_separated (hitem : Incremental item (sep :: follow)) (hsep : sep.Scanned)
    (hfollow : sep ∉ follow) : Incremental (separated sep item) follow where
  reads {ts es rest} h := by
    refine separated_induction (motive := Taken (separated sep item) follow) ?_ ?_ h
    · intro ts e t rest hi ht
      obtain ⟨read, rfl, hread, hwhole, hfound⟩ := hitem.reads hi
      refine ⟨read, rfl, hread, fun u hu => ?_, fun u hu => ?_⟩
      · exact found_last (hwhole u (List.mem_cons_of_mem _ hu)) fun h => hfollow (h ▸ hu)
      · obtain rfl : t = u := by simpa using hu
        exact found_last (hfound t rfl) ht
    · intro ts e t mid es rest hi ht ⟨others, hmid, hothers, hwhole, hfound⟩
      obtain ⟨read, rfl, hread, -, hfirst⟩ := hitem.reads hi
      subst hmid
      refine ⟨read ++ t :: others, by simp, ?_, fun u hu => ?_, fun u hu => ?_⟩
      · intro u hu
        rcases List.mem_append.mp hu with hu | hu
        · exact hread u hu
        · rcases List.mem_cons.mp hu with rfl | hu
          · exact ht ▸ hsep.ne_endOfText
          · exact hothers u hu
      · exact found_more (hfirst t rfl) ht (hwhole u hu)
      · exact found_more (hfirst t rfl) ht (hfound u hu)
  fails {ts f} hts h := by
    fun_induction separated sep item ts with
    | case1 ts f' hi =>
      obtain rfl := Except.error.inj h
      refine (hitem.fails hts hi).after [] ?_ ?_
      · intro read e hwhole
        exact ⟨[e], fun u hu => found_last (hwhole u (List.mem_cons_of_mem _ hu))
          fun h => hfollow (h ▸ hu)⟩
      · intro ts' _ h
        rw [List.nil_append, separated, h]
    | case2 ts e hi =>
      obtain ⟨_, _, _, h, -⟩ := hitem.reads_ended hts hi
      cases h
    | case3 ts e t rest hi ht hlen ih =>
      obtain ⟨read, _, _, h', rfl, hread, -, hfound⟩ := hitem.reads_ended hts hi
      obtain ⟨rfl, rfl⟩ := List.cons.inj h'
      have hrest : separated sep item rest = .error f := by
        cases hs : separated sep item rest with
        | error f' => simpa [hs, Except.map] using h
        | ok r => simp [hs, Except.map] at h
      have hended : Ended rest := (hts.of_append hread).tail (ht ▸ hsep.ne_endOfText)
      rw [← List.singleton_append, ← List.append_assoc]
      refine (ih hended hrest).after (read ++ [t]) ?_ ?_
      · intro others es hwhole
        refine ⟨e :: es, fun u hu => ?_⟩
        simpa using found_more hfound ht (hwhole u hu)
      · intro ts' _ h
        simpa using separated_more_error hfound ht h
    | case4 ts e t rest hi ht hlen =>
      obtain ⟨read, _, _, h', rfl, -⟩ := hitem.reads_ended hts hi
      obtain ⟨rfl, rfl⟩ := List.cons.inj h'
      simp at hlen
      omega
    | case5 => cases h

end Separated

section Events

variable {name : String} {line : Nat} {read ts rest : List Token} {o : Operand} {op : Operator}
  {e : Expr} {t u : Token}

theorem operand_left_out (h : t.kind ∈ afterNegation) : Found Parser.operand [] .unknown t := by
  intro more
  simp only [afterNegation, afterConjunction, afterDisjunction, List.mem_cons, List.not_mem_nil,
    or_false] at h
  rcases h with h | h | h | h <;> simp [Parser.operand, h]

theorem operand_reads (h : Parser.operand ts = .ok (o, rest)) :
    Taken Parser.operand afterNegation ts o rest := by
  cases ts with
  | nil => cases h
  | cons t ts =>
    obtain ⟨k, place⟩ := t
    have written (hk : k ≠ .endOfText)
        (h' : ∀ rest, Parser.operand (⟨k, place⟩ :: rest) = .ok (o, rest)) (hrest : ts = rest) :
        Taken Parser.operand afterNegation (⟨k, place⟩ :: ts) o rest :=
      ⟨[⟨k, place⟩], by simp [hrest], by simpa using hk, fun t _ more => h' (t :: more),
        fun t _ more => h' (t :: more)⟩
    cases k with
    | literal v =>
      obtain ⟨rfl, hrest⟩ := Prod.mk.inj (Except.ok.inj h)
      exact written (by simp) (fun _ => rfl) hrest
    | unknown =>
      obtain ⟨rfl, hrest⟩ := Prod.mk.inj (Except.ok.inj h)
      exact written (by simp) (fun _ => rfl) hrest
    | or | and | closeGroup | endOfText =>
      obtain ⟨rfl, rfl⟩ := Prod.mk.inj (Except.ok.inj h)
      refine ⟨[], rfl, by simp, fun t => operand_left_out, fun t ht => operand_left_out ?_⟩
      obtain rfl := Option.some.inj ht
      simp [afterNegation, afterConjunction, afterDisjunction]
    | id _ | not | openGroup | op _ => cases h

theorem operand_error {f : Fault} (h : Parser.operand (t :: ts) = .error f) :
    f = .expectedLiteral t ∧ ∀ ts', Parser.operand (t :: ts') = .error f := by
  obtain ⟨k, place⟩ := t
  cases k with
  | id _ | not | openGroup | op _ =>
    obtain rfl := Except.error.inj h
    exact ⟨rfl, fun _ => rfl⟩
  | _ => cases h

theorem orderless_of_operand (h : Parser.operand (t :: ts) = .ok (o, rest)) (ho : ¬o.HasOrder) :
    Orderless t.kind := by
  obtain ⟨k, place⟩ := t
  cases k with
  | literal v =>
    obtain ⟨rfl, -⟩ := Prod.mk.inj (Except.ok.inj h)
    cases v with
    | bool b => exact .inl ⟨b, rfl⟩
    | string _ | number _ => exact absurd trivial ho
  | unknown => exact .inr (.inl rfl)
  | or | and | closeGroup | endOfText =>
    exact .inr (.inr (by simp [afterNegation, afterConjunction, afterDisjunction]))
  | id _ | not | openGroup | op _ => cases h

theorem checkOperand_error {f : Fault} (h : checkOperand t op o = .error f) :
    f.token? = some t ∧ op.isEquality = false ∧ ¬o.HasOrder := by
  have hop : ¬op.Admits o := fun hop => by simp [checkOperand_eq_ok.mpr hop] at h
  obtain ⟨heq, ho⟩ := not_or.mp hop
  refine ⟨?_, by simpa using heq, ho⟩
  unfold checkOperand at h
  split at h
  · rw [if_neg heq] at h
    exact Except.error.inj h ▸ rfl
  · rw [if_neg heq] at h
    exact Except.error.inj h ▸ rfl
  · cases h
  · cases h

theorem leaf_arrival (h : ∀ op, t.kind ≠ .op op) :
    Found (leaf name line) [] (.transient name) t := by
  intro more
  obtain ⟨k, place⟩ := t
  cases k with
  | op op => exact absurd rfl (h op)
  | _ => rfl

theorem leaf_comparison (ht : t.kind = .op op) (hop : op.Admits o)
    (h : Found Parser.operand read o u) :
    Found (leaf name line) (t :: read) (.compare ⟨name, op, o, line⟩) u := by
  intro more
  have hcheck : checkOperand t op o = .ok () := checkOperand_eq_ok.mpr hop
  simp [leaf, ht, h more, hcheck]

theorem whole_arrival : Whole (leaf name line) afterNegation [] (.transient name) :=
  fun t ht => leaf_arrival fun op hop => by
    simp [hop, afterNegation, afterConjunction, afterDisjunction] at ht

theorem leaf_reads (h : leaf name line ts = .ok (e, rest)) :
    Taken (leaf name line) afterNegation ts e rest := by
  cases ts with
  | nil => cases h
  | cons t ts =>
    by_cases hop : ∃ op, t.kind = .op op
    · obtain ⟨op, ht⟩ := hop
      cases ho : Parser.operand ts with
      | error f => simp [leaf, ht, ho] at h
      | ok r =>
        obtain ⟨o, rest'⟩ := r
        cases hc : checkOperand t op o with
        | error f => simp [leaf, ht, ho, hc] at h
        | ok =>
          simp only [leaf, ht, ho, hc, Except.ok.injEq, Prod.mk.injEq] at h
          obtain ⟨rfl, rfl⟩ := h
          have hadmits := checkOperand_eq_ok.mp hc
          obtain ⟨read, rfl, hread, hwhole, hfound⟩ := operand_reads ho
          refine ⟨t :: read, rfl, ?_, fun u hu => leaf_comparison ht hadmits (hwhole u hu),
            fun u hu => leaf_comparison ht hadmits (hfound u hu)⟩
          intro u hu
          rcases List.mem_cons.mp hu with rfl | hu
          · simp [ht]
          · exact hread u hu
    · have harrival : Found (leaf name line) [] (.transient name) t :=
        leaf_arrival (not_exists.mp hop)
      obtain ⟨rfl, rfl⟩ := Prod.mk.inj (Except.ok.inj ((harrival ts).symm.trans h))
      refine ⟨[], rfl, by simp, whole_arrival, fun u hu => ?_⟩
      exact Option.some.inj hu ▸ harrival

/-- An id that nothing can be read from has an operator behind it that fails. -/
theorem leaf_error (hts : Ended ts) {f : Fault} (h : leaf name line ts = .error f) :
    ∃ t more op, ts = t :: more ∧ t.kind = .op op ∧
      ((∃ u after, more = u :: after ∧ f = .expectedLiteral u ∧
          ∀ after', leaf name line (t :: u :: after') = .error f) ∨
        f.token? = some t ∧ op.isEquality = false ∧
          ∃ u after, more = u :: after ∧ Orderless u.kind) := by
  obtain ⟨t, more, rfl⟩ := hts.exists_cons
  by_cases hop : ∃ op, t.kind = .op op
  · obtain ⟨op, ht⟩ := hop
    obtain ⟨u, after, rfl⟩ := (hts.tail (by simp [ht])).exists_cons
    refine ⟨t, u :: after, op, rfl, ht, ?_⟩
    cases ho : Parser.operand (u :: after) with
    | error f' =>
      obtain rfl : f' = f := by simpa [leaf, ht, ho] using h
      obtain ⟨rfl, hsame⟩ := operand_error ho
      exact .inl ⟨u, after, rfl, rfl, fun after' => by simp [leaf, ht, hsame after']⟩
    | ok r =>
      obtain ⟨o, rest⟩ := r
      cases hc : checkOperand t op o with
      | ok => simp [leaf, ht, ho, hc] at h
      | error f' =>
        obtain rfl : f' = f := by simpa [leaf, ht, ho, hc] using h
        obtain ⟨hf, heq, ho'⟩ := checkOperand_error hc
        exact .inr ⟨hf, heq, u, after, rfl, orderless_of_operand ho ho'⟩
  · rw [← List.nil_append (t :: more), leaf_arrival (not_exists.mp hop)] at h
    cases h

end Events

section Groups

variable {g : Option (List Token → Parse Expr)} {read ts rest : List Token} {name : String}
  {place : Position} {e : Expr} {t u : Token} {f : Fault}

theorem atom_id_reads (h : Found (leaf name place.line) read e u) :
    Found (atom g) (⟨.id name, place⟩ :: read) e u :=
  h

theorem atom_group {inner : List Token → Parse Expr} (hg : g = some inner)
    (ht : t.kind = .openGroup) (hu : u.kind = .closeGroup) (h : Found inner read e u) :
    ∀ more, atom g (t :: (read ++ u :: more)) = .ok (e, more) := by
  intro more
  simp [atom, hg, ht, h more, hu]

theorem viable_atom : Viable (atom g) afterNegation [] := by
  have hid : IsId "a" := ⟨⟨'a', [], rfl, by decide, .nil⟩, by decide⟩
  refine ⟨[.id "a"], fun k hk => List.mem_singleton.mp hk ▸ hid, fun fill hfill => ?_⟩
  obtain ⟨⟨_, place⟩, rfl, rfl⟩ := List.map_eq_singleton_iff.mp hfill
  exact ⟨_, fun u hu => atom_id_reads (whole_arrival u hu)⟩

theorem atom_id_fails (hts : Ended ts) (h : leaf name place.line ts = .error f) :
    Diagnosed (atom g) afterNegation (⟨.id name, place⟩ :: ts) f := by
  obtain ⟨t, more, op, rfl, ht, hcause⟩ := leaf_error hts h
  rcases hcause with ⟨u, after, rfl, rfl, hsame⟩ | ⟨hf, hop, horderless⟩
  · refine ⟨[⟨.id name, place⟩, t], u, after, rfl, rfl, ?_, .inl fun after' => hsame after'⟩
    -- A string can be compared by any operator.
    refine ⟨[.literal (.string "")], fun k hk => List.mem_singleton.mp hk ▸ trivial,
      fun fill hfill => ?_⟩
    obtain ⟨⟨_, place'⟩, rfl, rfl⟩ := List.map_eq_singleton_iff.mp hfill
    have hstring (u : Token) : Found Parser.operand [⟨.literal (.string ""), place'⟩]
        (.literal (.string "")) u := fun _ => rfl
    have hadmits : op.Admits (.literal (.string "")) := .inr trivial
    exact ⟨_, fun u _ => atom_id_reads (leaf_comparison ht hadmits (hstring u))⟩
  · refine ⟨[⟨.id name, place⟩], t, more, rfl, hf, ⟨[], by simp, fun fill hfill => ?_⟩, .inr ?_⟩
    · obtain rfl := List.map_eq_nil_iff.mp hfill
      exact ⟨_, fun u hu => atom_id_reads (whole_arrival u hu)⟩
    · exact ⟨⟨[], name, place, rfl⟩, ⟨op, ht, hop⟩, horderless⟩

theorem atom_group_reads {inner : List Token → Parse Expr} (hg : g = some inner)
    (hinner : Incremental inner afterDisjunction) (ht : t.kind = .openGroup)
    (h : atom g (t :: ts) = .ok (e, rest)) :
    ∃ read, t :: ts = read ++ rest ∧ (∀ u ∈ read, u.kind ≠ .endOfText) ∧
      ∀ u, Found (atom g) read e u := by
  cases hi : inner ts with
  | error f => simp [atom, hg, ht, hi] at h
  | ok r =>
    obtain ⟨e', _ | ⟨close, more⟩⟩ := r
    · simp [atom, hg, ht, hi] at h
    · by_cases hclose : close.kind = .closeGroup
      · simp only [atom, hg, ht, hi, hclose, if_true, Except.ok.injEq, Prod.mk.injEq] at h
        obtain ⟨rfl, rfl⟩ := h
        obtain ⟨read, rfl, hread, -, hfound⟩ := hinner.reads hi
        refine ⟨t :: (read ++ [close]), by simp, ?_, fun u rest => ?_⟩
        · intro u hu
          rcases List.mem_cons.mp hu with rfl | hu
          · simp [ht]
          · rcases List.mem_append.mp hu with hu | hu
            · exact hread u hu
            · simp [List.mem_singleton.mp hu, hclose]
        · simpa using atom_group hg ht hclose (hfound close rfl) (u :: rest)
      · simp [atom, hg, ht, hi, hclose] at h

theorem atom_group_fails {inner : List Token → Parse Expr} (hg : g = some inner)
    (hinner : Incremental inner afterDisjunction) (ht : t.kind = .openGroup) (hts : Ended ts)
    (h : atom g (t :: ts) = .error f) : Diagnosed (atom g) afterNegation (t :: ts) f := by
  have hclosing (k : Token.Kind) (hk : k ∈ [Token.Kind.closeGroup]) : k.Scanned :=
    List.mem_singleton.mp hk ▸ trivial
  have hclosed {read : List Token} {e : Expr} (hwhole : Whole inner afterDisjunction read e)
      (fill : List Token) (hfill : fill.map Token.kind = [.closeGroup]) :
      Whole (atom g) afterNegation (t :: read ++ fill) e := by
    obtain ⟨close, rfl, hclose⟩ := List.map_eq_singleton_iff.mp hfill
    intro u _ more
    have hfound := hwhole close (by simp [hclose, afterDisjunction])
    simpa using atom_group hg ht hclose hfound (u :: more)
  cases hi : inner ts with
  | error f' =>
    obtain rfl : f' = f := by simpa [atom, hg, ht, hi] using h
    refine (hinner.fails hts hi).lift [t] [.closeGroup] hclosing ?_ ?_
    · exact fun read e hwhole fill hfill => ⟨e, hclosed hwhole fill hfill⟩
    · intro ts' _ h
      simp [atom, hg, ht, h]
  | ok r =>
    obtain ⟨e, rest⟩ := r
    obtain ⟨read, close, more, rfl, rfl, -, hwhole, hfound⟩ := hinner.reads_ended hts hi
    by_cases hclose : close.kind = .closeGroup
    · simp [atom, hg, ht, hi, hclose] at h
    · obtain rfl : .expectedClose close = f := by simpa [atom, hg, ht, hi, hclose] using h
      refine ⟨t :: read, close, more, rfl, rfl, ⟨[.closeGroup], hclosing, ?_⟩, .inl ?_⟩
      · exact fun fill hfill => ⟨e, hclosed hwhole fill hfill⟩
      · intro after'
        simp [atom, hg, ht, hfound after', hclose]

theorem incremental_atom (hg : ∀ inner ∈ g, Incremental inner afterDisjunction) :
    Incremental (atom g) afterNegation where
  reads {ts e rest} h := by
    cases ts with
    | nil => cases h
    | cons t ts =>
      obtain ⟨k, place⟩ := t
      cases k with
      | id name =>
        obtain ⟨read, rfl, hread, hwhole, hfound⟩ := leaf_reads h
        exact ⟨⟨.id name, place⟩ :: read, rfl, by simpa using hread,
          fun u hu => atom_id_reads (hwhole u hu), fun u hu => atom_id_reads (hfound u hu)⟩
      | openGroup =>
        cases hinner : g with
        | none => simp [atom, hinner] at h
        | some inner =>
          obtain ⟨read, hts, hread, hfound⟩ := atom_group_reads hinner (hg inner hinner) rfl h
          exact ⟨read, hts, hread, fun u _ => hinner ▸ hfound u, fun u _ => hinner ▸ hfound u⟩
      | _ => cases h
  fails {ts f} hts h := by
    obtain ⟨t, ts, rfl⟩ := hts.exists_cons
    obtain ⟨k, place⟩ := t
    cases k with
    | id name => exact atom_id_fails (hts.tail (by simp)) h
    | openGroup =>
      cases hinner : g with
      | none =>
        subst hinner
        obtain rfl := Except.error.inj h
        exact ⟨[], _, ts, rfl, rfl, viable_atom, .inl fun _ => rfl⟩
      | some inner =>
        exact hinner ▸ atom_group_fails hinner (hg inner hinner) rfl (hts.tail (by simp)) h
    | _ =>
      obtain rfl := Except.error.inj h
      exact ⟨[], _, ts, rfl, rfl, viable_atom, .inl fun _ => rfl⟩

theorem atom_not (ht : t.kind = .not) : atom g (t :: ts) = .error (.expectedAtom t) := by
  simp [atom, ht]

theorem negation_not (ht : t.kind = .not) (h : Found (atom g) read e u) :
    Found (negation g) (t :: read) (.not e) u := by
  intro more
  simp [negation, ht, h more, Except.map]

theorem negation_plain (h : Found (atom g) read e u) : Found (negation g) read e u := by
  intro more
  have hread := h more
  cases hts : read ++ u :: more with
  | nil => simp at hts
  | cons t ts =>
    rw [hts] at hread
    by_cases ht : t.kind = .not
    · simp [atom_not ht] at hread
    · simpa [negation, ht] using hread

theorem incremental_negation (hatom : Incremental (atom g) afterNegation) :
    Incremental (negation g) afterNegation where
  reads {ts e rest} h := by
    cases ts with
    | nil => cases h
    | cons t ts =>
      by_cases ht : t.kind = .not
      · simp only [negation, ht, if_true] at h
        obtain ⟨⟨e', rest'⟩, ha, heq⟩ := map_eq_ok.mp h
        obtain ⟨rfl, rfl⟩ := Prod.mk.inj heq
        obtain ⟨read, rfl, hread, hwhole, hfound⟩ := hatom.reads ha
        exact ⟨t :: read, rfl, by simpa [ht] using hread,
          fun u hu => negation_not ht (hwhole u hu), fun u hu => negation_not ht (hfound u hu)⟩
      · simp only [negation, ht, if_false] at h
        obtain ⟨read, hts, hread, hwhole, hfound⟩ := hatom.reads h
        exact ⟨read, hts, hread, fun u hu => negation_plain (hwhole u hu),
          fun u hu => negation_plain (hfound u hu)⟩
  fails {ts f} hts h := by
    obtain ⟨t, ts, rfl⟩ := hts.exists_cons
    by_cases ht : t.kind = .not
    · have ha : atom g ts = .error f := by
        cases ha : atom g ts with
        | error f' => simpa [negation, ht, ha, Except.map] using h
        | ok r => simp [negation, ht, ha, Except.map] at h
      refine (hatom.fails (hts.tail (by simp [ht])) ha).after [t] ?_ ?_
      · exact fun read e hwhole => ⟨.not e, fun u hu => negation_not ht (hwhole u hu)⟩
      · intro ts' _ h
        simp [negation, ht, h, Except.map]
    · have ha : atom g (t :: ts) = .error f := by simpa [negation, ht] using h
      refine (hatom.fails hts ha).after [] ?_ ?_
      · exact fun read e hwhole => ⟨e, fun u hu => negation_plain (hwhole u hu)⟩
      · intro ts' hhead h
        obtain ⟨ts', rfl⟩ := List.head?_eq_some_iff.mp hhead
        simpa [negation, ht] using h

theorem incremental_disjunction (hg : ∀ inner ∈ g, Incremental inner afterDisjunction) :
    Incremental (disjunction g) afterDisjunction := by
  have hnegation : Incremental (negation g) afterNegation :=
    incremental_negation (incremental_atom hg)
  have hconjunction : Incremental (conjunction g) afterConjunction :=
    (incremental_separated hnegation trivial (by simp [afterConjunction, afterDisjunction])).map
      (group .and)
  exact (incremental_separated hconjunction trivial (by simp [afterDisjunction])).map (group .or)

theorem incremental_condition (budget : Nat) : Incremental (condition budget) afterDisjunction := by
  induction budget with
  | zero => exact incremental_disjunction fun _ h => by cases h
  | succ budget ih => exact incremental_disjunction fun _ h => Option.some.inj h ▸ ih

end Groups

theorem parse_whole {before : List Token} {e : Expr}
    (h : Whole (condition maxNesting) afterDisjunction before e) (place : Position) :
    parse (before ++ [⟨.endOfText, place⟩]) = .ok e := by
  rw [parse, h ⟨.endOfText, place⟩ (by simp [afterDisjunction])]
  simp

theorem parse_error {ts : List Token} {f : Fault} (hts : Ended ts) (h : parse ts = .error f) :
    ∃ before k after, ts = before ++ k :: after ∧ f.token? = some k ∧
      Viable (condition maxNesting) afterDisjunction before ∧
      ((∀ after', parse (before ++ k :: after') = .error f) ∨ Disordered before k after) := by
  have hcondition := incremental_condition maxNesting
  cases hc : condition maxNesting ts with
  | error f' =>
    obtain rfl : f' = f := by simpa [parse, hc] using h
    obtain ⟨before, k, after, hsplit, hk, hviable, hcause⟩ := hcondition.fails hts hc
    exact ⟨before, k, after, hsplit, hk, hviable,
      hcause.imp_left fun hopeless after' => by simp [parse, hopeless after']⟩
  | ok r =>
    obtain ⟨e, rest⟩ := r
    obtain ⟨read, t, more, rfl, rfl, -, hwhole, hfound⟩ := hcondition.reads_ended hts hc
    by_cases ht : t.kind = .endOfText
    · simp [parse, hc, ht] at h
    · obtain rfl : .trailing t = f := by simpa [parse, hc, ht] using h
      refine ⟨read, t, more, rfl, rfl, ⟨[], by simp, fun fill hfill => ⟨e, ?_⟩⟩, .inl ?_⟩
      · obtain rfl := List.map_eq_nil_iff.mp hfill
        rwa [List.append_nil]
      · intro after'
        simp [parse, hfound after', ht]

end HomeAutomation.Trigger.Parser

namespace HomeAutomation.Trigger

/-- The place of a grammatical fault is that of one token. Some text has the tokens before it and
compiles; but no tokens that start with these and it are a condition, unless it is an operator that
compares by order, behind an id and before a boolean, `unknown` or nothing. -/
theorem fault_names_first_impossible_token {source : String} {ts : List Token}
    {fault : Parser.Fault} (h : tokenize source = .ok ts) (hp : Parser.parse ts = .error fault) :
    ∃ before k after, ts = before ++ k :: after ∧
      (CompileError.grammatical fault).position = k.position ∧
      (∀ t ∈ before ++ after, t.position ≠ k.position) ∧
      (∃ text rest c, tokenize text = .ok (before ++ rest) ∧ compile text = .ok c) ∧
      ((∀ rest e, Parser.parse (before ++ k :: rest) ≠ .ok e) ∨
        Parser.Disordered before k after) := by
  have hended : Parser.Ended ts := by
    obtain ⟨body, p, rfl, -⟩ := tokenize_scanned h
    exact ⟨_, List.mem_append_right _ (List.mem_singleton_self _), rfl⟩
  have htokens : Lexer.tokens .start source.toList = .ok ts := by
    unfold tokenize at h
    split at h
    · cases h
    · rename_i hts
      rwa [Except.ok.inj h] at hts
  obtain ⟨before, k, after, rfl, hk, ⟨ks, hks, hfill⟩, hcause⟩ := Parser.parse_error hended hp
  refine ⟨before, k, after, rfl, ?_, Lexer.position_ne_of_tokens htokens, ?_, ?_⟩
  · simp [CompileError.position, hk]
  · obtain ⟨text, fill, p, htext, hkinds⟩ := Lexer.exists_continuation htokens hks
    obtain ⟨e, hwhole⟩ := hfill fill hkinds
    have htokenize : tokenize (String.ofList text) =
        .ok (before ++ (fill ++ [⟨.endOfText, p⟩])) := by
      rw [tokenize, String.toList_ofList, htext, List.append_assoc]
    have hparse := Parser.parse_whole hwhole p
    rw [List.append_assoc] at hparse
    exact ⟨_, _, ⟨String.ofList text, e⟩, htokenize, by simp [compile, htokenize, hparse]⟩
  · exact hcause.imp_left fun hopeless rest e he => by simp [hopeless rest] at he

theorem fault_names_first_impossible_token_unclosed :
    ∃ ts fault, tokenize "!(a | b(1) &\n c >= 'x' d" = .ok ts ∧ Parser.parse ts = .error fault ∧
      ∃ before k after, ts = before ++ k :: after ∧
        (CompileError.grammatical fault).position = k.position ∧
        (∀ t ∈ before ++ after, t.position ≠ k.position) ∧
        (∃ text rest c, tokenize text = .ok (before ++ rest) ∧ compile text = .ok c) ∧
        ((∀ rest e, Parser.parse (before ++ k :: rest) ≠ .ok e) ∨
          Parser.Disordered before k after) := by
  have h : tokenize "!(a | b(1) &\n c >= 'x' d" =
      .ok [⟨.not, ⟨1, 1⟩⟩, ⟨.openGroup, ⟨1, 2⟩⟩, ⟨.id "a", ⟨1, 3⟩⟩, ⟨.or, ⟨1, 5⟩⟩,
        ⟨.id "b(1)", ⟨1, 7⟩⟩, ⟨.and, ⟨1, 12⟩⟩, ⟨.id "c", ⟨2, 2⟩⟩, ⟨.op .ge, ⟨2, 4⟩⟩,
        ⟨.literal (.string "x"), ⟨2, 7⟩⟩, ⟨.id "d", ⟨2, 11⟩⟩, ⟨.endOfText, ⟨2, 12⟩⟩] := by cbv
  have hp : Parser.parse [⟨.not, ⟨1, 1⟩⟩, ⟨.openGroup, ⟨1, 2⟩⟩, ⟨.id "a", ⟨1, 3⟩⟩, ⟨.or, ⟨1, 5⟩⟩,
        ⟨.id "b(1)", ⟨1, 7⟩⟩, ⟨.and, ⟨1, 12⟩⟩, ⟨.id "c", ⟨2, 2⟩⟩, ⟨.op .ge, ⟨2, 4⟩⟩,
        ⟨.literal (.string "x"), ⟨2, 7⟩⟩, ⟨.id "d", ⟨2, 11⟩⟩, ⟨.endOfText, ⟨2, 12⟩⟩] =
      .error (.expectedClose ⟨.id "d", ⟨2, 11⟩⟩) := by
    set_option maxRecDepth 4000 in cbv
  exact ⟨_, _, h, hp, fault_names_first_impossible_token h hp⟩

end HomeAutomation.Trigger
