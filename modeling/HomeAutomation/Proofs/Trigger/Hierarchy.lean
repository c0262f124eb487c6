import HomeAutomation.Proofs.Trigger.Relevance

/-! Ids form a hierarchy: one stands below another if it goes on behind it with a point or a
parameter list. A token matches itself and the ids below it, so whatever references an id by tokens
alone references all that is below the id as well. -/

namespace HomeAutomation.Trigger

/-- What an id can go on with to stand below the one before, or for the same. -/
def Descends (rest : List Char) : Prop := ∀ c ∈ rest.head?, c = '.' ∨ c = '('

theorem Descends.of_append {rest more : List Char} (h : Descends (rest ++ more))
    (hne : rest ≠ []) : Descends rest := by
  obtain ⟨c, cs, rfl⟩ := List.exists_cons_of_ne_nil hne
  exact h

theorem Descends.append {rest more : List Char} (h : Descends rest) (hmore : Descends more) :
    Descends (rest ++ more) := by
  cases rest with
  | nil => exact hmore
  | cons c cs => exact h

theorem matchesTransient_iff {token id : String} : matchesTransient token id = true ↔
    ∃ rest, id.toList = token.toList ++ rest ∧ Descends rest := by
  unfold matchesTransient
  split
  · rename_i hnone
    constructor
    · simp
    · rintro ⟨rest, hid, -⟩
      have hrest := List.isPrefixOf?_eq_some_iff_append_eq.mpr hid.symm
      simp [hrest] at hnone
  · rename_i hself
    have hid := List.isPrefixOf?_eq_some_iff_append_eq.mp hself
    simp [← hid, Descends]
  · rename_i c cs hbehind
    have hid := List.isPrefixOf?_eq_some_iff_append_eq.mp hbehind
    simp [← hid, Descends]

section Order

variable {a b c : String}

theorem matchesTransient_self (a : String) : matchesTransient a a = true :=
  matchesTransient_iff.mpr ⟨[], (List.append_nil _).symm, by simp [Descends]⟩

theorem matchesTransient_trans (hab : matchesTransient a b = true)
    (hbc : matchesTransient b c = true) : matchesTransient a c = true := by
  obtain ⟨rest, hb, hrest⟩ := matchesTransient_iff.mp hab
  obtain ⟨more, hc, hmore⟩ := matchesTransient_iff.mp hbc
  refine matchesTransient_iff.mpr ⟨rest ++ more, ?_, hrest.append hmore⟩
  rw [hc, hb, List.append_assoc]

theorem matchesTransient_antisymm (hab : matchesTransient a b = true)
    (hba : matchesTransient b a = true) : a = b := by
  obtain ⟨rest, hb, -⟩ := matchesTransient_iff.mp hab
  obtain ⟨more, ha, -⟩ := matchesTransient_iff.mp hba
  have hstart : a.toList <+: b.toList := ⟨rest, hb.symm⟩
  have hlength : b.toList.length ≤ a.toList.length := by simp [ha]
  exact String.toList_inj.mp (hstart.eq_of_length_le hlength)

/-- What stands behind the shorter of two tokens of one id begins with what stands behind it in the
longer one. -/
theorem matchesTransient_shorter (hac : matchesTransient a c = true)
    (hbc : b.toList <+: c.toList) (hab : a.toList <+: b.toList) :
    matchesTransient a b = true := by
  obtain ⟨behind, hc, hbehind⟩ := matchesTransient_iff.mp hac
  obtain ⟨rest, hb⟩ := hab
  obtain ⟨more, hmore⟩ := hbc
  have hsplit : behind = rest ++ more := by
    rw [← hb, List.append_assoc, hc] at hmore
    exact (List.append_cancel_left hmore).symm
  refine matchesTransient_iff.mpr ⟨rest, hb.symm, ?_⟩
  by_cases hne : rest = []
  · simp [hne, Descends]
  · exact (hsplit ▸ hbehind).of_append hne

theorem matchesTransient_chain (hac : matchesTransient a c = true)
    (hbc : matchesTransient b c = true) :
    matchesTransient a b = true ∨ matchesTransient b a = true := by
  obtain ⟨_, ha, -⟩ := matchesTransient_iff.mp hac
  obtain ⟨_, hb, -⟩ := matchesTransient_iff.mp hbc
  have ha : a.toList <+: c.toList := ⟨_, ha.symm⟩
  have hb : b.toList <+: c.toList := ⟨_, hb.symm⟩
  rcases List.prefix_or_prefix_of_prefix ha hb with hab | hba
  · exact .inl (matchesTransient_shorter hac hb hab)
  · exact .inr (matchesTransient_shorter hbc ha hba)

end Order

/-- A reference by tokens alone goes down the hierarchy. -/
theorem Expr.references_below {e : Expr} {x y : String}
    (htokens : ∀ l ∈ e.leaves, l.comparison? = none) (hx : references x e = true)
    (hxy : matchesTransient x y = true) : references y e = true := by
  rw [references_eq_any, List.any_eq_true] at hx ⊢
  obtain ⟨l, hl, hlx⟩ := hx
  refine ⟨l, hl, ?_⟩
  cases l with
  | transient token => exact matchesTransient_trans hlx hxy
  | compare c => cases htokens _ hl

/-- Matching orders the ids, the tokens that match one id stand one below the other, and a condition
without comparisons that references an id references every id below it. -/
theorem matching_is_hierarchical :
    (∀ a, matchesTransient a a = true) ∧
    (∀ a b c, matchesTransient a b = true → matchesTransient b c = true →
      matchesTransient a c = true) ∧
    (∀ a b, matchesTransient a b = true → matchesTransient b a = true → a = b) ∧
    (∀ a b c, matchesTransient a c = true → matchesTransient b c = true →
      matchesTransient a b = true ∨ matchesTransient b a = true) ∧
    ∀ (c : Condition) (x y : String), (∀ l ∈ c.root.leaves, l.comparison? = none) →
      c.references x = true → matchesTransient x y = true → c.references y = true := by
  refine ⟨matchesTransient_self, ?_, ?_, ?_, ?_⟩
  · intro a b c
    exact matchesTransient_trans
  · intro a b
    exact matchesTransient_antisymm
  · intro a b c
    exact matchesTransient_chain
  · intro c x y
    exact Expr.references_below

def atEntrance : Condition :=
  ⟨"!door | hall & bell", .or [.not (.transient "door"),
    .and [.transient "hall", .transient "bell"]]⟩

/-- An id whose parentheses do not match has its place in the hierarchy, too. -/
theorem matching_is_hierarchical_entrance :
    matchesTransient "door" "door(1.open" = true ∧ matchesTransient "door(1" "door(1.open" = true ∧
    (matchesTransient "door" "door(1" = true ∨ matchesTransient "door(1" "door" = true) ∧
    matchesTransient "door" "door(1.open(2)" = true ∧
    matchesTransient "door" "doorbell" = false ∧
    atEntrance.references "door(1" = true ∧ atEntrance.references "door(1.open" = true := by
  have houter : matchesTransient "door" "door(1.open" = true := by decide +kernel
  have hinner : matchesTransient "door(1" "door(1.open" = true := by decide +kernel
  have hbelow : matchesTransient "door(1.open" "door(1.open(2)" = true := by decide +kernel
  have hreference : atEntrance.references "door(1" = true := by decide +kernel
  obtain ⟨-, htrans, -, hchain, hreferences⟩ := matching_is_hierarchical
  exact ⟨houter, hinner, hchain _ _ _ houter hinner, htrans _ _ _ houter hbelow,
    by decide +kernel, hreference, hreferences atEntrance _ _ (by decide) hreference hinner⟩

end HomeAutomation.Trigger
