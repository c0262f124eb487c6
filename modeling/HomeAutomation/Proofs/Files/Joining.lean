import HomeAutomation.Files.Path

/-! What joining paths and going to a parent keep: an absolute path stays absolute, and no name is
there that was not there before. Both together put a relative path in place of the last name. -/

namespace HomeAutomation.Path

variable {base p q : Path}

theorem isAbsolute_iff : p.isAbsolute = true ↔ ∃ rest, rest ≠ [] ∧ p.names = "" :: rest := by
  unfold isAbsolute
  constructor
  · intro h
    split at h
    · next name names heq => exact ⟨name :: names, List.cons_ne_nil _ _, heq⟩
    · cases h
  · rintro ⟨_ | ⟨name, names⟩, hne, heq⟩
    · exact absurd rfl hne
    · simp [heq]

theorem names_ofText_ne_nil (text : String) : (ofText text).names ≠ [] := by
  have hsplit : ∀ cs, split cs ≠ [] := by
    intro cs
    cases cs with
    | nil => simp [split]
    | cons c cs =>
      rw [split]
      split
      · exact List.cons_ne_nil _ _
      · split <;> exact List.cons_ne_nil _ _
  simpa [ofText] using hsplit _

theorem isAbsolute_join (hbase : base.isAbsolute = true) (hp : p.names ≠ []) :
    (base.join p).isAbsolute = true := by
  obtain ⟨rest, hne, heq⟩ := isAbsolute_iff.mp hbase
  unfold join
  split
  · assumption
  · split
    · refine isAbsolute_iff.mpr ⟨rest.dropLast ++ p.names, by simp [hp], ?_⟩
      simp [heq, List.dropLast_cons_of_ne_nil hne]
    · exact isAbsolute_iff.mpr ⟨rest ++ p.names, by simp [hp], by simp [heq]⟩

theorem isAbsolute_of_parent? (hp : p.isAbsolute = true) (h : p.parent? = some q) :
    q.isAbsolute = true := by
  obtain ⟨rest, -, heq⟩ := isAbsolute_iff.mp hp
  simp only [parent?, heq, if_true] at h
  split at h
  · cases h
  · obtain rfl := Option.some.inj h
    split
    · rfl
    · next hinner => exact isAbsolute_iff.mpr ⟨_, by simpa using hinner, rfl⟩

theorem isAbsolute_of_isAbsolute_parent (h : p.parent? = some q) (hq : q.isAbsolute = true) :
    p.isAbsolute = true := by
  obtain ⟨rest', hne', heq'⟩ := isAbsolute_iff.mp hq
  unfold parent? at h
  split at h
  · cases h
  · next first rest heq =>
    have hrest : trimEnd rest ≠ [] → rest ≠ [] := by
      rintro hne rfl
      exact hne rfl
    dsimp only at h
    split at h
    · split at h
      · cases h
      · cases h
        exact absurd (List.cons.inj heq').2.symm hne'
    · next hinner =>
      obtain rfl : first = "" := by
        cases h
        split at heq'
        · next hfirst => simpa using (Bool.and_eq_true_iff.mp hfirst).2
        · exact (List.cons.inj heq').1
      exact isAbsolute_iff.mpr ⟨rest, hrest (by simpa using hinner), heq⟩

theorem mem_names_join {name : String} (h : name ∈ (base.join p).names) :
    name ∈ base.names ∨ name ∈ p.names := by
  unfold join at h
  split at h
  · exact .inr h
  · split at h
    · exact (List.mem_append.mp h).imp_left fun h => List.dropLast_subset _ h
    · exact List.mem_append.mp h

theorem mem_of_mem_trimEnd {names : List String} {name : String} (h : name ∈ trimEnd names) :
    name ∈ names := by
  have hsub : (trimEnd names).Sublist names.reverse.reverse := (List.dropWhile_sublist _).reverse
  rw [List.reverse_reverse] at hsub
  exact hsub.subset h

theorem mem_names_of_parent? {name : String} (h : p.parent? = some q) (hname : name ∈ q.names) :
    name ∈ p.names ∨ name = "" := by
  unfold parent? at h
  split at h
  · cases h
  · next first rest heq =>
    have hinner : ∀ n ∈ trimEnd (trimEnd rest).dropLast, n ∈ rest := fun n hn =>
      mem_of_mem_trimEnd (List.dropLast_subset _ (mem_of_mem_trimEnd hn))
    rw [heq]
    dsimp only at h
    split at h
    · split at h
      · cases h
      · obtain rfl := Option.some.inj h
        simpa using Or.inr hname
    · obtain rfl := Option.some.inj h
      split at hname
      · simpa using Or.inr hname
      · rcases List.mem_cons.mp hname with rfl | hmem
        · exact .inl List.mem_cons_self
        · exact .inl (List.mem_cons_of_mem _ (hinner name hmem))

theorem trimEnd_eq_self {names : List String} (h : ∀ n ∈ names, (component? n).isSome = true) :
    trimEnd names = names := by
  have hnone : names.reverse.dropWhile (fun n => (component? n).isNone) = names.reverse := by
    cases hrev : names.reverse with
    | nil => rfl
    | cons n ns =>
      have hn := h n (by rw [← List.mem_reverse, hrev]; exact List.mem_cons_self)
      rw [List.dropWhile_cons_of_neg (by simpa using Option.isSome_iff_ne_none.mp hn)]
  rw [trimEnd, hnone, List.reverse_reverse]

/-- A path beside another one: what is asked for takes the place of the last name. -/
theorem parent?_join {inner rel : List String} {last : String}
    (hinner : ∀ n ∈ inner ++ [last], (component? n).isSome = true)
    (hrel : (⟨rel⟩ : Path).isAbsolute = false) (directory : Path) :
    ((⟨"" :: inner ++ [last]⟩ : Path).parent?.getD directory).join ⟨rel⟩ =
      ⟨"" :: inner ++ rel⟩ := by
  have hparent : (⟨"" :: (inner ++ [last])⟩ : Path).parent? =
      some (if inner = [] then ⟨["", ""]⟩ else ⟨"" :: inner⟩) := by
    have htrim : trimEnd inner = inner :=
      trimEnd_eq_self fun n hn => hinner n (List.mem_append_left _ hn)
    simp [parent?, trimEnd_eq_self hinner, htrim]
  rw [List.cons_append, hparent, Option.getD_some, join, if_neg (by simp [hrel])]
  by_cases hempty : inner = []
  · simp [hempty]
  · have hlast : ("" :: inner).getLast? ≠ some "" := by
      intro heq
      rw [List.getLast?_cons_of_ne_nil hempty] at heq
      have hsome := hinner "" (List.mem_append_left _ (List.mem_of_getLast? heq))
      cases hsome
    simp only [if_neg hempty, if_neg hlast]

end HomeAutomation.Path
