import HomeAutomation.Files
import HomeAutomation.Proofs.Files.Joining

/-! Where absolute paths lead that never go up. Of those paths, two that lead anywhere lead to the
same place just when they are the same path. -/

namespace HomeAutomation

namespace Path

/-- Absolute, and never going up. -/
structure Plain (p : Path) : Prop where
  absolute : p.isAbsolute = true
  never_up : ".." ∉ p.names

variable {base p q : Path}

theorem Plain.join_ofText {text : String} (hbase : base.Plain)
    (htext : ".." ∉ (ofText text).names) : (base.join (ofText text)).Plain where
  absolute := isAbsolute_join hbase.absolute (names_ofText_ne_nil text)
  never_up := fun hup => (mem_names_join hup).elim hbase.never_up htext

theorem Plain.parent? (hp : p.Plain) (h : p.parent? = some q) : q.Plain where
  absolute := isAbsolute_of_parent? hp.absolute h
  never_up := fun hup => (mem_names_of_parent? h hup).elim hp.never_up (by decide)

/-- The names that go down. -/
def steps (p : Path) : List String := p.names.filter fun n => (component? n).isSome

theorem component?_eq_none_iff {name : String} :
    component? name = none ↔ name = "" ∨ name = "." := by
  unfold component?
  split
  · next hstay => simpa using hstay
  · next hstay => split <;> simpa using hstay

theorem filterMap_component? {names : List String} (hup : ".." ∉ names) :
    names.filterMap component? = (names.filter fun n => (component? n).isSome).map .name := by
  induction names with
  | nil => rfl
  | cons name names ih =>
    obtain ⟨hname, hnames⟩ := List.ne_and_not_mem_of_not_mem_cons hup
    by_cases hstay : name = "" ∨ name = "."
    · have hnone := component?_eq_none_iff.mpr hstay
      simp [hnone, ih hnames]
    · have hsome : component? name = some (.name name) := by
        simp [component?, not_or.mp hstay, hname.symm]
      simp [hsome, ih hnames]

theorem components_eq (hp : p.Plain) : p.components = .root :: p.steps.map .name := by
  obtain ⟨rest, -, heq⟩ := isAbsolute_iff.mp hp.absolute
  have hrest : ".." ∉ rest := fun hup => hp.never_up (heq ▸ List.mem_cons_of_mem _ hup)
  have hsteps : p.steps = rest.filter fun n => (component? n).isSome := by
    rw [steps, heq, List.filter_cons_of_neg (by simp [component?])]
  simp [components, heq, hp.absolute, hsteps, filterMap_component? hrest]

theorem same_iff (hp : p.Plain) (hq : q.Plain) : p.same q = true ↔ p.steps = q.steps := by
  have hinj : Function.Injective Component.name := fun _ _ h => Component.name.inj h
  simp [same, components_eq hp, components_eq hq, List.map_inj_right hinj]

end Path

namespace Files

variable {fs : Files} {l l' : Location} {names : List String}

theorem walk?_name {name : String} (hname : Path.component? name = some (.name name))
    (hdir : fs.isDirectory l = true) (hentry : (fs.entry? (l ++ [name])).isSome = true) :
    fs.walk? l (name :: names) = fs.walk? (l ++ [name]) names := by
  have hstay : ¬(name = "" ∨ name = ".") := by simp [← Path.component?_eq_none_iff, hname]
  have hup : name ≠ ".." := by
    rintro rfl
    cases hname
  simp [walk?, hdir, hentry, hup, not_or.mp hstay]

theorem walk?_up (hdir : fs.isDirectory l = true) :
    fs.walk? l (".." :: names) = fs.walk? l.dropLast names := by
  simp [walk?, hdir]

theorem walk?_append (names' : List String) :
    fs.walk? l (names ++ names') = (fs.walk? l names).bind fun l' => fs.walk? l' names' := by
  induction names generalizing l with
  | nil => rfl
  | cons name names ih =>
    simp only [List.cons_append, walk?, ih]
    split
    · rfl
    · split
      · rfl
      · split
        · rfl
        · split <;> rfl

/-- A step starts in a directory. It stays there, or goes up, or down to something that is there. -/
theorem walk?_cons_cases {name : String} (h : fs.walk? l (name :: names) = some l') :
    fs.isDirectory l = true ∧
      ((Path.component? name = none ∧ fs.walk? l names = some l') ∨
        (name = ".." ∧ fs.walk? l.dropLast names = some l') ∨
        (Path.component? name = some (.name name) ∧ fs.walk? (l ++ [name]) names = some l')) := by
  rw [walk?] at h
  split at h
  · cases h
  · next hdir =>
    refine ⟨by simpa using hdir, ?_⟩
    split at h
    · next hstay => exact .inl ⟨Path.component?_eq_none_iff.mpr (by simpa using hstay), h⟩
    · next hstay =>
      split at h
      · next hup => exact .inr (.inl ⟨hup, h⟩)
      · next hup =>
        split at h
        · have hdown : Path.component? name = some (.name name) := by
            rw [Path.component?, if_neg hstay, if_neg hup]
          exact .inr (.inr ⟨hdown, h⟩)
        · cases h

theorem walk?_eq_some (hup : ".." ∉ names) (h : fs.walk? l names = some l') :
    l' = l ++ names.filter fun n => (Path.component? n).isSome := by
  induction names generalizing l with
  | nil =>
    obtain rfl := Option.some.inj h
    simp
  | cons name names ih =>
    obtain ⟨hname, hnames⟩ := List.ne_and_not_mem_of_not_mem_cons hup
    obtain ⟨-, ⟨hstay, h⟩ | ⟨rfl, -⟩ | ⟨hdown, h⟩⟩ := walk?_cons_cases h
    · rw [ih hnames h, List.filter_cons_of_neg (by simp [hstay])]
    · exact absurd rfl hname
    · rw [ih hnames h, List.filter_cons_of_pos (by simp [hdown]), List.append_assoc]
      rfl

theorem locate?_eq_some {p : Path} (hp : p.Plain) (h : fs.locate? p = some l) : l = p.steps := by
  unfold locate? at h
  split at h
  · cases h
  · rw [if_pos hp.absolute] at h
    exact walk?_eq_some hp.never_up h

theorem contains_of_read? {p : Path} {text : String} (h : fs.read? p = some text) :
    fs.contains p = true := by
  cases hlocate : fs.locate? p with
  | none => simp [read?, hlocate] at h
  | some l => simp [contains, hlocate]

theorem locate?_of_read? {p : Path} {text : String} (hp : p.Plain) (h : fs.read? p = some text) :
    fs.locate? p = some p.steps := by
  obtain ⟨l, hl⟩ := Option.isSome_iff_exists.mp (contains_of_read? h)
  rw [hl, locate?_eq_some hp hl]

end Files

end HomeAutomation
