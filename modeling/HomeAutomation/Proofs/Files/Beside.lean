import HomeAutomation.Proofs.Files.Location
import Mathlib.Data.List.Infix

/-! Where a path leads that is taken from beside a file. It depends on where the file is, and not on
the path that led there. -/

namespace HomeAutomation

namespace Path

theorem isAbsolute_cons {first : String} {rest : List String} (hrest : rest ≠ []) :
    (⟨first :: rest⟩ : Path).isAbsolute = true ↔ first = "" := by
  rw [isAbsolute_iff]
  constructor
  · rintro ⟨rest', -, heq⟩
    exact (List.cons.inj heq).1
  · rintro rfl
    exact ⟨rest, hrest, rfl⟩

theorem trimEnd_append {names : List String} {name : String} (h : component? name = none) :
    trimEnd (names ++ [name]) = trimEnd names := by
  simp [trimEnd, h]

theorem trimEnd_concat {names : List String} {name : String} (h : (component? name).isSome = true) :
    trimEnd (names ++ [name]) = names ++ [name] := by
  have hname : (component? name).isNone = false := by simpa using h
  simp [trimEnd, hname]

theorem trimEnd_eq_nil_or (names : List String) :
    trimEnd names = [] ∨ ∃ front last, trimEnd names = front ++ [last] ∧ last ≠ "" := by
  induction names using List.reverseRecOn with
  | nil => exact .inl rfl
  | append_singleton names name ih =>
    cases hname : component? name with
    | none => rwa [trimEnd_append hname]
    | some c =>
      refine .inr ⟨names, name, trimEnd_concat (by simp [hname]), ?_⟩
      rintro rfl
      cases hname

/-- Only an absolute path can be joined in place of what it is joined to. -/
theorem join_cons {first : String} {inner : List String} {rel : Path}
    (hrel : rel.isAbsolute = false) (hlast : (first :: inner).getLast? ≠ some "") :
    (⟨first :: inner⟩ : Path).join rel = ⟨first :: (inner ++ rel.names)⟩ := by
  rw [join, if_neg (by simp [hrel]), if_neg hlast]
  rfl

end Path

namespace Files

variable {fs : Files} {l l' : Location} {names : List String}

/-- Whatever the place where relative paths begin is in is a directory. -/
def Grounded (fs : Files) : Prop := ∀ l, l <+: fs.working → fs.isDirectory l = true

theorem walk?_stay {name : String} (hname : Path.component? name = none)
    (h : fs.walk? l (names ++ [name]) = some l') : fs.walk? l names = some l' := by
  rw [walk?_append] at h
  obtain ⟨m, hm, h⟩ := Option.bind_eq_some_iff.mp h
  obtain ⟨-, ⟨-, hend⟩ | ⟨rfl, -⟩ | ⟨hdown, -⟩⟩ := walk?_cons_cases h
  · cases hend
    exact hm
  · cases hname
  · simp [hname] at hdown

theorem walk?_trimEnd (front : List String) (h : fs.walk? l (front ++ names) = some l') :
    fs.walk? l (front ++ Path.trimEnd names) = some l' := by
  induction names using List.reverseRecOn with
  | nil => exact h
  | append_singleton names name ih =>
    cases hname : Path.component? name with
    | none =>
      rw [Path.trimEnd_append hname]
      exact ih (walk?_stay hname (by rwa [List.append_assoc]))
    | some c => rwa [Path.trimEnd_concat (by simp [hname])]

theorem isDirectory_of_walk? (hl : ∀ m, m <+: l → m ≠ l → fs.isDirectory m = true)
    (h : fs.walk? l names = some l') : ∀ m, m <+: l' → m ≠ l' → fs.isDirectory m = true := by
  induction names generalizing l with
  | nil =>
    obtain rfl := Option.some.inj h
    exact hl
  | cons name names ih =>
    obtain ⟨hdir, hstep⟩ := walk?_cons_cases h
    have hall (m : Location) (hm : m <+: l) : fs.isDirectory m = true := by
      by_cases heq : m = l
      · rwa [heq]
      · exact hl m hm heq
    rcases hstep with ⟨-, h⟩ | ⟨-, h⟩ | ⟨-, h⟩
    · exact ih hl h
    · exact ih (fun m hm _ => hall m (hm.trans (List.dropLast_prefix l))) h
    · refine ih (fun m hm hne => ?_) h
      exact hall m ((List.prefix_concat_iff.mp hm).resolve_left hne)

theorem walk?_file (hl : ∀ m, m <+: l → fs.isDirectory m = true)
    (hfile : fs.isDirectory l' = false) (h : fs.walk? l names = some l') :
    ∃ front last, names = front ++ [last] ∧ Path.component? last = some (.name last) ∧
      fs.walk? l front = some l'.dropLast ∧ fs.isDirectory l'.dropLast = true := by
  induction names using List.reverseRecOn with
  | nil =>
    obtain rfl := Option.some.inj h
    simp [hl l (List.prefix_refl l)] at hfile
  | append_singleton front last =>
    rw [walk?_append] at h
    obtain ⟨m, hm, hstep⟩ := Option.bind_eq_some_iff.mp h
    obtain ⟨hdir, ⟨-, hend⟩ | ⟨-, hend⟩ | ⟨hdown, hend⟩⟩ := walk?_cons_cases hstep
    · cases hend
      simp [hdir] at hfile
    · -- Going up ends in a directory.
      cases hend
      have hup : fs.isDirectory m.dropLast = true := by
        by_cases hnil : m = []
        · rwa [hnil] at hdir ⊢
        · refine isDirectory_of_walk? (fun m hm _ => hl m hm) hm _ (List.dropLast_prefix m) ?_
          intro heq
          have hlength := congrArg List.length heq
          have hpos := List.length_pos_iff.mpr hnil
          simp only [List.length_dropLast] at hlength
          omega
      simp [hup] at hfile
    · cases hend
      exact ⟨front, last, rfl, hdown, by simpa using hm, by simpa using hdir⟩

theorem locate?_eq_walk? {p : Path} (h : fs.locate? p = some l) :
    fs.walk? (if p.isAbsolute then [] else fs.working) p.names = some l := by
  unfold locate? at h
  split at h
  · cases h
  · exact h

theorem Grounded.start (hfs : fs.Grounded) (p : Path) {m : Location}
    (hm : m <+: if p.isAbsolute then [] else fs.working) : fs.isDirectory m = true := by
  split at hm
  · exact hfs m (hm.trans (List.nil_prefix))
  · exact hfs m hm

/-- The parent of a file's path leads to the directory that the file is in, and what is joined to
it starts where the path does. -/
theorem exists_parent? (hfs : fs.Grounded) {p : Path} (hp : fs.locate? p = some l)
    (hfile : fs.isDirectory l = false) :
    ∃ base, p.parent? = some base ∧ ∀ rel : Path, rel.names ≠ [] → rel.isAbsolute = false →
      ∃ front, base.join rel = ⟨front ++ rel.names⟩ ∧ (base.join rel).isAbsolute = p.isAbsolute ∧
        fs.walk? (if p.isAbsolute then [] else fs.working) front = some l.dropLast := by
  obtain ⟨front, last, hnames, hlast, hfront, -⟩ :=
    walk?_file (fun m => hfs.start p) hfile (locate?_eq_walk? hp)
  obtain ⟨names⟩ := p
  obtain rfl : names = front ++ [last] := hnames
  have hsome : (Path.component? last).isSome = true := by simp [hlast]
  cases front with
  | nil =>
    have hne : last ≠ "" := by
      rintro rfl
      cases hlast
    refine ⟨⟨[""]⟩, by simp [Path.parent?, Path.trimEnd, hne], fun rel _ hrel => ?_⟩
    have hjoin : (⟨[""]⟩ : Path).join rel = rel := by simp [Path.join, hrel]
    have hname : (⟨[last]⟩ : Path).isAbsolute = false := by simp [Path.isAbsolute]
    exact ⟨[], by rw [hjoin]; rfl, by rw [hjoin, hrel]; exact hname.symm, hfront⟩
  | cons first rest =>
    have habs : (⟨first :: rest ++ [last]⟩ : Path).isAbsolute = true ↔ first = "" :=
      Path.isAbsolute_cons (by simp)
    have hparent : (⟨first :: rest ++ [last]⟩ : Path).parent? =
        some (if Path.trimEnd rest = [] ∧ first = "" then ⟨["", ""]⟩
          else ⟨first :: Path.trimEnd rest⟩) := by
      simp [Path.parent?, Path.trimEnd_concat hsome]
    have hwalk : fs.walk? (if (⟨first :: rest ++ [last]⟩ : Path).isAbsolute then [] else fs.working)
        (first :: Path.trimEnd rest) = some l.dropLast :=
      walk?_trimEnd [first] hfront
    refine ⟨_, hparent, fun rel hne hrel => ?_⟩
    have hsame (inner : List String) : (⟨first :: (inner ++ rel.names)⟩ : Path).isAbsolute =
        (⟨first :: rest ++ [last]⟩ : Path).isAbsolute :=
      Bool.eq_iff_iff.mpr ((Path.isAbsolute_cons (by simp [hne])).trans habs.symm)
    split
    · next hroot =>
      obtain ⟨hempty, rfl⟩ := hroot
      have hjoin : (⟨["", ""]⟩ : Path).join rel = ⟨"" :: ([] ++ rel.names)⟩ := by
        simp [Path.join, hrel]
      rw [hempty] at hwalk
      exact ⟨[""], hjoin, by rw [hjoin, hsame], hwalk⟩
    · next hroot =>
      have hend : (first :: Path.trimEnd rest).getLast? ≠ some "" := by
        rcases Path.trimEnd_eq_nil_or rest with hempty | ⟨front, name, heq, hne⟩
        · simpa [hempty] using fun h => hroot ⟨hempty, h⟩
        · rw [heq, ← List.cons_append, List.getLast?_concat]
          simpa using hne
      have hjoin := Path.join_cons hrel hend
      exact ⟨first :: Path.trimEnd rest, hjoin, by rw [hjoin, hsame], hwalk⟩

theorem exists_file_of_read? {p : Path} {text : String} (h : fs.read? p = some text) :
    ∃ l, fs.locate? p = some l ∧ fs.entry? l = some (.file (some text)) := by
  unfold read? at h
  split at h
  · next hentry =>
    subst h
    exact Option.bind_eq_some_iff.mp hentry
  · cases h

/-- From beside a file, a path leads where it leads from the directory that the file is in. -/
theorem walk?_beside (hfs : fs.Grounded) {p rel directory : Path} {m : Location}
    (hp : fs.locate? p = some l) (hfile : fs.isDirectory l = false) (hrel : rel.names ≠ [])
    (hm : fs.locate? ((p.parent?.getD directory).join rel) = some m) :
    fs.walk? (if rel.isAbsolute then [] else l.dropLast) rel.names = some m := by
  have hm := locate?_eq_walk? hm
  by_cases habs : rel.isAbsolute = true
  · rw [if_pos habs]
    have hjoin : (p.parent?.getD directory).join rel = rel := if_pos habs
    rwa [hjoin, if_pos habs] at hm
  · rw [if_neg habs]
    obtain ⟨base, hparent, hbase⟩ := exists_parent? hfs hp hfile
    obtain ⟨front, hjoin, hsame, hfront⟩ := hbase rel hrel (by simpa using habs)
    rw [hparent, Option.getD_some, hsame, hjoin, walk?_append, hfront] at hm
    exact hm

end Files

end HomeAutomation
