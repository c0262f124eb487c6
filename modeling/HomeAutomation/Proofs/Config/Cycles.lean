import HomeAutomation.Proofs.Config.Depth
import HomeAutomation.Proofs.Config.Tracing

/-! Includes that come back to a file that is still being loaded. Where no path goes up, loading
always ends, and with the error for such a circle just when there is one before anything else
fails. A path that goes up may come back under ever longer paths, and then loading does not end. -/

namespace HomeAutomation.Config

/-- Following includes depth first and in the order of the document, one comes to a file that is
still being loaded before anything fails. -/
inductive Returns (w : Sources) : List Path → Path → Prop where
  | here {stack : List Path} {path q : Path} {l : Location} : q ∈ stack →
      w.files.locate? path = some l → w.files.locate? q = some l → Returns w stack path
  | within {stack : List Path} {path : Path} {text target : String} {v : Yaml}
      {before after : List Mark} {depth : Nat} {as : List Access} :
      (∀ q ∈ stack, w.files.locate? q ≠ w.files.locate? path) →
      w.files.read? path = some text → Yaml.read? text = some v →
      marks v = before ++ .file (.string target) :: after →
      (settleAll w (loadFile w depth) path before).Makes (path :: stack) as (.ok ()) →
      w.files.contains (w.target path target) = true →
      Returns w (path :: stack) (w.target path target) → Returns w stack path

section Settling

variable {w : Sources} {load : Path → Load Yaml} {source : Path} {stack : List Path}
  {as as' : List Access} {ms : List Mark}

theorem settleAll_makes_agree {d d' : Nat} {r r' : Except Error Unit}
    (h : (settleAll w (loadFile w d) source ms).Makes stack as r)
    (h' : (settleAll w (loadFile w d') source ms).Makes stack as' r') : r = r' ∧ as = as' := by
  have hdeep := Load.compositional_extends.settleAll (loadFile_extends (Nat.le_max_left d d')) ms _ _ _ h
  have hdeep' :=
    Load.compositional_extends.settleAll (loadFile_extends (Nat.le_max_right d d')) ms _ _ _ h'
  obtain ⟨rfl, heq⟩ := hdeep.unique hdeep'
  exact ⟨rfl, congrArg Progress.accesses heq⟩

/-- Marks that fail do so at one of them, and those before it do not. -/
theorem settleAll_makes_error (htidy : ∀ p, (load p).Tidy) {e : Error}
    (h : (settleAll w load source ms).Makes stack as (.error e)) :
    ∃ before m after as₁ as₂, ms = before ++ m :: after ∧
      (settleAll w load source before).Makes stack as₁ (.ok ()) ∧
      (settle w load source m).Makes stack as₂ (.error e) := by
  induction ms generalizing as with
  | nil => cases h
  | cons m ms ih =>
    rcases (settleAll_cons_makes_iff htidy).mp h with ⟨_, heq, hfail⟩ | ⟨v, as₁, as₂, -, hok, hrest⟩
    · cases heq
      exact ⟨[], m, ms, [], as, rfl, rfl, hfail⟩
    · obtain ⟨before, m', after, as₃, as₄, rfl, hbefore, hfail⟩ := ih hrest
      exact ⟨m :: before, m', after, as₁ ++ as₃, as₄, rfl,
        (settleAll_cons_makes_iff htidy).mpr (.inr ⟨v, as₁, as₃, rfl, hok, hbefore⟩), hfail⟩

theorem loadTextWith_makes_of_error (htidy : ∀ p, (load p).Tidy) {text : String} {v : Yaml}
    {before after : List Mark} {m : Mark} {e : Error} (hyaml : Yaml.read? text = some v)
    (hmarks : marks v = before ++ m :: after)
    (hbefore : (settleAll w load source before).Makes stack as (.ok ()))
    (hfail : (settle w load source m).Makes stack as' (.error e)) :
    (loadTextWith w load source text).Makes stack (as ++ as') (.error e) := by
  have hrest : (settleAll w load source (m :: after)).Makes stack as' (.error e) :=
    (settleAll_cons_makes_iff htidy).mpr (.inl ⟨e, rfl, hfail⟩)
  have hall : (settleAll w load source (marks v)).Makes stack (as ++ as') (.error e) := by
    rw [hmarks, settleAll_append]
    exact (Load.makes_bind_iff (tidy_settleAll htidy _) fun _ => tidy_settleAll htidy _).mpr
      (.inr ⟨(), as, as', rfl, hbefore, hrest⟩)
  obtain ⟨r, hmakes, heq⟩ := (settleAll_marks_makes_iff hyaml).mp hall
  cases r with
  | ok => cases heq
  | error e =>
    cases heq
    exact hmakes

/-- Only an include can bring a document to end with a circle. -/
theorem exists_include_of_circular (htidy : ∀ p, (load p).Tidy) {text : String} {q : Path}
    (h : (loadTextWith w load source text).Makes stack as (.error (.circularInclude q))) :
    ∃ v before target after as₁ as₂, Yaml.read? text = some v ∧
      marks v = before ++ .file (.string target) :: after ∧
      (settleAll w load source before).Makes stack as₁ (.ok ()) ∧
      w.files.contains (w.target source target) = true ∧
      (load (w.target source target)).Makes stack as₂ (.error (.circularInclude q)) := by
  cases hyaml : Yaml.read? text with
  | none =>
    rw [loadTextWith, hyaml] at h
    cases h
  | some v =>
    have hmarks := (settleAll_marks_makes_iff hyaml).mpr ⟨_, h, rfl⟩
    obtain ⟨before, m, after, as₁, as₂, heq, hbefore, hfail⟩ := settleAll_makes_error htidy hmarks
    by_cases hm : ∃ target, m = .file (.string target)
    · obtain ⟨target, rfl⟩ := hm
      obtain ⟨as', -, hfile⟩ := (settle_file_makes_iff htidy).mp hfail
      split at hfile
      · next hthere => exact ⟨v, before, target, after, as₁, as', rfl, heq, hbefore, hthere, hfile⟩
      · cases hfile.2
    · have hpathless := (pathless_settle (fun target h => hm ⟨target, h⟩) _ _ _ hfail).2 _ rfl
      cases hpathless

end Settling

section Plain

variable {w : Sources} {p q : Path} {stack : List Path} {as : List Access} {d : Nat}

theorem Returns.makes (h : Returns w stack p) (hw : w.Plain) (hs : Stacked w stack)
    (hp : p.Plain) (hd : w.files.fileLocations.length < stack.length + d) :
    ∃ as q, (loadFile w d p).Makes stack as (.error (.circularInclude q)) := by
  induction h generalizing d with
  | @here stack path q l hq hpath hl =>
    cases d with
    | zero => exact absurd hs.length_le (by omega)
    | succ d =>
      have hsteps := (Files.locate?_eq_some hp hpath).symm.trans
        (Files.locate?_eq_some (hs.plain q hq) hl)
      have hsame := (Path.same_iff hp (hs.plain q hq)).mpr hsteps
      exact ⟨[], path, (loadFile_makes_iff_of_isAbsolute hp.absolute).mpr (.circular hq hsame)⟩
  | @within stack path text target v before after depth as hfar hread hyaml hmarks hbefore hthere _ ih =>
    cases d with
    | zero => exact absurd hs.length_le (by omega)
    | succ d =>
      simp only [loadFile_makes_iff_of_isAbsolute hp.absolute]
      by_cases hloading : ∃ q ∈ stack, path.same q = true
      · obtain ⟨q, hq, hsame⟩ := hloading
        exact ⟨_, _, .circular hq hsame⟩
      · have hfresh : ∀ q ∈ stack, path.same q = false := by simpa using hloading
        have hstacked := hs.push hp hread hfresh
        have hdeep : w.files.fileLocations.length < (path :: stack).length + d := by
          simp only [List.length_cons]
          omega
        have hentry := Files.entry?_of_read? hp hread
        have hincludes : ∀ text, .file (.string text) ∈ marks v → (w.target path text).Plain :=
          fun text hmem => hw.target hp (hw.includes _ _ _ _ hentry hyaml hmem)
        have htarget := hincludes target (by simp [hmarks])
        obtain ⟨as₂, q, hcircle⟩ := ih hstacked htarget hdeep
        have hfail : (settle w (loadFile w d) path (.file (.string target))).Makes (path :: stack)
            (.tested (w.target path target) :: as₂) (.error (.circularInclude q)) :=
          (settle_file_makes_iff (tidy_loadFile d)).mpr ⟨as₂, rfl, by rwa [if_pos hthere]⟩
        -- What comes before was settled at some other depth. At this one it ends too, so alike.
        obtain ⟨as₁, r, hbefore'⟩ : ∃ as r,
            (settleAll w (loadFile w d) path before).Makes (path :: stack) as r :=
          exists_makes_settleAll (tidy_loadFile d) fun text hmem =>
            exists_makes_loadFile hw hstacked hdeep (hincludes text (by simp [hmarks, hmem]))
        obtain ⟨rfl, -⟩ := settleAll_makes_agree hbefore hbefore'
        have hmakes := loadTextWith_makes_of_error (tidy_loadFile d) hyaml hmarks hbefore' hfail
        exact ⟨_, q, .text hfresh hread hmakes⟩

theorem returns_of_makes (hw : w.Plain) (hs : Stacked w stack) (hp : p.Plain)
    (hthere : stack ≠ [] → w.files.contains p = true)
    (h : (loadFile w d p).Makes stack as (.error (.circularInclude q))) : Returns w stack p := by
  induction d generalizing stack p as with
  | zero => cases h
  | succ d ih =>
    rw [loadFile_makes_iff_of_isAbsolute hp.absolute] at h
    cases h with
    | @circular q hq hsame =>
      obtain ⟨l, hl⟩ := Option.isSome_iff_exists.mp (hthere (List.ne_nil_of_mem hq))
      obtain ⟨text, hread⟩ := hs.readable q hq
      have hsteps := (Path.same_iff hp (hs.plain q hq)).mp hsame
      rw [← Files.locate?_eq_some hp hl] at hsteps
      exact .here hq hl (hsteps ▸ Files.locate?_of_read? (hs.plain q hq) hread)
    | @text text as _ hfresh hread hmakes =>
      have hstacked := hs.push hp hread hfresh
      have hfar : ∀ q ∈ stack, w.files.locate? q ≠ w.files.locate? p := by
        intro q hq heq
        obtain ⟨text', hread'⟩ := hs.readable q hq
        rw [Files.locate?_of_read? hp hread, Files.locate?_of_read? (hs.plain q hq) hread'] at heq
        have hsame := (Path.same_iff hp (hs.plain q hq)).mpr (Option.some.inj heq).symm
        simp [hfresh q hq] at hsame
      obtain ⟨v, before, target, after, as₁, as₂, hyaml, hmarks, hbefore, hcontains, hfile⟩ :=
        exists_include_of_circular (tidy_loadFile d) hmakes
      have hentry := Files.entry?_of_read? hp hread
      have htarget := hw.target hp (hw.includes _ _ _ target hentry hyaml (by simp [hmarks]))
      exact .within hfar hread hyaml hmarks hbefore hcontains
        (ih hstacked htarget (fun _ => hcontains) hfile)

/-- Where no path goes up, one level more than there are files is deep enough for every load to
end, and it ends with a circle just when following the includes comes back. -/
theorem loadFile_circular_iff {text : String} (hw : w.Plain)
    (htext : ".." ∉ (Path.ofText text).names) :
    ∃ r, (∀ d, w.files.fileLocations.length < d →
        (loadFile w d (.ofText text)).result? = some r) ∧
      ((∃ q, r = .error (.circularInclude q)) ↔ Returns w [] (w.place (.ofText text))) := by
  have hp : (w.place (.ofText text)).Plain := hw.place htext
  have hplace : w.place (w.place (.ofText text)) = w.place (.ofText text) :=
    Sources.place_of_isAbsolute hp.absolute
  have hd : w.files.fileLocations.length < ([] : List Path).length +
      (w.files.fileLocations.length + 1) := by simp
  obtain ⟨as, r, hmakes⟩ := exists_makes_loadFile hw stacked_nil hd hp
  refine ⟨r, fun d hdeep => ?_, ?_, fun h => ?_⟩
  · have hends := loadFile_extends hdeep _ _ _ _ ((loadFile_makes_congr hplace).mp hmakes)
    exact congrArg (Option.map Prod.fst) hends
  · rintro ⟨q, rfl⟩
    exact returns_of_makes hw stacked_nil hp (absurd rfl) hmakes
  · obtain ⟨as', q, hcircle⟩ := h.makes hw stacked_nil hp hd
    exact ⟨q, (hmakes.unique hcircle).1⟩

end Plain

/-- Two files that include each other, the second one under a longer path than need be. -/
def mirrors : Sources where
  files := { entries := [(["a.yaml"], .file (some "!include sub/b.yaml")),
    (["sub", "b.yaml"], .file (some "!include /./a.yaml"))] }
  environment _ := none
  directory := .ofText "/"

theorem read?_mirrors_a : Yaml.read? "!include sub/b.yaml" =
    some (.tagged "include" (.string "sub/b.yaml")) :=
  read?_include (by decide +kernel) rfl

theorem read?_mirrors_b : Yaml.read? "!include /./a.yaml" =
    some (.tagged "include" (.string "/./a.yaml")) :=
  read?_include (by decide +kernel) rfl

theorem plain_mirrors : mirrors.Plain where
  directory := ⟨by decide +kernel, by decide +kernel⟩
  includes := by
    intro l text v target hentry hyaml hmem
    have hfile := Files.mem_entries hentry
    simp only [mirrors, List.mem_cons, Prod.mk.injEq, Entry.file.injEq, Option.some.injEq,
      List.not_mem_nil, or_false] at hfile
    rcases hfile with ⟨-, rfl⟩ | ⟨-, rfl⟩
    · cases read?_mirrors_a.symm.trans hyaml
      obtain rfl : target = "sub/b.yaml" := by simpa [marks, Mark.ofTag?] using hmem
      decide +kernel
    · cases read?_mirrors_b.symm.trans hyaml
      obtain rfl : target = "/./a.yaml" := by simpa [marks, Mark.ofTag?] using hmem
      decide +kernel

theorem returns_mirrors : Returns mirrors [] (mirrors.place (.ofText "a.yaml")) := by
  have ha : mirrors.place (.ofText "a.yaml") = .ofText "/a.yaml" := by decide +kernel
  have hab : mirrors.target (.ofText "/a.yaml") "sub/b.yaml" = .ofText "/sub/b.yaml" := by
    decide +kernel
  have hnone : ∀ p stack, (settleAll mirrors (loadFile mirrors 0) p []).Makes stack [] (.ok ()) :=
    fun _ _ => rfl
  have hinner : Returns mirrors [.ofText "/a.yaml"] (.ofText "/sub/b.yaml") := by
    refine .within (by decide +kernel) (by decide +kernel : _ = some "!include /./a.yaml")
      read?_mirrors_b rfl (hnone _ _) (by decide +kernel) ?_
    exact .here (.tail _ (.head _)) (by decide +kernel : _ = some ["a.yaml"]) (by decide +kernel)
  rw [ha]
  refine .within (by simp) (by decide +kernel : _ = some "!include sub/b.yaml")
    read?_mirrors_a rfl (hnone _ _) (by decide +kernel) ?_
  exact hab ▸ hinner

theorem loadFile_circular_iff_mirrors : mirrors.Plain ∧ ".." ∉ (Path.ofText "a.yaml").names ∧
    Returns mirrors [] (mirrors.place (.ofText "a.yaml")) ∧
    ∃ q, (loadFile mirrors 3 (.ofText "a.yaml")).result? = some (.error (.circularInclude q)) := by
  have htext : ".." ∉ (Path.ofText "a.yaml").names := by decide +kernel
  obtain ⟨r, hends, hiff⟩ := loadFile_circular_iff plain_mirrors htext
  obtain ⟨q, rfl⟩ := hiff.mpr returns_mirrors
  exact ⟨plain_mirrors, htext, returns_mirrors, q, hends 3 (by decide)⟩

end HomeAutomation.Config
