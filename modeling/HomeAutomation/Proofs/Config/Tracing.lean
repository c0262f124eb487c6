import HomeAutomation.Config.Reader
import HomeAutomation.Proofs.Config.Settling
import HomeAutomation.Proofs.Files.Joining

/-! Which paths are tested and opened while a file is loaded. An include is tested at the path that
its source's directory and its text make, and opened where the configuration's directory places
that path. With an absolute directory, or none, this is the same path; with any other directory a
relative path is opened elsewhere. -/

namespace HomeAutomation.Config

def Access.path? : Access → Option Path
  | .tested p | .opened p => some p
  | .secret _ | .variable _ => none

def Error.path? : Error → Option Path
  | .unreadable p | .malformed p | .mismatch p | .includeNotFound p | .circularInclude p => some p
  | .secretNotFound _ | .variableNotSet _ | .invalidValue _ _ => none

mutual

/-- What is accessed to load the file at a path, and how that ends, where includes are opened at
`place` of the path that was tested. -/
inductive Opened (w : Sources) (place : Path → Path) :
    Path → List Access → Except Error Unit → Prop where
  | circular {path : Path} : Opened w place path [] (.error (.circularInclude path))
  | unreadable {path : Path} : w.files.read? path = none →
      Opened w place path [.opened path] (.error (.unreadable path))
  | malformed {path : Path} {text : String} : w.files.read? path = some text →
      Yaml.read? text = none → Opened w place path [.opened path] (.error (.malformed path))
  | document {path : Path} {text : String} {v : Yaml} {as : List Access} {r : Except Error Unit} :
      w.files.read? path = some text → Yaml.read? text = some v →
      Traced w place path (marks v) as r → Opened w place path (.opened path :: as) r

/-- The same for the marks of a source, one after another up to the first that fails. -/
inductive Traced (w : Sources) (place : Path → Path) :
    Path → List Mark → List Access → Except Error Unit → Prop where
  | nil {source : Path} : Traced w place source [] [] (.ok ())
  | stopped {source : Path} {m : Mark} {ms : List Mark} {as : List Access} {e : Error} :
      (∀ text, m ≠ .file (.string text)) → (∀ a ∈ as, a.path? = none) → e.path? = none →
      Traced w place source (m :: ms) as (.error e)
  | passed {source : Path} {m : Mark} {ms : List Mark} {as as' : List Access}
      {r : Except Error Unit} :
      (∀ text, m ≠ .file (.string text)) → (∀ a ∈ as, a.path? = none) →
      Traced w place source ms as' r → Traced w place source (m :: ms) (as ++ as') r
  | missing {source : Path} {text : String} {ms : List Mark} :
      w.files.contains (w.target source text) = false →
      Traced w place source (.file (.string text) :: ms) [.tested (w.target source text)]
        (.error (.includeNotFound (w.target source text)))
  | failed {source : Path} {text : String} {ms : List Mark} {as : List Access} {e : Error} :
      w.files.contains (w.target source text) = true →
      Opened w place (place (w.target source text)) as (.error e) →
      Traced w place source (.file (.string text) :: ms) (.tested (w.target source text) :: as)
        (.error e)
  | included {source : Path} {text : String} {ms : List Mark} {as as' : List Access}
      {r : Except Error Unit} :
      w.files.contains (w.target source text) = true →
      Opened w place (place (w.target source text)) as (.ok ()) →
      Traced w place source ms as' r →
      Traced w place source (.file (.string text) :: ms)
        (.tested (w.target source text) :: (as ++ as')) r

end

/-- No file is tested or opened, or to blame for an error. -/
def Load.Pathless {α : Type} (m : Load α) : Prop :=
  ∀ stack as r, m.Makes stack as r → (∀ a ∈ as, a.path? = none) ∧ ∀ e, r = .error e → e.path? = none

section Pathless

variable {α : Type} {w : Sources} {load : Path → Load Yaml} {source : Path}

theorem pathless_pure (a : α) : (pure a : Load α).Pathless := by
  intro stack as r h
  obtain ⟨rfl, rfl⟩ := Load.makes_pure_iff.mp h
  simp

theorem pathless_fail {e : Error} (he : e.path? = none) : (fail e : Load α).Pathless := by
  intro stack as r h
  obtain ⟨rfl, rfl⟩ := Load.makes_fail_iff.mp h
  simp [he]

theorem Load.Pathless.note_bind {a : Access} {m : Load α} (h : m.Pathless) (hm : m.Tidy)
    (ha : a.path? = none) : (note a >>= fun _ => m).Pathless := by
  intro stack as r hmakes
  obtain ⟨as', rfl, hmakes'⟩ := (Load.makes_note_bind_iff hm).mp hmakes
  obtain ⟨has, hr⟩ := h _ _ _ hmakes'
  exact ⟨List.forall_mem_cons.mpr ⟨ha, has⟩, hr⟩

theorem pathless_settle {m : Mark} (hm : ∀ text, m ≠ .file (.string text)) :
    (settle w load source m).Pathless := by
  cases m with
  | file v =>
    cases v with
    | string text => exact absurd rfl (hm text)
    | _ => exact pathless_fail rfl
  | secret v =>
    cases v with
    | string key =>
      refine Load.Pathless.note_bind ?_ (Load.compositional_tidy.ofExcept _) rfl
      rw [Secrets.get]
      cases w.secrets.get? key with
      | none => exact pathless_fail rfl
      | some value => exact pathless_pure value
    | _ => exact pathless_fail rfl
  | «variable» v =>
    cases v with
    | string text =>
      refine Load.Pathless.note_bind ?_ ?_ rfl
      · split
        · exact pathless_pure _
        · exact pathless_fail rfl
      · split
        · exact Load.compositional_tidy.pure _
        · exact Load.compositional_tidy.fail _
    | _ => exact pathless_fail rfl

end Pathless

section Makes

variable {w : Sources} {load : Path → Load Yaml} {place : Path → Path} {source p : Path}
  {stack : List Path} {as : List Access}

theorem traced_of_makes (htidy : ∀ p, (load p).Tidy)
    (hload : ∀ p as (r : Except Error Yaml), (load p).Makes stack as r →
      Opened w place (place p) as (r.map fun _ => ()))
    {ms : List Mark} {r : Except Error Unit}
    (h : (settleAll w load source ms).Makes stack as r) : Traced w place source ms as r := by
  induction ms generalizing as with
  | nil =>
    obtain ⟨rfl, rfl⟩ := Load.makes_pure_iff.mp h
    exact .nil
  | cons m ms ih =>
    by_cases hm : ∃ text, m = .file (.string text)
    · obtain ⟨text, rfl⟩ := hm
      rcases (settleAll_cons_makes_iff htidy).mp h with
        ⟨e, rfl, hfail⟩ | ⟨v, as₁, as₂, rfl, hok, hrest⟩
      · obtain ⟨as', rfl, hfile⟩ := (settle_file_makes_iff htidy).mp hfail
        split at hfile
        · next hthere => exact .failed hthere (hload _ _ _ hfile)
        · next hthere =>
          obtain ⟨rfl, heq⟩ := hfile
          cases heq
          exact .missing (by simpa using hthere)
      · obtain ⟨as', rfl, hfile⟩ := (settle_file_makes_iff htidy).mp hok
        split at hfile
        · next hthere => exact .included hthere (hload _ _ _ hfile) (ih hrest)
        · cases hfile.2
    · have hother : ∀ text, m ≠ .file (.string text) := fun text heq => hm ⟨text, heq⟩
      rcases (settleAll_cons_makes_iff htidy).mp h with
        ⟨e, rfl, hfail⟩ | ⟨v, as₁, as₂, rfl, hok, hrest⟩
      · obtain ⟨has, herr⟩ := pathless_settle hother _ _ _ hfail
        exact .stopped hother has (herr e rfl)
      · exact .passed hother (pathless_settle hother _ _ _ hok).1 (ih hrest)

/-- Whatever the directory is, it is put before every path that is opened and was relative. -/
theorem loadFile_opened {d : Nat} {r : Except Error Yaml}
    (h : (loadFile w d p).Makes stack as r) :
    Opened w w.place (w.place p) as (r.map fun _ => ()) := by
  induction d generalizing p stack as r with
  | zero => cases h
  | succ d ih =>
    cases loadFile_makes_iff.mp h with
    | circular => exact .circular
    | unreadable _ hread => exact .unreadable hread
    | @text text as r hfresh hread hmakes =>
      cases hyaml : Yaml.read? text with
      | none =>
        rw [loadTextWith, hyaml] at hmakes
        obtain ⟨rfl, rfl⟩ := Load.makes_fail_iff.mp hmakes
        exact .malformed hread hyaml
      | some v =>
        have hmarks := (settleAll_marks_makes_iff hyaml).mpr ⟨r, hmakes, rfl⟩
        exact .document hread hyaml (traced_of_makes (tidy_loadFile d) (fun _ _ _ => ih) hmarks)

end Makes

/-- Paths that are opened as they are. -/
def Sources.Fixed (w : Sources) (p : Path) : Prop :=
  p.isAbsolute = true ∨ w.directory = .ofText ""

section Fixed

variable {w : Sources} {source path : Path} {as : List Access} {r : Except Error Unit}

theorem Sources.Fixed.place_eq {p : Path} (h : w.Fixed p) : w.place p = p := by
  unfold place
  split
  · rfl
  · rcases h with habs | hempty
    · contradiction
    · simp_all [Path.join, Path.ofText, Path.split]

theorem Sources.Fixed.place (hw : w.Fixed w.directory) (text : String) :
    w.Fixed (w.place (.ofText text)) := by
  refine hw.imp_left fun habs => ?_
  unfold Sources.place
  split
  · assumption
  · exact Path.isAbsolute_join habs (Path.names_ofText_ne_nil text)

theorem Sources.Fixed.target (hw : w.Fixed w.directory) (hsource : w.Fixed source) (text : String) :
    w.Fixed (w.target source text) := by
  rcases hw with hdir | hempty
  · rcases hsource with hsource | hempty
    · refine .inl (Path.isAbsolute_join ?_ (Path.names_ofText_ne_nil text))
      cases hparent : source.parent? with
      | none => exact hdir
      | some q => exact Path.isAbsolute_of_parent? hsource hparent
    · exact .inr hempty
  · exact .inr hempty

mutual

theorem Opened.exact (hw : w.Fixed w.directory) :
    ∀ {path as r}, w.Fixed path → Opened w w.place path as r → Opened w id path as r
  | _, _, _, _, .circular => .circular
  | _, _, _, _, .unreadable hread => .unreadable hread
  | _, _, _, _, .malformed hread hyaml => .malformed hread hyaml
  | _, _, _, hpath, .document hread hyaml h => .document hread hyaml (Traced.exact hw hpath h)

theorem Traced.exact (hw : w.Fixed w.directory) :
    ∀ {source ms as r}, w.Fixed source → Traced w w.place source ms as r →
      Traced w id source ms as r
  | _, _, _, _, _, .nil => .nil
  | _, _, _, _, _, .stopped hm has he => .stopped hm has he
  | _, _, _, _, hsource, .passed hm has h => .passed hm has (Traced.exact hw hsource h)
  | _, _, _, _, _, .missing hthere => .missing hthere
  | _, _, _, _, hsource, @Traced.failed _ _ _ text _ _ _ hthere h => by
    have htarget := hw.target hsource text
    have hexact := Opened.exact hw (htarget.place_eq.symm ▸ htarget) h
    rw [htarget.place_eq] at hexact
    exact .failed hthere hexact
  | _, _, _, _, hsource, @Traced.included _ _ _ text _ _ _ _ hthere h hrest => by
    have htarget := hw.target hsource text
    have hexact := Opened.exact hw (htarget.place_eq.symm ▸ htarget) h
    rw [htarget.place_eq] at hexact
    exact .included hthere hexact (Traced.exact hw hsource hrest)

end

end Fixed

section Meant

variable {w : Sources} {depth : Nat} {text : String}

theorem loadFile_opened_exact (hw : w.Fixed w.directory) {stack : List Path} {as : List Access}
    {r : Except Error Yaml} (h : (loadFile w depth (.ofText text)).Makes stack as r) :
    Opened w id (w.place (.ofText text)) as (r.map fun _ => ()) :=
  (loadFile_opened h).exact hw (hw.place text)

theorem load_opened_exact (hw : w.Fixed w.directory)
    (hparent : (Path.ofText text).parent? = some w.directory) {processors : Nat}
    {result : Except Error Config}
    (h : load processors depth w.files w.environment (.ofText text) = some result) :
    (∃ e, Secrets.load w.files w.directory = .error e ∧ result = .error e) ∨
    ∃ secrets as, ∃ r : Except Error Yaml, Secrets.load w.files w.directory = .ok secrets ∧
      Opened { w with secrets } id (.ofText text) as (r.map fun _ => ()) ∧
      result = r.bind (ofYaml processors (.ofText text)) := by
  rw [load, hparent, Option.getD_some, loadYaml] at h
  cases hsecrets : Secrets.load w.files w.directory with
  | error e =>
    rw [hsecrets] at h
    obtain rfl := Option.some.inj h
    exact .inl ⟨e, rfl, rfl⟩
  | ok secrets =>
    rw [hsecrets] at h
    obtain ⟨r, hr, rfl⟩ := Option.map_eq_some_iff.mp h
    obtain ⟨⟨_, t⟩, hends, rfl⟩ := Option.map_eq_some_iff.mp hr
    obtain ⟨as, -, hmakes⟩ := (tidy_loadFile depth _).exists_makes hends
    have hfixed : Sources.Fixed { w with secrets } w.directory := hw
    have hpath : Sources.Fixed { w with secrets } (.ofText text) :=
      hw.imp_left (Path.isAbsolute_of_isAbsolute_parent hparent)
    have hopened := loadFile_opened_exact hfixed hmakes
    rw [hpath.place_eq] at hopened
    exact .inr ⟨secrets, as, _, rfl, hopened, rfl⟩

/-- The file that is meant is the file that is read if the directory is absolute or there is none:
what a file includes, at any depth, is read where it was tested, and a configuration in the
directory is read at its own path, with its secrets from beside it. -/
theorem opened_as_meant (hw : w.Fixed w.directory) :
    (∀ stack as (r : Except Error Yaml), (loadFile w depth (.ofText text)).Makes stack as r →
      Opened w id (w.place (.ofText text)) as (r.map fun _ => ())) ∧
    ((Path.ofText text).parent? = some w.directory → ∀ processors result,
      load processors depth w.files w.environment (.ofText text) = some result →
      (∃ e, Secrets.load w.files w.directory = .error e ∧ result = .error e) ∨
      ∃ secrets as, ∃ r : Except Error Yaml, Secrets.load w.files w.directory = .ok secrets ∧
        Opened { w with secrets } id (.ofText text) as (r.map fun _ => ()) ∧
        result = r.bind (ofYaml processors (.ofText text))) :=
  ⟨fun _ _ _ => loadFile_opened_exact hw, fun hparent _ _ => load_opened_exact hw hparent⟩

end Meant

/-- A file that includes another from a directory below its own. -/
def greeting : Sources where
  files := { entries := [
    (["conf", "domus.yaml"], .file (some "!include texts/hello.yaml")),
    (["conf", "texts", "hello.yaml"], .file (some "hello"))] }
  environment _ := none
  directory := .ofText "/conf"

theorem read?_greeting : Yaml.read? "!include texts/hello.yaml" =
    some (.tagged "include" (.string "texts/hello.yaml")) :=
  read?_include (by decide +kernel) rfl

theorem place_greeting : greeting.place (.ofText "domus.yaml") = .ofText "/conf/domus.yaml" := by
  decide +kernel

theorem greeting_makes : (loadFile greeting 2 (.ofText "domus.yaml")).Makes []
    [.opened (.ofText "/conf/domus.yaml"), .tested (.ofText "/conf/texts/hello.yaml"),
      .opened (.ofText "/conf/texts/hello.yaml")] (.ok (.string "hello")) := by
  have htarget : greeting.target (.ofText "/conf/domus.yaml") "texts/hello.yaml" =
      .ofText "/conf/texts/hello.yaml" := by decide +kernel
  have hhello : Yaml.read? "hello" = some (.string "hello") :=
    Yaml.read?_scalar (by decide +kernel : Yaml.tokens? _ = some [.scalar "hello" true]) rfl rfl
  have hinner : (loadFile greeting 1 (.ofText "/conf/texts/hello.yaml")).Makes
      [.ofText "/conf/domus.yaml"] [.opened (.ofText "/conf/texts/hello.yaml")]
      (.ok (.string "hello")) := by
    refine loadFile_makes_iff.mpr
      (.text (by decide +kernel) (by decide +kernel : _ = some "hello") ?_)
    rw [loadTextWith, hhello]
    rfl
  refine loadFile_makes_iff.mpr (place_greeting.symm ▸ .text (by simp)
    (by decide +kernel : _ = some "!include texts/hello.yaml") ?_)
  rw [loadTextWith_include read?_greeting]
  refine (settle_file_makes_iff (tidy_loadFile 1)).mpr ⟨_, by rw [htarget], ?_⟩
  rw [htarget, if_pos (by decide +kernel)]
  exact hinner

theorem opened_as_meant_greeting : greeting.Fixed greeting.directory ∧
    Opened greeting id (.ofText "/conf/domus.yaml")
      [.opened (.ofText "/conf/domus.yaml"), .tested (.ofText "/conf/texts/hello.yaml"),
        .opened (.ofText "/conf/texts/hello.yaml")] (.ok ()) ∧
    ∃ result, load 1 2 greeting.files greeting.environment (.ofText "/conf/domus.yaml") =
        some result ∧
      ∃ as, ∃ r : Except Error Yaml,
        Opened greeting id (.ofText "/conf/domus.yaml") as (r.map fun _ => ()) ∧
        result = r.bind (ofYaml 1 (.ofText "/conf/domus.yaml")) := by
  have hw : greeting.Fixed greeting.directory := .inl (by decide +kernel)
  have hopened := (opened_as_meant hw).1 _ _ _ greeting_makes
  rw [place_greeting] at hopened
  have hparent : (Path.ofText "/conf/domus.yaml").parent? = some greeting.directory := by
    decide +kernel
  have hsecrets : Secrets.load greeting.files greeting.directory = .ok {} := by rfl
  have hload : load 1 2 greeting.files greeting.environment (.ofText "/conf/domus.yaml") =
      some ((Except.ok (.string "hello")).bind (ofYaml 1 (.ofText "/conf/domus.yaml"))) := by
    have hplace : greeting.place (.ofText "/conf/domus.yaml") =
        greeting.place (.ofText "domus.yaml") := by decide +kernel
    have hmakes := (loadFile_makes_congr hplace).mpr greeting_makes
    rw [load, hparent, Option.getD_some, loadYaml, hsecrets]
    exact congrArg (Option.map _) (congrArg (Option.map Prod.fst) hmakes)
  refine ⟨hw, hopened, _, hload, ?_⟩
  rcases (opened_as_meant hw).2 hparent _ _ hload with
    ⟨e, he, -⟩ | ⟨secrets, as, r, hok, hfile, hresult⟩
  · cases hsecrets.symm.trans he
  · cases hsecrets.symm.trans hok
    exact ⟨as, r, hfile, hresult⟩

def relativeGreeting : Sources := { greeting with directory := .ofText "conf" }

/-- From a relative directory the file that is included is there, and so is the configuration, but
both are looked for below a second directory of that name. -/
theorem relativeGreeting_unreadable :
    relativeGreeting.files.read? (.ofText "conf/texts/hello.yaml") = some "hello" ∧
    (loadFile relativeGreeting 2 (.ofText "domus.yaml")).Makes []
      [.opened (.ofText "conf/domus.yaml"), .tested (.ofText "conf/texts/hello.yaml"),
        .opened (.ofText "conf/conf/texts/hello.yaml")]
      (.error (.unreadable (.ofText "conf/conf/texts/hello.yaml"))) ∧
    load 1 2 relativeGreeting.files relativeGreeting.environment (.ofText "conf/domus.yaml") =
      some (.error (.unreadable (.ofText "conf/conf/domus.yaml"))) := by
  refine ⟨by decide +kernel, ?_, by rfl⟩
  have hplace : relativeGreeting.place (.ofText "domus.yaml") = .ofText "conf/domus.yaml" := by
    decide +kernel
  have htarget : relativeGreeting.target (.ofText "conf/domus.yaml") "texts/hello.yaml" =
      .ofText "conf/texts/hello.yaml" := by decide +kernel
  have hagain : relativeGreeting.place (.ofText "conf/texts/hello.yaml") =
      .ofText "conf/conf/texts/hello.yaml" := by decide +kernel
  have htext : relativeGreeting.files.read? (.ofText "conf/domus.yaml") =
      some "!include texts/hello.yaml" := by decide +kernel
  rw [loadFile_makes_iff, hplace]
  refine .text (by simp) htext ?_
  rw [loadTextWith_include read?_greeting]
  refine (settle_file_makes_iff (tidy_loadFile 1)).mpr ⟨_, by rw [htarget], ?_⟩
  rw [htarget, if_pos (by decide +kernel)]
  rw [loadFile_makes_iff, hagain]
  exact .unreadable (by decide +kernel) (by decide +kernel)

end HomeAutomation.Config
