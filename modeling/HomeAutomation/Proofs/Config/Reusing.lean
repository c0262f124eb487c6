import HomeAutomation.Proofs.Config.Cycles
import HomeAutomation.Proofs.Config.Replacing
import HomeAutomation.Proofs.Files.Beside
import Mathlib.Logic.Relation

/-! Loading more than once. Every load leaves the files that are being loaded as they were, so one
load after another goes as it would alone. A circle is found only on the way back to a file that is
being loaded; where there is none, neither does it matter which files are being loaded, nor by
which path a file was come to. -/

namespace HomeAutomation.Config

/-- Loads one after another, each from where the last one left off, whether or not it failed. -/
def Sources.loadEach (w : Sources) (depth : Nat) :
    List Path → Progress → Option (List (Except Error Yaml) × Progress)
  | [], s => some ([], s)
  | p :: ps, s => (loadFile w depth p).run.run s |>.bind fun (r, t) =>
    (w.loadEach depth ps t).map fun (rs, u) => (r :: rs, u)

/-- Loading one file, with others being loaded, one comes to load another one within it. -/
inductive Reaches (w : Sources) : List Path → Path → List Path → Path → Prop where
  | here {stack : List Path} {path : Path} : Reaches w stack path stack path
  | within {stack stack' : List Path} {path path' : Path} {text target : String} {v : Yaml}
      {before after : List Mark} {depth : Nat} {as : List Access} {vs : List Yaml} :
      (∀ q ∈ stack, (w.place path).same q = false) →
      w.files.read? (w.place path) = some text → Yaml.read? text = some v →
      marks v = before ++ .file (.string target) :: after →
      MarksMake w (loadFile w depth) (w.place path) (w.place path :: stack) before as vs →
      w.files.contains (w.target (w.place path) target) = true →
      Reaches w (w.place path :: stack) (w.target (w.place path) target) stack' path' →
      Reaches w stack path stack' path'

/-- The file at the first path includes the one at the second. -/
def Includes (w : Sources) (x y : Path) : Prop :=
  ∃ text v target, w.files.read? x = some text ∧ Yaml.read? text = some v ∧
    .file (.string target) ∈ marks v ∧ y = w.place (w.target x target)

section Sequences

variable {w : Sources} {depth : Nat}

theorem result?_eq_run {m : Load Yaml} (hm : m.Tidy) {s : Progress} (hs : s.loading = []) :
    m.result? = (m.run.run s).map Prod.fst := by
  obtain ⟨_, as⟩ := s
  obtain rfl := hs
  cases hrun : m.run.run ⟨[], as⟩ with
  | some rt =>
    obtain ⟨r, t⟩ := rt
    obtain ⟨as', -, hmakes⟩ := hm.exists_makes hrun
    have hfresh : m.run.run {} = some (r, ⟨[], as'⟩) := hmakes
    simp [Load.result?, hfresh]
  | none =>
    cases hfresh : m.run.run {} with
    | none => simp [Load.result?, hfresh]
    | some rt =>
      obtain ⟨r, t⟩ := rt
      obtain ⟨as', -, hmakes⟩ := hm.exists_makes hfresh
      exact absurd ((hmakes.ends hm as).symm.trans hrun) (by simp)

theorem loading_of_ends {m : Load Yaml} (hm : m.Tidy) {s t : Progress} {r : Except Error Yaml}
    (h : m.Ends s r t) : t.loading = s.loading := by
  obtain ⟨as, rfl, -⟩ := hm _ _ _ h
  rfl

theorem loadEach_results (ps : List Path) {s : Progress} (hs : s.loading = []) :
    (w.loadEach depth ps s).map Prod.fst = ps.mapM fun p => (loadFile w depth p).result? := by
  induction ps generalizing s with
  | nil => rfl
  | cons p ps ih =>
    rw [List.mapM_cons, result?_eq_run (tidy_loadFile depth p) hs, Sources.loadEach]
    cases hrun : (loadFile w depth p).run.run s with
    | none => rfl
    | some rt =>
      obtain ⟨r, t⟩ := rt
      have ht : t.loading = [] := (loading_of_ends (tidy_loadFile depth p) hrun).trans hs
      rw [← ih ht]
      show ((w.loadEach depth ps t).map fun (rs, u) => (r :: rs, u)).map Prod.fst = _
      cases w.loadEach depth ps t <;> rfl

end Sequences

section Circles

variable {w : Sources} {stack : List Path} {path q : Path} {as : List Access}

theorem reaches_of_circular {d : Nat}
    (h : (loadFile w d path).Makes stack as (.error (.circularInclude q))) :
    ∃ stack' path', Reaches w stack path stack' path' ∧ q = w.place path' ∧
      ∃ x ∈ stack', q.same x = true := by
  induction d generalizing stack path as with
  | zero => cases h
  | succ d ih =>
    cases loadFile_makes_iff.mp h with
    | @circular x hx hsame => exact ⟨stack, path, .here, rfl, x, hx, hsame⟩
    | @text text as _ hfresh hread hmakes =>
      obtain ⟨v, before, target, after, as₁, as₂, hyaml, hmarks, hbefore, hthere, hfile⟩ :=
        exists_include_of_circular (tidy_loadFile d) hmakes
      obtain ⟨vs, hvs⟩ := (settleAll_makes_ok_iff (tidy_loadFile d)).mp hbefore
      obtain ⟨stack', path', hreaches, hq, hx⟩ := ih hfile
      exact ⟨stack', path', .within hfresh hread hyaml hmarks hvs hthere hreaches, hq, hx⟩

/-- The files that are being loaded, apart from those at the beginning, include one another up to
the one that is come to. -/
theorem Reaches.chain {stack' : List Path} {path' : Path} (h : Reaches w stack path stack' path') :
    Relation.ReflTransGen (Includes w) (w.place path) (w.place path') ∧
      ∃ chain, stack' = chain ++ stack ∧ ∀ x ∈ chain,
        Relation.ReflTransGen (Includes w) (w.place path) x ∧
          Relation.TransGen (Includes w) x (w.place path') := by
  induction h with
  | here => exact ⟨.refl, [], rfl, by simp⟩
  | @within stack stack' path path' text target v before after depth as vs _ hread hyaml hmarks _ _
    _ ih =>
    obtain ⟨hpath, chain, rfl, hchain⟩ := ih
    have hincludes : Includes w (w.place path) (w.place (w.target (w.place path) target)) :=
      ⟨text, v, target, hread, hyaml, by simp [hmarks], rfl⟩
    refine ⟨.head hincludes hpath, chain ++ [w.place path], by simp, fun x hx => ?_⟩
    rcases List.mem_append.mp hx with hx | hx
    · exact ⟨.head hincludes (hchain x hx).1, (hchain x hx).2⟩
    · obtain rfl := List.mem_singleton.mp hx
      exact ⟨.refl, .head' hincludes hpath⟩

theorem circular_iff_reaches :
    (∃ d as, (loadFile w d path).Makes stack as (.error (.circularInclude q))) ↔
      ∃ stack' path', Reaches w stack path stack' path' ∧ q = w.place path' ∧
        ∃ x ∈ stack', q.same x = true := by
  constructor
  · rintro ⟨d, as, h⟩
    exact reaches_of_circular h
  · rintro ⟨stack', path', h, hq, x, hx, hsame⟩
    induction h with
    | here => exact ⟨1, [], loadFile_makes_iff.mpr (hq ▸ .circular hx (hq ▸ hsame))⟩
    | @within stack stack' path path' text target v before after depth as vs hfresh hread hyaml
      hmarks hbefore hthere _ ih =>
      obtain ⟨d, as', hcircle⟩ := ih hq hx
      -- What is settled at some depth and what fails at another do so at the greater one.
      have hokay : (settleAll w (loadFile w (max depth d)) (w.place path) before).Makes
          (w.place path :: stack) as (.ok ()) :=
        Load.compositional_extends.settleAll (loadFile_extends (Nat.le_max_left depth d)) before
          _ _ _ ((settleAll_makes_ok_iff (tidy_loadFile depth)).mpr ⟨vs, hbefore⟩)
      have hfail : (settle w (loadFile w (max depth d)) (w.place path)
          (.file (.string target))).Makes (w.place path :: stack)
          (.tested (w.target (w.place path) target) :: as') (.error (.circularInclude q)) := by
        refine (settle_file_makes_iff (tidy_loadFile _)).mpr ⟨as', rfl, ?_⟩
        rw [if_pos hthere]
        exact loadFile_extends (Nat.le_max_right depth d) _ _ _ _ hcircle
      exact ⟨max depth d + 1, _, loadFile_makes_iff.mpr (.text hfresh hread
        (loadTextWith_makes_of_error (tidy_loadFile _) hyaml hmarks hokay hfail))⟩

theorem not_circular_of_acyclic
    (hacyclic : ∀ x y, Relation.ReflTransGen (Includes w) (w.place path) x →
      Relation.TransGen (Includes w) x y → y.same x = false) {d : Nat} :
    ¬ (loadFile w d path).Makes [] as (.error (.circularInclude q)) := by
  intro h
  obtain ⟨stack', path', hreaches, rfl, x, hx, hsame⟩ := reaches_of_circular h
  obtain ⟨-, chain, rfl, hchain⟩ := hreaches.chain
  obtain ⟨hstart, hback⟩ := hchain x (by simpa using hx)
  simp [hacyclic x _ hstart hback] at hsame

end Circles

/-- Unless it ends with a circle, a load goes alike when fewer files are being loaded. -/
def Load.Unhindered {α : Type} (m : Load α) : Prop :=
  ∀ s r t, m.Ends s r t → (∀ q, r ≠ .error (.circularInclude q)) → t.loading = s.loading ∧
    ∀ stack, stack ⊆ s.loading → m.Ends { s with loading := stack } r { t with loading := stack }

theorem Load.compositional_unhindered : Compositional fun m _ => Unhindered m where
  pure a := by
    intro s r t h _
    obtain ⟨rfl, rfl⟩ := ends_pure_iff.mp h
    exact ⟨rfl, fun stack _ => ends_pure_iff.mpr ⟨rfl, rfl⟩⟩
  fail e := by
    intro s r t h _
    obtain ⟨rfl, rfl⟩ := ends_fail_iff.mp h
    exact ⟨rfl, fun stack _ => ends_fail_iff.mpr ⟨rfl, rfl⟩⟩
  note a := by
    intro s r t h _
    obtain ⟨rfl, rfl⟩ := ends_note_iff.mp h
    exact ⟨rfl, fun stack _ => ends_note_iff.mpr ⟨rfl, rfl⟩⟩
  bind {α β m _ k _} hm hk := by
    intro s r u h hr
    rcases h.bind_inv with ⟨e, rfl, hends⟩ | ⟨a, t, hends, hrest⟩
    · obtain ⟨hloading, hfewer⟩ := hm _ _ _ hends fun q heq => by
        cases heq
        exact hr q rfl
      exact ⟨hloading, fun stack hstack => (hfewer stack hstack).bind_error⟩
    · obtain ⟨hloading, hfewer⟩ := hm _ _ _ hends fun q => by simp
      obtain ⟨hloading', hfewer'⟩ := hk a _ _ _ hrest hr
      exact ⟨hloading'.trans hloading, fun stack hstack =>
        (hfewer stack hstack).bind (hfewer' stack (hloading ▸ hstack))⟩

section Stacks

variable {w : Sources} {stack stack' : List Path} {p p' : Path} {as as' : List Access}
  {r r' : Except Error Yaml} {d d' : Nat}

theorem loadTextWith_unhindered {load : Path → Load Yaml} (hload : ∀ p, (load p).Unhindered)
    (source : Path) (text : String) : (loadTextWith w load source text).Unhindered := by
  unfold loadTextWith
  split
  · exact Load.compositional_unhindered.fail _
  · exact @Load.Compositional.resolve _ w load load source Load.compositional_unhindered hload _

theorem loadFile_unhindered (d : Nat) (p : Path) : (loadFile w d p).Unhindered := by
  induction d generalizing p with
  | zero => exact fun _ _ _ h => nomatch h
  | succ d ih =>
    intro s r t h hr
    obtain ⟨as, rfl, hmakes⟩ := (loadFile_ends_iff (tidy_loadFile d)).mp h
    refine ⟨rfl, fun stack hstack => (loadFile_ends_iff (tidy_loadFile d)).mpr ⟨as, rfl, ?_⟩⟩
    cases hmakes with
    | circular => exact absurd rfl (hr _)
    | unreadable hfresh hread => exact .unreadable (fun q hq => hfresh q (hstack hq)) hread
    | text hfresh hread hmakes =>
      refine .text (fun q hq => hfresh q (hstack hq)) hread ?_
      exact (loadTextWith_unhindered ih _ _ _ _ _ hmakes hr).2 _ (List.cons_subset_cons _ hstack)

/-- Wherever a file is loaded, unless there is a circle the same comes out, after the same
accesses. -/
theorem loadFile_makes_agree (h : (loadFile w d p).Makes stack as r)
    (h' : (loadFile w d' p').Makes stack' as' r') (hp : w.place p = w.place p')
    (hr : ∀ q, r ≠ .error (.circularInclude q)) (hr' : ∀ q, r' ≠ .error (.circularInclude q)) :
    r = r' ∧ as = as' := by
  have halone : (loadFile w d p).Makes [] as r :=
    (loadFile_unhindered d p _ _ _ h hr).2 [] (List.nil_subset _)
  have halone' : (loadFile w d' p').Makes [] as' r' :=
    (loadFile_unhindered d' p' _ _ _ h' hr').2 [] (List.nil_subset _)
  have hdeep := loadFile_extends (Nat.le_max_left d d') p _ _ _ halone
  have hdeep' := loadFile_extends (Nat.le_max_right d d') p' _ _ _ halone'
  obtain ⟨rfl, heq⟩ := hdeep.unique ((loadFile_makes_congr hp).mpr hdeep')
  exact ⟨rfl, congrArg Progress.accesses heq⟩

end Stacks

section Routes

mutual

theorem Replaced.unique : ∀ {v vs u u'}, Replaced v vs u → Replaced v vs u' → u = u'
  | _, _, _, _, .mark _, .mark _ => rfl
  | _, _, _, _, .mark h, .tagged h' _ => by simp [h] at h'
  | _, _, _, _, .tagged h _, .mark h' => by simp [h] at h'
  | _, _, _, _, .tagged _ hu, .tagged _ hu' => congrArg _ (hu.unique hu')
  | _, _, _, _, .sequence hus, .sequence hus' => congrArg _ (hus.unique hus')
  | _, _, _, _, .mapping hus, .mapping hus' => congrArg _ (hus.unique hus')
  | _, _, _, _, .null, .null | _, _, _, _, .bool, .bool | _, _, _, _, .int, .int
  | _, _, _, _, .float, .float | _, _, _, _, .string, .string => rfl

theorem ReplacedAll.unique : ∀ {items vs us us'}, ReplacedAll items vs us →
    ReplacedAll items vs us' → us = us'
  | _, _, _, _, .nil, .nil => rfl
  | _, _, _, _, @ReplacedAll.cons _ _ _ _ vs vs' hu hus, h => by
    generalize hws : vs ++ vs' = ws at h
    cases h with
    | cons hu' hus' =>
      obtain ⟨rfl, rfl⟩ := List.append_inj hws (hu.length_eq.trans hu'.length_eq.symm)
      rw [hu.unique hu', hus.unique hus']

theorem ReplacedEntries.unique : ∀ {entries vs us us'}, ReplacedEntries entries vs us →
    ReplacedEntries entries vs us' → us = us'
  | _, _, _, _, .nil, .nil => rfl
  | _, _, _, _, @ReplacedEntries.cons _ _ _ _ _ vs vs' hu hus, h => by
    generalize hws : vs ++ vs' = ws at h
    cases h with
    | cons hu' hus' =>
      obtain ⟨rfl, rfl⟩ := List.append_inj hws (hu.length_eq.trans hu'.length_eq.symm)
      rw [hu.unique hu', hus.unique hus']

end

variable {w : Sources} {load : Path → Load Yaml} {stack stack' : List Path} {p p' : Path}
  {as as' : List Access} {d d' : Nat}

/-- The same marks of two sources are settled with the same values if the files that they stand for
have the same values. -/
theorem MarksMake.unique {ms : List Mark} {vs vs' : List Yaml}
    (hfile : ∀ text u u' as as', w.files.contains (w.target p text) = true →
      w.files.contains (w.target p' text) = true →
      (load (w.target p text)).Makes stack as (.ok u) →
      (load (w.target p' text)).Makes stack' as' (.ok u') → u = u')
    (h : MarksMake w load p stack ms as vs) (h' : MarksMake w load p' stack' ms as' vs') :
    vs = vs' := by
  induction h generalizing as' vs' with
  | nil =>
    cases h'
    rfl
  | cons hm _ ih =>
    cases h' with
    | cons hm' hms' =>
      rw [ih hms']
      congr 1
      cases hm with
      | file hthere hmakes =>
        cases hm' with
        | file hthere' hmakes' => exact hfile _ _ _ _ _ hthere hthere' hmakes hmakes'
      | secret hkey =>
        cases hm' with
        | secret hkey' => exact Option.some.inj (hkey.symm.trans hkey')
      | «variable» hsplit hvalue =>
        cases hm' with
        | «variable» hsplit' hvalue' =>
          cases hsplit.symm.trans hsplit'
          rw [Option.some.inj (hvalue.symm.trans hvalue')]

/-- Whatever is included from a file is in the same place by whatever path the file was come to. -/
theorem locate?_target (hfiles : w.files.Grounded) {x text : String}
    (hread : w.files.read? p = some x) (hp : w.files.locate? p = w.files.locate? p')
    (hthere : w.files.contains (w.target p text) = true)
    (hthere' : w.files.contains (w.target p' text) = true) :
    w.files.locate? (w.target p text) = w.files.locate? (w.target p' text) := by
  obtain ⟨l, hl, hentry⟩ := Files.exists_file_of_read? hread
  have hfile : w.files.isDirectory l = false := by simp [Files.isDirectory, hentry]
  obtain ⟨m, hm⟩ := Option.isSome_iff_exists.mp hthere
  obtain ⟨m', hm'⟩ := Option.isSome_iff_exists.mp hthere'
  have hwalk := Files.walk?_beside hfiles hl hfile (Path.names_ofText_ne_nil text) hm
  have hwalk' := Files.walk?_beside hfiles (hp ▸ hl) hfile (Path.names_ofText_ne_nil text) hm'
  rw [hm, hm', ← hwalk, hwalk']

theorem loadFile_value_unique (hw : w.Fixed w.directory) (hfiles : w.files.Grounded) {u u' : Yaml}
    (hp : w.Fixed p) (hp' : w.Fixed p') (hsame : w.files.locate? p = w.files.locate? p')
    (h : (loadFile w d p).Makes stack as (.ok u))
    (h' : (loadFile w d p').Makes stack' as' (.ok u')) : u = u' := by
  induction d generalizing p p' stack stack' as as' u u' with
  | zero => cases h
  | succ d ih =>
    rw [loadFile_makes_iff, hp.place_eq] at h
    rw [loadFile_makes_iff, hp'.place_eq] at h'
    cases h with
    | @text text as _ _ hread hmakes =>
      cases h' with
      | @text text' as' _ _ hread' hmakes' =>
        have htext : text = text' := by
          rw [Files.read?, hsame] at hread
          exact Option.some.inj (hread.symm.trans hread')
        subst htext
        cases hyaml : Yaml.read? text with
        | none =>
          rw [loadTextWith, hyaml] at hmakes
          cases hmakes
        | some v =>
          simp only [loadTextWith, hyaml] at hmakes hmakes'
          obtain ⟨vs, hvs, hu⟩ := (resolve_makes_ok_iff (tidy_loadFile d) v).mp hmakes
          obtain ⟨vs', hvs', hu'⟩ := (resolve_makes_ok_iff (tidy_loadFile d) v).mp hmakes'
          have hvalues : vs = vs' := hvs.unique (fun target u u' as as' hthere hthere' =>
            ih (hw.target hp target) (hw.target hp' target)
              (locate?_target hfiles hread hsame hthere hthere')) hvs'
          exact hu.unique (hvalues ▸ hu')

end Routes

theorem Sources.Fixed.place_of_names {w : Sources} (hw : w.Fixed w.directory) {p : Path}
    (hp : p.names ≠ []) : w.Fixed (w.place p) := by
  refine hw.imp_left fun habs => ?_
  unfold Sources.place
  split
  · assumption
  · exact Path.isAbsolute_join habs hp

/-- A loader can be used again, and finds no circles where there are none. A load leaves the files
that are being loaded as they were, so of loads one after another each does what it would alone. A
circle is found just where a file is come to that is being loaded; if none includes itself, in
however many steps, there is no circle. Otherwise a file is loaded alike from wherever it is come
to, and its value is the same by every path that leads there. -/
theorem loadFile_reusable (w : Sources) :
    (∀ depth path s r t, (loadFile w depth path).Ends s r t → t.loading = s.loading) ∧
    (∀ depth text s r t, (loadText w depth text).Ends s r t → t.loading = s.loading) ∧
    (∀ depth paths s, s.loading = [] → (w.loadEach depth paths s).map Prod.fst =
      paths.mapM fun p => (loadFile w depth p).result?) ∧
    (∀ stack path q,
      (∃ depth as, (loadFile w depth path).Makes stack as (.error (.circularInclude q))) ↔
        ∃ stack' path', Reaches w stack path stack' path' ∧ q = w.place path' ∧
          ∃ x ∈ stack', q.same x = true) ∧
    (∀ path, (∀ x y, Relation.ReflTransGen (Includes w) (w.place path) x →
        Relation.TransGen (Includes w) x y → y.same x = false) →
      ∀ depth as q, ¬ (loadFile w depth path).Makes [] as (.error (.circularInclude q))) ∧
    (∀ depth depth' path path' stack stack' as as' r r', w.place path = w.place path' →
      (loadFile w depth path).Makes stack as r → (loadFile w depth' path').Makes stack' as' r' →
      (∀ q, r ≠ .error (.circularInclude q)) → (∀ q, r' ≠ .error (.circularInclude q)) →
      r = r' ∧ as = as') ∧
    (w.Fixed w.directory → w.files.Grounded → ∀ depth depth' path path' stack stack' as as' u u',
      path.names ≠ [] → path'.names ≠ [] →
      w.files.locate? (w.place path) = w.files.locate? (w.place path') →
      (loadFile w depth path).Makes stack as (.ok u) →
      (loadFile w depth' path').Makes stack' as' (.ok u') → u = u') := by
  refine ⟨fun depth path s r t => loading_of_ends (tidy_loadFile depth path),
    fun depth text s r t => loading_of_ends (tidy_loadTextWith (tidy_loadFile depth)),
    fun depth paths s => loadEach_results paths, fun stack path q => circular_iff_reaches,
    fun path hacyclic depth as q => not_circular_of_acyclic hacyclic,
    fun depth depth' path path' stack stack' as as' r r' hp h h' => loadFile_makes_agree h h' hp,
    ?_⟩
  intro hw hfiles depth depth' path path' stack stack' as as' u u' hp hp' hsame h h'
  have hfixed := hw.place_of_names hp
  have hfixed' := hw.place_of_names hp'
  have hdeep := loadFile_extends (Nat.le_max_left depth depth') path _ _ _ h
  have hdeep' := loadFile_extends (Nat.le_max_right depth depth') path' _ _ _ h'
  exact loadFile_value_unique hw hfiles hfixed hfixed' hsame
    ((loadFile_makes_congr hfixed.place_eq).mpr hdeep)
    ((loadFile_makes_congr hfixed'.place_eq).mpr hdeep')

/-- A file that includes another one twice, the first time by a longer path. -/
def twice : Sources where
  files := { entries := [
    (["a.yaml"], .file (some "- !include sub/../d.yaml\n- !include d.yaml")),
    (["d.yaml"], .file (some "hello")), (["sub"], .directory)] }
  environment _ := none
  directory := .ofText "/"

theorem read?_twice_a : Yaml.read? "- !include sub/../d.yaml\n- !include d.yaml" = some (.sequence
    [.tagged "include" (.string "sub/../d.yaml"), .tagged "include" (.string "d.yaml")]) := by
  have htokens : Yaml.tokens? "- !include sub/../d.yaml\n- !include d.yaml" = some [.beginSequence,
      .dash, .tag "!" ("include".toList.map some), .scalar "sub/../d.yaml" true, .dash,
      .tag "!" ("include".toList.map some), .scalar "d.yaml" true, .dedent] := by decide +kernel
  rw [Yaml.read?, Yaml.Document.read?, htokens]
  rfl

theorem place_twice_a : twice.place (.ofText "a.yaml") = .ofText "/a.yaml" := by decide +kernel

theorem text_twice_a : twice.files.read? (.ofText "/a.yaml") =
    some "- !include sub/../d.yaml\n- !include d.yaml" := by decide +kernel

theorem includes_twice {y : Path} (h : Includes twice (.ofText "/a.yaml") y) :
    y = .ofText "/sub/../d.yaml" ∨ y = .ofText "/d.yaml" := by
  obtain ⟨text, v, target, hread, hyaml, hmem, rfl⟩ := h
  cases text_twice_a.symm.trans hread
  cases read?_twice_a.symm.trans hyaml
  obtain rfl | rfl : target = "sub/../d.yaml" ∨ target = "d.yaml" := by
    simpa [marks, marksAll, Mark.ofTag?] using hmem
  · exact .inl (by decide +kernel)
  · exact .inr (by decide +kernel)

theorem not_includes_twice {x y : Path} (hx : twice.files.read? x = some "hello") :
    ¬ Includes twice x y := by
  rintro ⟨text, v, target, hread, hyaml, hmem, -⟩
  cases hx.symm.trans hread
  cases read?_hello.symm.trans hyaml
  cases hmem

theorem acyclic_twice (x y : Path)
    (hx : Relation.ReflTransGen (Includes twice) (twice.place (.ofText "a.yaml")) x)
    (hy : Relation.TransGen (Includes twice) x y) : y.same x = false := by
  have hlast {y : Path} (h : Includes twice (.ofText "/a.yaml") y) :
      y.same (.ofText "/a.yaml") = false ∧ twice.files.read? y = some "hello" := by
    rcases includes_twice h with rfl | rfl <;> exact ⟨by decide +kernel, by decide +kernel⟩
  rw [place_twice_a] at hx
  obtain ⟨z, hxz, hzy⟩ := Relation.TransGen.head'_iff.mp hy
  rcases Relation.ReflTransGen.cases_head hx with rfl | ⟨x', hx', hrest⟩
  · obtain ⟨hapart, hread⟩ := hlast hxz
    rcases Relation.ReflTransGen.cases_head hzy with rfl | ⟨z', hz', -⟩
    · exact hapart
    · exact absurd hz' (not_includes_twice hread)
  · have hread := (hlast hx').2
    rcases Relation.ReflTransGen.cases_head hrest with rfl | ⟨z', hz', -⟩
    · exact absurd hxz (not_includes_twice hread)
    · exact absurd hz' (not_includes_twice hread)

theorem twice_makes_d {stack : List Path} {p : Path} (hp : p.isAbsolute = true)
    (hread : twice.files.read? p = some "hello") (hfresh : ∀ q ∈ stack, p.same q = false) :
    (loadFile twice 1 p).Makes stack [.opened p] (.ok (.string "hello")) := by
  refine (loadFile_makes_iff_of_isAbsolute hp).mpr (.text hfresh hread ?_)
  rw [loadTextWith, read?_hello]
  rfl

theorem twice_makes : (loadFile twice 2 (.ofText "a.yaml")).Makes []
    [.opened (.ofText "/a.yaml"),
      .tested (.ofText "/sub/../d.yaml"), .opened (.ofText "/sub/../d.yaml"),
      .tested (.ofText "/d.yaml"), .opened (.ofText "/d.yaml")]
    (.ok (.sequence [.string "hello", .string "hello"])) := by
  have hlong : twice.target (.ofText "/a.yaml") "sub/../d.yaml" = .ofText "/sub/../d.yaml" := by
    decide +kernel
  have hshort : twice.target (.ofText "/a.yaml") "d.yaml" = .ofText "/d.yaml" := by decide +kernel
  have hfile : MarkMakes twice (loadFile twice 1) (.ofText "/a.yaml") [.ofText "/a.yaml"]
      (.file (.string "sub/../d.yaml"))
      [.tested (.ofText "/sub/../d.yaml"), .opened (.ofText "/sub/../d.yaml")]
      (.ok (.string "hello")) :=
    .file_at hlong (by decide +kernel)
      (twice_makes_d (by decide +kernel) (by decide +kernel) (by decide +kernel))
  have hfile' : MarkMakes twice (loadFile twice 1) (.ofText "/a.yaml") [.ofText "/a.yaml"]
      (.file (.string "d.yaml")) [.tested (.ofText "/d.yaml"), .opened (.ofText "/d.yaml")]
      (.ok (.string "hello")) :=
    .file_at hshort (by decide +kernel)
      (twice_makes_d (by decide +kernel) (by decide +kernel) (by decide +kernel))
  rw [loadFile_makes_iff, place_twice_a]
  refine .text (by simp) text_twice_a ?_
  rw [loadTextWith, read?_twice_a]
  exact (resolve_makes_ok_iff (tidy_loadFile 1) _).mpr
    ⟨_, .cons hfile (.cons hfile' .nil), .sequence (.cons (.mark rfl) (.cons (.mark rfl) .nil))⟩

/-- Both includes give the value of the one file, and a load that fails before makes no
difference. -/
theorem loadFile_reusable_twice :
    (∀ x y, Relation.ReflTransGen (Includes twice) (twice.place (.ofText "a.yaml")) x →
      Relation.TransGen (Includes twice) x y → y.same x = false) ∧
    (∀ depth as q,
      ¬ (loadFile twice depth (.ofText "a.yaml")).Makes [] as (.error (.circularInclude q))) ∧
    twice.Fixed twice.directory ∧ twice.files.Grounded ∧
    (∀ depth stack as u, (loadFile twice depth (.ofText "/sub/../d.yaml")).Makes stack as (.ok u) →
      u = .string "hello") ∧
    (∀ depth stack as r, (∀ q, r ≠ .error (.circularInclude q)) →
      (loadFile twice depth (.ofText "a.yaml")).Makes stack as r →
      r = .ok (.sequence [.string "hello", .string "hello"])) ∧
    (twice.loadEach 2 [.ofText "e.yaml", .ofText "a.yaml"] {}).map Prod.fst =
      some [.error (.unreadable (.ofText "/e.yaml")),
        .ok (.sequence [.string "hello", .string "hello"])] := by
  obtain ⟨-, -, hfresh, -, hacyclic, hagree, hvalue⟩ := loadFile_reusable twice
  have hfixed : twice.Fixed twice.directory := .inl (by decide +kernel)
  have hgrounded : twice.files.Grounded := by
    intro l hl
    obtain rfl : l = [] := List.prefix_nil.mp hl
    decide +kernel
  have hlast : (loadFile twice 1 (.ofText "/d.yaml")).Makes [] [.opened (.ofText "/d.yaml")]
      (.ok (.string "hello")) := twice_makes_d (by decide +kernel) (by decide +kernel) (by simp)
  refine ⟨acyclic_twice, hacyclic _ acyclic_twice, hfixed, hgrounded, fun depth stack as u h => ?_,
    fun depth stack as r hr h => ?_, ?_⟩
  · exact hvalue hfixed hgrounded _ _ _ _ _ _ _ _ _ _ (by decide +kernel) (by decide +kernel)
      (by decide +kernel) h hlast
  · exact (hagree _ _ _ _ _ _ _ _ _ _ rfl h twice_makes hr (by simp)).1
  · have hmissing : (loadFile twice 2 (.ofText "e.yaml")).result? =
        some (.error (.unreadable (.ofText "/e.yaml"))) := by
      have hplace : twice.place (.ofText "e.yaml") = .ofText "/e.yaml" := by decide +kernel
      have hmakes : (loadFile twice 2 (.ofText "e.yaml")).Makes [] [.opened (.ofText "/e.yaml")]
          (.error (.unreadable (.ofText "/e.yaml"))) := by
        rw [loadFile_makes_iff, hplace]
        exact .unreadable (by simp) (by decide +kernel)
      exact congrArg (Option.map Prod.fst) hmakes
    have htwice : (loadFile twice 2 (.ofText "a.yaml")).result? =
        some (.ok (.sequence [.string "hello", .string "hello"])) :=
      congrArg (Option.map Prod.fst) twice_makes
    rw [hfresh 2 _ {} rfl]
    simp [hmissing, htwice]

end HomeAutomation.Config
