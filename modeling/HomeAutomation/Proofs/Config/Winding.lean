import HomeAutomation.Proofs.Config.Cycles

/-! A file that includes itself by way of a directory beside it. Its path gets longer each time, so
no two are the same path, and loading does not end at any depth. -/

namespace HomeAutomation.Config

section Stages

variable {w : Sources} {stage : Nat → Path}

/-- Loading does not end if each file of a sequence includes the next and no two of their paths are
the same. -/
theorem not_makes_stage (habs : ∀ k, (stage k).isAbsolute = true)
    (hapart : ∀ j k, j < k → (stage k).same (stage j) = false)
    (hnext : ∀ k, ∃ text target, w.files.read? (stage k) = some text ∧
      Yaml.read? text = some (.tagged "include" (.string target)) ∧
      w.target (stage k) target = stage (k + 1))
    {d k : Nat} {stack : List Path} (hstack : ∀ q ∈ stack, ∃ j < k, q = stage j)
    {as : List Access} {r : Except Error Yaml} : ¬ (loadFile w d (stage k)).Makes stack as r := by
  induction d generalizing k stack as r with
  | zero => exact fun h => nomatch h
  | succ d ih =>
    intro h
    obtain ⟨text, target, hread, hyaml, htarget⟩ := hnext k
    rw [loadFile_makes_iff_of_isAbsolute (habs k)] at h
    cases h with
    | circular hq hsame =>
      obtain ⟨j, hj, rfl⟩ := hstack _ hq
      simp [hapart j k hj] at hsame
    | unreadable _ hread' => simp [hread] at hread'
    | text _ hread' hmakes =>
      obtain rfl := Option.some.inj (hread.symm.trans hread')
      rw [loadTextWith_include hyaml] at hmakes
      obtain ⟨as', -, hfile⟩ := (settle_file_makes_iff (tidy_loadFile d)).mp hmakes
      obtain ⟨text', _, hread'', -, -⟩ := hnext (k + 1)
      rw [htarget, if_pos (Files.contains_of_read? hread'')] at hfile
      refine ih (fun q hq => ?_) hfile
      rcases List.mem_cons.mp hq with rfl | hq
      · exact ⟨k, Nat.lt_succ_self k, rfl⟩
      · obtain ⟨j, hj, rfl⟩ := hstack q hq
        exact ⟨j, Nat.lt_succ_of_lt hj, rfl⟩

end Stages

/-- In the directory at `base`, the file of this name includes itself through the directory
`aside`. -/
structure Winding (w : Sources) (base : Location) (aside name text target : String) : Prop where
  proper : ∀ n ∈ base ++ [aside, name], Path.component? n = some (.name n)
  reached : w.files.walk? [] ("" :: base) = some base
  directory : w.files.isDirectory base = true
  beside : w.files.entry? (base ++ [aside]) = some .directory
  file : w.files.entry? (base ++ [name]) = some (.file (some text))
  document : Yaml.read? text = some (.tagged "include" (.string target))
  detour : Path.ofText target = ⟨[aside, "..", name]⟩
  unbounded : w.files.longestPath = none

def turns (aside : String) : Nat → List String
  | 0 => []
  | k + 1 => turns aside k ++ [aside, ".."]

def winding (base : Location) (aside name : String) (k : Nat) : Path :=
  ⟨"" :: (base ++ turns aside k) ++ [name]⟩

section Winding

variable {w : Sources} {base : Location} {aside name text target : String}

theorem length_turns (k : Nat) : (turns aside k).length = 2 * k := by
  induction k with
  | zero => rfl
  | succ k ih =>
    simp only [turns, List.length_append, ih, List.length_cons, List.length_nil]
    omega

theorem isAbsolute_winding (k : Nat) : (winding base aside name k).isAbsolute = true :=
  Path.isAbsolute_iff.mpr ⟨base ++ turns aside k ++ [name], by simp, rfl⟩

theorem Winding.isSome_component? (h : Winding w base aside name text target) (k : Nat) :
    ∀ n ∈ base ++ turns aside k ++ [name], (Path.component? n).isSome = true := by
  have hproper : ∀ n ∈ base ++ [aside, name], (Path.component? n).isSome = true :=
    fun n hn => by rw [h.proper n hn]; rfl
  induction k with
  | zero =>
    intro n hn
    refine hproper n ?_
    simp only [turns, List.append_nil, List.mem_append, List.mem_singleton] at hn
    simp only [List.mem_append, List.mem_cons]
    tauto
  | succ k ih =>
    intro n hn
    simp only [turns, List.mem_append, List.mem_cons, List.not_mem_nil, or_false] at hn
    by_cases hup : n = ".."
    · subst hup
      rfl
    · by_cases haside : n = aside
      · exact hproper n (by simp [haside])
      · refine ih n ?_
        simp only [List.mem_append, List.mem_singleton]
        tauto

theorem Winding.target_winding (h : Winding w base aside name text target) (k : Nat) :
    w.target (winding base aside name k) target = winding base aside name (k + 1) := by
  have hrel : (⟨[aside, "..", name]⟩ : Path).isAbsolute = false := by
    refine Bool.eq_false_iff.mpr fun habs => ?_
    obtain ⟨rest, -, heq⟩ := Path.isAbsolute_iff.mp habs
    have haside := h.proper aside (by simp)
    rw [(List.cons.inj heq).1] at haside
    cases haside
  rw [Sources.target, h.detour, winding, Path.parent?_join (h.isSome_component? k) hrel, winding]
  simp [turns]

theorem Winding.not_same (h : Winding w base aside name text target) {j k : Nat} (hjk : j < k) :
    (winding base aside name k).same (winding base aside name j) = false := by
  have hlength : ∀ k, (winding base aside name k).components.length = base.length + 2 * k + 2 := by
    intro k
    have hall := List.filterMap_length_eq_length.mpr (h.isSome_component? k)
    have hcomponents : (winding base aside name k).components =
        .root :: (base ++ turns aside k ++ [name]).filterMap Path.component? := by
      rw [Path.components, isAbsolute_winding]
      rfl
    rw [hcomponents, List.length_cons, hall]
    simp only [List.length_append, length_turns, List.length_singleton]
  refine decide_eq_false fun heq => ?_
  have hlengths := congrArg List.length heq
  rw [hlength, hlength] at hlengths
  omega

theorem Winding.walk?_turns (h : Winding w base aside name text target) (k : Nat) :
    w.files.walk? base (turns aside k) = some base := by
  induction k with
  | zero => rfl
  | succ k ih =>
    have haside : w.files.isDirectory (base ++ [aside]) = true := by
      simp [Files.isDirectory, h.beside]
    rw [turns, Files.walk?_append, ih, Option.bind_some,
      Files.walk?_name (h.proper aside (by simp)) h.directory (by simp [h.beside]),
      Files.walk?_up haside, List.dropLast_concat]
    rfl

theorem Winding.read?_winding (h : Winding w base aside name text target) (k : Nat) :
    w.files.read? (winding base aside name k) = some text := by
  have hwalk : w.files.walk? [] (winding base aside name k).names = some (base ++ [name]) := by
    have hsplit : (winding base aside name k).names =
        ("" :: base) ++ (turns aside k ++ [name]) := by simp [winding]
    rw [hsplit, Files.walk?_append, h.reached, Option.bind_some, Files.walk?_append,
      h.walk?_turns, Option.bind_some,
      Files.walk?_name (h.proper name (by simp)) h.directory (by simp [h.file])]
    rfl
  have htext : (winding base aside name k).text ≠ "" := by
    cases hrest : base ++ turns aside k ++ [name] with
    | nil => simp at hrest
    | cons n ns =>
      rw [Path.text, winding, List.cons_append, hrest, String.intercalate_cons_cons]
      simp
  rw [Files.read?, Files.locate?, if_neg (by simp [htext, h.unbounded]), isAbsolute_winding,
    if_pos rfl, hwalk, Option.bind_some, h.file]

/-- Whatever the depth, loading the file does not end. -/
theorem Winding.result?_eq_none (h : Winding w base aside name text target) (depth : Nat) :
    (loadFile w depth (winding base aside name 0)).result? = none := by
  cases hrun : (loadFile w depth (winding base aside name 0)).run.run {} with
  | none => exact congrArg (Option.map Prod.fst) hrun
  | some rt =>
    obtain ⟨as, -, hmakes⟩ := (tidy_loadFile depth _).exists_makes hrun
    exact absurd hmakes (not_makes_stage isAbsolute_winding (fun _ _ => h.not_same)
      (fun k => ⟨text, target, h.read?_winding k, h.document, h.target_winding k⟩) (by simp))

end Winding

def detour : Sources where
  files := { entries := [(["a.yaml"], .file (some "!include sub/../a.yaml")), (["sub"], .directory)] }
  environment _ := none
  directory := .ofText "/"

theorem winding_detour :
    Winding detour [] "sub" "a.yaml" "!include sub/../a.yaml" "sub/../a.yaml" where
  proper := by decide
  reached := by decide
  directory := by decide
  beside := by decide
  file := by decide
  document := read?_include (by decide +kernel) rfl
  detour := by decide +kernel
  unbounded := rfl

/-- The file comes back to itself at once, but loading it does not end. -/
theorem detour_endless : Returns detour [] (.ofText "/a.yaml") ∧
    ∀ depth, (loadFile detour depth (.ofText "/a.yaml")).result? = none := by
  have hstart : Path.ofText "/a.yaml" = winding [] "sub" "a.yaml" 0 := by decide +kernel
  rw [hstart]
  refine ⟨?_, winding_detour.result?_eq_none⟩
  refine .within (by simp) (winding_detour.read?_winding 0) winding_detour.document rfl
    (rfl : (settleAll _ (loadFile _ 0) _ []).Makes _ [] _) ?_ ?_
  · rw [winding_detour.target_winding]
    decide +kernel
  · rw [winding_detour.target_winding]
    exact .here (.head _) (by decide +kernel : _ = some ["a.yaml"]) (by decide +kernel)

end HomeAutomation.Config
