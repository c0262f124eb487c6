import HomeAutomation.Proofs.Config.Ending

/-! What secrets and variables have no say in. An outline knows which of them there are, but not
what they hold; a document is loaded from it with its marks for them left standing, and the same
paths and names are asked for. Loading from the sources themselves does what loading from their
outline does, and then puts the values in for the marks. So what is put in decides about nothing
else, whatever it looks like. -/

namespace HomeAutomation.Config

structure Outline where
  files : Files
  directory : Path
  hasSecret : String → Bool
  hasVariable : String → Bool

def Sources.outline (w : Sources) : Outline where
  files := w.files
  directory := w.directory
  hasSecret key := (w.secrets.get? key).isSome
  hasVariable name := (w.environment name).isSome

namespace Outline

variable (o : Outline)

/-- The sources with all secrets and variables taken away. -/
def bare : Sources where
  files := o.files
  environment _ := none
  directory := o.directory

def keepSecret : Yaml → Load Yaml
  | .string key =>
    if o.hasSecret key then do
      note (.secret key)
      return .tagged "secret" (.string key)
    else resolveSecret o.bare (.string key)
  | v => resolveSecret o.bare v

def keepVariable : Yaml → Load Yaml
  | .string text =>
    let (name, default?) := splitWord text.toList
    if o.hasVariable (String.ofList name) || default?.isSome then do
      note (.variable (String.ofList name))
      return .tagged "env_var" (.string text)
    else resolveVariable o.bare (.string text)
  | v => resolveVariable o.bare v

section Expand

variable (load : Path → Load Yaml) (source : Path)

mutual

/-- The value with the files in place of their marks, but secrets and variables still marked. -/
def expand : Yaml → Load Yaml
  | .tagged tag v =>
    if tag = "include" then resolveInclude o.bare load source v
    else if tag = "secret" then o.keepSecret v
    else if tag = "env_var" then o.keepVariable v
    else .tagged tag <$> expand v
  | .sequence items => .sequence <$> expandAll items
  | .mapping entries => .mapping <$> expandEntries entries
  | v => pure v

def expandAll : List Yaml → Load (List Yaml)
  | [] => pure []
  | v :: vs => do
    let v ← expand v
    return v :: (← expandAll vs)

def expandEntries : List (Yaml × Yaml) → Load (List (Yaml × Yaml))
  | [] => pure []
  | (k, v) :: es => do
    let v ← expand v
    return (k, v) :: (← expandEntries es)

end

def expandTextWith (text : String) : Load Yaml :=
  match Yaml.read? text with
  | none => fail (.malformed source)
  | some v => o.expand load source v

end Expand

def expandFile : Nat → Path → Load Yaml
  | 0, _ => ExceptT.mk fun _ => none
  | depth + 1, path => do
    let path := o.bare.place path
    if (← get).loading.any path.same then fail (.circularInclude path)
    else
      note (.opened path)
      match o.files.read? path with
      | none => fail (.unreadable path)
      | some text => whileLoading path (o.expandTextWith (expandFile depth) path text)

def expandText (depth : Nat) (text : String) : Load Yaml :=
  o.expandTextWith (o.expandFile depth) textSource text

end Outline

section Fill

variable (w : Sources)

def Sources.secretAt : Yaml → Yaml
  | .string key => (w.secrets.get? key).getD .null
  | v => v

def Sources.variableAt : Yaml → Yaml
  | .string text =>
    let (name, default?) := splitWord text.toList
    let set := w.environment (String.ofList name)
    ((set.or (default?.map String.ofList)).map reread).getD .null
  | v => v

mutual

/-- Puts in the values for the marks of secrets and variables, and does not look through them. -/
def Sources.fill : Yaml → Yaml
  | .tagged tag v =>
    if tag = "secret" then w.secretAt v
    else if tag = "env_var" then w.variableAt v
    else .tagged tag (fill v)
  | .sequence items => .sequence (fillAll items)
  | .mapping entries => .mapping (fillEntries entries)
  | v => v

def Sources.fillAll : List Yaml → List Yaml
  | [] => []
  | v :: vs => fill v :: fillAll vs

def Sources.fillEntries : List (Yaml × Yaml) → List (Yaml × Yaml)
  | [] => []
  | (k, v) :: es => (k, fill v) :: fillEntries es

end

end Fill

section Filled

variable {w : Sources} {load load' : Path → Load Yaml} {source : Path}

theorem resolveSecret_eq_fill (v : Yaml) :
    resolveSecret w v = w.fill <$> w.outline.keepSecret v := by
  cases v with
  | string key =>
    cases h : w.secrets.get? key with
    | none =>
      have hhas : w.outline.hasSecret key = false := by simp [Sources.outline, h]
      have hget : w.secrets.get key = .error (.secretNotFound key) := by simp [Secrets.get, h]
      rw [Outline.keepSecret, hhas, resolveSecret, hget]
      rfl
    | some value =>
      have hhas : w.outline.hasSecret key = true := by simp [Sources.outline, h]
      have hget : w.secrets.get key = .ok value := by simp [Secrets.get, h]
      rw [Outline.keepSecret, hhas, resolveSecret, hget]
      simp [ofExcept, Sources.fill, Sources.secretAt, h]
  | _ => rfl

theorem resolveVariable_eq_fill (v : Yaml) :
    resolveVariable w v = w.fill <$> w.outline.keepVariable v := by
  cases v with
  | string text =>
    rcases hsplit : splitWord text.toList with ⟨name, default?⟩
    have hfound : (w.outline.hasVariable (String.ofList name) || default?.isSome) =
        ((w.environment (String.ofList name)).or (default?.map String.ofList)).isSome := by
      simp [Sources.outline, Option.isSome_or]
    cases hvalue : (w.environment (String.ofList name)).or (default?.map String.ofList) with
    | none =>
      obtain ⟨hunset, hdefault⟩ := Option.or_eq_none_iff.mp hvalue
      simp only [Outline.keepVariable, resolveVariable, hsplit, hfound, hunset, hdefault]
      rfl
    | some value =>
      simp only [Outline.keepVariable, resolveVariable, hsplit, hfound, hvalue]
      simp [Sources.fill, Sources.variableAt, hsplit, hvalue]
  | _ => rfl

theorem resolveInclude_eq_fill (hload : ∀ p, load p = w.fill <$> load' p) (v : Yaml) :
    resolveInclude w load source v =
      w.fill <$> resolveInclude w.outline.bare load' source v := by
  cases v with
  | string text =>
    rw [resolveInclude, resolveInclude, map_bind]
    refine bind_congr fun _ => ?_
    rw [apply_ite (w.fill <$> ·)]
    exact ite_congr rfl (fun _ => hload _) fun _ => rfl
  | _ => rfl

mutual

theorem resolve_eq_fill (hload : ∀ p, load p = w.fill <$> load' p) : ∀ v : Yaml,
    resolve w load source v = w.fill <$> w.outline.expand load' source v
  | .tagged tag v => by
    rw [resolve, Outline.expand]
    split
    · exact resolveInclude_eq_fill hload v
    · split
      · exact resolveSecret_eq_fill v
      · split
        · exact resolveVariable_eq_fill v
        · -- Any other tag stays, and marks beneath it are seen to.
          simp [resolve_eq_fill hload v, Sources.fill, *]
  | .sequence items => by
    simp [resolve, Outline.expand, resolveAll_eq_fill hload items, Sources.fill]
  | .mapping entries => by
    simp [resolve, Outline.expand, resolveEntries_eq_fill hload entries, Sources.fill]
  | .null | .bool _ | .int _ | .float _ | .string _ => by
    simp [resolve, Outline.expand, Sources.fill]

theorem resolveAll_eq_fill (hload : ∀ p, load p = w.fill <$> load' p) : ∀ vs : List Yaml,
    resolveAll w load source vs = w.fillAll <$> w.outline.expandAll load' source vs
  | [] => by simp [resolveAll, Outline.expandAll, Sources.fillAll]
  | v :: vs => by
    simp [resolveAll, Outline.expandAll, Sources.fillAll, resolve_eq_fill hload v,
      resolveAll_eq_fill hload vs]

theorem resolveEntries_eq_fill (hload : ∀ p, load p = w.fill <$> load' p) :
    ∀ es : List (Yaml × Yaml), resolveEntries w load source es =
      w.fillEntries <$> w.outline.expandEntries load' source es
  | [] => by simp [resolveEntries, Outline.expandEntries, Sources.fillEntries]
  | (k, v) :: es => by
    simp [resolveEntries, Outline.expandEntries, Sources.fillEntries, resolve_eq_fill hload v,
      resolveEntries_eq_fill hload es]

end

theorem loadTextWith_eq_fill (hload : ∀ p, load p = w.fill <$> load' p) (text : String) :
    loadTextWith w load source text = w.fill <$> w.outline.expandTextWith load' source text := by
  rw [loadTextWith, Outline.expandTextWith]
  cases Yaml.read? text with
  | none => rfl
  | some v => exact resolve_eq_fill hload v

theorem Load.run_map {α β : Type} (f : α → β) (m : Load α) (s : Progress) :
    (f <$> m).run.run s = (m.run.run s).map fun (r, t) => (r.map f, t) := by
  rw [map_eq_pure_bind, run_bind]
  rcases m.run.run s with _ | ⟨_ | _, _⟩ <;> rfl

theorem whileLoading_map {α β : Type} (f : α → β) (path : Path) (m : Load α) :
    whileLoading path (f <$> m) = f <$> whileLoading path m := by
  refine ExceptT.ext (StateT.ext fun s => ?_)
  have hrun {γ : Type} (m : Load γ) : (whileLoading path m).run.run s =
      (m.run.run { s with loading := path :: s.loading }).map fun (r, t) =>
        (r, { t with loading := t.loading.filter fun q => !q.same path }) := by
    rw [Option.map_eq_bind]
    rfl
  rw [Load.run_map, hrun, hrun, Load.run_map, Option.map_map, Option.map_map]
  rfl

theorem loadFile_eq_fill (depth : Nat) (path : Path) :
    loadFile w depth path = w.fill <$> w.outline.expandFile depth path := by
  induction depth generalizing path with
  | zero => rfl
  | succ depth ih =>
    rw [loadFile, Outline.expandFile, map_bind]
    refine bind_congr fun s => ?_
    rw [apply_ite (w.fill <$> ·)]
    refine ite_congr rfl (fun _ => rfl) fun _ => ?_
    rw [map_bind]
    refine bind_congr fun _ => ?_
    -- The outline has the same files at the same places.
    change (match w.files.read? (w.place path) with | none => _ | some text => _) =
      w.fill <$> (match w.files.read? (w.place path) with | none => _ | some text => _)
    cases w.files.read? (w.place path) with
    | none => rfl
    | some text =>
      change whileLoading _ (loadTextWith w _ _ text) = _
      rw [loadTextWith_eq_fill ih, whileLoading_map]
      rfl

theorem loadText_eq_fill (depth : Nat) (text : String) :
    loadText w depth text = w.fill <$> w.outline.expandText depth text :=
  loadTextWith_eq_fill (loadFile_eq_fill depth) text

end Filled

section Alike

/-- Two loads of one document, each with values of its own. Neither ends, or both fail alike, or
both get the same document and each puts its values in; what they access is what it takes to get
the document with its marks. -/
inductive Load.Alike (w v : Sources) (outline load load' : Load Yaml) (s : Progress) : Prop where
  | endless : outline.run.run s = none → load.run.run s = none → load'.run.run s = none →
      Alike w v outline load load' s
  | failed {e : Error} {t : Progress} : outline.Ends s (.error e) t → load.Ends s (.error e) t →
      load'.Ends s (.error e) t → Alike w v outline load load' s
  | loaded {y : Yaml} {t : Progress} : outline.Ends s (.ok y) t → load.Ends s (.ok (w.fill y)) t →
      load'.Ends s (.ok (v.fill y)) t → Alike w v outline load load' s

theorem Load.alike_map (w v : Sources) (m : Load Yaml) (s : Progress) :
    Alike w v m (w.fill <$> m) (v.fill <$> m) s := by
  rcases hrun : m.run.run s with _ | ⟨e | y, t⟩
  · exact .endless hrun (by rw [run_map, hrun]; rfl) (by rw [run_map, hrun]; rfl)
  · exact .failed hrun (by rw [Ends, run_map, hrun]; rfl) (by rw [Ends, run_map, hrun]; rfl)
  · exact .loaded hrun (by rw [Ends, run_map, hrun]; rfl) (by rw [Ends, run_map, hrun]; rfl)

/-- What secrets and variables hold steers nothing. -/
theorem loads_alike {w v : Sources} (h : w.outline = v.outline) (depth : Nat) (s : Progress) :
    (∀ path, Load.Alike w v (w.outline.expandFile depth path) (loadFile w depth path)
      (loadFile v depth path) s) ∧
    ∀ text, Load.Alike w v (w.outline.expandText depth text) (loadText w depth text)
      (loadText v depth text) s := by
  constructor
  · intro path
    rw [loadFile_eq_fill (w := w), loadFile_eq_fill (w := v), ← h]
    exact Load.alike_map w v _ s
  · intro text
    rw [loadText_eq_fill (w := w), loadText_eq_fill (w := v), ← h]
    exact Load.alike_map w v _ s

/-- A file with a mark of each kind, and what to put in. -/
def vault (secret : Yaml) (value : String) : Sources where
  files := { entries := [(["a.yaml"], .file (some "- !secret s\n- !env_var V"))] }
  environment name := if name = "V" then some value else none
  secrets := { entries := [("s", secret)] }
  directory := .ofText "/"

theorem outline_vault (secret secret' : Yaml) (value value' : String) :
    (vault secret value).outline = (vault secret' value').outline := by
  have hsecret (key : String) : ((vault secret value).secrets.get? key).isSome =
      ((vault secret' value').secrets.get? key).isSome := by
    simp only [vault, Secrets.get?, List.lookup_cons]
    split <;> rfl
  have hvariable (name : String) : ((vault secret value).environment name).isSome =
      ((vault secret' value').environment name).isSome := by
    by_cases h : name = "V" <;> simp [vault, h]
  simp only [Sources.outline, hsecret, hvariable]
  rfl

theorem fill_vault (secret : Yaml) (value : String) :
    (vault secret value).fill (.sequence
      [.tagged "secret" (.string "s"), .tagged "env_var" (.string "V")]) =
      .sequence [secret, reread value] := rfl

theorem expandFile_vault (secret : Yaml) (value : String) :
    ((vault secret value).outline.expandFile 1 (.ofText "a.yaml")).Ends {}
      (.ok (.sequence [.tagged "secret" (.string "s"), .tagged "env_var" (.string "V")]))
      ⟨[], [.opened (.ofText "/a.yaml"), .secret "s", .variable "V"]⟩ := by
  have htokens : Yaml.tokens? "- !secret s\n- !env_var V" = some [.beginSequence, .dash,
      .tag "!" ("secret".toList.map some), .scalar "s" true, .dash,
      .tag "!" ("env_var".toList.map some), .scalar "V" true, .dedent] := by decide +kernel
  have hdocument : Yaml.read? "- !secret s\n- !env_var V" = some (.sequence
      [.tagged "secret" (.string "s"), .tagged "env_var" (.string "V")]) := by
    rw [Yaml.read?, Yaml.Document.read?, htokens]
    rfl
  rw [outline_vault secret .null value ""]
  have hplace : (vault .null "").outline.bare.place (.ofText "a.yaml") = .ofText "/a.yaml" := by
    decide +kernel
  have hread : (vault .null "").outline.files.read? (.ofText "/a.yaml") =
      some "- !secret s\n- !env_var V" := by decide +kernel
  rw [Load.Ends, Outline.expandFile, hplace, Load.run_bind]
  change (note _ >>= fun _ => _ : Load Yaml).run.run {} = _
  rw [Load.run_bind]
  simp only [hread, Outline.expandTextWith, hdocument]
  rfl

/-- Whether numbers are put in or texts and values that look like marks, the same is accessed, and
the marks that are put in are not looked at. -/
theorem loads_alike_vault :
    (vault (.int 1) "2").outline =
      (vault (.tagged "include" (.string "a.yaml")) "!secret s").outline ∧
    (loadFile (vault (.int 1) "2") 1 (.ofText "a.yaml")).Ends {} (.ok (.sequence [.int 1, .int 2]))
      ⟨[], [.opened (.ofText "/a.yaml"), .secret "s", .variable "V"]⟩ ∧
    (loadFile (vault (.tagged "include" (.string "a.yaml")) "!secret s") 1 (.ofText "a.yaml")).Ends
      {} (.ok (.sequence [.tagged "include" (.string "a.yaml"), .tagged "secret" (.string "s")]))
      ⟨[], [.opened (.ofText "/a.yaml"), .secret "s", .variable "V"]⟩ := by
  have hsame := outline_vault (.int 1) (.tagged "include" (.string "a.yaml")) "2" "!secret s"
  have hnumber : reread "2" = .int 2 := by
    rw [reread, Yaml.read?_scalar (by decide +kernel : Yaml.tokens? _ = some [.scalar "2" true])
      rfl (rfl : _ = some (Yaml.int 2))]
    rfl
  have hmark : reread "!secret s" = .tagged "secret" (.string "s") := by
    rw [reread, Yaml.read?_scalar (by decide +kernel : Yaml.tokens? _ =
      some [.tag "!" ("secret".toList.map some), .scalar "s" true]) rfl
      (rfl : _ = some (Yaml.string "s"))]
    rfl
  have houtline := expandFile_vault (.int 1) "2"
  refine ⟨hsame, ?_⟩
  cases (loads_alike hsame 1 {}).1 (.ofText "a.yaml") with
  | endless hnone => cases houtline.symm.trans hnone
  | failed herror => cases (houtline.unique herror).1
  | loaded hdocument hleft hright =>
    obtain ⟨heq, rfl⟩ := houtline.unique hdocument
    cases heq
    rw [fill_vault, hnumber] at hleft
    rw [fill_vault, hmark] at hright
    exact ⟨hleft, hright⟩

end Alike

end HomeAutomation.Config
