import HomeAutomation.Config.Loader

/-! The places of a value where something else is put in, in the order of the document. Resolving a
value comes down to settling one such place after another, up to the first that fails. -/

namespace HomeAutomation.Config

/-- A value under one of the tags that stand for something else. -/
inductive Mark where
  | file (v : Yaml)
  | secret (v : Yaml)
  | variable (v : Yaml)

def Mark.ofTag? (tag : String) (v : Yaml) : Option Mark :=
  if tag = "include" then some (.file v)
  else if tag = "secret" then some (.secret v)
  else if tag = "env_var" then some (.variable v)
  else none

mutual

def marks : Yaml → List Mark
  | .tagged tag v =>
    match Mark.ofTag? tag v with
    | some m => [m]
    | none => marks v
  | .sequence items => marksAll items
  | .mapping entries => marksEntries entries
  | _ => []

def marksAll : List Yaml → List Mark
  | [] => []
  | v :: vs => marks v ++ marksAll vs

def marksEntries : List (Yaml × Yaml) → List Mark
  | [] => []
  | (_, v) :: es => marks v ++ marksEntries es

end

section Settle

variable (w : Sources) (load : Path → Load Yaml) (source : Path)

def settle : Mark → Load Yaml
  | .file v => resolveInclude w load source v
  | .secret v => resolveSecret w v
  | .variable v => resolveVariable w v

def settleAll : List Mark → Load Unit
  | [] => pure ()
  | m :: ms => do
    let _ ← settle w load source m
    settleAll ms

variable {w load source}

theorem settleAll_append (ms ms' : List Mark) :
    settleAll w load source (ms ++ ms') =
      settleAll w load source ms >>= fun _ => settleAll w load source ms' := by
  induction ms with
  | nil => simp [settleAll]
  | cons m ms ih => simp only [List.cons_append, settleAll, ih, bind_assoc]

theorem resolve_mark {tag : String} {v : Yaml} {m : Mark} (h : Mark.ofTag? tag v = some m) :
    resolve w load source (.tagged tag v) = settle w load source m := by
  unfold Mark.ofTag? at h
  unfold resolve
  split at h
  · cases h
    simp [*, settle]
  · split at h
    · cases h
      simp [*, settle]
    · split at h
      · cases h
        simp [*, settle]
      · cases h

theorem resolve_plainTag {tag : String} {v : Yaml} (h : Mark.ofTag? tag v = none) :
    resolve w load source (.tagged tag v) = .tagged tag <$> resolve w load source v := by
  unfold Mark.ofTag? at h
  rw [resolve]
  split at h
  · cases h
  · split at h
    · cases h
    · split at h
      · cases h
      · simp [*]

mutual

/-- Apart from the value that comes out, resolving is settling the marks. -/
theorem resolve_discard : ∀ v : Yaml,
    (fun _ => ()) <$> resolve w load source v = settleAll w load source (marks v)
  | .tagged tag v => by
    cases h : Mark.ofTag? tag v with
    | some m => simp [resolve_mark h, marks, h, settleAll]
    | none => simp [resolve_plainTag h, marks, h, ← resolve_discard v]
  | .sequence items => by simp [resolve, marks, ← resolveAll_discard items]
  | .mapping entries => by simp [resolve, marks, ← resolveEntries_discard entries]
  | .null | .bool _ | .int _ | .float _ | .string _ => by simp [resolve, marks, settleAll]

theorem resolveAll_discard : ∀ vs : List Yaml,
    (fun _ => ()) <$> resolveAll w load source vs = settleAll w load source (marksAll vs)
  | [] => by simp [resolveAll, marksAll, settleAll]
  | v :: vs => by
    simp [resolveAll, marksAll, settleAll_append, ← resolve_discard v, ← resolveAll_discard vs]

theorem resolveEntries_discard : ∀ es : List (Yaml × Yaml),
    (fun _ => ()) <$> resolveEntries w load source es = settleAll w load source (marksEntries es)
  | [] => by simp [resolveEntries, marksEntries, settleAll]
  | (_, v) :: es => by
    simp [resolveEntries, marksEntries, settleAll_append, ← resolve_discard v,
      ← resolveEntries_discard es]

end

end Settle

end HomeAutomation.Config
