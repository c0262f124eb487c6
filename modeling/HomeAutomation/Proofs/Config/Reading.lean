import Mathlib.Data.List.Forall2
import HomeAutomation.Config.Reader

/-! What is taken from YAML as a configuration is read. Where no key is under a tag, looking a field
up in YAML and in the record that was read from it comes to the same. -/

namespace HomeAutomation

namespace Yaml

def isTagged : Yaml → Bool
  | .tagged _ _ => true
  | _ => false

mutual

/-- No key of a mapping is under a tag. -/
def keysUntagged : Yaml → Bool
  | .tagged _ v => keysUntagged v
  | .sequence items => allKeysUntagged items
  | .mapping entries => entriesKeysUntagged entries
  | _ => true

def allKeysUntagged : List Yaml → Bool
  | [] => true
  | v :: vs => keysUntagged v && allKeysUntagged vs

def entriesKeysUntagged : List (Yaml × Yaml) → Bool
  | [] => true
  | (k, v) :: es => !k.isTagged && keysUntagged k && keysUntagged v && entriesKeysUntagged es

end

section Untagged

variable {y : Yaml}

theorem untagged_of_isTagged (h : y.isTagged = false) : y.untagged = y := by
  cases y with
  | tagged tag v => cases h
  | _ => rfl

theorem keysUntagged_untagged (h : y.keysUntagged = true) : y.untagged.keysUntagged = true := by
  fun_induction untagged y with
  | case1 tag v ih => exact ih h
  | case2 => exact h

theorem allKeysUntagged_iff {items : List Yaml} :
    allKeysUntagged items = true ↔ ∀ v ∈ items, v.keysUntagged = true := by
  induction items with
  | nil => simp [allKeysUntagged]
  | cons v items ih => simp [allKeysUntagged, ih]

theorem entriesKeysUntagged_iff {entries : List (Yaml × Yaml)} :
    entriesKeysUntagged entries = true ↔ ∀ entry ∈ entries,
      entry.1.isTagged = false ∧ entry.1.keysUntagged = true ∧ entry.2.keysUntagged = true := by
  induction entries with
  | nil => simp [entriesKeysUntagged]
  | cons entry entries ih => simp [entriesKeysUntagged, ih, and_assoc]

theorem mem_of_find? {entries : List (Yaml × Yaml)} {key : String} {v : Yaml}
    (h : find? entries key = some v) : ∃ k, (k, v) ∈ entries := by
  fun_induction find? entries key with
  | case1 => cases h
  | case2 w rest => exact ⟨.string key, Option.some.inj h ▸ List.mem_cons_self⟩
  | case3 k w rest _ ih | case4 entry rest _ ih =>
    obtain ⟨k, hk⟩ := ih h
    exact ⟨k, List.mem_cons_of_mem _ hk⟩

theorem keysUntagged_of_get? {key : String} {v : Yaml} (hy : y.keysUntagged = true)
    (h : y.get? key = some v) : v.keysUntagged = true := by
  have huntagged := keysUntagged_untagged hy
  unfold get? at h
  split at h
  · rename_i entries hentries
    obtain ⟨k, hk⟩ := mem_of_find? h
    rw [hentries] at huntagged
    exact (entriesKeysUntagged_iff.mp huntagged _ hk).2.2
  · cases h

end Untagged

end Yaml

namespace Config.Reader

section Records

theorem mapM_eq_some_iff {α β : Type} {f : α → Option β} {xs : List α} {ys : List β} :
    xs.mapM f = some ys ↔ List.Forall₂ (fun x y => f x = some y) xs ys := by
  induction xs generalizing ys with
  | nil => simp [eq_comm]
  | cons x xs ih =>
    rw [List.mapM_cons, List.forall₂_cons_left_iff]
    simp only [Option.bind_eq_bind, Option.bind_eq_some_iff, ih, Option.pure_def,
      Option.some.injEq, exists_and_left, eq_comm (a := ys)]

variable {y v : Yaml} {fields : List (String × Yaml)} {v? : Option Yaml} {name : String}

/-- An entry is read as a field. -/
def Names (entry : Yaml × Yaml) (field : String × Yaml) : Prop :=
  entry.1.untagged = .string field.1 ∧ entry.2 = field.2

theorem fields?_inv (h : fields? y = some fields) :
    y.untagged = .null ∧ fields = [] ∨
      ∃ entries, y.untagged = .mapping entries ∧ List.Forall₂ Names entries fields := by
  unfold fields? at h
  split at h
  · rename_i hnull
    exact .inl ⟨hnull, (Option.some.inj h).symm⟩
  · rename_i entries hentries
    refine .inr ⟨entries, hentries, (mapM_eq_some_iff.mp h).imp ?_⟩
    rintro ⟨k, w⟩ field hfield
    simp only at hfield
    split at hfield
    · rename_i hk
      cases hfield
      exact ⟨hk, rfl⟩
    · cases hfield
  · cases h

theorem lookup_eq_head? : fields.lookup name =
    (fields.filter fun (k, _) => k = name).head?.map Prod.snd := by
  induction fields with
  | nil => rfl
  | cons field fields ih =>
    obtain ⟨k, w⟩ := field
    by_cases hk : k = name
    · simp [hk]
    · have hbeq : (name == k) = false := by simpa using Ne.symm hk
      simp [List.lookup_cons, hk, hbeq, ih]

theorem lookup_of_field? (h : field? fields name = some v?) : fields.lookup name = v? := by
  rw [lookup_eq_head?]
  unfold field? at h
  split at h
  · rename_i hnone
    rw [hnone]
    exact Option.some.inj h
  · rename_i hone
    rw [hone]
    exact Option.some.inj h
  · cases h

theorem fieldOr?_inv {α : Type} {absent a : α} {read? : Yaml → Option α}
    (h : fieldOr? fields name absent read? = some a) :
    field? fields name = some none ∧ a = absent ∨
      ∃ v, field? fields name = some (some v) ∧ read? v = some a := by
  obtain ⟨v?, hv, ha⟩ := Option.bind_eq_some_iff.mp h
  cases v? with
  | none => exact .inl ⟨hv, (Option.some.inj ha).symm⟩
  | some v => exact .inr ⟨v, hv, ha⟩

theorem required?_inv {α : Type} {a : α} {read? : Yaml → Option α}
    (h : required? fields name read? = some a) :
    ∃ v, field? fields name = some (some v) ∧ read? v = some a := by
  obtain ⟨v?, hv, ha⟩ := Option.bind_eq_some_iff.mp h
  obtain ⟨v, rfl, hread⟩ := Option.bind_eq_some_iff.mp ha
  exact ⟨v, hv, hread⟩

theorem text?_inv {s : String} (h : text? y = some s) : y.untagged = .string s := by
  unfold text? at h
  split at h
  · rename_i hs
    rw [hs, Option.some.inj h]
  · cases h

theorem list?_inv {α : Type} {read? : Yaml → Option α} {as : List α}
    (h : list? read? y = some as) :
    y.untagged = .null ∧ as = [] ∨
      ∃ items, y.untagged = .sequence items ∧
        List.Forall₂ (fun item a => read? item = some a) items as := by
  unfold list? at h
  split at h
  · rename_i hnull
    exact .inl ⟨hnull, (Option.some.inj h).symm⟩
  · rename_i items hitems
    exact .inr ⟨items, hitems, mapM_eq_some_iff.mp h⟩
  · cases h

theorem find?_eq_lookup {entries : List (Yaml × Yaml)} (h : List.Forall₂ Names entries fields)
    (hkeys : ∀ entry ∈ entries, entry.1.isTagged = false) :
    Yaml.find? entries name = fields.lookup name := by
  induction h with
  | nil => rfl
  | @cons entry field entries fields hnames _ ih =>
    obtain ⟨hkey, hrest⟩ := List.forall_mem_cons.mp hkeys
    obtain ⟨k, w⟩ := entry
    obtain ⟨n, w'⟩ := field
    obtain ⟨hname, rfl⟩ := hnames
    obtain rfl : k = .string n := (Yaml.untagged_of_isTagged hkey).symm.trans hname
    by_cases hn : n = name
    · simp [Yaml.find?, hn]
    · have hbeq : (name == n) = false := by simpa using Ne.symm hn
      simp [Yaml.find?, List.lookup_cons, hn, hbeq, ih hrest]

theorem get?_eq_lookup (hy : y.keysUntagged = true) (h : fields? y = some fields) :
    y.get? name = fields.lookup name := by
  have huntagged := Yaml.keysUntagged_untagged hy
  rw [Yaml.get?]
  rcases fields?_inv h with ⟨hnull, rfl⟩ | ⟨entries, hentries, hnames⟩
  · rw [hnull]
    rfl
  · rw [hentries] at huntagged ⊢
    exact find?_eq_lookup hnames fun entry hentry =>
      (Yaml.entriesKeysUntagged_iff.mp huntagged entry hentry).1

end Records

end Config.Reader

end HomeAutomation
