import HomeAutomation.Proofs.Config.Marks

/-! How loads end. A load that ends leaves the files that are being loaded as it found them and only
adds to what was accessed; what was accessed before makes no difference to it. -/

namespace HomeAutomation.Config

/-- Where relative paths begin is put before a path that is asked for. -/
def Sources.place (w : Sources) (path : Path) : Path :=
  if path.isAbsolute then path else w.directory.join path

theorem Sources.place_of_isAbsolute {w : Sources} {path : Path} (h : path.isAbsolute = true) :
    w.place path = path := if_pos h

namespace Load

variable {α β : Type}

/-- A load that begins with the first progress ends with the second one and the result. -/
def Ends (m : Load α) (s : Progress) (r : Except Error α) (t : Progress) : Prop :=
  m.run.run s = some (r, t)

variable {m : Load α} {k : α → Load β} {s t : Progress}

theorem Ends.unique {r r' : Except Error α} {t' : Progress} (h : m.Ends s r t)
    (h' : m.Ends s r' t') : r = r' ∧ t = t' := by
  have heq := Option.some.inj (h.symm.trans h')
  exact ⟨congrArg Prod.fst heq, congrArg Prod.snd heq⟩

theorem ends_pure_iff {a : α} {r : Except Error α} :
    Ends (pure a) s r t ↔ r = .ok a ∧ t = s := by
  constructor
  · rintro h
    cases h
    exact ⟨rfl, rfl⟩
  · rintro ⟨rfl, rfl⟩
    rfl

theorem ends_fail_iff {e : Error} {r : Except Error α} :
    Ends (fail e) s r t ↔ r = .error e ∧ t = s := by
  constructor
  · rintro h
    cases h
    exact ⟨rfl, rfl⟩
  · rintro ⟨rfl, rfl⟩
    rfl

theorem run_bind : (m >>= k).run.run s = (m.run.run s).bind fun (r, t) =>
    match r with
    | .ok a => (k a).run.run t
    | .error e => some (.error e, t) := by
  simp only [ExceptT.run_bind, StateT.run_bind]
  rcases m.run.run s with _ | ⟨_ | _, _⟩ <;> rfl

theorem Ends.bind_error {e : Error} (h : m.Ends s (.error e) t) : Ends (m >>= k) s (.error e) t := by
  rw [Ends, run_bind, h]
  rfl

theorem Ends.bind {a : α} {r : Except Error β} {u : Progress} (h : m.Ends s (.ok a) t)
    (h' : (k a).Ends t r u) : Ends (m >>= k) s r u := by
  rw [Ends, run_bind, h]
  exact h'

theorem Ends.bind_inv {r : Except Error β} {u : Progress} (h : Ends (m >>= k) s r u) :
    (∃ e, r = .error e ∧ m.Ends s (.error e) u) ∨ ∃ a t, m.Ends s (.ok a) t ∧ (k a).Ends t r u := by
  rw [Ends, run_bind] at h
  obtain ⟨⟨_ | a, t⟩, hm, hk⟩ := Option.bind_eq_some_iff.mp h
  · cases hk
    exact .inl ⟨_, rfl, hm⟩
  · exact .inr ⟨a, t, hm, hk⟩

theorem ends_note_iff {a : Access} {r : Except Error Unit} :
    Ends (note a) s r t ↔ r = .ok () ∧ t = { s with accesses := s.accesses ++ [a] } := by
  constructor
  · rintro h
    cases h
    exact ⟨rfl, rfl⟩
  · rintro ⟨rfl, rfl⟩
    rfl

theorem ends_discard_iff {r : Except Error Unit} :
    Ends ((fun _ => ()) <$> m) s r t ↔ ∃ r' : Except Error α, m.Ends s r' t ∧ r = r'.map fun _ => () := by
  rw [map_eq_pure_bind]
  constructor
  · intro h
    rcases h.bind_inv with ⟨e, rfl, hm⟩ | ⟨a, u, hm, hk⟩
    · exact ⟨.error e, hm, rfl⟩
    · obtain ⟨rfl, rfl⟩ := ends_pure_iff.mp hk
      exact ⟨.ok a, hm, rfl⟩
  · rintro ⟨_ | a, hm, rfl⟩
    · exact hm.bind_error
    · exact hm.bind (ends_pure_iff.mpr ⟨rfl, rfl⟩)

theorem ends_whileLoading_iff {path : Path} {r : Except Error α} :
    (whileLoading path m).Ends s r t ↔
      ∃ u, m.Ends { s with loading := path :: s.loading } r u ∧
        t = { u with loading := u.loading.filter fun p => !p.same path } := by
  have hrun : (whileLoading path m).run.run s =
      (m.run.run { s with loading := path :: s.loading }).bind fun (r, u) =>
        some (r, { u with loading := u.loading.filter fun p => !p.same path }) := rfl
  rw [Ends, hrun, Option.bind_eq_some_iff]
  constructor
  · rintro ⟨⟨r', u⟩, hm, heq⟩
    cases heq
    exact ⟨u, hm, rfl⟩
  · rintro ⟨u, hm, rfl⟩
    exact ⟨(r, u), hm, rfl⟩

/-- What holds of two loads if it holds of the steps they are made of, side by side. -/
structure Compositional (R : {α : Type} → Load α → Load α → Prop) : Prop where
  pure : ∀ {α : Type} (a : α), R (Pure.pure a : Load α) (Pure.pure a)
  fail : ∀ {α : Type} (e : Error), R (Config.fail e : Load α) (Config.fail e)
  note : ∀ a : Access, R (Config.note a) (Config.note a)
  bind : ∀ {α β : Type} {m m' : Load α} {k k' : α → Load β},
    R m m' → (∀ a, R (k a) (k' a)) → R (m >>= k) (m' >>= k')

section Compositional

variable {R : {α : Type} → Load α → Load α → Prop} {w : Sources} {load load' : Path → Load Yaml}
  {source : Path}

theorem Compositional.ofExcept (h : Compositional R) (r : Except Error α) :
    R (Config.ofExcept r) (Config.ofExcept r) := by
  cases r with
  | ok a => exact h.pure a
  | error e => exact h.fail e

theorem Compositional.resolveInclude (h : Compositional R) (hload : ∀ p, R (load p) (load' p))
    (v : Yaml) :
    R (Config.resolveInclude w load source v) (Config.resolveInclude w load' source v) := by
  cases v with
  | string text =>
    refine h.bind (h.note _) fun _ => ?_
    split
    · exact hload _
    · exact h.fail _
  | _ => exact h.fail _

theorem Compositional.resolveSecret (h : Compositional R) (v : Yaml) :
    R (Config.resolveSecret w v) (Config.resolveSecret w v) := by
  cases v with
  | string key => exact h.bind (h.note _) fun _ => h.ofExcept _
  | _ => exact h.fail _

theorem Compositional.resolveVariable (h : Compositional R) (v : Yaml) :
    R (Config.resolveVariable w v) (Config.resolveVariable w v) := by
  cases v with
  | string text =>
    refine h.bind (h.note _) fun _ => ?_
    split
    · exact h.pure _
    · exact h.fail _
  | _ => exact h.fail _

mutual

theorem Compositional.resolve (h : Compositional R) (hload : ∀ p, R (load p) (load' p)) :
    ∀ v : Yaml, R (Config.resolve w load source v) (Config.resolve w load' source v)
  | .tagged tag v => by
    rw [Config.resolve, Config.resolve]
    split
    · exact h.resolveInclude hload v
    · split
      · exact h.resolveSecret v
      · split
        · exact h.resolveVariable v
        · exact h.bind (Compositional.resolve h hload v) fun _ => h.pure _
  | .sequence items => h.bind (Compositional.resolveAll h hload items) fun _ => h.pure _
  | .mapping entries => h.bind (Compositional.resolveEntries h hload entries) fun _ => h.pure _
  | .null | .bool _ | .int _ | .float _ | .string _ => h.pure _

theorem Compositional.resolveAll (h : Compositional R) (hload : ∀ p, R (load p) (load' p)) :
    ∀ vs : List Yaml, R (Config.resolveAll w load source vs) (Config.resolveAll w load' source vs)
  | [] => h.pure _
  | v :: vs => h.bind (Compositional.resolve h hload v) fun _ =>
    h.bind (Compositional.resolveAll h hload vs) fun _ => h.pure _

theorem Compositional.resolveEntries (h : Compositional R) (hload : ∀ p, R (load p) (load' p)) :
    ∀ es : List (Yaml × Yaml),
      R (Config.resolveEntries w load source es) (Config.resolveEntries w load' source es)
  | [] => h.pure _
  | (_, v) :: es => h.bind (Compositional.resolve h hload v) fun _ =>
    h.bind (Compositional.resolveEntries h hload es) fun _ => h.pure _

end

end Compositional

end Load

end HomeAutomation.Config
