import HomeAutomation.Proofs.Config.Settling

/-! What resolving leaves of a document. The marks are settled in the order of the document, up to
the first that fails; nothing behind that one is looked at. If all of them are settled, the
document comes out with a value in place of each mark and is otherwise the same, keys included. -/

namespace HomeAutomation.Config

/-- What settling a mark makes, given how files are loaded. -/
inductive MarkMakes (w : Sources) (load : Path → Load Yaml) (source : Path) (stack : List Path) :
    Mark → List Access → Except Error Yaml → Prop where
  | file {text : String} {as : List Access} {r : Except Error Yaml} :
      w.files.contains (w.target source text) = true →
      (load (w.target source text)).Makes stack as r →
      MarkMakes w load source stack (.file (.string text)) (.tested (w.target source text) :: as) r
  | noFile {text : String} : w.files.contains (w.target source text) = false →
      MarkMakes w load source stack (.file (.string text)) [.tested (w.target source text)]
        (.error (.includeNotFound (w.target source text)))
  | secret {key : String} {v : Yaml} : w.secrets.get? key = some v →
      MarkMakes w load source stack (.secret (.string key)) [.secret key] (.ok v)
  | noSecret {key : String} : w.secrets.get? key = none →
      MarkMakes w load source stack (.secret (.string key)) [.secret key]
        (.error (.secretNotFound key))
  | variable {text value : String} {name : List Char} {default? : Option (List Char)} :
      splitWord text.toList = (name, default?) →
      (w.environment (String.ofList name)).or (default?.map String.ofList) = some value →
      MarkMakes w load source stack (.variable (.string text)) [.variable (String.ofList name)]
        (.ok (reread value))
  | noVariable {text : String} {name : List Char} : splitWord text.toList = (name, none) →
      w.environment (String.ofList name) = none →
      MarkMakes w load source stack (.variable (.string text)) [.variable (String.ofList name)]
        (.error (.variableNotSet (String.ofList name)))
  | noPath {v : Yaml} : (∀ text, v ≠ .string text) → MarkMakes w load source stack (.file v) []
      (.error (.invalidValue "!include" "include path must be a string"))
  | noKey {v : Yaml} : (∀ text, v ≠ .string text) → MarkMakes w load source stack (.secret v) []
      (.error (.invalidValue "!secret" "secret key must be a string"))
  | noName {v : Yaml} : (∀ text, v ≠ .string text) → MarkMakes w load source stack (.variable v) []
      (.error (.invalidValue "!env_var" "environment variable name must be a string"))

/-- All marks are settled, one after another, with these values. -/
inductive MarksMake (w : Sources) (load : Path → Load Yaml) (source : Path) (stack : List Path) :
    List Mark → List Access → List Yaml → Prop where
  | nil : MarksMake w load source stack [] [] []
  | cons {m : Mark} {ms : List Mark} {as as' : List Access} {v : Yaml} {vs : List Yaml} :
      MarkMakes w load source stack m as (.ok v) → MarksMake w load source stack ms as' vs →
      MarksMake w load source stack (m :: ms) (as ++ as') (v :: vs)

mutual

/-- With these values in place of its marks, in the order of the document, the first value is the
last one. -/
inductive Replaced : Yaml → List Yaml → Yaml → Prop where
  | mark {tag : String} {v u : Yaml} {m : Mark} : Mark.ofTag? tag v = some m →
      Replaced (.tagged tag v) [u] u
  | tagged {tag : String} {v u : Yaml} {vs : List Yaml} : Mark.ofTag? tag v = none →
      Replaced v vs u → Replaced (.tagged tag v) vs (.tagged tag u)
  | sequence {items items' vs : List Yaml} : ReplacedAll items vs items' →
      Replaced (.sequence items) vs (.sequence items')
  | mapping {entries entries' : List (Yaml × Yaml)} {vs : List Yaml} :
      ReplacedEntries entries vs entries' → Replaced (.mapping entries) vs (.mapping entries')
  | null : Replaced .null [] .null
  | bool {b : Bool} : Replaced (.bool b) [] (.bool b)
  | int {i : Int} : Replaced (.int i) [] (.int i)
  | float {x : Double} : Replaced (.float x) [] (.float x)
  | string {s : String} : Replaced (.string s) [] (.string s)

inductive ReplacedAll : List Yaml → List Yaml → List Yaml → Prop where
  | nil : ReplacedAll [] [] []
  | cons {v u : Yaml} {items items' vs vs' : List Yaml} : Replaced v vs u →
      ReplacedAll items vs' items' → ReplacedAll (v :: items) (vs ++ vs') (u :: items')

inductive ReplacedEntries : List (Yaml × Yaml) → List Yaml → List (Yaml × Yaml) → Prop where
  | nil : ReplacedEntries [] [] []
  | cons {k v u : Yaml} {entries entries' : List (Yaml × Yaml)} {vs vs' : List Yaml} :
      Replaced v vs u → ReplacedEntries entries vs' entries' →
      ReplacedEntries ((k, v) :: entries) (vs ++ vs') ((k, u) :: entries')

end

section Settled

variable {w : Sources} {load : Path → Load Yaml} {source : Path} {stack : List Path}
  {as : List Access} {m : Mark} {ms ms' : List Mark} {v : Yaml} {r : Except Error Yaml} {e : Error}

theorem note_ofExcept_makes_iff {a : Access} {x : Except Error Yaml} :
    (note a >>= fun _ => ofExcept x).Makes stack as r ↔ as = [a] ∧ r = x := by
  refine (Load.makes_note_bind_iff (Load.compositional_tidy.ofExcept x)).trans ?_
  have hmakes (as' : List Access) : (ofExcept x).Makes stack as' r ↔ as' = [] ∧ r = x := by
    cases x with
    | ok v => exact Load.makes_pure_iff
    | error e => exact Load.makes_fail_iff
  constructor
  · rintro ⟨as', rfl, h⟩
    obtain ⟨rfl, rfl⟩ := (hmakes as').mp h
    exact ⟨rfl, rfl⟩
  · rintro ⟨rfl, rfl⟩
    exact ⟨[], rfl, (hmakes []).mpr ⟨rfl, rfl⟩⟩

theorem MarkMakes.file_at {text : String} {p : Path} (hp : w.target source text = p)
    (hthere : w.files.contains p = true) (hload : (load p).Makes stack as r) :
    MarkMakes w load source stack (.file (.string text)) (.tested p :: as) r := by
  subst hp
  exact .file hthere hload

theorem settle_secret_makes_iff {key : String} :
    (settle w load source (.secret (.string key))).Makes stack as r ↔
      MarkMakes w load source stack (.secret (.string key)) as r := by
  refine note_ofExcept_makes_iff.trans ?_
  constructor
  · rintro ⟨rfl, rfl⟩
    cases h : w.secrets.get? key with
    | none => simpa [Secrets.get, h] using MarkMakes.noSecret h
    | some v => simpa [Secrets.get, h] using MarkMakes.secret h
  · intro h
    cases h with
    | secret h => simp [Secrets.get, h]
    | noSecret h => simp [Secrets.get, h]
    | noKey h => exact absurd rfl (h key)

theorem settle_variable_makes_iff {text : String} :
    (settle w load source (.variable (.string text))).Makes stack as r ↔
      MarkMakes w load source stack (.variable (.string text)) as r := by
  obtain ⟨name, default?, hsplit⟩ : ∃ name default?, splitWord text.toList = (name, default?) :=
    ⟨_, _, rfl⟩
  have hsettle : settle w load source (.variable (.string text)) =
      note (.variable (String.ofList name)) >>= fun _ => ofExcept
        (((w.environment (String.ofList name)).or (default?.map String.ofList)).elim
          (.error (.variableNotSet (String.ofList name))) fun value => .ok (reread value)) := by
    simp only [settle, resolveVariable, hsplit]
    refine bind_congr fun _ => ?_
    cases (w.environment (String.ofList name)).or (default?.map String.ofList) <;> rfl
  rw [hsettle, note_ofExcept_makes_iff]
  constructor
  · rintro ⟨rfl, rfl⟩
    cases hvalue : (w.environment (String.ofList name)).or (default?.map String.ofList) with
    | some value => exact .variable hsplit hvalue
    | none =>
      obtain ⟨hunset, hdefault⟩ := Option.or_eq_none_iff.mp hvalue
      obtain rfl := Option.map_eq_none_iff.mp hdefault
      exact .noVariable hsplit hunset
  · intro h
    cases h with
    | «variable» hsplit' hvalue =>
      cases hsplit.symm.trans hsplit'
      simp [hvalue]
    | noVariable hsplit' hunset =>
      cases hsplit.symm.trans hsplit'
      simp [hunset]
    | noName h => exact absurd rfl (h text)

theorem settle_makes_iff (hload : ∀ p, (load p).Tidy) :
    (settle w load source m).Makes stack as r ↔ MarkMakes w load source stack m as r := by
  constructor
  · intro h
    rcases m with v | v | v
    · cases v with
      | string text =>
        obtain ⟨as', rfl, hfile⟩ := (settle_file_makes_iff hload).mp h
        split at hfile
        · next hthere => exact .file hthere hfile
        · next hthere =>
          obtain ⟨rfl, rfl⟩ := hfile
          exact .noFile (by simpa using hthere)
      | _ =>
        obtain ⟨rfl, rfl⟩ := Load.makes_fail_iff.mp h
        exact .noPath (by simp)
    · cases v with
      | string key => exact settle_secret_makes_iff.mp h
      | _ =>
        obtain ⟨rfl, rfl⟩ := Load.makes_fail_iff.mp h
        exact .noKey (by simp)
    · cases v with
      | string text => exact settle_variable_makes_iff.mp h
      | _ =>
        obtain ⟨rfl, rfl⟩ := Load.makes_fail_iff.mp h
        exact .noName (by simp)
  · intro h
    cases h with
    | file hthere h => exact (settle_file_makes_iff hload).mpr ⟨_, rfl, by rwa [if_pos hthere]⟩
    | noFile hthere =>
      exact (settle_file_makes_iff hload).mpr ⟨_, rfl, by rw [if_neg (by simp [hthere])]; simp⟩
    | secret hkey => exact settle_secret_makes_iff.mpr (.secret hkey)
    | noSecret hkey => exact settle_secret_makes_iff.mpr (.noSecret hkey)
    | «variable» hsplit hvalue => exact settle_variable_makes_iff.mpr (.variable hsplit hvalue)
    | noVariable hsplit hunset => exact settle_variable_makes_iff.mpr (.noVariable hsplit hunset)
    | @noPath v hv | @noKey v hv | @noName v hv =>
      cases v with
      | string text => exact absurd rfl (hv text)
      | _ => exact Load.makes_fail_iff.mpr ⟨rfl, rfl⟩

theorem marksMake_append {vs : List Yaml} : MarksMake w load source stack (ms ++ ms') as vs ↔
    ∃ as₁ as₂ vs₁ vs₂, as = as₁ ++ as₂ ∧ vs = vs₁ ++ vs₂ ∧
      MarksMake w load source stack ms as₁ vs₁ ∧ MarksMake w load source stack ms' as₂ vs₂ := by
  induction ms generalizing as vs with
  | nil =>
    constructor
    · exact fun h => ⟨[], as, [], vs, rfl, rfl, .nil, h⟩
    · rintro ⟨as₁, as₂, vs₁, vs₂, rfl, rfl, hnil, h⟩
      cases hnil
      exact h
  | cons m ms ih =>
    constructor
    · intro h
      cases h with
      | @cons _ _ as₀ _ v _ hm hms =>
        obtain ⟨as₁, as₂, vs₁, vs₂, rfl, rfl, h₁, h₂⟩ := ih.mp hms
        exact ⟨as₀ ++ as₁, as₂, v :: vs₁, vs₂, by simp, rfl, .cons hm h₁, h₂⟩
    · rintro ⟨as₁, as₂, vs₁, vs₂, rfl, rfl, h₁, h₂⟩
      cases h₁ with
      | cons hm hms =>
        rw [List.append_assoc]
        exact .cons hm (ih.mpr ⟨_, _, _, _, rfl, rfl, hms, h₂⟩)

theorem settleAll_makes_ok_iff (hload : ∀ p, (load p).Tidy) :
    (settleAll w load source ms).Makes stack as (.ok ()) ↔
      ∃ vs, MarksMake w load source stack ms as vs := by
  induction ms generalizing as with
  | nil =>
    rw [settleAll, Load.makes_pure_iff]
    constructor
    · rintro ⟨rfl, -⟩
      exact ⟨[], .nil⟩
    · rintro ⟨vs, h⟩
      cases h
      exact ⟨rfl, rfl⟩
  | cons m ms ih =>
    rw [settleAll_cons_makes_iff hload]
    constructor
    · rintro (⟨e, h, -⟩ | ⟨v, as₁, as₂, rfl, hm, hms⟩)
      · cases h
      · obtain ⟨vs, hvs⟩ := ih.mp hms
        exact ⟨v :: vs, .cons ((settle_makes_iff hload).mp hm) hvs⟩
    · rintro ⟨vs, h⟩
      cases h with
      | cons hm hms =>
        exact .inr ⟨_, _, _, rfl, (settle_makes_iff hload).mpr hm, ih.mpr ⟨_, hms⟩⟩

/-- Of marks that fail, one does so, and those before it do not. -/
theorem settleAll_makes_error_iff (hload : ∀ p, (load p).Tidy) :
    (settleAll w load source ms).Makes stack as (.error e) ↔
      ∃ before m after vs as₁ as₂, ms = before ++ m :: after ∧ as = as₁ ++ as₂ ∧
        MarksMake w load source stack before as₁ vs ∧
        MarkMakes w load source stack m as₂ (.error e) := by
  constructor
  · intro h
    induction ms generalizing as with
    | nil => cases h
    | cons m ms ih =>
      rcases (settleAll_cons_makes_iff hload).mp h with ⟨_, heq, hm⟩ | ⟨v, as₁, as₂, rfl, hm, hms⟩
      · cases heq
        exact ⟨[], m, ms, [], [], as, rfl, rfl, .nil, (settle_makes_iff hload).mp hm⟩
      · obtain ⟨before, m', after, vs, as₃, as₄, rfl, rfl, hbefore, hfail⟩ := ih hms
        exact ⟨m :: before, m', after, v :: vs, as₁ ++ as₃, as₄, rfl, by simp,
          .cons ((settle_makes_iff hload).mp hm) hbefore, hfail⟩
  · rintro ⟨before, m, after, vs, as₁, as₂, rfl, rfl, hbefore, hfail⟩
    have hok := (settleAll_makes_ok_iff hload).mpr ⟨vs, hbefore⟩
    have hrest : (settleAll w load source (m :: after)).Makes stack as₂ (.error e) :=
      (settleAll_cons_makes_iff hload).mpr (.inl ⟨e, rfl, (settle_makes_iff hload).mpr hfail⟩)
    rw [settleAll_append]
    exact (Load.makes_bind_iff (tidy_settleAll hload _) fun _ => tidy_settleAll hload _).mpr
      (.inr ⟨(), as₁, as₂, rfl, hok, hrest⟩)

end Settled

section Resolved

variable {w : Sources} {load : Path → Load Yaml} {source : Path} {stack : List Path}
  {as : List Access}

theorem makes_map_ok_iff {α β : Type} {f : α → β} {m : Load α} {b : β} :
    (f <$> m).Makes stack as (.ok b) ↔ ∃ a, m.Makes stack as (.ok a) ∧ f a = b := by
  rw [map_eq_pure_bind]
  constructor
  · intro h
    rcases h.bind_inv with ⟨e, heq, -⟩ | ⟨a, t, hm, hk⟩
    · cases heq
    · obtain ⟨heq, rfl⟩ := Load.ends_pure_iff.mp hk
      cases heq
      exact ⟨a, hm, rfl⟩
  · rintro ⟨a, hm, rfl⟩
    exact hm.bind (Load.ends_pure_iff.mpr ⟨rfl, rfl⟩)

theorem makes_pair_ok_iff {α β γ : Type} {f : α → β → γ} {m : Load α} {m' : Load β} {c : γ}
    (hm : m.Tidy) (hm' : m'.Tidy) :
    (m >>= fun a => m' >>= fun b => pure (f a b)).Makes stack as (.ok c) ↔
      ∃ a b as₁ as₂, as = as₁ ++ as₂ ∧ m.Makes stack as₁ (.ok a) ∧ m'.Makes stack as₂ (.ok b) ∧
        f a b = c := by
  have htidy (a : α) : (m' >>= fun b => pure (f a b)).Tidy :=
    @Load.Compositional.bind _ Load.compositional_tidy _ _ m' m' (fun b => pure (f a b))
      (fun b => pure (f a b)) hm' fun b => Load.compositional_tidy.pure (f a b)
  rw [Load.makes_bind_iff hm htidy]
  constructor
  · rintro (⟨e, heq, -⟩ | ⟨a, as₁, as₂, rfl, ha, hmap⟩)
    · cases heq
    · rw [← map_eq_pure_bind] at hmap
      obtain ⟨b, hb, rfl⟩ := makes_map_ok_iff.mp hmap
      exact ⟨a, b, as₁, as₂, rfl, ha, hb, rfl⟩
  · rintro ⟨a, b, as₁, as₂, rfl, ha, hb, rfl⟩
    refine .inr ⟨a, as₁, as₂, rfl, ha, ?_⟩
    rw [← map_eq_pure_bind]
    exact makes_map_ok_iff.mpr ⟨b, hb, rfl⟩

theorem tidy_resolve (hload : ∀ p, (load p).Tidy) (v : Yaml) : (resolve w load source v).Tidy :=
  @Load.Compositional.resolve _ w load load source Load.compositional_tidy hload v

theorem tidy_resolveAll (hload : ∀ p, (load p).Tidy) (items : List Yaml) :
    (resolveAll w load source items).Tidy :=
  @Load.Compositional.resolveAll _ w load load source Load.compositional_tidy hload items

theorem tidy_resolveEntries (hload : ∀ p, (load p).Tidy) (entries : List (Yaml × Yaml)) :
    (resolveEntries w load source entries).Tidy :=
  @Load.Compositional.resolveEntries _ w load load source Load.compositional_tidy hload entries

mutual

theorem Replaced.length_eq : ∀ {v vs u}, Replaced v vs u → vs.length = (marks v).length
  | _, _, _, .mark h => by simp [marks, h]
  | _, _, _, .tagged h hu => by simp [marks, h, hu.length_eq]
  | _, _, _, .sequence hus => by simp [marks, hus.length_eq]
  | _, _, _, .mapping hus => by simp [marks, hus.length_eq]
  | _, _, _, .null | _, _, _, .bool | _, _, _, .int | _, _, _, .float | _, _, _, .string => by
    simp [marks]

theorem ReplacedAll.length_eq : ∀ {items vs us}, ReplacedAll items vs us →
    vs.length = (marksAll items).length
  | _, _, _, .nil => rfl
  | _, _, _, .cons hu hus => by simp [marksAll, hu.length_eq, hus.length_eq]

theorem ReplacedEntries.length_eq : ∀ {entries vs us}, ReplacedEntries entries vs us →
    vs.length = (marksEntries entries).length
  | _, _, _, .nil => rfl
  | _, _, _, .cons hu hus => by simp [marksEntries, hu.length_eq, hus.length_eq]

end

theorem MarksMake.length_eq {ms : List Mark} {vs : List Yaml}
    (h : MarksMake w load source stack ms as vs) : vs.length = ms.length := by
  induction h with
  | nil => rfl
  | cons _ _ ih => simp [ih]

/-- The values that go into the first of two parts are those that its marks are settled with. -/
theorem marksMake_append_of_replaced {v u : Yaml} {vs vs' : List Yaml} {ms : List Mark}
    (hu : Replaced v vs u) (h : MarksMake w load source stack (marks v ++ ms) as (vs ++ vs')) :
    ∃ as₁ as₂, as = as₁ ++ as₂ ∧ MarksMake w load source stack (marks v) as₁ vs ∧
      MarksMake w load source stack ms as₂ vs' := by
  obtain ⟨as₁, as₂, vs₁, vs₂, rfl, heq, h₁, h₂⟩ := marksMake_append.mp h
  obtain ⟨rfl, rfl⟩ := List.append_inj heq (hu.length_eq.trans h₁.length_eq.symm)
  exact ⟨as₁, as₂, rfl, h₁, h₂⟩

mutual

theorem resolve_makes_ok_iff (hload : ∀ p, (load p).Tidy) : ∀ (v : Yaml) {as u},
    (resolve w load source v).Makes stack as (.ok u) ↔
      ∃ vs, MarksMake w load source stack (marks v) as vs ∧ Replaced v vs u
  | .tagged tag v, as, u => by
    cases h : Mark.ofTag? tag v with
    | some m =>
      rw [resolve_mark h, marks, h, settle_makes_iff hload]
      constructor
      · exact fun hm => ⟨[u], by simpa using MarksMake.cons hm .nil, .mark h⟩
      · rintro ⟨vs, hms, hu⟩
        cases hu with
        | mark =>
          cases hms with
          | cons hm hnil =>
            cases hnil
            simpa using hm
        | tagged hplain => simp [h] at hplain
    | none =>
      rw [resolve_plainTag h, marks, h, makes_map_ok_iff]
      constructor
      · rintro ⟨u, hu, rfl⟩
        obtain ⟨vs, hvs, hu⟩ := (resolve_makes_ok_iff hload v).mp hu
        exact ⟨vs, hvs, .tagged h hu⟩
      · rintro ⟨vs, hms, hu⟩
        cases hu with
        | mark hmark => simp [h] at hmark
        | tagged _ hu => exact ⟨_, (resolve_makes_ok_iff hload v).mpr ⟨vs, hms, hu⟩, rfl⟩
  | .sequence items, as, u => by
    rw [resolve, ← map_eq_pure_bind, makes_map_ok_iff, marks]
    constructor
    · rintro ⟨us, hus, rfl⟩
      obtain ⟨vs, hvs, hus⟩ := (resolveAll_makes_ok_iff hload items).mp hus
      exact ⟨vs, hvs, .sequence hus⟩
    · rintro ⟨vs, hms, hu⟩
      cases hu with
      | sequence hus => exact ⟨_, (resolveAll_makes_ok_iff hload items).mpr ⟨vs, hms, hus⟩, rfl⟩
  | .mapping entries, as, u => by
    rw [resolve, ← map_eq_pure_bind, makes_map_ok_iff, marks]
    constructor
    · rintro ⟨us, hus, rfl⟩
      obtain ⟨vs, hvs, hus⟩ := (resolveEntries_makes_ok_iff hload entries).mp hus
      exact ⟨vs, hvs, .mapping hus⟩
    · rintro ⟨vs, hms, hu⟩
      cases hu with
      | mapping hus =>
        exact ⟨_, (resolveEntries_makes_ok_iff hload entries).mpr ⟨vs, hms, hus⟩, rfl⟩
  | .null, as, u | .bool _, as, u | .int _, as, u | .float _, as, u | .string _, as, u => by
    rw [resolve, Load.makes_pure_iff, marks]
    · constructor
      · rintro ⟨rfl, heq⟩
        cases heq
        exact ⟨[], .nil, by constructor⟩
      · rintro ⟨vs, hms, hu⟩
        cases hms
        cases hu
        exact ⟨rfl, rfl⟩
    all_goals simp

theorem resolveAll_makes_ok_iff (hload : ∀ p, (load p).Tidy) : ∀ (items : List Yaml) {as us},
    (resolveAll w load source items).Makes stack as (.ok us) ↔
      ∃ vs, MarksMake w load source stack (marksAll items) as vs ∧ ReplacedAll items vs us
  | [], as, us => by
    rw [resolveAll, Load.makes_pure_iff, marksAll]
    constructor
    · rintro ⟨rfl, heq⟩
      cases heq
      exact ⟨[], .nil, .nil⟩
    · rintro ⟨vs, hms, hus⟩
      cases hms
      cases hus
      exact ⟨rfl, rfl⟩
  | v :: items, as, us => by
    rw [resolveAll, makes_pair_ok_iff (tidy_resolve hload v) (tidy_resolveAll hload items),
      marksAll]
    constructor
    · rintro ⟨u, us, as₁, as₂, rfl, hu, hus, rfl⟩
      obtain ⟨vs, hvs, hu⟩ := (resolve_makes_ok_iff hload v).mp hu
      obtain ⟨vs', hvs', hus⟩ := (resolveAll_makes_ok_iff hload items).mp hus
      exact ⟨vs ++ vs', marksMake_append.mpr ⟨_, _, _, _, rfl, rfl, hvs, hvs'⟩, .cons hu hus⟩
    · rintro ⟨vs, hms, hus⟩
      cases hus with
      | cons hu hus =>
        obtain ⟨as₁, as₂, rfl, hvs, hvs'⟩ := marksMake_append_of_replaced hu hms
        exact ⟨_, _, as₁, as₂, rfl, (resolve_makes_ok_iff hload v).mpr ⟨_, hvs, hu⟩,
          (resolveAll_makes_ok_iff hload items).mpr ⟨_, hvs', hus⟩, rfl⟩

theorem resolveEntries_makes_ok_iff (hload : ∀ p, (load p).Tidy) :
    ∀ (entries : List (Yaml × Yaml)) {as us},
    (resolveEntries w load source entries).Makes stack as (.ok us) ↔
      ∃ vs, MarksMake w load source stack (marksEntries entries) as vs ∧
        ReplacedEntries entries vs us
  | [], as, us => by
    rw [resolveEntries, Load.makes_pure_iff, marksEntries]
    constructor
    · rintro ⟨rfl, heq⟩
      cases heq
      exact ⟨[], .nil, .nil⟩
    · rintro ⟨vs, hms, hus⟩
      cases hms
      cases hus
      exact ⟨rfl, rfl⟩
  | (k, v) :: entries, as, us => by
    rw [resolveEntries,
      makes_pair_ok_iff (tidy_resolve hload v) (tidy_resolveEntries hload entries), marksEntries]
    constructor
    · rintro ⟨u, us, as₁, as₂, rfl, hu, hus, rfl⟩
      obtain ⟨vs, hvs, hu⟩ := (resolve_makes_ok_iff hload v).mp hu
      obtain ⟨vs', hvs', hus⟩ := (resolveEntries_makes_ok_iff hload entries).mp hus
      exact ⟨vs ++ vs', marksMake_append.mpr ⟨_, _, _, _, rfl, rfl, hvs, hvs'⟩, .cons hu hus⟩
    · rintro ⟨vs, hms, hus⟩
      cases hus with
      | cons hu hus =>
        obtain ⟨as₁, as₂, rfl, hvs, hvs'⟩ := marksMake_append_of_replaced hu hms
        exact ⟨_, _, as₁, as₂, rfl, (resolve_makes_ok_iff hload v).mpr ⟨_, hvs, hu⟩,
          (resolveEntries_makes_ok_iff hload entries).mpr ⟨_, hvs', hus⟩, rfl⟩

end

theorem resolve_makes_error_iff (hload : ∀ p, (load p).Tidy) {v : Yaml} {e : Error} :
    (resolve w load source v).Makes stack as (.error e) ↔
      ∃ before m after vs as₁ as₂, marks v = before ++ m :: after ∧ as = as₁ ++ as₂ ∧
        MarksMake w load source stack before as₁ vs ∧
        MarkMakes w load source stack m as₂ (.error e) := by
  rw [← settleAll_makes_error_iff hload, ← resolve_discard]
  constructor
  · exact fun h => Load.ends_discard_iff.mpr ⟨.error e, h, rfl⟩
  · intro h
    obtain ⟨_ | u, h, heq⟩ := Load.ends_discard_iff.mp h
    · cases heq
      exact h
    · cases heq

end Resolved

section Rebuilt

/-- An entry is put into a mapping: in place of the value under the same key, or else as the last
one. -/
def insertEntry (entries : List (Yaml × Yaml)) (k v : Yaml) : List (Yaml × Yaml) :=
  if entries.any fun e => e.1.same k then
    entries.map fun e => if e.1.same k then (e.1, v) else e
  else entries ++ [(k, v)]

/-- The entries of a mapping are put into another one as soon as their values are resolved. -/
def rebuild (w : Sources) (load : Path → Load Yaml) (source : Path) :
    List (Yaml × Yaml) → List (Yaml × Yaml) → Load (List (Yaml × Yaml))
  | done, [] => pure done
  | done, (k, v) :: entries => do
    let v ← resolve w load source v
    rebuild w load source (insertEntry done k v) entries

variable {w : Sources} {load : Path → Load Yaml} {source : Path}

theorem rebuild_append {done entries : List (Yaml × Yaml)}
    (h : (done ++ entries).Pairwise fun e f => e.1.same f.1 = false) :
    rebuild w load source done entries = (done ++ ·) <$> resolveEntries w load source entries := by
  induction entries generalizing done with
  | nil => simp [rebuild, resolveEntries]
  | cons entry entries ih =>
    obtain ⟨k, v⟩ := entry
    obtain ⟨-, -, hcross⟩ := List.pairwise_append.mp h
    have hnew (u : Yaml) : insertEntry done k u = done ++ [(k, u)] := by
      refine if_neg fun hany => ?_
      obtain ⟨e, he, hsame⟩ := List.any_eq_true.mp hany
      simp [hcross e he (k, v) (by simp)] at hsame
    -- The value under a key has no say in whether keys are the same.
    have hnext (u : Yaml) :
        (done ++ [(k, u)] ++ entries).Pairwise fun e f => e.1.same f.1 = false := by
      have hkeys : (done ++ [(k, u)] ++ entries).map Prod.fst =
          (done ++ (k, v) :: entries).map Prod.fst := by simp
      have hapart :=
        (List.pairwise_map (f := Prod.fst) (R := fun k l => Yaml.same k l = false)).mpr h
      rw [← hkeys] at hapart
      exact List.pairwise_map.mp hapart
    simp only [rebuild, resolveEntries, map_bind, hnew, ih (hnext _)]
    simp

end Rebuilt

/-- Resolving puts values in place of marks and changes nothing else. It comes to an end just when
all marks are settled, in the order of the document, or one fails behind others that are settled,
and then nothing is accessed for those behind it. A mapping may as well be built up again entry by
entry, as its keys stay apart. -/
theorem resolve_replaces_marks (w : Sources) (depth : Nat) (source : Path) (v : Yaml) :
    (∀ stack as u, (resolve w (loadFile w depth) source v).Makes stack as (.ok u) ↔
      ∃ vs, MarksMake w (loadFile w depth) source stack (marks v) as vs ∧ Replaced v vs u) ∧
    (∀ stack as e, (resolve w (loadFile w depth) source v).Makes stack as (.error e) ↔
      ∃ before m after vs as₁ as₂, marks v = before ++ m :: after ∧ as = as₁ ++ as₂ ∧
        MarksMake w (loadFile w depth) source stack before as₁ vs ∧
        MarkMakes w (loadFile w depth) source stack m as₂ (.error e)) ∧
    ∀ entries, v = .mapping entries → (entries.Pairwise fun e f => e.1.same f.1 = false) →
      resolve w (loadFile w depth) source v =
        .mapping <$> rebuild w (loadFile w depth) source [] entries := by
  refine ⟨fun stack as u => resolve_makes_ok_iff (tidy_loadFile depth) v,
    fun stack as e => resolve_makes_error_iff (tidy_loadFile depth), ?_⟩
  rintro entries rfl hapart
  have hrebuild : rebuild w (loadFile w depth) source [] entries = _ := rebuild_append hapart
  rw [hrebuild]
  simp [resolve]

/-- A file to include, and a secret that looks like a mark. -/
def cupboard : Sources where
  files := { entries := [(["b.yaml"], .file (some "hello"))] }
  environment _ := none
  secrets := { entries := [("s", .tagged "include" (.string "c.yaml"))] }
  directory := .ofText "/"

theorem read?_hello : Yaml.read? "hello" = some (.string "hello") :=
  Yaml.read?_scalar (by decide +kernel : Yaml.tokens? _ = some [.scalar "hello" true]) rfl rfl

/-- A key that looks like a mark stays, and so does a tag around one; the secret is put in as it
is. Behind a secret that is missing nothing is asked for. -/
theorem resolve_replaces_marks_cupboard :
    let entries : List (Yaml × Yaml) :=
      [(.tagged "secret" (.string "s"), .sequence [.tagged "secret" (.string "s"),
        .tagged "odd" (.tagged "env_var" (.string "V 7"))]),
        (.string "f", .tagged "include" (.string "b.yaml"))]
    (entries.Pairwise fun e f => e.1.same f.1 = false) ∧
    (Yaml.mapping <$> rebuild cupboard (loadFile cupboard 1) (.ofText "/a.yaml") [] entries).Makes
      [] [.secret "s", .variable "V", .tested (.ofText "/b.yaml"), .opened (.ofText "/b.yaml")]
      (.ok (.mapping [
        (.tagged "secret" (.string "s"),
          .sequence [.tagged "include" (.string "c.yaml"), .tagged "odd" (.int 7)]),
        (.string "f", .string "hello")])) ∧
    (resolve cupboard (loadFile cupboard 1) (.ofText "/a.yaml") (.sequence
      [.tagged "secret" (.string "s"), .tagged "secret" (.string "t"),
        .tagged "include" (.string "b.yaml")])).Makes [] [.secret "s", .secret "t"]
      (.error (.secretNotFound "t")) := by
  intro entries
  have hapart : entries.Pairwise fun e f => e.1.same f.1 = false := by
    simp [entries, Yaml.same]
  have hsecret : MarkMakes cupboard (loadFile cupboard 1) (.ofText "/a.yaml") []
      (.secret (.string "s")) [.secret "s"] (.ok (.tagged "include" (.string "c.yaml"))) :=
    .secret rfl
  refine ⟨hapart, ?_, ?_⟩
  · obtain ⟨hok, -, hrebuild⟩ :=
      resolve_replaces_marks cupboard 1 (.ofText "/a.yaml") (.mapping entries)
    have hseven : reread "7" = .int 7 := by
      rw [reread, Yaml.read?_scalar (by decide +kernel : Yaml.tokens? _ = some [.scalar "7" true])
        rfl (rfl : _ = some (Yaml.int 7))]
      rfl
    have hvariable : MarkMakes cupboard (loadFile cupboard 1) (.ofText "/a.yaml") []
        (.variable (.string "V 7")) [.variable "V"] (.ok (.int 7)) :=
      hseven ▸ .variable (by decide +kernel : _ = (['V'], some ['7'])) rfl
    have htarget : cupboard.target (.ofText "/a.yaml") "b.yaml" = .ofText "/b.yaml" := by
      decide +kernel
    have htext : cupboard.files.read? (.ofText "/b.yaml") = some "hello" := by decide +kernel
    have hinner : (loadFile cupboard 1 (.ofText "/b.yaml")).Makes [] [.opened (.ofText "/b.yaml")]
        (.ok (.string "hello")) := by
      refine (loadFile_makes_iff_of_isAbsolute (by decide +kernel)).mpr (.text (by simp) htext ?_)
      rw [loadTextWith, read?_hello]
      rfl
    have hfile : MarkMakes cupboard (loadFile cupboard 1) (.ofText "/a.yaml") []
        (.file (.string "b.yaml")) [.tested (.ofText "/b.yaml"), .opened (.ofText "/b.yaml")]
        (.ok (.string "hello")) :=
      .file_at htarget (by decide +kernel) hinner
    rw [← hrebuild entries rfl hapart]
    refine (hok _ _ _).mpr ⟨_, .cons hsecret (.cons hvariable (.cons hfile .nil)), ?_⟩
    exact .mapping (.cons (.sequence (.cons (.mark rfl) (.cons (.tagged rfl (.mark rfl)) .nil)))
      (.cons (.mark rfl) .nil))
  · refine ((resolve_replaces_marks cupboard 1 (.ofText "/a.yaml") _).2.1 _ _ _).mpr
      ⟨[.secret (.string "s")], .secret (.string "t"), [.file (.string "b.yaml")], _, [.secret "s"],
        [.secret "t"], rfl, rfl, .cons hsecret .nil, .noSecret rfl⟩

end HomeAutomation.Config
