import HomeAutomation.Proofs.Config.Ending

/-! The rules of loading files. A load leaves the files that are being loaded as it found them, only
adds to what was accessed, and takes no notice of what was accessed before; so it is told by those
files, by the accesses that it makes and by its result. -/

namespace HomeAutomation.Config

namespace Load

variable {α β : Type}

/-- While these files are being loaded, the load makes these accesses and ends with this result. -/
def Makes (m : Load α) (stack : List Path) (as : List Access) (r : Except Error α) : Prop :=
  m.Ends ⟨stack, []⟩ r ⟨stack, as⟩

def Tidy (m : Load α) : Prop :=
  ∀ s r t, m.Ends s r t → ∃ as, t = ⟨s.loading, s.accesses ++ as⟩ ∧
    ∀ before, m.Ends ⟨s.loading, before⟩ r ⟨s.loading, before ++ as⟩

theorem compositional_tidy : Compositional fun m _ => Tidy m where
  pure a := by
    intro s r t h
    obtain ⟨rfl, rfl⟩ := ends_pure_iff.mp h
    exact ⟨[], by simp, fun before => by simp [ends_pure_iff]⟩
  fail e := by
    intro s r t h
    obtain ⟨rfl, rfl⟩ := ends_fail_iff.mp h
    exact ⟨[], by simp, fun before => by simp [ends_fail_iff]⟩
  note a := by
    intro s r t h
    obtain ⟨rfl, rfl⟩ := ends_note_iff.mp h
    exact ⟨[a], rfl, fun before => by simp [ends_note_iff]⟩
  bind {α β m _ k _} hm hk := by
    intro s r t h
    rcases h.bind_inv with ⟨e, rfl, hends⟩ | ⟨a, u, hends, hrest⟩
    · obtain ⟨as, rfl, hany⟩ := hm _ _ _ hends
      exact ⟨as, rfl, fun before => (hany before).bind_error⟩
    · obtain ⟨as, rfl, hany⟩ := hm _ _ _ hends
      obtain ⟨as', rfl, hany'⟩ := hk a _ _ _ hrest
      refine ⟨as ++ as', by simp, fun before => ?_⟩
      rw [← List.append_assoc]
      exact (hany before).bind (hany' (before ++ as))

theorem Tidy.exists_makes {m : Load α} {s t : Progress} {r : Except Error α} (hm : m.Tidy)
    (h : m.Ends s r t) :
    ∃ as, t = ⟨s.loading, s.accesses ++ as⟩ ∧ m.Makes s.loading as r := by
  obtain ⟨as, rfl, hany⟩ := hm _ _ _ h
  exact ⟨as, rfl, hany []⟩

theorem Makes.ends {m : Load α} {stack : List Path} {as : List Access} {r : Except Error α}
    (hm : m.Tidy) (h : m.Makes stack as r) (before : List Access) :
    m.Ends ⟨stack, before⟩ r ⟨stack, before ++ as⟩ := by
  obtain ⟨as', heq, hany⟩ := hm _ _ _ h
  obtain rfl : as = as' := congrArg Progress.accesses heq
  exact hany before

section Rules

variable {m : Load α} {k : α → Load β} {stack : List Path} {as : List Access}

theorem makes_pure_iff {a : α} {r : Except Error α} :
    (pure a : Load α).Makes stack as r ↔ as = [] ∧ r = .ok a := by
  simp [Makes, ends_pure_iff, and_comm]

theorem makes_fail_iff {e : Error} {r : Except Error α} :
    (fail e : Load α).Makes stack as r ↔ as = [] ∧ r = .error e := by
  simp [Makes, ends_fail_iff, and_comm]

theorem makes_bind_iff (hm : m.Tidy) (hk : ∀ a, (k a).Tidy) {r : Except Error β} :
    (m >>= k).Makes stack as r ↔
      (∃ e, r = .error e ∧ m.Makes stack as (.error e)) ∨
      ∃ a as₁ as₂, as = as₁ ++ as₂ ∧ m.Makes stack as₁ (.ok a) ∧ (k a).Makes stack as₂ r := by
  constructor
  · intro h
    rcases h.bind_inv with ⟨e, rfl, hends⟩ | ⟨a, u, hends, hrest⟩
    · exact .inl ⟨e, rfl, hends⟩
    · obtain ⟨as₁, rfl, hmakes⟩ := hm.exists_makes hends
      obtain ⟨as₂, heq, hmakes'⟩ := (hk a).exists_makes hrest
      exact .inr ⟨a, as₁, as₂, congrArg Progress.accesses heq, hmakes, hmakes'⟩
  · rintro (⟨e, rfl, hmakes⟩ | ⟨a, as₁, as₂, rfl, hmakes, hmakes'⟩)
    · exact hmakes.bind_error
    · exact hmakes.bind (hmakes'.ends (hk a) as₁)

theorem makes_note_bind_iff {a : Access} {m : Load β} (hm : m.Tidy) {r : Except Error β} :
    (note a >>= fun _ => m).Makes stack as r ↔ ∃ as', as = a :: as' ∧ m.Makes stack as' r := by
  rw [makes_bind_iff (compositional_tidy.note a) fun _ => hm]
  constructor
  · rintro (⟨e, -, hnote⟩ | ⟨_, as₁, as₂, rfl, hnote, hmakes⟩)
    · cases (ends_note_iff.mp hnote).1
    · obtain ⟨-, heq⟩ := ends_note_iff.mp hnote
      obtain rfl : as₁ = [a] := congrArg Progress.accesses heq
      exact ⟨as₂, rfl, hmakes⟩
  · rintro ⟨as', rfl, hmakes⟩
    exact .inr ⟨(), [a], as', rfl, ends_note_iff.mpr ⟨rfl, rfl⟩, hmakes⟩

/-- A file that is not being loaded yet is added for as long as it is loaded. -/
theorem ends_whileLoading_iff_makes {path : Path} {s t : Progress} {r : Except Error α}
    (hm : m.Tidy) (hfresh : ∀ q ∈ s.loading, path.same q = false) :
    (whileLoading path m).Ends s r t ↔
      ∃ as, t = ⟨s.loading, s.accesses ++ as⟩ ∧ m.Makes (path :: s.loading) as r := by
  have hback : ((path :: s.loading).filter fun q => !q.same path) = s.loading := by
    rw [List.filter_cons_of_neg (by simp [Path.same])]
    refine List.filter_eq_self.mpr fun q hq => ?_
    have hne := hfresh q hq
    simp only [Path.same, decide_eq_false_iff_not] at hne
    simpa [Path.same] using Ne.symm hne
  rw [ends_whileLoading_iff]
  constructor
  · rintro ⟨u, hends, rfl⟩
    obtain ⟨as, rfl, hmakes⟩ := hm.exists_makes hends
    exact ⟨as, by rw [hback], hmakes⟩
  · rintro ⟨as, rfl, hmakes⟩
    exact ⟨_, hmakes.ends hm s.accesses, by rw [hback]⟩

end Rules

end Load

section Files

variable {w : Sources} {load : Path → Load Yaml} {source path p : Path} {stack : List Path}
  {as : List Access}

theorem tidy_loadTextWith (hload : ∀ p, (load p).Tidy) {text : String} :
    (loadTextWith w load source text).Tidy := by
  unfold loadTextWith
  split
  · exact Load.compositional_tidy.fail _
  · exact @Load.Compositional.resolve _ w load load source Load.compositional_tidy hload _

/-- What loading a file makes, given how the files in it are loaded. -/
inductive FileMakes (w : Sources) (load : Path → Load Yaml) (path : Path) (stack : List Path) :
    List Access → Except Error Yaml → Prop where
  | circular {q : Path} : q ∈ stack → path.same q = true →
      FileMakes w load path stack [] (.error (.circularInclude path))
  | unreadable : (∀ q ∈ stack, path.same q = false) → w.files.read? path = none →
      FileMakes w load path stack [.opened path] (.error (.unreadable path))
  | text {text : String} {as : List Access} {r : Except Error Yaml} :
      (∀ q ∈ stack, path.same q = false) → w.files.read? path = some text →
      (loadTextWith w load path text).Makes (path :: stack) as r →
      FileMakes w load path stack (.opened path :: as) r

theorem loadFile_run {d : Nat} {s : Progress} :
    (loadFile w (d + 1) p).run.run s =
      if s.loading.any (w.place p).same then some (.error (.circularInclude (w.place p)), s)
      else
        match w.files.read? (w.place p) with
        | none => some (.error (.unreadable (w.place p)),
            { s with accesses := s.accesses ++ [.opened (w.place p)] })
        | some text =>
          (whileLoading (w.place p) (loadTextWith w (loadFile w d) (w.place p) text)).run.run
            { s with accesses := s.accesses ++ [.opened (w.place p)] } := by
  have hload : loadFile w (d + 1) p = (do
      if (← get).loading.any (w.place p).same then fail (.circularInclude (w.place p))
      else
        note (.opened (w.place p))
        match w.files.read? (w.place p) with
        | none => fail (.unreadable (w.place p))
        | some text =>
          whileLoading (w.place p) (loadTextWith w (loadFile w d) (w.place p) text)) := rfl
  rw [hload, Load.run_bind]
  show (if s.loading.any (w.place p).same then _ else _ : Load Yaml).run.run s = _
  split
  · rfl
  · rw [Load.run_bind]
    show (match w.files.read? (w.place p) with | none => _ | some text => _ : Load Yaml).run.run _ = _
    split <;> rfl

theorem loadFile_ends_iff {d : Nat} {s t : Progress} {r : Except Error Yaml}
    (hload : ∀ p, (loadFile w d p).Tidy) :
    (loadFile w (d + 1) p).Ends s r t ↔ ∃ as, t = ⟨s.loading, s.accesses ++ as⟩ ∧
      FileMakes w (loadFile w d) (w.place p) s.loading as r := by
  rw [Load.Ends, loadFile_run]
  by_cases hloading : s.loading.any (w.place p).same = true
  · rw [if_pos hloading]
    obtain ⟨q, hq, hsame⟩ := List.any_eq_true.mp hloading
    constructor
    · rintro ⟨⟩
      exact ⟨[], by simp, .circular hq hsame⟩
    · rintro ⟨as, rfl, hmakes⟩
      cases hmakes with
      | circular => simp
      | unreadable hfresh | text hfresh => simp [hfresh q hq] at hsame
  · rw [if_neg hloading]
    have hfresh : ∀ q ∈ s.loading, (w.place p).same q = false := by simpa using hloading
    cases hread : w.files.read? (w.place p) with
    | none =>
      constructor
      · rintro ⟨⟩
        exact ⟨[.opened (w.place p)], rfl, .unreadable hfresh hread⟩
      · rintro ⟨as, rfl, hmakes⟩
        cases hmakes with
        | circular hq hsame => simp [hfresh _ hq] at hsame
        | unreadable => rfl
        | text _ hread' => simp [hread] at hread'
    | some text =>
      have htidy : (loadTextWith w (loadFile w d) (w.place p) text).Tidy := tidy_loadTextWith hload
      have hiff : (whileLoading (w.place p) (loadTextWith w (loadFile w d) (w.place p) text)).Ends
          { s with accesses := s.accesses ++ [.opened (w.place p)] } r t ↔ _ :=
        Load.ends_whileLoading_iff_makes htidy hfresh
      rw [Load.Ends] at hiff
      rw [hiff]
      constructor
      · rintro ⟨as, rfl, hmakes⟩
        exact ⟨.opened (w.place p) :: as, by simp, .text hfresh hread hmakes⟩
      · rintro ⟨as, rfl, hmakes⟩
        cases hmakes with
        | circular hq hsame => simp [hfresh _ hq] at hsame
        | unreadable _ hread' => simp [hread] at hread'
        | text _ hread' hmakes =>
          obtain rfl := Option.some.inj (hread.symm.trans hread')
          exact ⟨_, by simp, hmakes⟩

theorem tidy_loadFile (d : Nat) (p : Path) : (loadFile w d p).Tidy := by
  induction d generalizing p with
  | zero =>
    intro s r t h
    cases h
  | succ d ih =>
    intro s r t h
    obtain ⟨as, rfl, hmakes⟩ := (loadFile_ends_iff ih).mp h
    exact ⟨as, rfl, fun before => (loadFile_ends_iff ih).mpr ⟨as, rfl, hmakes⟩⟩

theorem loadFile_makes_iff {d : Nat} {r : Except Error Yaml} :
    (loadFile w (d + 1) p).Makes stack as r ↔
      FileMakes w (loadFile w d) (w.place p) stack as r := by
  rw [Load.Makes, loadFile_ends_iff (tidy_loadFile d)]
  constructor
  · rintro ⟨as', heq, hmakes⟩
    obtain rfl : as = as' := congrArg Progress.accesses heq
    exact hmakes
  · intro hmakes
    exact ⟨as, rfl, hmakes⟩

theorem loadFile_makes_iff_of_isAbsolute (hp : p.isAbsolute = true) {d : Nat}
    {r : Except Error Yaml} :
    (loadFile w (d + 1) p).Makes stack as r ↔ FileMakes w (loadFile w d) p stack as r := by
  rw [loadFile_makes_iff, Sources.place_of_isAbsolute hp]

theorem loadFile_makes_congr {p' : Path} (hp : w.place p = w.place p') {d : Nat}
    {r : Except Error Yaml} :
    (loadFile w d p).Makes stack as r ↔ (loadFile w d p').Makes stack as r := by
  cases d with
  | zero => rfl
  | succ d => rw [loadFile_makes_iff, loadFile_makes_iff, hp]

end Files

end HomeAutomation.Config
