import HomeAutomation.Proofs.Config.Loading

/-! The rules of settling marks while files are being loaded. -/

namespace HomeAutomation.Config

/-- The path that an include of this text stands for in a source. -/
def Sources.target (w : Sources) (source : Path) (text : String) : Path :=
  (source.parent?.getD w.directory).join (.ofText text)

section

variable {w : Sources} {load load' : Path → Load Yaml} {source : Path}

theorem Load.Compositional.settle {R : {α : Type} → Load α → Load α → Prop} (h : Compositional R)
    (hload : ∀ p, R (load p) (load' p)) (m : Mark) :
    R (Config.settle w load source m) (Config.settle w load' source m) := by
  cases m with
  | file v => exact h.resolveInclude hload v
  | secret v => exact h.resolveSecret v
  | «variable» v => exact h.resolveVariable v

theorem Load.Compositional.settleAll {R : {α : Type} → Load α → Load α → Prop} (h : Compositional R)
    (hload : ∀ p, R (load p) (load' p)) (ms : List Mark) :
    R (Config.settleAll w load source ms) (Config.settleAll w load' source ms) := by
  induction ms with
  | nil => exact h.pure ()
  | cons m ms ih => exact h.bind (h.settle hload m) fun _ => ih

theorem tidy_settle (hload : ∀ p, (load p).Tidy) (m : Mark) : (settle w load source m).Tidy :=
  @Load.Compositional.settle w load load source _ Load.compositional_tidy hload m

theorem tidy_settleAll (hload : ∀ p, (load p).Tidy) (ms : List Mark) :
    (settleAll w load source ms).Tidy :=
  @Load.Compositional.settleAll w load load source _ Load.compositional_tidy hload ms

end

section Rules

variable {w : Sources} {load : Path → Load Yaml} {source : Path} {stack : List Path}
  {as : List Access}

/-- A document makes what its marks make. -/
theorem settleAll_marks_makes_iff {text : String} {v : Yaml} {r : Except Error Unit}
    (h : Yaml.read? text = some v) :
    (settleAll w load source (marks v)).Makes stack as r ↔
      ∃ r' : Except Error Yaml, (loadTextWith w load source text).Makes stack as r' ∧
        r = r'.map fun _ => () := by
  rw [← resolve_discard, loadTextWith, h]
  exact Load.ends_discard_iff

/-- A document that is nothing but an include. -/
theorem read?_include {text target : String}
    (h : Yaml.tokens? text = some [.tag "!" ("include".toList.map some), .scalar target true])
    (htarget : Yaml.readPlain? target = some (.string target)) :
    Yaml.read? text = some (.tagged "include" (.string target)) :=
  Yaml.read?_scalar h rfl htarget

theorem loadTextWith_include {text target : String}
    (h : Yaml.read? text = some (.tagged "include" (.string target))) :
    loadTextWith w load source text = settle w load source (.file (.string target)) := by
  rw [loadTextWith, h]
  exact resolve_mark rfl

theorem settleAll_cons_makes_iff (hload : ∀ p, (load p).Tidy) {m : Mark} {ms : List Mark}
    {r : Except Error Unit} :
    (settleAll w load source (m :: ms)).Makes stack as r ↔
      (∃ e, r = .error e ∧ (settle w load source m).Makes stack as (.error e)) ∨
      ∃ v as₁ as₂, as = as₁ ++ as₂ ∧ (settle w load source m).Makes stack as₁ (.ok v) ∧
        (settleAll w load source ms).Makes stack as₂ r :=
  Load.makes_bind_iff (tidy_settle hload m) fun _ => tidy_settleAll hload ms

theorem settle_file_makes_iff (hload : ∀ p, (load p).Tidy) {text : String}
    {r : Except Error Yaml} :
    (settle w load source (.file (.string text))).Makes stack as r ↔
      ∃ as', as = .tested (w.target source text) :: as' ∧
        if w.files.contains (w.target source text) then
          (load (w.target source text)).Makes stack as' r
        else as' = [] ∧ r = .error (.includeNotFound (w.target source text)) := by
  have htidy : (if w.files.contains (w.target source text) then load (w.target source text)
      else fail (.includeNotFound (w.target source text))).Tidy := by
    split
    · exact hload _
    · exact Load.compositional_tidy.fail _
  refine (Load.makes_note_bind_iff htidy).trans ?_
  split
  · rfl
  · simp only [Sources.target, Load.makes_fail_iff]

end Rules

end HomeAutomation.Config
