import HomeAutomation.Proofs.Config.Settling
import HomeAutomation.Proofs.Files.Location
import Mathlib.Data.List.Nodup
import Mathlib.Data.List.Perm.Subperm

/-! How deep includes can be. Where no path goes up, the files that are being loaded are different
files, so there are no more of them than files in all, and with that depth every load ends. More
depth than a load needs makes no difference to it. -/

namespace HomeAutomation

namespace Files

/-- Where the files are. -/
def fileLocations (fs : Files) : List Location :=
  fs.entries.filterMap fun (l, e) =>
    match e with
    | .directory => none
    | .file _ => some l

variable {fs : Files} {l : Location} {p : Path}

theorem mem_entries {text : Option String} (h : fs.entry? l = some (.file text)) :
    (l, .file text) ∈ fs.entries := by
  unfold entry? at h
  split at h
  · next e hlookup =>
    obtain rfl := Option.some.inj h
    obtain ⟨before, after, heq, -⟩ := List.lookup_eq_some_iff.mp hlookup
    simp [heq]
  · split at h <;> cases h

theorem mem_fileLocations {text : Option String} (h : fs.entry? l = some (.file text)) :
    l ∈ fs.fileLocations :=
  List.mem_filterMap.mpr ⟨_, mem_entries h, rfl⟩

theorem entry?_of_read? {text : String} (hp : p.Plain) (h : fs.read? p = some text) :
    fs.entry? p.steps = some (.file (some text)) := by
  rw [read?, locate?_of_read? hp h, Option.bind_some] at h
  split at h
  · next heq => rw [heq, h]
  · cases h

end Files

namespace Config

namespace Load

variable {α : Type}

/-- Wherever the first load ends, the second one ends likewise. -/
def Extends (m m' : Load α) : Prop := ∀ s r t, m.Ends s r t → m'.Ends s r t

theorem compositional_extends : Compositional Extends where
  pure _ _ _ _ h := h
  fail _ _ _ _ h := h
  note _ _ _ _ h := h
  bind hm hk _ _ _ h := by
    rcases h.bind_inv with ⟨e, rfl, hends⟩ | ⟨a, u, hends, hrest⟩
    · exact (hm _ _ _ hends).bind_error
    · exact (hm _ _ _ hends).bind (hk a _ _ _ hrest)

def Total (m : Load α) : Prop := ∀ s, ∃ r t, m.Ends s r t

theorem compositional_total : Compositional fun m _ => Total m where
  pure a s := ⟨.ok a, s, rfl⟩
  fail e s := ⟨.error e, s, rfl⟩
  note _ _ := ⟨.ok (), _, rfl⟩
  bind hm hk s := by
    obtain ⟨_ | a, t, hends⟩ := hm s
    · exact ⟨_, t, hends.bind_error⟩
    · obtain ⟨r, u, hrest⟩ := hk a t
      exact ⟨r, u, hends.bind hrest⟩

theorem Total.exists_makes {m : Load α} (h : m.Total) (hm : m.Tidy) (stack : List Path) :
    ∃ as r, m.Makes stack as r := by
  obtain ⟨r, t, hends⟩ := h ⟨stack, []⟩
  obtain ⟨as, -, hmakes⟩ := hm.exists_makes hends
  exact ⟨as, r, hmakes⟩

theorem Extends.trans {m m' m'' : Load α} (h : m.Extends m') (h' : m'.Extends m'') :
    m.Extends m'' := fun s r t hends => h' s r t (h s r t hends)

end Load

section Depth

variable {w : Sources} {source p : Path} {stack : List Path} {d d' : Nat}

theorem loadFile_extends_succ (d : Nat) (p : Path) :
    (loadFile w d p).Extends (loadFile w (d + 1) p) := by
  induction d generalizing p with
  | zero => exact fun _ _ _ h => nomatch h
  | succ d ih =>
    intro s r t h
    obtain ⟨as, rfl, hmakes⟩ := (loadFile_ends_iff (tidy_loadFile d)).mp h
    refine (loadFile_ends_iff (tidy_loadFile (d + 1))).mpr ⟨as, rfl, ?_⟩
    cases hmakes with
    | circular hq hsame => exact .circular hq hsame
    | unreadable hfresh hread => exact .unreadable hfresh hread
    | @text text as r hfresh hread hmakes =>
      refine .text hfresh hread ?_
      unfold loadTextWith at hmakes ⊢
      split at hmakes
      · exact hmakes
      · exact Load.compositional_extends.resolve ih _ _ _ _ hmakes

theorem loadFile_extends (h : d ≤ d') (p : Path) :
    (loadFile w d p).Extends (loadFile w d' p) := by
  induction h with
  | refl => exact fun _ _ _ h => h
  | step _ ih => exact ih.trans (loadFile_extends_succ _ p)

end Depth

/-- No path goes up, neither that of the directory nor one that is included. -/
structure Sources.Plain (w : Sources) : Prop where
  directory : w.directory.Plain
  includes : ∀ l text v target, w.files.entry? l = some (.file (some text)) →
    Yaml.read? text = some v → .file (.string target) ∈ marks v → ".." ∉ (Path.ofText target).names

/-- The files on the stack are different files, all of them read. -/
structure Stacked (w : Sources) (stack : List Path) : Prop where
  plain : ∀ p ∈ stack, p.Plain
  readable : ∀ p ∈ stack, ∃ text, w.files.read? p = some text
  distinct : (stack.map Path.steps).Nodup

section Plain

variable {w : Sources} {load : Path → Load Yaml} {source p : Path} {stack : List Path} {d : Nat}
  {text : String}

theorem Sources.Plain.place (hw : w.Plain) (htext : ".." ∉ (Path.ofText text).names) :
    (w.place (.ofText text)).Plain := by
  unfold Sources.place
  split
  · exact ⟨by assumption, htext⟩
  · exact hw.directory.join_ofText htext

theorem Sources.Plain.target (hw : w.Plain) (hsource : source.Plain)
    (htext : ".." ∉ (Path.ofText text).names) : (w.target source text).Plain := by
  unfold Sources.target
  cases hparent : source.parent? with
  | none => exact hw.directory.join_ofText htext
  | some q => exact (hsource.parent? hparent).join_ofText htext

theorem stacked_nil : Stacked w [] := ⟨by simp, by simp, by simp⟩

theorem Stacked.push (hs : Stacked w stack) (hp : p.Plain) (hread : w.files.read? p = some text)
    (hfresh : ∀ q ∈ stack, p.same q = false) : Stacked w (p :: stack) where
  plain := List.forall_mem_cons.mpr ⟨hp, hs.plain⟩
  readable := List.forall_mem_cons.mpr ⟨⟨text, hread⟩, hs.readable⟩
  distinct := by
    refine List.nodup_cons.mpr ⟨fun hmem => ?_, hs.distinct⟩
    obtain ⟨q, hq, hsteps⟩ := List.mem_map.mp hmem
    have hsame := (Path.same_iff hp (hs.plain q hq)).mpr hsteps.symm
    exact absurd hsame (by simp [hfresh q hq])

theorem Stacked.length_le (hs : Stacked w stack) :
    stack.length ≤ w.files.fileLocations.length := by
  have hsub : stack.map Path.steps ⊆ w.files.fileLocations := by
    intro l hl
    obtain ⟨p, hp, rfl⟩ := List.mem_map.mp hl
    obtain ⟨text, hread⟩ := hs.readable p hp
    exact Files.mem_fileLocations (Files.entry?_of_read? (hs.plain p hp) hread)
  simpa using (hs.distinct.subperm hsub).length_le

theorem exists_makes_settle (htidy : ∀ p, (load p).Tidy) {m : Mark}
    (hload : ∀ text, m = .file (.string text) →
      ∃ as r, (load (w.target source text)).Makes stack as r) :
    ∃ as r, (settle w load source m).Makes stack as r := by
  cases m with
  | file v =>
    cases v with
    | string text =>
      by_cases hthere : w.files.contains (w.target source text) = true
      · obtain ⟨as, r, hmakes⟩ := hload text rfl
        exact ⟨_, r, (settle_file_makes_iff htidy).mpr ⟨as, rfl, by rwa [if_pos hthere]⟩⟩
      · exact ⟨_, _, (settle_file_makes_iff htidy).mpr
          ⟨[], rfl, by rw [if_neg hthere]; exact ⟨rfl, rfl⟩⟩⟩
    | _ => exact ⟨[], .error _, rfl⟩
  | secret v =>
    exact (Load.compositional_total.resolveSecret v).exists_makes
      (Load.compositional_tidy.resolveSecret v) stack
  | «variable» v =>
    exact (Load.compositional_total.resolveVariable v).exists_makes
      (Load.compositional_tidy.resolveVariable v) stack

theorem exists_makes_settleAll (htidy : ∀ p, (load p).Tidy) {ms : List Mark}
    (hload : ∀ text, .file (.string text) ∈ ms →
      ∃ as r, (load (w.target source text)).Makes stack as r) :
    ∃ as r, (settleAll w load source ms).Makes stack as r := by
  induction ms with
  | nil => exact ⟨[], .ok (), rfl⟩
  | cons m ms ih =>
    obtain ⟨as, r, hmakes⟩ := exists_makes_settle htidy fun text heq =>
      hload text (heq ▸ List.mem_cons_self)
    cases r with
    | error e => exact ⟨as, .error e, (settleAll_cons_makes_iff htidy).mpr (.inl ⟨e, rfl, hmakes⟩)⟩
    | ok v =>
      obtain ⟨as', r', hrest⟩ := ih fun text hmem => hload text (List.mem_cons_of_mem _ hmem)
      exact ⟨as ++ as', r',
        (settleAll_cons_makes_iff htidy).mpr (.inr ⟨v, as, as', rfl, hmakes, hrest⟩)⟩

/-- A load ends if it may go deeper than there are files that are not being loaded. -/
theorem exists_makes_loadFile (hw : w.Plain) (hs : Stacked w stack)
    (hd : w.files.fileLocations.length < stack.length + d) (hp : p.Plain) :
    ∃ as r, (loadFile w d p).Makes stack as r := by
  induction d generalizing stack p with
  | zero => exact absurd hs.length_le (by omega)
  | succ d ih =>
    simp only [loadFile_makes_iff_of_isAbsolute hp.absolute]
    by_cases hloading : ∃ q ∈ stack, p.same q = true
    · obtain ⟨q, hq, hsame⟩ := hloading
      exact ⟨_, _, .circular hq hsame⟩
    · have hfresh : ∀ q ∈ stack, p.same q = false := by simpa using hloading
      cases hread : w.files.read? p with
      | none => exact ⟨_, _, .unreadable hfresh hread⟩
      | some text =>
        -- One level less is left, and one file more is on the stack.
        have hstacked := hs.push hp hread hfresh
        have hdeep : w.files.fileLocations.length < (p :: stack).length + d := by
          simp only [List.length_cons]
          omega
        cases hyaml : Yaml.read? text with
        | none =>
          have hmalformed : (loadTextWith w (loadFile w d) p text).Makes (p :: stack) []
              (.error (.malformed p)) := by
            rw [loadTextWith, hyaml]
            exact Load.makes_fail_iff.mpr ⟨rfl, rfl⟩
          exact ⟨_, _, .text hfresh hread hmalformed⟩
        | some v =>
          have hentry := Files.entry?_of_read? hp hread
          obtain ⟨as, r, hmakes⟩ := exists_makes_settleAll (tidy_loadFile d) fun target hmem =>
            ih hstacked hdeep (hw.target hp (hw.includes _ _ _ _ hentry hyaml hmem))
          obtain ⟨r', hmakes', -⟩ := (settleAll_marks_makes_iff hyaml).mp hmakes
          exact ⟨_, _, .text hfresh hread hmakes'⟩

end Plain

end Config

end HomeAutomation
