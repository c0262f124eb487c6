import Mathlib.Data.List.Basic
import HomeAutomation.Rules.Rule

/-! Loading loses no definition. Each of them goes in its turn to the rules or to the errors, only a
name that was loaded before makes it a duplicate, and what was accepted loads again by itself. -/

namespace HomeAutomation.Rules

variable {κ : Type}

/-- A definition with a name and a trigger that compiles makes a rule. -/
structure Definition.Makes (d : Definition κ) (r : Rule κ) : Prop where
  named : Text.allBlank d.name = false
  compiles : Trigger.compile d.trigger = .ok r.trigger
  name : r.name = d.name
  action : r.action = d.action

def rejection? : Except RuleError (Rule κ) → Option RuleError
  | .error e => some e
  | .ok _ => none

/-- What became of each definition, in their order. -/
abbrev Account (κ : Type) := List (Definition κ × Except RuleError (Rule κ))

namespace Account

def rules (ps : Account κ) : List (Rule κ) := ps.filterMap fun p => p.2.toOption

def errors (ps : Account κ) : List RuleError := ps.filterMap fun p => rejection? p.2

def accepted (ps : Account κ) : List (Definition κ) :=
  (ps.filter fun p => p.2.isOk).map Prod.fst

/-- Some definition of the name was loaded. -/
def HasLoaded (ps : Account κ) (name : String) : Prop :=
  ∃ p ∈ ps, p.1.name = name ∧ p.2.isOk = true

/-- Only an equally named definition that was loaded before makes a duplicate. -/
structure Fair (ps : Account κ) : Prop where
  duplicate : ∀ before d v after, ps = before ++ (d, v) :: after →
    (v = .error (.duplicate d.name) ↔ HasLoaded before d.name)
  compiled : ∀ d v, (d, v) ∈ ps → v ≠ .error (.duplicate d.name) → v = d.compile

section Entries

variable {ps : Account κ} {d : Definition κ} {v : Except RuleError (Rule κ)} {name : String}

theorem hasLoaded_cons : HasLoaded ((d, v) :: ps) name ↔
    (d.name = name ∧ v.isOk = true) ∨ HasLoaded ps name := by
  simp only [HasLoaded, List.exists_mem_cons_iff]

theorem rules_cons_ok (d : Definition κ) (r : Rule κ) (ps : Account κ) :
    rules ((d, .ok r) :: ps) = r :: rules ps := rfl

/-- Every definition is counted once, with the rules or with the errors. -/
theorem length_rules_add_length_errors (ps : Account κ) :
    (rules ps).length + (errors ps).length = ps.length := by
  induction ps with
  | nil => rfl
  | cons p ps ih =>
    obtain ⟨d, v⟩ := p
    cases v with
    | ok r =>
      show (r :: rules ps).length + (errors ps).length = _
      rw [List.length_cons, List.length_cons, ← ih, Nat.add_right_comm]
    | error e =>
      show (rules ps).length + (e :: errors ps).length = _
      rw [List.length_cons, List.length_cons, ← ih, Nat.add_assoc]

end Entries

end Account

/-- What becomes of a definition when rules of these names are loaded. -/
def Definition.fate (d : Definition κ) (loaded : List String) : Except RuleError (Rule κ) :=
  if d.name ∈ loaded then .error (.duplicate d.name) else d.compile

/-- The names that are loaded once a definition has met its fate. -/
def noted (loaded : List String) : Except RuleError (Rule κ) → List String
  | .ok r => r.name :: loaded
  | .error _ => loaded

/-- The rule of that name that a definition makes. -/
def Definition.rule? (name : String) (d : Definition κ) : Option (Rule κ) :=
  if d.name = name then d.compile.toOption else none

section Fates

variable {d : Definition κ} {r : Rule κ} {loaded : List String} {name : String}

theorem Definition.compile_eq_ok_iff : d.compile = .ok r ↔ d.Makes r := by
  obtain ⟨name, trigger, action⟩ := r
  rw [compile]
  constructor
  · intro h
    split at h
    · cases h
    · rename_i hnamed
      split at h
      · cases h
      · rename_i t ht
        cases h
        exact ⟨by simpa using hnamed, ht, rfl, rfl⟩
  · rintro ⟨hnamed, ht, rfl, rfl⟩
    simp only at ht
    rw [hnamed, ht]
    rfl

theorem Definition.compile_ne_duplicate : d.compile ≠ .error (.duplicate name) := by
  rw [compile]
  split
  · exact nofun
  · split <;> exact nofun

theorem Definition.fate_eq_duplicate_iff :
    d.fate loaded = .error (.duplicate d.name) ↔ d.name ∈ loaded := by
  rw [fate]
  split
  · simpa
  · rename_i h
    simp [h, compile_ne_duplicate]

theorem Definition.fate_eq_ok_iff : d.fate loaded = .ok r ↔ d.name ∉ loaded ∧ d.Makes r := by
  rw [fate]
  split
  · rename_i h
    simp [h]
  · rename_i h
    simp [h, compile_eq_ok_iff]

theorem Definition.rule?_eq_some_iff : d.rule? name = some r ↔ d.name = name ∧ d.Makes r := by
  rw [rule?, ← compile_eq_ok_iff]
  split
  · rename_i h
    cases hc : d.compile <;> simp [h, Except.toOption]
  · rename_i h
    simp [h]

theorem mem_noted : name ∈ noted loaded (d.fate loaded) ↔
    name ∈ loaded ∨ (d.name = name ∧ (d.fate loaded).isOk = true) := by
  cases h : d.fate loaded with
  | error e => simp [noted, Except.isOk, Except.toBool]
  | ok r =>
    obtain ⟨-, hmakes⟩ := Definition.fate_eq_ok_iff.mp h
    simp only [noted, List.mem_cons, hmakes.name, Except.isOk, Except.toBool, and_true]
    rw [or_comm, eq_comm]

theorem verdicts_cons (d : Definition κ) (ds : List (Definition κ)) (loaded : List String) :
    verdicts loaded (d :: ds) =
      d.fate loaded :: verdicts (noted loaded (d.fate loaded)) ds := by
  rw [verdicts, Definition.fate, List.contains_eq_mem]
  by_cases h : d.name ∈ loaded
  · simp [h, noted]
  · simp only [h, decide_false, if_false, Bool.false_eq_true]
    cases d.compile <;> rfl

end Fates

/-- The account of loading definitions when rules of these names are loaded. -/
def account (loaded : List String) (ds : List (Definition κ)) : Account κ :=
  ds.zip (verdicts loaded ds)

section Settling

variable {d : Definition κ} {ds : List (Definition κ)} {r : Rule κ} {loaded : List String}
  {name : String}

theorem account_cons (d : Definition κ) (ds : List (Definition κ)) (loaded : List String) :
    account loaded (d :: ds) =
      (d, d.fate loaded) :: account (noted loaded (d.fate loaded)) ds := by
  rw [account, verdicts_cons]
  rfl

theorem length_verdicts : (verdicts loaded ds).length = ds.length := by
  induction ds generalizing loaded with
  | nil => rfl
  | cons d ds ih => rw [verdicts_cons, List.length_cons, ih, List.length_cons]

theorem map_fst_account : (account loaded ds).map Prod.fst = ds :=
  List.map_fst_zip (Nat.le_of_eq length_verdicts.symm)

theorem map_snd_account : (account loaded ds).map Prod.snd = verdicts loaded ds :=
  List.map_snd_zip (Nat.le_of_eq length_verdicts)

theorem load_eq (ds : List (Definition κ)) :
    load ds = ⟨(account [] ds).rules, (account [] ds).errors⟩ := by
  have hsnd : (account [] ds).map Prod.snd = verdicts [] ds := map_snd_account
  have hrules : (account [] ds).rules = (verdicts [] ds).filterMap Except.toOption := by
    rw [← hsnd, List.filterMap_map]
    rfl
  have herrors : (account [] ds).errors = (verdicts [] ds).filterMap rejection? := by
    rw [← hsnd, List.filterMap_map]
    rfl
  rw [hrules, herrors]
  rfl

theorem eq_duplicate_iff {before after : Account κ} {v : Except RuleError (Rule κ)}
    (h : account loaded ds = before ++ (d, v) :: after) :
    v = .error (.duplicate d.name) ↔ d.name ∈ loaded ∨ Account.HasLoaded before d.name := by
  induction ds generalizing loaded before with
  | nil => simp [account] at h
  | cons d₀ ds ih =>
    rw [account_cons] at h
    cases before with
    | nil =>
      obtain ⟨heq, -⟩ := List.cons.inj h
      obtain ⟨rfl, rfl⟩ := Prod.mk.inj heq
      rw [Definition.fate_eq_duplicate_iff]
      simp [Account.HasLoaded]
    | cons p before =>
      obtain ⟨rfl, hrest⟩ := List.cons.inj h
      rw [ih hrest, mem_noted, Account.hasLoaded_cons, or_assoc]

theorem eq_compile_of_mem {v : Except RuleError (Rule κ)} (h : (d, v) ∈ account loaded ds)
    (hv : v ≠ .error (.duplicate d.name)) : v = d.compile := by
  induction ds generalizing loaded with
  | nil => simp [account] at h
  | cons d₀ ds ih =>
    rw [account_cons] at h
    rcases List.mem_cons.mp h with heq | h
    · obtain ⟨rfl, rfl⟩ := Prod.mk.inj heq
      exact if_neg fun hmem => hv (Definition.fate_eq_duplicate_iff.mpr hmem)
    · exact ih h

theorem fair_account (ds : List (Definition κ)) : (account [] ds).Fair where
  duplicate before d v after h := by simpa using eq_duplicate_iff h
  compiled _ _ h hv := eq_compile_of_mem h hv

/-- A rule of the account has a name of its own, which was not loaded before. -/
theorem nodup_names : ((account loaded ds).rules.map Rule.name).Nodup ∧
    ∀ n ∈ (account loaded ds).rules.map Rule.name, n ∉ loaded := by
  induction ds generalizing loaded with
  | nil => simp [account, Account.rules]
  | cons d ds ih =>
    rw [account_cons]
    cases h : d.fate loaded with
    | error e => exact ih
    | ok r =>
      obtain ⟨hnew, hmakes⟩ := Definition.fate_eq_ok_iff.mp h
      obtain ⟨hnodup, hothers⟩ := @ih (noted loaded (.ok r))
      rw [Account.rules_cons_ok, List.map_cons, List.nodup_cons, List.forall_mem_cons]
      refine ⟨⟨fun hmem => ?_, hnodup⟩, hmakes.name ▸ hnew, fun n hn hmem => ?_⟩
      · exact hothers r.name hmem List.mem_cons_self
      · exact hothers n hn (List.mem_cons_of_mem _ hmem)

theorem find?_rules (hname : name ∉ loaded) :
    (account loaded ds).rules.find? (fun r => r.name == name) =
      ds.findSome? (Definition.rule? name) := by
  induction ds generalizing loaded with
  | nil => rfl
  | cons d ds ih =>
    rw [account_cons, List.findSome?_cons]
    cases h : d.fate loaded with
    | error e =>
      have hnone : d.rule? name = none := by
        refine Option.eq_none_iff_forall_ne_some.mpr fun r hr => ?_
        obtain ⟨rfl, hmakes⟩ := Definition.rule?_eq_some_iff.mp hr
        rw [Definition.fate_eq_ok_iff.mpr ⟨hname, hmakes⟩] at h
        cases h
      rw [hnone]
      exact ih hname
    | ok r =>
      obtain ⟨-, hmakes⟩ := Definition.fate_eq_ok_iff.mp h
      rw [Account.rules_cons_ok, List.find?_cons]
      by_cases hr : d.name = name
      · rw [Definition.rule?_eq_some_iff.mpr ⟨hr, hmakes⟩, hmakes.name, beq_iff_eq.mpr hr]
      · have hnone : d.rule? name = none := if_neg hr
        rw [hnone, hmakes.name, beq_eq_false_iff_ne.mpr hr]
        refine ih fun hmem => ?_
        rcases List.mem_cons.mp hmem with heq | hmem
        · exact hr (hmakes.name.symm.trans heq.symm)
        · exact hname hmem

/-- What is loaded under a name is the first definition of that name that makes a rule. -/
theorem get?_load_eq_some_iff : (load ds).get? name = some r ↔
    ∃ before d after, ds = before ++ d :: after ∧ d.name = name ∧ d.Makes r ∧
      ∀ d' ∈ before, d'.name = name → ∀ r', ¬ d'.Makes r' := by
  have hfind : (load ds).get? name = ds.findSome? (Definition.rule? name) := by
    rw [load_eq]
    exact find?_rules List.not_mem_nil
  have hfailed (d : Definition κ) : d.rule? name = none ↔ (d.name = name → ∀ r, ¬ d.Makes r) := by
    rw [Option.eq_none_iff_forall_ne_some]
    simp only [ne_eq, Definition.rule?_eq_some_iff, not_and]
    exact forall_comm
  simp only [hfind, List.findSome?_eq_some_iff, Definition.rule?_eq_some_iff, hfailed, and_assoc]

theorem verdicts_accepted : verdicts loaded (account loaded ds).accepted =
    (account loaded ds).rules.map .ok := by
  induction ds generalizing loaded with
  | nil => rfl
  | cons d ds ih =>
    rw [account_cons]
    cases h : d.fate loaded with
    | error e => exact ih
    | ok r =>
      show verdicts loaded (d :: (account (noted loaded (.ok r)) ds).accepted) = .ok r :: _
      rw [verdicts_cons, h, ih]
      rfl

/-- What was accepted is loaded without an error when it is loaded by itself. -/
theorem load_accepted : load (account [] ds).accepted = ⟨(account [] ds).rules, []⟩ := by
  rw [load, verdicts_accepted, List.filterMap_map, List.filterMap_map]
  congr 1
  · exact List.filterMap_some
  · exact List.filterMap_eq_nil_iff.mpr fun _ _ => rfl

end Settling

/-- Every definition is answered, in its turn, by a rule or by an error, and is reported as a
duplicate if and only if a definition of its name was loaded before it. The loaded names differ, the
first definition of a name that makes a rule is found under it, and the definitions that were
accepted load again in full. -/
theorem load_accounts (ds : List (Definition κ)) :
    ∃ ps : Account κ, ps.map Prod.fst = ds ∧ Account.Fair ps ∧
      (load ds).rules = Account.rules ps ∧ (load ds).errors = Account.errors ps ∧
      (load ds).rules.length + (load ds).errors.length = ds.length ∧
      ((load ds).rules.map Rule.name).Nodup ∧
      (∀ name r, (load ds).get? name = some r ↔
        ∃ before d after, ds = before ++ d :: after ∧ d.name = name ∧ d.Makes r ∧
          ∀ d' ∈ before, d'.name = name → ∀ r', ¬ d'.Makes r') ∧
      load (Account.accepted ps) = ⟨(load ds).rules, []⟩ := by
  have hload := load_eq ds
  refine ⟨account [] ds, map_fst_account, fair_account ds, ?_, ?_, ?_, ?_, ?_, ?_⟩
  · rw [hload]
  · rw [hload]
  · have hlength : (account [] ds).length = ds.length :=
      (List.length_map Prod.fst).symm.trans (congrArg List.length map_fst_account)
    rw [hload, Account.length_rules_add_length_errors, hlength]
  · rw [hload]
    exact nodup_names.1
  · exact fun name r => get?_load_eq_some_iff
  · rw [load_accepted, hload]

/-- One that failed to compile leaves its name to a later one; a blank name is found before the
trigger is read. -/
example :
    let ds : List (Definition Empty) :=
      [⟨"bell", "doorbell", .log "ding"⟩, ⟨"fan", "temp >", .log "off"⟩,
        ⟨"bell", "door", .log "dong"⟩, ⟨" ", "door >", .log "nobody"⟩,
        ⟨"fan", "temp > 30", .log "on"⟩]
    (load ds).rules.map Rule.name = ["bell", "fan"] ∧
      (load ds).errors.map RuleError.rule = ["fan", "bell", " "] := by
  decide +kernel

end HomeAutomation.Rules
