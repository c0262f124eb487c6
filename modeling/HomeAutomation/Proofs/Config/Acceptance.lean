import HomeAutomation.Proofs.Config.Reading
import HomeAutomation.Proofs.Rules.Safety

/-! What a configuration that is accepted is good for. A rule of it that is loaded cannot fail when
it fires; it is not loaded only if its trigger does not compile or its name is taken. No trigger is
read from a value under a tag, as an exclamation mark without quotes would make it. -/

namespace HomeAutomation.Config

section Validation

/-- What a rule is checked for as the configuration is read. -/
structure Rule.Valid (r : Rule) : Prop where
  named : Text.allBlank r.name = false
  effects : ∀ f ∈ r.effects, f.isValid = true

theorem Rule.valid_of_validate {index : Nat} {r : Rule} (h : r.validate index = .ok ()) :
    r.Valid := by
  unfold Rule.validate at h
  split at h
  · cases h
  · rename_i hnamed
    split at h
    · rename_i heffects
      exact ⟨(Bool.not_eq_true _).mp hnamed, List.all_eq_true.mp heffects⟩
    · cases h

theorem valid_of_validateRules {index : Nat} {rs : List Rule}
    (h : validateRules index rs = .ok ()) : ∀ r ∈ rs, r.Valid := by
  induction rs generalizing index with
  | nil => exact fun r hr => absurd hr List.not_mem_nil
  | cons r rs ih =>
    unfold validateRules at h
    split at h
    · cases h
    · rename_i hr
      exact List.forall_mem_cons.mpr ⟨Rule.valid_of_validate hr, ih h⟩

theorem valid_of_validate {c : Config} (h : c.validate = .ok ()) :
    c.tasks.validate = .ok () ∧ ∀ r ∈ c.rules, r.Valid := by
  unfold validate at h
  split at h
  · cases h
  · rename_i htasks
    exact ⟨htasks, valid_of_validateRules h⟩

theorem Effect.safe_toAction {κ : Type} {f : Effect} (h : f.isValid = true) :
    (f.toAction : Rules.Action κ).Safe := by
  cases f with
  | post id value transient => exact .post (of_decide_eq_true h)
  | log message => exact .log

theorem Rule.Valid.safe_action {κ : Type} {r : Rule} (h : r.Valid) :
    (r.action : Rules.Action κ).Safe := by
  refine .ofList fun a ha => ?_
  obtain ⟨f, hf, rfl⟩ := List.mem_map.mp ha
  exact Effect.safe_toAction (h.effects f hf)

theorem named_definitions {κ : Type} {c : Config} (h : ∀ r ∈ c.rules, r.Valid) :
    ∀ d ∈ (c.definitions : List (Rules.Definition κ)), Text.allBlank d.name = false := by
  intro d hd
  obtain ⟨r, hr, rfl⟩ := List.mem_map.mp hd
  exact (h r hr).named

theorem safe_of_mem_load {κ : Type} {c : Config} (h : ∀ r ∈ c.rules, r.Valid)
    {r : Rules.Rule κ} (hr : r ∈ (Rules.load c.definitions).rules) : r.action.Safe := by
  obtain ⟨d, hd, -, haction⟩ := Rules.rules_load (named_definitions h) r hr
  obtain ⟨rule, hrule, rfl⟩ := List.mem_map.mp hd
  rw [haction]
  exact (h rule hrule).safe_action

end Validation

section Triggers

namespace Reader

/-- The values that rules are read from. -/
def ruleNodes? (y : Yaml) : Option (List Yaml) :=
  (fields? y).bind fun fields => fieldOr? fields "rules" [] (list? some)

/-- The value that the trigger of a rule is read from. -/
def triggerNode? (y : Yaml) : Option Yaml :=
  (fields? y).bind fun fields => (field? fields "when").join

theorem rule?_inv {y : Yaml} {r : Rule} (h : rule? y = some r) :
    ∃ fields v, fields? y = some fields ∧ field? fields "when" = some (some v) ∧
      v.untagged = .string r.trigger := by
  simp only [rule?, Option.bind_eq_bind, Option.bind_eq_some_iff] at h
  obtain ⟨fields, hfields, name, -, trigger, htrigger, effects, -, hr⟩ := h
  obtain rfl := Option.some.inj hr
  obtain ⟨v, hv, htext⟩ := required?_inv htrigger
  exact ⟨fields, v, hfields, hv, text?_inv htext⟩

theorem rules_of_config? {processors : Nat} {y : Yaml} {c : Config}
    (h : config? (.default processors) y = some c) :
    ∃ nodes, ruleNodes? y = some nodes ∧
      List.Forall₂ (fun node r => rule? node = some r) nodes c.rules := by
  simp only [config?, Option.bind_eq_bind, Option.bind_eq_some_iff] at h
  obtain ⟨fields, hfields, tasks, -, level, -, rules, hrules, hc⟩ := h
  obtain rfl := Option.some.inj hc
  have hnodes : ruleNodes? y = fieldOr? fields "rules" [] (list? some) := by
    rw [ruleNodes?, hfields, Option.bind_some]
  rw [hnodes, fieldOr?]
  rcases fieldOr?_inv hrules with ⟨hnone, rfl⟩ | ⟨v, hv, hlist⟩
  · exact ⟨[], by rw [hnone]; rfl, .nil⟩
  · rw [hv, Option.bind_some]
    show ∃ nodes, list? some v = some nodes ∧ _
    rcases list?_inv hlist with ⟨hnull, rfl⟩ | ⟨items, hitems, hread⟩
    · exact ⟨[], by rw [list?, hnull], .nil⟩
    · refine ⟨items, ?_, hread⟩
      rw [list?, hitems]
      exact mapM_eq_some_iff.mpr (List.forall₂_same.mpr fun _ _ => rfl)

theorem ruleNodes?_inv {y : Yaml} {nodes : List Yaml} (hy : y.keysUntagged = true)
    (h : ruleNodes? y = some nodes) :
    nodes = [] ∨ ∃ v, y.get? "rules" = some v ∧ v.untagged = .sequence nodes := by
  obtain ⟨fields, hfields, hnodes⟩ := Option.bind_eq_some_iff.mp h
  rcases fieldOr?_inv hnodes with ⟨-, hnone⟩ | ⟨v, hv, hlist⟩
  · exact .inl hnone
  · rcases list?_inv hlist with ⟨-, hnone⟩ | ⟨items, hitems, hsame⟩
    · exact .inl hnone
    · have heq : items = nodes :=
        List.forall₂_eq_eq_eq ▸ hsame.imp fun _ _ hitem => Option.some.inj hitem
      exact .inr ⟨v, (get?_eq_lookup hy hfields).trans (lookup_of_field? hv), heq ▸ hitems⟩

end Reader

theorem checkTriggers_inv {index : Nat} {nodes : List Yaml}
    (h : checkTriggers index nodes = .ok ()) :
    ∀ node ∈ nodes, ∀ v, node.get? "when" = some v → v.isTagged = false := by
  induction nodes generalizing index with
  | nil => exact fun node hnode => absurd hnode List.not_mem_nil
  | cons node nodes ih =>
    unfold checkTriggers at h
    split at h
    · cases h
    · rename_i htagged
      refine List.forall_mem_cons.mpr ⟨fun v hv => ?_, ih h⟩
      cases v with
      | tagged tag v => exact absurd hv (htagged tag v)
      | _ => rfl

/-- The values of rules are looked at for the tags of their triggers. -/
theorem checkUnquoted_inv {y : Yaml} {nodes : List Yaml} (h : checkUnquoted y = .ok ())
    (hy : y.keysUntagged = true) (hnodes : Reader.ruleNodes? y = some nodes) :
    ∀ node ∈ nodes, node.keysUntagged = true ∧
      ∀ v, node.get? "when" = some v → v.isTagged = false := by
  rcases Reader.ruleNodes?_inv hy hnodes with rfl | ⟨v, hv, hsequence⟩
  · exact fun node hnode => absurd hnode List.not_mem_nil
  · have hkeys := Yaml.keysUntagged_untagged (Yaml.keysUntagged_of_get? hy hv)
    rw [hsequence, Yaml.keysUntagged, Yaml.allKeysUntagged_iff] at hkeys
    rw [checkUnquoted, hv, Option.map_some, hsequence] at h
    exact fun node hnode => ⟨hkeys node hnode, checkTriggers_inv h node hnode⟩

theorem triggers_untagged {processors : Nat} {y : Yaml} {c : Config}
    (hcheck : checkUnquoted y = .ok ()) (hy : y.keysUntagged = true)
    (h : Reader.config? (.default processors) y = some c) :
    ∃ nodes, Reader.ruleNodes? y = some nodes ∧
      List.Forall₂ (fun node r => Reader.rule? node = some r ∧
        Reader.triggerNode? node = some (.string r.trigger)) nodes c.rules := by
  obtain ⟨nodes, hnodes, hread⟩ := Reader.rules_of_config? h
  refine ⟨nodes, hnodes, ((List.forall₂_and_left _ _).mpr
    ⟨checkUnquoted_inv hcheck hy hnodes, hread⟩).imp ?_⟩
  rintro node r ⟨⟨hkeys, hwhen⟩, hr⟩
  obtain ⟨fields, v, hfields, hfield, htext⟩ := Reader.rule?_inv hr
  have hget : node.get? "when" = some v :=
    (Reader.get?_eq_lookup hkeys hfields).trans (Reader.lookup_of_field? hfield)
  have hv : v = .string r.trigger := (Yaml.untagged_of_isTagged (hwhen v hget)).symm.trans htext
  refine ⟨hr, ?_⟩
  rw [Reader.triggerNode?, hfields, Option.bind_some, hfield, hv]
  rfl

end Triggers

section Accepted

variable {processors depth : Nat} {files : Files} {environment : String → Option String}
  {text : String} {c : Config}

theorem ofYaml_inv {source : Path} {y : Yaml} (h : ofYaml processors source y = .ok c) :
    checkUnquoted y = .ok () ∧ Reader.config? (.default processors) y = some c ∧
      c.validate = .ok () := by
  rw [ofYaml] at h
  cases hcheck : checkUnquoted y with
  | error e =>
    rw [hcheck] at h
    cases h
  | ok u =>
    rw [hcheck] at h
    cases hconfig : Reader.config? (.default processors) y with
    | none =>
      rw [hconfig] at h
      cases h
    | some c' =>
      rw [hconfig] at h
      cases hvalid : c'.validate with
      | error e =>
        simp only [bind, Except.bind, hvalid] at h
        cases h
      | ok u' =>
        simp only [bind, Except.bind, hvalid] at h
        cases h
        exact ⟨rfl, rfl, hvalid⟩

/-- The settings of an accepted configuration are valid. Of its rules one is only left out for its
trigger or for a name that is taken. Every other one ends well whenever it fires, whatever comes of
its posts and wherever it is interrupted, and so does its task. No trigger is read from a value
under a tag, unless there are keys under tags. -/
theorem accepted_safe (h : ofText processors depth files environment text = some (.ok c)) :
    c.tasks.validate = .ok () ∧
    (∀ κ : Type, ∀ e ∈ (Rules.load (c.definitions (κ := κ))).errors, ∃ r ∈ c.rules,
      (∃ ce, Trigger.compile r.trigger = .error ce ∧ e = .compile r.name ce) ∨
        e = .duplicate r.name) ∧
    (∀ (κ ω : Type) (w : Rules.Surroundings κ ω), ∀ r ∈ (Rules.load c.definitions).rules,
      ∀ name trigger s, (r.action.execute w name trigger s).1 = .success) ∧
    (∀ r ∈ (Rules.load c.definitions).rules, ∀ (home : Home) id t,
      home.session.state.scheduler.tasks[id]? = some t → t.work.action = r.action →
      (∀ bound home', Home.runTask bound home id = some home' → Home.EndsWell home id home') ∧
      ((Home.beginTask home.session id).PostsEnd r.action.Posts →
        ∃ n home', Home.EndsWell home id home' ∧
          ∀ m, n ≤ m → Home.runTask m home id = some home')) ∧
    ∃ y, loadYamlText files environment depth {} text = some (.ok y) ∧
      (y.keysUntagged = true → ∃ nodes, Reader.ruleNodes? y = some nodes ∧
        List.Forall₂ (fun node r => Reader.rule? node = some r ∧
          Reader.triggerNode? node = some (.string r.trigger)) nodes c.rules) := by
  obtain ⟨y?, hload, hy?⟩ := Option.map_eq_some_iff.mp h
  obtain ⟨y, rfl, hy⟩ : ∃ y, y? = .ok y ∧ ofYaml processors textSource y = .ok c := by
    cases y? with
    | error e => cases hy?
    | ok y => exact ⟨y, rfl, hy?⟩
  obtain ⟨hcheck, hconfig, hvalidate⟩ := ofYaml_inv hy
  obtain ⟨htasks, hvalid⟩ := valid_of_validate hvalidate
  refine ⟨htasks, ?_, ?_, ?_, y, hload, fun hkeys => triggers_untagged hcheck hkeys hconfig⟩
  · intro κ e he
    obtain ⟨d, hd, hreason⟩ := Rules.errors_load (named_definitions hvalid) e he
    obtain ⟨r, hr, rfl⟩ := List.mem_map.mp hd
    exact ⟨r, hr, hreason⟩
  · intro κ ω w r hr name trigger s
    exact (safe_of_mem_load hvalid hr).execute_eq_success s
  · intro r hr home id t ht hwork
    rw [← hwork]
    exact Home.runTask_of_safe ht (hwork ▸ safe_of_mem_load hvalid hr)

def visitText : String :=
  "rules: [{name: greet, when: knock, then: [{log: ding}, {post: {id: light}}]}]"

def visitConfig : Config where
  tasks := .default 1
  level := "info"
  rules := [⟨"greet", "knock", [.log "ding", .post "light" none false]⟩]

def visitAction : Rules.Action Embedded := .sequence [.log "ding", .post "light" none false]

/-- A home with a listener that fails and one that panics, where a visitor has rung. -/
def visit : Home where
  session := ((Session.subscribe
    { state := (Home.submit ⟨"greet", visitAction, ⟨"knock", .ui, false, none, by decide⟩⟩
      { scheduler := { settings := .default 1 } }).1 }
    "sulky" fun _ => .finish (.failure ⟨["late"]⟩)).2.subscribe
    "jumpy" fun _ => .finish (.panic .other)).2

theorem accepted_safe_visit :
    ofText 1 1 { entries := [] } (fun _ => none) visitText = some (.ok visitConfig) ∧
    visitConfig.tasks.validate = .ok () ∧
    (∃ r ∈ (Rules.load visitConfig.definitions).rules, r.name = "greet" ∧ r.action = visitAction) ∧
    (∃ n home', Home.EndsWell visit 0 home' ∧ ∀ m, n ≤ m →
      Home.runTask m visit 0 = some home') ∧
    ∃ y nodes, y.keysUntagged = true ∧ Reader.ruleNodes? y = some nodes ∧
      List.Forall₂ (fun node r => Reader.rule? node = some r ∧
        Reader.triggerNode? node = some (.string r.trigger)) nodes visitConfig.rules := by
  have haccepted : ofText 1 1 { entries := [] } (fun _ => none) visitText =
      some (.ok visitConfig) := by
    have hok : (ofText 1 1 { entries := [] } (fun _ => none) visitText).bind Except.toOption =
        some visitConfig := by decide +kernel
    obtain ⟨r, hr, hc⟩ := Option.bind_eq_some_iff.mp hok
    cases r with
    | error e => cases hc
    | ok c => rw [hr, Option.some.inj hc]
  have hkeys : ((loadYamlText { entries := [] } (fun _ => none) 1 {} visitText).bind
      Except.toOption).map Yaml.keysUntagged = some true := by decide +kernel
  have hgreet : ∃ r ∈ (Rules.load visitConfig.definitions).rules,
      r.name = "greet" ∧ r.action = visitAction := by
    have hnames : (Rules.load (visitConfig.definitions (κ := Embedded))).rules.map
        Rules.Rule.name = ["greet"] := by decide +kernel
    obtain ⟨r, hr, hname⟩ := List.mem_map.mp (hnames ▸ List.mem_singleton_self "greet")
    obtain ⟨d, hd, -, haction⟩ := Rules.rules_load (by decide +kernel) r hr
    rw [List.mem_singleton.mp hd] at haction
    exact ⟨r, hr, hname, haction⟩
  have horderly : Home.OrderlyBus (fun _ => 0) (Home.beginTask visit.session 0) := by
    intro l hl
    rcases List.mem_pair.mp hl with rfl | rfl <;> exact fun _ _ => trivial
  obtain ⟨htasks, -, -, hends, y, hy, htriggers⟩ := accepted_safe haccepted
  obtain ⟨r, hr, hname, haction⟩ := hgreet
  obtain ⟨-, hend⟩ := hends r hr visit 0 _ rfl haction.symm
  rw [hy] at hkeys
  have huntagged : y.keysUntagged = true := Option.some.inj hkeys
  obtain ⟨nodes, hnodes⟩ := htriggers huntagged
  exact ⟨haccepted, htasks, ⟨r, hr, hname, haction⟩,
    hend (Home.postsEnd_of_orderlyBus horderly), y, nodes, huntagged, hnodes⟩

end Accepted

end HomeAutomation.Config
