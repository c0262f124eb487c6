import Mathlib.Data.List.Basic
import HomeAutomation.Config
import HomeAutomation.Home

/-! Sequences of actions. However sequences are nested, what is carried out is a run of the actions
that they come down to: it goes on from the first of them until one fails or the task is asked to
stop, and where the brackets stand makes no difference. A rule with a single effect has no sequence
around it, and does not ask. -/

namespace HomeAutomation

namespace Rules.Action

variable {κ ω : Type}

mutual

/-- The actions that an action comes down to, from left to right; none of them is a sequence. -/
def leaves : Action κ → List (Action κ)
  | .post id value transient => [.post id value transient]
  | .log message => [.log message]
  | .custom code => [.custom code]
  | .sequence as => leavesAll as

def leavesAll : List (Action κ) → List (Action κ)
  | [] => []
  | a :: as => leaves a ++ leavesAll as

end

/-- A sequence within a sequence, at any depth, gives way to its elements. -/
inductive Spliced : Action κ → Action κ → Prop where
  | here (before inner after : List (Action κ)) :
      Spliced (.sequence (before ++ .sequence inner :: after))
        (.sequence (before ++ inner ++ after))
  | inside {a b : Action κ} (before after : List (Action κ)) : Spliced a b →
      Spliced (.sequence (before ++ a :: after)) (.sequence (before ++ b :: after))

theorem leavesAll_append (as bs : List (Action κ)) :
    leavesAll (as ++ bs) = leavesAll as ++ leavesAll bs := by
  induction as with
  | nil => rfl
  | cons a as ih => rw [List.cons_append, leavesAll, ih, leavesAll, List.append_assoc]

theorem ofList_eq_sequence {as : List (Action κ)} (h : ∀ a, as ≠ [a]) :
    ofList as = .sequence as := by
  match as with
  | [] | _ :: _ :: _ => rfl
  | [a] => exact absurd rfl (h a)

theorem Spliced.leaves_eq {a b : Action κ} (h : Spliced a b) : a.leaves = b.leaves := by
  induction h with
  | here before inner after => simp [leaves, leavesAll, leavesAll_append]
  | inside before after _ ih => simp [leaves, leavesAll, leavesAll_append, ih]

section Execution

variable (w : Surroundings κ ω) (rule : String) (trigger : Event)

theorem executeAll_of_interrupted {s : ω} (h : w.isInterrupted s = true) (as : List (Action κ)) :
    executeAll w rule trigger as s = (.success, s) := by
  cases as with
  | nil => rfl
  | cons a as => rw [executeAll, if_pos h]

theorem executeAll_cons {s : ω} (h : w.isInterrupted s = false) (a : Action κ)
    (as : List (Action κ)) : executeAll w rule trigger (a :: as) s =
      match execute w rule trigger a s with
      | (.success, t) => executeAll w rule trigger as t
      | r => r :=
  if_neg (ne_true_of_eq_false h)

/-- Once the first ones are through, be it that the task was asked to stop, the others have their
turn. -/
theorem executeAll_append (as bs : List (Action κ)) (s : ω) :
    executeAll w rule trigger (as ++ bs) s =
      match executeAll w rule trigger as s with
      | (.success, t) => executeAll w rule trigger bs t
      | r => r := by
  induction as generalizing s with
  | nil => rfl
  | cons a as ih =>
    rw [List.cons_append]
    cases hs : w.isInterrupted s with
    | true => simp only [executeAll_of_interrupted w rule trigger hs]
    | false =>
      rw [executeAll_cons w rule trigger hs, executeAll_cons w rule trigger hs]
      rcases execute w rule trigger a s with ⟨o, t⟩
      cases o with
      | success => exact ih t
      | failure | panic => rfl

theorem execute_singleton_of_interrupted {s : ω} (h : w.isInterrupted s = true) (a : Action κ) :
    execute w rule trigger (.sequence [a]) s = (.success, s) := by
  rw [execute, executeAll_of_interrupted w rule trigger h]

theorem execute_singleton {s : ω} (h : w.isInterrupted s = false) (a : Action κ) :
    execute w rule trigger (.sequence [a]) s = execute w rule trigger a s := by
  rw [execute, executeAll_cons w rule trigger h]
  rcases execute w rule trigger a s with ⟨o, t⟩
  cases o <;> rfl

/-- An inner sequence that was stopped ends well, and then the outer one stops as well. -/
theorem executeAll_sequence_cons (inner after : List (Action κ)) (s : ω) :
    executeAll w rule trigger (.sequence inner :: after) s =
      executeAll w rule trigger (inner ++ after) s := by
  cases hs : w.isInterrupted s with
  | true => simp only [executeAll_of_interrupted w rule trigger hs]
  | false =>
    rw [executeAll_cons w rule trigger hs, executeAll_append, execute]

mutual

theorem executeAll_leaves_append (a : Action κ) (as : List (Action κ)) (s : ω) :
    executeAll w rule trigger (leaves a ++ as) s = executeAll w rule trigger (a :: as) s := by
  cases a with
  | post | log | custom => rfl
  | sequence inner =>
    rw [leaves, executeAll_append, executeAll_leavesAll inner s, ← executeAll_append,
      executeAll_sequence_cons]

theorem executeAll_leavesAll (as : List (Action κ)) (s : ω) :
    executeAll w rule trigger (leavesAll as) s = executeAll w rule trigger as s := by
  cases as with
  | nil => rfl
  | cons a as =>
    have hrest : executeAll w rule trigger (leavesAll as) = executeAll w rule trigger as :=
      funext (executeAll_leavesAll as)
    rw [leavesAll, executeAll_leaves_append, ← List.singleton_append, executeAll_append, hrest,
      ← executeAll_append, List.singleton_append]

end

/-- The state in which each of the actions has its turn, and how it ends, if all of them are carried
out. -/
def turns : List (Action κ) → ω → List (ω × Outcome)
  | [], _ => []
  | a :: as, s =>
    (s, (execute w rule trigger a s).1) :: turns as (execute w rule trigger a s).2

/-- What comes of the effects of all these actions, one after another. -/
def effects (as : List (Action κ)) (s : ω) : ω :=
  as.foldl (fun s a => (execute w rule trigger a s).2) s

/-- The actions that were carried out, and those that were left: the task was not asked to stop when
one of the first had its turn, only the last of them may have failed, and one is left only behind a
failure or where the task was asked to stop. -/
structure Performed (done left : List (Action κ)) (s : ω) (r : Outcome × ω) : Prop where
  effects_eq : r.2 = effects w rule trigger done s
  reached : ∀ t ∈ turns w rule trigger done s, w.isInterrupted t.1 = false
  passed : ∀ t ∈ (turns w rule trigger done s).dropLast, t.2 = .success
  failure_iff : ∀ o, o ≠ .success → (r.1 = o ↔ ∃ t ∈ turns w rule trigger done s, t.2 = o)
  stopped : left ≠ [] → r.1 = .success → w.isInterrupted r.2 = true

theorem Performed.none {left : List (Action κ)} {s : ω}
    (h : left ≠ [] → w.isInterrupted s = true) :
    Performed w rule trigger [] left s (.success, s) where
  effects_eq := rfl
  reached := by simp [turns]
  passed := by simp [turns]
  failure_iff o ho := by simpa [turns] using ho.symm
  stopped hleft _ := h hleft

theorem Performed.failed {a : Action κ} {s : ω} (hs : w.isInterrupted s = false)
    (h : (execute w rule trigger a s).1 ≠ .success) (left : List (Action κ)) :
    Performed w rule trigger [a] left s (execute w rule trigger a s) where
  effects_eq := rfl
  reached := by simpa [turns] using hs
  passed := by simp [turns]
  failure_iff o _ := by simp [turns]
  stopped _ hsuccess := absurd hsuccess h

theorem Performed.cons {a : Action κ} {done left : List (Action κ)} {s t : ω} {r : Outcome × ω}
    (hs : w.isInterrupted s = false) (ha : execute w rule trigger a s = (.success, t))
    (h : Performed w rule trigger done left t r) :
    Performed w rule trigger (a :: done) left s r := by
  have hturns : turns w rule trigger (a :: done) s =
      (s, .success) :: turns w rule trigger done t := by rw [turns, ha]
  constructor
  · rw [h.effects_eq, effects, effects, List.foldl_cons, ha]
  · rw [hturns]
    exact List.forall_mem_cons.mpr ⟨hs, h.reached⟩
  · rw [hturns]
    intro x hx
    cases hrest : turns w rule trigger done t with
    | nil => simp [hrest] at hx
    | cons y ys =>
      rw [hrest, List.dropLast_cons_cons] at hx
      rcases List.mem_cons.mp hx with rfl | hx
      · rfl
      · exact h.passed x (hrest ▸ hx)
  · intro o ho
    rw [h.failure_iff o ho, hturns, List.exists_mem_cons_iff]
    exact (or_iff_right fun heq => ho heq.symm).symm
  · exact h.stopped

theorem exists_performed (as : List (Action κ)) (s : ω) : ∃ done left, as = done ++ left ∧
    Performed w rule trigger done left s (executeAll w rule trigger as s) := by
  induction as generalizing s with
  | nil => exact ⟨[], [], rfl, .none w rule trigger (absurd rfl)⟩
  | cons a as ih =>
    cases hs : w.isInterrupted s with
    | true =>
      rw [executeAll_of_interrupted w rule trigger hs]
      exact ⟨[], a :: as, rfl, .none w rule trigger fun _ => hs⟩
    | false =>
      rw [executeAll_cons w rule trigger hs]
      by_cases h : (execute w rule trigger a s).1 = .success
      · have ha : execute w rule trigger a s = (.success, (execute w rule trigger a s).2) :=
          Prod.ext h rfl
        obtain ⟨done, left, rfl, hrest⟩ := ih (execute w rule trigger a s).2
        rw [ha]
        exact ⟨a :: done, left, rfl, hrest.cons w rule trigger hs ha⟩
      · have hfailed := Performed.failed w rule trigger hs h as
        refine ⟨[a], as, rfl, ?_⟩
        split
        · rename_i t ha
          exact absurd (congrArg Prod.fst ha) h
        · exact hfailed

/-- A sequence carries out the actions that it comes down to, in their order, up to one that fails
and up to where the task is asked to stop; it fails if and only if one of them does, and as that one
does. Sequences in it may as well be written out. -/
theorem execute_sequence (as : List (Action κ)) (s : ω) :
    (∃ done left, leavesAll as = done ++ left ∧
      Performed w rule trigger done left s (execute w rule trigger (.sequence as) s)) ∧
    ∀ b, Spliced (.sequence as) b →
      execute w rule trigger b s = execute w rule trigger (.sequence as) s := by
  constructor
  · rw [execute, ← executeAll_leavesAll]
    exact exists_performed w rule trigger (leavesAll as) s
  · intro b hb
    obtain ⟨bs, rfl⟩ : ∃ bs, b = .sequence bs := by cases hb <;> exact ⟨_, rfl⟩
    have hleaves : leavesAll as = leavesAll bs := by simpa [leaves] using hb.leaves_eq
    rw [execute, execute, ← executeAll_leavesAll, ← hleaves, executeAll_leavesAll]

end Execution

end Rules.Action

namespace Config

variable {κ ω : Type}

/-- The action of a configured rule does what the sequence of its effects does, but for a single
effect in a task that was asked to stop beforehand: that effect takes place all the same, where the
sequence does nothing. -/
theorem Rule.execute_action_eq_iff (w : Rules.Surroundings κ ω) (rule : String) (trigger : Event)
    (r : Rule) (s : ω) :
    let sequence : Rules.Action κ := .sequence (r.effects.map Effect.toAction)
    (r.action.execute w rule trigger s = sequence.execute w rule trigger s ↔
      ∀ e, r.effects = [e] → w.isInterrupted s = true →
        e.toAction.execute w rule trigger s = (.success, s)) ∧
    ∀ e, r.effects = [e] → w.isInterrupted s = true →
      r.action.execute w rule trigger s = e.toAction.execute w rule trigger s ∧
        sequence.execute w rule trigger s = (.success, s) := by
  intro sequence
  by_cases hlone : ∃ e, r.effects = [e]
  · obtain ⟨e, he⟩ := hlone
    have haction : (r.action : Rules.Action κ) = e.toAction := by rw [action, he]; rfl
    have hsequence : sequence = .sequence [e.toAction] := by simp only [sequence, he]; rfl
    rw [haction, hsequence]
    cases hs : w.isInterrupted s with
    | true =>
      rw [Rules.Action.execute_singleton_of_interrupted w rule trigger hs]
      refine ⟨⟨fun h e' he' _ => ?_, fun h => h e he rfl⟩, fun e' he' _ => ?_⟩
      · rwa [← List.singleton_inj.mp (he.symm.trans he')]
      · rw [List.singleton_inj.mp (he.symm.trans he')]
        exact ⟨rfl, rfl⟩
    | false =>
      rw [Rules.Action.execute_singleton w rule trigger hs]
      simp
  · have hmany : ∀ e, r.effects ≠ [e] := not_exists.mp hlone
    have haction : r.action = sequence := Rules.Action.ofList_eq_sequence fun a ha => by
      obtain ⟨e, he, -⟩ := List.map_eq_singleton_iff.mp ha
      exact hmany e he
    rw [haction]
    exact ⟨⟨fun _ e he => absurd he (hmany e), fun _ => rfl⟩, fun e he => absurd he (hmany e)⟩

/-- A task that is at work when it is asked to stop. -/
def overtaken : Home.State where
  state :=
    { scheduler :=
        { settings := ⟨1, 1, 5⟩
          tasks := [⟨"rule:quit", .worker, true, ⟨"quit", .log "bye", Lifecycle.quit.event⟩,
            false, .running⟩]
          accepting := false
          interrupted := true
          active := 1 } }

/-- A single line is logged, though the sequence of it would log nothing. -/
theorem lone_effect_unasked :
    let r : Rule := ⟨"quit", "system.state == 'quit'", [.log "bye"]⟩
    let sequence : Rules.Action Embedded := .sequence (r.effects.map Effect.toAction)
    let w := Home.surroundings 0 0 "rule:quit"
    w.isInterrupted (some overtaken) = true ∧
      (r.action.execute w "quit" Lifecycle.quit.event (some overtaken)).2.map Session.notices =
        some [.ruleMessage "quit" "system.state" "bye"] ∧
      (sequence.execute w "quit" Lifecycle.quit.event (some overtaken)).2.map Session.notices =
        some [] ∧
      r.action.execute w "quit" Lifecycle.quit.event (some overtaken) ≠
        sequence.execute w "quit" Lifecycle.quit.event (some overtaken) := by
  refine ⟨rfl, rfl, rfl, fun h => ?_⟩
  have hnotices := congrArg (fun x => x.2.map Session.notices) h
  cases hnotices

end Config

end HomeAutomation
