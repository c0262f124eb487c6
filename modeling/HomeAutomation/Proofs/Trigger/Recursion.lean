import HomeAutomation.Proofs.Trigger.Counters
import HomeAutomation.Proofs.Trigger.RoundTrip
import HomeAutomation.Trigger.Eval

/-! How deep the work on a condition recurs. The reader has as many calls under way as groups are
open, and one more; a group adds at most three levels to the condition; and what goes over a
condition calls itself for its parts only, so that its calls nest as deep as the condition. -/

namespace HomeAutomation.Trigger

namespace Expr

mutual

/-- A leaf alone is of height one. -/
def height : Expr → Nat
  | .or es => heightAll es + 1
  | .and es => heightAll es + 1
  | .not e => height e + 1
  | .transient _ => 1
  | .compare _ => 1

def heightAll : List Expr → Nat
  | [] => 0
  | e :: es => max (height e) (heightAll es)

end

def parts : Expr → List Expr
  | .or es | .and es => es
  | .not e => [e]
  | .transient _ | .compare _ => []

theorem idsAll_eq_flatten (es : List Expr) : idsAll es = (es.map ids).flatten := by
  induction es with
  | nil => rfl
  | cons e es ih => rw [idsAll, ih, List.map_cons, List.flatten_cons]

theorem referencesAny_eq (id : String) (es : List Expr) :
    referencesAny id es = es.any (references id) := by
  induction es with
  | nil => rfl
  | cons e es ih => rw [referencesAny, ih, List.any_cons]

theorem eq_intercalate {all : List Expr → List Char} {text : Expr → List Char}
    {separator : List Char} (hnil : all [] = []) (hone : ∀ e, all [e] = text e)
    (hmore : ∀ e f es, all (e :: f :: es) = text e ++ separator ++ all (f :: es))
    (es : List Expr) : all es = separator.intercalate (es.map text) := by
  induction es with
  | nil => exact hnil
  | cons e es ih =>
    cases es with
    | nil => exact (hone e).trans List.intercalate_singleton.symm
    | cons f es =>
      rw [hmore, ih]
      simp only [List.map_cons, List.intercalate_cons_cons]

theorem disjuncts_eq_intercalate (es : List Expr) : disjuncts es =
    List.intercalate [' ', '|', ' '] (es.map fun e => wrap e.isOr e.chars) :=
  eq_intercalate rfl (fun _ => rfl) (fun e f es => by simp [disjuncts]) es

theorem conjuncts_eq_intercalate (es : List Expr) : conjuncts es =
    List.intercalate [' ', '&', ' '] (es.map fun e => wrap e.isOrAnd e.chars) :=
  eq_intercalate rfl (fun _ => rfl) (fun e f es => by simp [conjuncts]) es

theorem height_pos (e : Expr) : 0 < e.height := by
  cases e <;> simp [height]

theorem height_le_heightAll {e : Expr} {es : List Expr} (h : e ∈ es) :
    e.height ≤ heightAll es := by
  induction es with
  | nil => cases h
  | cons f es ih =>
    rcases List.mem_cons.mp h with rfl | h
    · exact Nat.le_max_left ..
    · exact (ih h).trans (Nat.le_max_right ..)

theorem height_lt_of_mem_parts {e f : Expr} (h : f ∈ e.parts) : f.height < e.height := by
  cases e with
  | or es => exact Nat.lt_succ_of_le (height_le_heightAll h)
  | and es => exact Nat.lt_succ_of_le (height_le_heightAll h)
  | not e =>
    obtain rfl := List.mem_singleton.mp h
    exact Nat.lt_succ_self _
  | transient _ => cases h
  | compare _ => cases h

end Expr

namespace Grammar

open HomeAutomation.Trigger.Expr

theorem Conjunction.height_tree_le (c : Conjunction) :
    c.tree.height ≤ heightAll c.operands + 1 := by
  cases c with
  | one n => exact (Nat.le_max_left ..).trans (Nat.le_succ _)
  | more n _ rest => exact Nat.le_refl _

theorem Disjunction.height_tree_le (d : Disjunction) :
    d.tree.height ≤ heightAll d.operands + 1 := by
  cases d with
  | one c => exact (Nat.le_max_left ..).trans (Nat.le_succ _)
  | more c _ rest => exact Nat.le_refl _

mutual

/-- Each level of groups adds a disjunction, a conjunction and a negation at most. -/
theorem Disjunction.heightAll_operands_le : ∀ d : Disjunction,
    heightAll d.operands ≤ 3 * d.nesting + 3
  | .one c => by
    have hc := Conjunction.heightAll_operands_le c
    have htree := c.height_tree_le
    simp only [Disjunction.operands, Disjunction.nesting, heightAll, Nat.max_zero]
    omega
  | .more c _ rest => by
    have hc := Conjunction.heightAll_operands_le c
    have htree := c.height_tree_le
    have hrest := Disjunction.heightAll_operands_le rest
    simp only [Disjunction.operands, Disjunction.nesting, heightAll]
    omega

theorem Conjunction.heightAll_operands_le : ∀ c : Conjunction,
    heightAll c.operands ≤ 3 * c.nesting + 2
  | .one n => by
    have hn := Negation.height_le n
    simp only [Conjunction.operands, Conjunction.nesting, heightAll, Nat.max_zero]
    omega
  | .more n _ rest => by
    have hn := Negation.height_le n
    have hrest := Conjunction.heightAll_operands_le rest
    simp only [Conjunction.operands, Conjunction.nesting, heightAll]
    omega

theorem Negation.height_le : ∀ n : Negation, n.tree.height ≤ 3 * n.nesting + 2
  | .plain a => (Atom.height_le a).trans (Nat.le_succ _)
  | .not _ a => Nat.succ_le_succ (Atom.height_le a)

theorem Atom.height_le : ∀ a : Atom, a.tree.height ≤ 3 * a.nesting + 1
  | .arrival _ _ => Nat.le_refl _
  | .comparison _ _ _ _ _ => Nat.le_refl _
  | .group _ d _ => by
    have hd := Disjunction.heightAll_operands_le d
    have htree := d.height_tree_le
    simp only [Atom.tree, Atom.nesting]
    omega

end

end Grammar

/-- One call of a recursion over conditions, which may call itself. A call may come back without a
result. -/
abbrev Recursion (α : Type) := (Expr → Option α) → Expr → Option α

namespace Recursion

variable {α : Type}

/-- The recursion with room for so many calls at once. A call that it has no room for has no
result. -/
def within (body : Recursion α) : Nat → Expr → Option α
  | 0 => fun _ => none
  | room + 1 => body (within body room)

/-- A call has this value where the calls for the parts have theirs. -/
def Computes (body : Recursion α) (f : Expr → α) : Prop :=
  ∀ call e, (∀ c ∈ e.parts, call c = some (f c)) → body call e = some (f e)

/-- Calls nest as deep as the condition. -/
theorem Computes.within_eq {body : Recursion α} {f : Expr → α} (h : Computes body f) {e : Expr}
    {room : Nat} (hroom : e.height ≤ room) : within body room e = some (f e) := by
  induction room generalizing e with
  | zero => exact absurd e.height_pos (Nat.not_lt.mpr hroom)
  | succ room ih =>
    refine h _ e fun c hc => ih ?_
    exact Nat.le_of_lt_succ ((Expr.height_lt_of_mem_parts hc).trans_le hroom)

def ids : Recursion (List String) := fun call e =>
  match e with
  | .or es | .and es => (es.mapM call).map List.flatten
  | .not e => call e
  | .transient token => some [token]
  | .compare c => some [c.id]

def references (id : String) : Recursion Bool := fun call e =>
  match e with
  | .or es | .and es => es.anyM call
  | .not e => call e
  | .transient token => some (matchesTransient token id)
  | .compare c => some (c.id == id)

/-- Calls for one child after another, up to the first that decides or fails. -/
def runUntil (call : Expr → Option Run) (deciding : Bool) : List Expr → Option Run
  | [] => some ⟨[], .ok (!deciding)⟩
  | e :: es => do
    let r ← call e
    match r.result with
    | .error m => return ⟨r.visited, .error m⟩
    | .ok b =>
      if b = deciding then return ⟨r.visited, .ok b⟩
      else
        let rest ← runUntil call deciding es
        return ⟨r.visited ++ rest.visited, rest.result⟩

def run (event : Event) (values : Values) : Recursion Run := fun call e =>
  match e with
  | .or es => runUntil call true es
  | .and es => runUntil call false es
  | .not e => (call e).map fun r => ⟨r.visited, r.result.map Bool.not⟩
  | .transient token => some ⟨[], .ok (matchesTransient token event.id)⟩
  | .compare c => some ⟨[c], c.eval event values⟩

/-- The text of several children, with parentheses where they need them. -/
def texts (call : Expr → Option (List Char)) (separator : List Char) (needs : Expr → Bool)
    (es : List Expr) : Option (List Char) :=
  (es.mapM fun e => (call e).map (Expr.wrap (needs e))).map separator.intercalate

def chars : Recursion (List Char) := fun call e =>
  match e with
  | .or es => texts call [' ', '|', ' '] Expr.isOr es
  | .and es => texts call [' ', '&', ' '] Expr.isOrAnd es
  | .not e => (call e).map fun cs => '!' :: Expr.wrap e.isOrAndNot cs
  | .transient token => some token.toList
  | .compare c => some c.chars

section Children

variable {β : Type} {call : Expr → Option β} {f : Expr → β} {es : List Expr}

theorem mapM_children (h : ∀ e ∈ es, call e = some (f e)) : es.mapM call = some (es.map f) := by
  induction es with
  | nil => rfl
  | cons e es ih =>
    obtain ⟨he, hes⟩ := List.forall_mem_cons.mp h
    rw [List.mapM_cons, he, ih hes]
    rfl

theorem anyM_children {call : Expr → Option Bool} {f : Expr → Bool}
    (h : ∀ e ∈ es, call e = some (f e)) : es.anyM call = some (es.any f) := by
  induction es with
  | nil => rfl
  | cons e es ih =>
    obtain ⟨he, hes⟩ := List.forall_mem_cons.mp h
    rw [List.anyM_cons, he, ih hes, List.any_cons]
    cases f e <;> rfl

theorem runUntil_children {event : Event} {values : Values} {call : Expr → Option Run}
    (h : ∀ e ∈ es, call e = some (e.run event values)) (deciding : Bool) :
    runUntil call deciding es = some (Expr.runUntil event values deciding es) := by
  induction es with
  | nil => rfl
  | cons e es ih =>
    obtain ⟨he, hes⟩ := List.forall_mem_cons.mp h
    simp only [runUntil, Expr.runUntil, he, ih hes, Option.bind_eq_bind, Option.bind_some]
    cases (e.run event values).result with
    | error m => rfl
    | ok b =>
      dsimp only
      split <;> rfl

theorem texts_children {call : Expr → Option (List Char)} {f : Expr → List Char}
    (h : ∀ e ∈ es, call e = some (f e)) (separator : List Char) (needs : Expr → Bool) :
    texts call separator needs es =
      some (separator.intercalate (es.map fun e => Expr.wrap (needs e) (f e))) := by
  have hwrapped : ∀ e ∈ es,
      (call e).map (Expr.wrap (needs e)) = some (Expr.wrap (needs e) (f e)) := by
    intro e he
    rw [h e he, Option.map_some]
  rw [texts, mapM_children hwrapped, Option.map_some]

end Children

theorem computes_ids : Computes ids Expr.ids := by
  intro call e h
  cases e with
  | or es | and es =>
    simp only [Expr.parts] at h
    rw [ids, mapM_children h, Option.map_some, Expr.ids, Expr.idsAll_eq_flatten]
  | not e => exact h e List.mem_cons_self
  | transient token => rfl
  | compare c => rfl

theorem computes_references (id : String) : Computes (references id) (Expr.references id) := by
  intro call e h
  cases e with
  | or es | and es =>
    simp only [Expr.parts] at h
    rw [references, anyM_children h, Expr.references, Expr.referencesAny_eq]
  | not e => exact h e List.mem_cons_self
  | transient token => rfl
  | compare c => rfl

theorem computes_run (event : Event) (values : Values) :
    Computes (run event values) (Expr.run event values) := by
  intro call e h
  cases e with
  | or es | and es => exact runUntil_children h _
  | not e => rw [run, h e List.mem_cons_self, Option.map_some, Expr.run]
  | transient token => rfl
  | compare c => rfl

theorem computes_chars : Computes chars Expr.chars := by
  intro call e h
  cases e with
  | or es =>
    rw [Expr.chars, Expr.disjuncts_eq_intercalate]
    exact texts_children h _ _
  | and es =>
    rw [Expr.chars, Expr.conjuncts_eq_intercalate]
    exact texts_children h _ _
  | not e => rw [chars, h e List.mem_cons_self, Option.map_some, Expr.chars]
  | transient token => rfl
  | compare c => rfl

end Recursion

/-- A reading in which no more than so many groups were open at any moment, and no more calls for a
condition than so many were under way. -/
def Counted.Progress.Within (groups calls : Nat) (s : Counted.Progress) : Prop :=
  ∀ m ∈ s.moments, m.groups ≤ groups ∧ m.calls ≤ calls

theorem Counted.Progress.Fits.within {ts : List Token} {s : Counted.Progress} (h : s.Fits ts) :
    s.Within 256 257 := by
  intro m hm
  have hgroups : m.groups ≤ 256 := (h m hm).groups
  exact ⟨hgroups, (h m hm).calls.trans (Nat.succ_le_succ hgroups)⟩

theorem height_le_of_compile {source : String} {c : Condition} (h : compile source = .ok c) :
    c.root.height ≤ 772 := by
  obtain ⟨d, p, -, -, hnesting, -, htree⟩ := exists_derivation_of_compile h
  calc c.root.height = d.tree.height := congrArg Expr.height htree.symm
    _ ≤ Expr.heightAll d.operands + 1 := d.height_tree_le
    _ ≤ 3 * d.nesting + 3 + 1 := Nat.succ_le_succ d.heightAll_operands_le
    _ ≤ 3 * 256 + 3 + 1 := by
      have hnesting : d.nesting ≤ 256 := hnesting
      omega

namespace Expr

mutual

theorem height_withoutLines : ∀ e : Expr, e.withoutLines.height = e.height
  | .or es => congrArg (· + 1) (heightAll_withoutLines es)
  | .and es => congrArg (· + 1) (heightAll_withoutLines es)
  | .not e => congrArg (· + 1) (height_withoutLines e)
  | .transient _ => rfl
  | .compare _ => rfl

theorem heightAll_withoutLines : ∀ es : List Expr, heightAll (withoutLinesAll es) = heightAll es
  | [] => rfl
  | e :: es => congrArg₂ max (height_withoutLines e) (heightAll_withoutLines es)

end

def storey (e : Expr) : Expr :=
  .or [.and [.not e, .transient "a"], .transient "a"]

/-- A condition with one storey more than groups in its text. -/
def tower : Nat → Expr
  | 0 => storey (.transient "a")
  | n + 1 => storey (tower n)

theorem height_storey (e : Expr) : (storey e).height = e.height + 3 := by
  have hpos := e.height_pos
  simp only [storey, height, heightAll]
  omega

theorem height_tower (n : Nat) : (tower n).height = 3 * n + 4 := by
  induction n with
  | zero => rfl
  | succ n ih =>
    rw [tower, height_storey, ih]
    omega

theorem parentheses_tower (n : Nat) : (tower n).parentheses = n := by
  induction n with
  | zero => rfl
  | succ n ih =>
    have hgroup : (tower n).isOrAndNot = true := by cases n <;> rfl
    simp [tower, storey, parentheses, parenthesesAll, isOr, isOrAnd, ih, hgroup]

theorem writable_leaf : Writable (.transient "a") :=
  .transient ⟨⟨'a', [], rfl, by decide, .nil⟩, by decide⟩

theorem Writable.storey {e : Expr} (h : e.Writable) : e.storey.Writable := by
  refine .or (by simp) fun f hf => ?_
  rcases List.mem_pair.mp hf with rfl | rfl
  · refine .and (by simp) fun f hf => ?_
    rcases List.mem_pair.mp hf with rfl | rfl
    · exact .not h
    · exact writable_leaf
  · exact writable_leaf

theorem writable_tower (n : Nat) : (tower n).Writable := by
  induction n with
  | zero => exact writable_leaf.storey
  | succ n ih => exact ih.storey

end Expr

/-- Each group that may be open can add three levels, so that the bound on heights is reached. -/
theorem exists_height_eq {n : Nat} (hn : n ≤ Parser.maxNesting) :
    ∃ source c, compile source = .ok c ∧ c.root.height = 3 * n + 4 := by
  obtain ⟨c, hc, hroot⟩ :=
    compile_text (Expr.writable_tower n) ((Expr.parentheses_tower n).trans_le hn)
  refine ⟨_, c, hc, ?_⟩
  rw [← Expr.height_withoutLines, hroot, Expr.height_withoutLines, Expr.height_tower]

open Counted in
/-- Whatever the source is, the reader never has more than 256 groups open and 257 calls for a
condition under way, and with room for so many calls it ends as the one without counters. A part
that it reads leaves the number of open groups as it was. No compiled condition is higher than 772,
and what goes over one has its result with room for so many calls. -/
theorem recursion_bounded (source : String) :
    (∀ ts, tokenize source = .ok ts → ∀ room, 256 < room →
      ((whole ts room).ends .start).1 = (Parser.parse ts).mapError .fault ∧
      ((whole ts room).ends .start).2.Within 256 257) ∧
    (∀ ts, tokenize source = .ok ts → ∀ room, Restores (condition ts room) ∧
      Restores (conjunction ts (condition ts room)) ∧
      Restores (negation ts (condition ts room)) ∧ Restores (atom ts (condition ts room)) ∧
      ∀ name line, Restores (leaf ts name line)) ∧
    ∀ c, compile source = .ok c → c.root.height ≤ 772 ∧ ∀ room, 772 ≤ room →
      (∀ event values,
        (Recursion.run event values).within room c.root = some (c.run event values)) ∧
      (∀ id, (Recursion.references id).within room c.root = some (c.references id)) ∧
      Recursion.ids.within room c.root = some c.ids ∧
      (Recursion.chars.within room c.root).map String.ofList = some c.text := by
  refine ⟨fun ts hts room hroom => ?_, fun ts _ room => ?_, fun c hc => ?_⟩
  · obtain ⟨hends, hfits⟩ := whole_ends (closed_of_tokenize hts) hroom
    exact ⟨hends, hfits.within⟩
  · have hinside := restores_condition ts room
    exact ⟨hinside, restores_conjunction ts hinside, restores_negation ts hinside,
      restores_atom ts hinside, restores_leaf ts⟩
  · have hheight := height_le_of_compile hc
    refine ⟨hheight, fun room hroom => ?_⟩
    have hroom := hheight.trans hroom
    refine ⟨fun event values => ?_, fun id => ?_, ?_, ?_⟩
    · exact (Recursion.computes_run event values).within_eq hroom
    · exact (Recursion.computes_references id).within_eq hroom
    · exact Recursion.computes_ids.within_eq hroom
    · exact congrArg (Option.map String.ofList) (Recursion.computes_chars.within_eq hroom)

theorem recursion_bounded_nested : ∃ ts c, tokenize "!(a | (b & c))" = .ok ts ∧
    compile "!(a | (b & c))" = .ok c ∧
    ((Counted.whole ts 257).ends .start).1 = (Parser.parse ts).mapError .fault ∧
    ((Counted.whole ts 257).ends .start).2.Within 256 257 ∧
    (((Counted.whole ts 257).ends .start).2.moments.any fun m =>
      m.groups == 2 && m.calls == 3) = true ∧
    c.root.height ≤ 772 ∧ c.root.height = 4 ∧
    Recursion.ids.within 772 c.root = some c.ids ∧ c.ids = ["a", "b", "c"] := by
  have hread : tokenize "!(a | (b & c))" = .ok [⟨.not, ⟨1, 1⟩⟩, ⟨.openGroup, ⟨1, 2⟩⟩,
      ⟨.id "a", ⟨1, 3⟩⟩, ⟨.or, ⟨1, 5⟩⟩, ⟨.openGroup, ⟨1, 7⟩⟩, ⟨.id "b", ⟨1, 8⟩⟩, ⟨.and, ⟨1, 10⟩⟩,
      ⟨.id "c", ⟨1, 12⟩⟩, ⟨.closeGroup, ⟨1, 13⟩⟩, ⟨.closeGroup, ⟨1, 14⟩⟩,
      ⟨.endOfText, ⟨1, 15⟩⟩] := by cbv
  have hc : compile "!(a | (b & c))" = .ok ⟨"!(a | (b & c))",
      .not (.or [.transient "a", .and [.transient "b", .transient "c"]])⟩ := by
    set_option maxRecDepth 4000 in cbv
  obtain ⟨hreading, -, hcompiled⟩ := recursion_bounded "!(a | (b & c))"
  obtain ⟨hends, hwithin⟩ := hreading _ hread 257 (by decide)
  obtain ⟨hheight, hroom⟩ := hcompiled _ hc
  obtain ⟨-, -, hids, -⟩ := hroom 772 (Nat.le_refl _)
  exact ⟨_, _, hread, hc, hends, hwithin, by decide +kernel, hheight, rfl, hids, rfl⟩

end HomeAutomation.Trigger
