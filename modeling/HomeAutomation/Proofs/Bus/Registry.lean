import Mathlib.Data.List.Nodup
import HomeAutomation.Bus.Dispatch

/-! Who is registered on a bus. Ids are handed out in ascending order and never again, so that no
two listeners have the same one, whoever else has taken an id and is yet to register. -/

namespace HomeAutomation

/-- The registered listeners with their names, in the order of their registration. -/
abbrev Registry := List (ListenerId × String)

namespace Registry

def ids (reg : Registry) : List ListenerId := reg.map Prod.fst

def without (reg : Registry) (id : ListenerId) : Registry := reg.filter fun l => l.1 != id

theorem ids_without_sublist (reg : Registry) (id : ListenerId) :
    (reg.without id).ids.Sublist reg.ids :=
  List.filter_sublist.map _

theorem mem_ids_without {reg : Registry} {id i : ListenerId} :
    i ∈ (reg.without id).ids ↔ i ∈ reg.ids ∧ i ≠ id := by
  simp [ids, without]

end Registry

namespace Bus

variable {β : Type}

def registry (b : Bus β) : Registry := b.listeners.map fun r => (r.id, r.name)

/-- The buses that callers bring about step by step, with the ids that were taken and are yet to be
registered. -/
inductive Reachable : List ListenerId → Bus β → Prop where
  | empty : Reachable [] {}
  | store {taken : List ListenerId} {b : Bus β} (e : Event) :
      Reachable taken b → Reachable taken (b.store e)
  | takeId {taken : List ListenerId} {b : Bus β} :
      Reachable taken b → Reachable (b.takeId.1 :: taken) b.takeId.2
  | register {taken left : List ListenerId} {b : Bus β} (r : Registration β) :
      Reachable taken b → taken.Perm (r.id :: left) → Reachable left (b.register r)
  | unsubscribe {taken : List ListenerId} {b : Bus β} (id : ListenerId) :
      Reachable taken b → Reachable taken (b.unsubscribe id).2
  | detach {taken : List ListenerId} {b : Bus β} :
      Reachable taken b → Reachable taken b.detach.2

theorem Reachable.subscribe {taken : List ListenerId} {b : Bus β} (h : Reachable taken b)
    (name : String) (react : β) : Reachable taken (b.subscribe name react).2 :=
  h.takeId.register ⟨b.nextId, name, react⟩ (List.Perm.refl _)

/-- When one of several callers goes on to something else, the others hold the ids they held. -/
theorem exists_others {α : Type} {xs : List α} {n : Nat} {x : α} (h : xs[n]? = some x)
    (held : α → List ListenerId) : ∃ others, (xs.flatMap held).Perm (held x ++ others) ∧
      ∀ y, ((xs.set n y).flatMap held).Perm (held y ++ others) := by
  obtain ⟨hn, rfl⟩ := List.getElem?_eq_some_iff.mp h
  have hsplit (y : α) : xs.set n y = xs.take n ++ y :: xs.drop (n + 1) :=
    List.set_eq_take_cons_drop y hn
  have hmove (y : α) : ((xs.take n ++ y :: xs.drop (n + 1)).flatMap held).Perm
      (held y ++ (xs.take n ++ xs.drop (n + 1)).flatMap held) := by
    simpa using List.perm_append_comm_assoc ((xs.take n).flatMap held) (held y)
      ((xs.drop (n + 1)).flatMap held)
  refine ⟨(xs.take n ++ xs.drop (n + 1)).flatMap held, ?_, fun y => ?_⟩
  · have hself := hmove xs[n]
    rwa [← hsplit, List.set_getElem_self] at hself
  · rw [hsplit]
    exact hmove y

/-- Different listeners have different ids, and the next id is later than all of them. -/
structure Distinct (b : Bus β) : Prop where
  nodup : b.registry.ids.Nodup
  lt_nextId : ∀ id ∈ b.registry.ids, id < b.nextId

section Steps

variable {b : Bus β} {e : Event} {id : ListenerId} {name : String} {react : β}

@[simp] theorem listeners_store : (b.store e).listeners = b.listeners := by
  unfold store
  split <;> rfl

@[simp] theorem nextId_store : (b.store e).nextId = b.nextId := by
  unfold store
  split <;> rfl

@[simp] theorem registry_store : (b.store e).registry = b.registry := by
  rw [registry, listeners_store, registry]

theorem ids_registry : b.registry.ids = b.listeners.map Registration.id := by
  simp [registry, Registry.ids]

@[simp] theorem registry_register {r : Registration β} :
    (b.register r).registry = b.registry ++ [(r.id, r.name)] := by
  simp [registry, register]

theorem ids_register {r : Registration β} :
    (b.register r).registry.ids = b.registry.ids ++ [r.id] := by
  simp [Registry.ids]

@[simp] theorem registry_subscribe :
    (b.subscribe name react).2.registry = b.registry ++ [(b.nextId, name)] :=
  registry_register

@[simp] theorem nextId_unsubscribe : (b.unsubscribe id).2.nextId = b.nextId := by
  unfold unsubscribe
  split <;> rfl

theorem isRegistered_iff : b.isRegistered id = true ↔ id ∈ b.registry.ids := by
  simp [isRegistered, Registry.ids, registry]

theorem unsubscribe_fst : (b.unsubscribe id).1 = b.isRegistered id := by
  unfold unsubscribe
  split <;> simp_all

/-- An answer that nobody was removed leaves the bus alone, as would removing nobody. -/
@[simp] theorem registry_unsubscribe : (b.unsubscribe id).2.registry = b.registry.without id := by
  unfold unsubscribe
  split
  · simp only [registry, Registry.without, List.filter_map]
    rfl
  · rename_i h
    rw [isRegistered_iff] at h
    refine (List.filter_eq_self.mpr ?_).symm
    intro l hl
    have hne : l.1 ≠ id := fun he => h (he ▸ List.mem_map_of_mem hl)
    simpa using hne

/-- One listener at most goes, and the others keep their order. -/
theorem unsubscribe_cases (h : b.registry.ids.Nodup) (id : ListenerId) :
    (id ∉ b.registry.ids ∧ b.unsubscribe id = (false, b)) ∨
    ∃ before r after, b.listeners = before ++ r :: after ∧ r.id = id ∧
      b.unsubscribe id = (true, { b with listeners := before ++ after }) := by
  by_cases hid : id ∈ b.registry.ids
  · rw [ids_registry] at h hid
    obtain ⟨r, hr, rfl⟩ := List.mem_map.mp hid
    obtain ⟨before, after, hsplit⟩ := List.append_of_mem hr
    refine .inr ⟨before, r, after, hsplit, rfl, ?_⟩
    rw [hsplit, List.map_append, List.map_cons, List.nodup_middle, List.nodup_cons,
      ← List.map_append] at h
    have hkept : (before ++ after).filter (fun l => l.id != r.id) = before ++ after := by
      refine List.filter_eq_self.mpr fun l hl => bne_iff_ne.mpr fun heq => h.1 ?_
      exact heq ▸ List.mem_map_of_mem hl
    have hreg : b.isRegistered r.id = true := isRegistered_iff.mpr (by rwa [ids_registry])
    rw [unsubscribe, if_pos hreg, ← hkept, hsplit, List.filter_append, List.filter_append,
      List.filter_cons_of_neg (by simp)]
  · exact .inl ⟨hid, if_neg (mt isRegistered_iff.mp hid)⟩

@[simp] theorem registry_detach : b.detach.2.registry = [] := rfl

theorem detach_fst : b.detach.1 = b.registry.length := by
  simp [detach, registry]

end Steps

namespace Distinct

variable {b : Bus β}

theorem store (h : b.Distinct) (e : Event) : (b.store e).Distinct := by
  constructor
  · simpa using h.nodup
  · simpa using h.lt_nextId

theorem subscribe (h : b.Distinct) (name : String) (react : β) :
    (b.subscribe name react).2.Distinct := by
  have hids : (b.subscribe name react).2.registry.ids = b.registry.ids ++ [b.nextId] := ids_register
  constructor
  · rw [hids, List.nodup_append]
    refine ⟨h.nodup, by simp, fun i hi j hj => ?_⟩
    rw [List.mem_singleton.mp hj]
    exact Nat.ne_of_lt (h.lt_nextId i hi)
  · intro id hid
    rw [hids, List.mem_append, List.mem_singleton] at hid
    show id < b.nextId + 1
    rcases hid with hid | rfl
    · exact Nat.lt_succ_of_lt (h.lt_nextId id hid)
    · exact Nat.lt_succ_self _

theorem unsubscribe (h : b.Distinct) (id : ListenerId) : (b.unsubscribe id).2.Distinct := by
  have hsub := Registry.ids_without_sublist b.registry id
  constructor
  · rw [registry_unsubscribe]
    exact h.nodup.sublist hsub
  · intro i hi
    rw [registry_unsubscribe] at hi
    rw [nextId_unsubscribe]
    exact h.lt_nextId i (hsub.subset hi)

theorem detach : b.detach.2.Distinct where
  nodup := List.nodup_nil
  lt_nextId := by simp [Registry.ids]

end Distinct

/-- Neither do the ids that are taken but not registered yet come up among the others. -/
theorem Reachable.nodup {taken : List ListenerId} {b : Bus β} (h : Reachable taken b) :
    (taken ++ b.registry.ids).Nodup ∧ ∀ id ∈ taken ++ b.registry.ids, id < b.nextId := by
  induction h with
  | empty => exact ⟨List.nodup_nil, by simp [registry, Registry.ids]⟩
  | store e _ ih => simpa using ih
  | @takeId taken b _ ih =>
    have hfresh : b.nextId ∉ taken ++ b.registry.ids := fun hmem => Nat.lt_irrefl _ (ih.2 _ hmem)
    refine ⟨List.nodup_cons.mpr ⟨hfresh, ih.1⟩, ?_⟩
    intro id hid
    show id < b.nextId + 1
    rcases List.mem_cons.mp hid with rfl | hid
    · exact Nat.lt_succ_self _
    · exact Nat.lt_succ_of_lt (ih.2 id hid)
  | @register taken left b r _ hperm ih =>
    have hids : (taken ++ b.registry.ids).Perm (left ++ (b.register r).registry.ids) := by
      have hmove : (r.id :: left ++ b.registry.ids).Perm (left ++ b.registry.ids ++ [r.id]) :=
        (List.perm_append_singleton r.id (left ++ b.registry.ids)).symm
      refine (hperm.append_right _).trans (hmove.trans ?_)
      rw [ids_register, List.append_assoc]
    exact ⟨hids.nodup_iff.mp ih.1, fun id hid => ih.2 id (hids.mem_iff.mpr hid)⟩
  | @unsubscribe taken b id _ ih =>
    have hsub : (taken ++ (b.registry.without id).ids).Sublist (taken ++ b.registry.ids) :=
      (Registry.ids_without_sublist b.registry id).append_left _
    rw [registry_unsubscribe, nextId_unsubscribe]
    exact ⟨ih.1.sublist hsub, fun i hi => ih.2 i (hsub.subset hi)⟩
  | @detach taken b _ ih =>
    have hsub : (taken ++ b.detach.2.registry.ids).Sublist (taken ++ b.registry.ids) :=
      (List.nil_sublist _).append_left _
    exact ⟨ih.1.sublist hsub, fun id hid => ih.2 id (hsub.subset hid)⟩

theorem Reachable.distinct {taken : List ListenerId} {b : Bus β} (h : Reachable taken b) :
    b.Distinct where
  nodup := (List.nodup_append.mp h.nodup.1).2.1
  lt_nextId := fun id hid => h.nodup.2 id (List.mem_append_right _ hid)

end Bus

theorem Session.post_unheard {σ : Type} {s : Session σ} {e : Event} {depth : Nat}
    (h : s.bus.listeners = []) :
    s.post (depth + 1) e = some ((s.begin e).record (.postEnded e)) := by
  have hlisteners : (s.begin e).bus.listeners = [] := Bus.listeners_store.trans h
  rw [post, hlisteners]
  rfl

end HomeAutomation
