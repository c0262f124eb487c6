import Mathlib.Data.List.Perm.Basic
import HomeAutomation.Bus.Threads
import HomeAutomation.Proofs.Bus.Registry

/-! Who is registered, told by what was observed: the ids whose listeners came onto the list and
were not taken off it since. No two listeners are ever given the same id, and none is removed
twice. -/

namespace HomeAutomation.Bus

variable {β : Type}

namespace Observation

def given? : Observation → Option ListenerId
  | .subscribed _ id => some id
  | _ => none

/-- The id whose listener comes onto the list. -/
def listed? : Observation → Option ListenerId
  | .registered _ id => some id
  | _ => none

/-- The id whose listener a caller has removed. -/
def removed? : Observation → Option ListenerId
  | .unsubscribed _ id true => some id
  | _ => none

def isChange : Observation → Bool
  | .registered .. | .unsubscribed .. | .detached _ => true
  | .posted .. | .received .. | .answered .. | .subscribed .. => false

/-- The listener with the id is taken off the list, if it is there. -/
def Delists (id : ListenerId) (o : Observation) : Prop :=
  o.removed? = some id ∨ ∃ n, o = .detached n

theorem listed?_eq_some_iff {o : Observation} {id : ListenerId} :
    o.listed? = some id ↔ ∃ n, o = .registered n id := by
  cases o <;> simp [listed?]

end Observation

def given (os : List Observation) : List ListenerId := os.filterMap Observation.given?

def listed (os : List Observation) : List ListenerId := os.filterMap Observation.listed?

def removed (os : List Observation) : List ListenerId := os.filterMap Observation.removed?

/-- A listener with the id came onto the list and was not taken off it since. -/
def Standing (os : List Observation) (id : ListenerId) : Prop :=
  ∃ before n after, os = before ++ .registered n id :: after ∧
    ∀ o ∈ after, ¬ o.Delists id

section Concat

variable {os : List Observation} {o : Observation} {id : ListenerId}

theorem filterMap_concat {α : Type} (f : Observation → Option α) :
    (os ++ [o]).filterMap f = os.filterMap f ++ (f o).toList := by
  rw [List.filterMap_append, List.filterMap_cons, List.filterMap_nil]
  cases f o <;> rfl

theorem filterMap_concat_of_eq_none {α : Type} {f : Observation → Option α} (h : f o = none) :
    (os ++ [o]).filterMap f = os.filterMap f := by
  rw [filterMap_concat, h]
  exact List.append_nil _

theorem standing_concat :
    Standing (os ++ [o]) id ↔ o.listed? = some id ∨ (Standing os id ∧ ¬ o.Delists id) := by
  constructor
  · rintro ⟨before, n, after, heq, hafter⟩
    rcases List.eq_nil_or_concat' after with rfl | ⟨after, o', rfl⟩
    · obtain ⟨-, ho⟩ := List.append_inj' heq rfl
      rw [(List.cons.inj ho).1]
      exact .inl rfl
    · rw [← List.cons_append, ← List.append_assoc] at heq
      obtain ⟨rfl, ho⟩ := List.append_inj' heq rfl
      obtain rfl := (List.cons.inj ho).1
      refine .inr ⟨⟨before, n, after, rfl, fun x hx => hafter x ?_⟩, hafter o ?_⟩
      · exact List.mem_append_left _ hx
      · exact List.mem_append_right _ List.mem_cons_self
  · rintro (ho | ⟨⟨before, n, after, rfl, hafter⟩, ho⟩)
    · obtain ⟨n, rfl⟩ := o.listed?_eq_some_iff.mp ho
      exact ⟨os, n, [], rfl, by simp⟩
    · refine ⟨before, n, after ++ [o], by simp, fun x hx => ?_⟩
      rcases List.mem_append.mp hx with hx | hx
      · exact hafter x hx
      · rwa [List.mem_singleton.mp hx]

end Concat

/-- What there is to know of a bus from what was observed: which ids were given out, which came onto
the list, which are still there, and which were removed. -/
structure Enrolled (os : List Observation) (taken : List ListenerId) (b : Bus β) : Prop where
  nextId_eq : b.nextId = (given os).length + 1
  given_eq : given os = List.range' 1 (given os).length
  listed_perm : (listed os ++ taken).Perm (given os)
  mem_ids_iff : ∀ id, id ∈ b.registry.ids ↔ Standing os id
  inOrder : b.registry.ids.Sublist (listed os)
  removed_nodup : (removed os).Nodup
  removed_gone : ∀ id ∈ removed os, id ∈ listed os ∧ id ∉ b.registry.ids

variable {os : List Observation} {taken : List ListenerId} {b : Bus β}

namespace Enrolled

variable {left : List ListenerId} {b' : Bus β}

theorem given_nodup (h : Enrolled os taken b) : (given os).Nodup := by
  rw [h.given_eq]
  exact List.nodup_range'

theorem listed_nodup (h : Enrolled os taken b) : (listed os).Nodup :=
  (List.nodup_append.mp (h.listed_perm.nodup_iff.mpr h.given_nodup)).1

theorem nodup (h : Enrolled os taken b) : b.registry.ids.Nodup := h.listed_nodup.sublist h.inOrder

theorem empty : Enrolled [] [] ({} : Bus β) where
  nextId_eq := rfl
  given_eq := rfl
  listed_perm := .refl _
  mem_ids_iff id := by simp [Standing, registry, Registry.ids]
  inOrder := .refl _
  removed_nodup := List.nodup_nil
  removed_gone _ h := absurd h List.not_mem_nil

theorem takeId (h : Enrolled os taken b) (n : Nat) :
    Enrolled (os ++ [.subscribed n b.takeId.1]) (b.takeId.1 :: taken) b.takeId.2 := by
  have hgiven : given (os ++ [.subscribed n b.takeId.1]) = given os ++ [b.nextId] :=
    filterMap_concat _
  have hlisted : listed (os ++ [.subscribed n b.takeId.1]) = listed os :=
    filterMap_concat_of_eq_none rfl
  have hremoved : removed (os ++ [.subscribed n b.takeId.1]) = removed os :=
    filterMap_concat_of_eq_none rfl
  constructor
  case nextId_eq =>
    show b.nextId + 1 = _
    rw [hgiven, List.length_append, h.nextId_eq]
    rfl
  case given_eq =>
    rw [hgiven, List.length_append, List.length_singleton, List.range'_1_concat, ← h.given_eq,
      h.nextId_eq, Nat.add_comm 1]
  case listed_perm =>
    rw [hgiven, hlisted]
    have hmove := List.perm_middle.trans (h.listed_perm.cons b.nextId)
    exact hmove.trans (List.perm_append_singleton _ _).symm
  case mem_ids_iff =>
    intro id
    rw [standing_concat, ← h.mem_ids_iff]
    show id ∈ b.registry.ids ↔ _
    simp [Observation.Delists, Observation.listed?, Observation.removed?]
  case inOrder => exact hlisted ▸ h.inOrder
  case removed_nodup => exact hremoved ▸ h.removed_nodup
  case removed_gone =>
    rw [hremoved, hlisted]
    exact h.removed_gone

theorem register (h : Enrolled os taken b) (n : Nat) (r : Registration β)
    (hperm : taken.Perm (r.id :: left)) :
    Enrolled (os ++ [.registered n r.id]) left (b.register r) := by
  have hgiven : given (os ++ [.registered n r.id]) = given os := filterMap_concat_of_eq_none rfl
  have hlisted : listed (os ++ [.registered n r.id]) = listed os ++ [r.id] := filterMap_concat _
  have hremoved : removed (os ++ [.registered n r.id]) = removed os :=
    filterMap_concat_of_eq_none rfl
  have hperm' : (listed os ++ [r.id] ++ left).Perm (given os) := by
    rw [List.append_assoc]
    exact (hperm.symm.append_left (listed os)).trans h.listed_perm
  constructor
  case nextId_eq => exact hgiven ▸ h.nextId_eq
  case given_eq => exact hgiven ▸ h.given_eq
  case listed_perm => rwa [hgiven, hlisted]
  case mem_ids_iff =>
    intro id
    rw [standing_concat, ← h.mem_ids_iff, ids_register]
    simp [Observation.Delists, Observation.listed?, Observation.removed?, or_comm, eq_comm]
  case inOrder =>
    rw [ids_register, hlisted]
    exact h.inOrder.append_right [r.id]
  case removed_nodup => exact hremoved ▸ h.removed_nodup
  case removed_gone =>
    -- An id that comes onto the list was not there before, and so it was not removed before.
    have hnew : r.id ∉ listed os := by
      have hnodup := (List.nodup_append.mp (hperm'.nodup_iff.mpr h.given_nodup)).1
      exact fun hmem => List.disjoint_of_nodup_append hnodup hmem List.mem_cons_self
    rw [hremoved, hlisted, ids_register]
    intro id hid
    obtain ⟨hlist, hgone⟩ := h.removed_gone id hid
    refine ⟨List.mem_append_left _ hlist, fun hmem => ?_⟩
    rcases List.mem_append.mp hmem with hmem | hmem
    · exact hgone hmem
    · exact hnew (List.mem_singleton.mp hmem ▸ hlist)

/-- Listeners go, and the others stay as they are. -/
theorem delist {o : Observation} (h : Enrolled os taken b) (hgiven : o.given? = none)
    (hlisted : o.listed? = none) (hnext : b'.nextId = b.nextId)
    (hsub : b'.registry.ids.Sublist b.registry.ids)
    (hmem : ∀ id, id ∈ b'.registry.ids ↔ id ∈ b.registry.ids ∧ ¬ o.Delists id)
    (hremoved : ∀ id, o.removed? = some id → id ∈ b.registry.ids) :
    Enrolled (os ++ [o]) taken b' := by
  have hgivens : given (os ++ [o]) = given os := filterMap_concat_of_eq_none hgiven
  have hlist : listed (os ++ [o]) = listed os := filterMap_concat_of_eq_none hlisted
  have hremove : removed (os ++ [o]) = removed os ++ o.removed?.toList := filterMap_concat _
  constructor
  case nextId_eq =>
    rw [hnext, hgivens]
    exact h.nextId_eq
  case given_eq => exact hgivens ▸ h.given_eq
  case listed_perm =>
    rw [hgivens, hlist]
    exact h.listed_perm
  case mem_ids_iff =>
    intro id
    rw [standing_concat, ← h.mem_ids_iff, hmem, hlisted]
    simp
  case inOrder => exact hlist ▸ hsub.trans h.inOrder
  case removed_nodup =>
    rw [hremove, List.nodup_append]
    refine ⟨h.removed_nodup, ?_, fun i hi j hj heq => ?_⟩
    · cases o.removed? <;> simp
    · have hj' := hremoved j (Option.mem_toList.mp hj)
      exact (h.removed_gone i hi).2 (heq ▸ hj')
  case removed_gone =>
    intro id hid
    rw [hlist]
    rw [hremove] at hid
    rcases List.mem_append.mp hid with hid | hid
    · obtain ⟨hlisted, hgone⟩ := h.removed_gone id hid
      exact ⟨hlisted, fun hmem' => hgone (hsub.subset hmem')⟩
    · have hid' := Option.mem_toList.mp hid
      exact ⟨h.inOrder.subset (hremoved id hid'), fun hmem' => ((hmem id).mp hmem').2 (.inl hid')⟩

theorem unsubscribe (h : Enrolled os taken b) (n : Nat) (id : ListenerId) :
    Enrolled (os ++ [.unsubscribed n id (b.unsubscribe id).1]) taken (b.unsubscribe id).2 := by
  have hremoved : ∀ i, (Observation.unsubscribed n id (b.unsubscribe id).1).removed? = some i ↔
      i = id ∧ id ∈ b.registry.ids := by
    intro i
    rw [unsubscribe_fst, ← isRegistered_iff]
    cases b.isRegistered id <;> simp [Observation.removed?, eq_comm]
  refine h.delist rfl rfl nextId_unsubscribe ?_ (fun i => ?_) fun i hi => ?_
  · rw [registry_unsubscribe]
    exact Registry.ids_without_sublist b.registry id
  · rw [registry_unsubscribe, Registry.mem_ids_without, Observation.Delists, hremoved]
    grind
  · obtain ⟨rfl, hid⟩ := (hremoved i).mp hi
    exact hid

theorem detach (h : Enrolled os taken b) (n : Nat) :
    Enrolled (os ++ [.detached n]) taken b.detach.2 := by
  refine h.delist rfl rfl rfl (List.nil_sublist _) (fun i => ?_) fun i hi => ?_
  · simp [Observation.Delists, Registry.ids]
  · cases hi

theorem unconcerned {o : Observation} (h : Enrolled os taken b) (hgiven : o.given? = none)
    (hlisted : o.listed? = none) (hdelists : ∀ id, ¬ o.Delists id) (hnext : b'.nextId = b.nextId)
    (hregistry : b'.registry = b.registry) : Enrolled (os ++ [o]) taken b' := by
  refine h.delist hgiven hlisted hnext (hregistry ▸ .refl _) (fun id => ?_) fun id hid => ?_
  · rw [hregistry]
    exact (and_iff_left (hdelists id)).symm
  · exact absurd (.inl hid) (hdelists id)

end Enrolled

/-- Who is registered, by what was observed. The ids that were given out differ, also as the words
that they are kept in; an id is registered if its listener came onto the list and was not taken off
it since; and nobody is removed twice. -/
structure OnRecord (os : List Observation) (b : Bus β) : Prop where
  given_nodup : (given os).Nodup
  words_nodup : (given os).length < UInt64.size → ((given os).map UInt64.ofNat).Nodup
  listed_nodup : (listed os).Nodup
  listed_subset : listed os ⊆ given os
  ids_nodup : b.registry.ids.Nodup
  mem_ids_iff : ∀ id, id ∈ b.registry.ids ↔ Standing os id
  inOrder : b.registry.ids.Sublist (listed os)
  removed_nodup : (removed os).Nodup
  removed_subset : removed os ⊆ listed os
  count_eq : b.listenerCount = b.registry.ids.length

theorem Enrolled.onRecord (h : Enrolled os taken b) : OnRecord os b where
  given_nodup := h.given_nodup
  words_nodup hfew := by
    refine List.Nodup.map_on (fun i hi j hj heq => ?_) h.given_nodup
    rw [h.given_eq, List.mem_range'_1] at hi hj
    have hmod := congrArg UInt64.toNat heq
    rwa [UInt64.toNat_ofNat_of_lt' (by omega), UInt64.toNat_ofNat_of_lt' (by omega)] at hmod
  listed_nodup := h.listed_nodup
  listed_subset id hid := h.listed_perm.subset (List.mem_append_left _ hid)
  ids_nodup := h.nodup
  mem_ids_iff := h.mem_ids_iff
  inOrder := h.inOrder
  removed_nodup := h.removed_nodup
  removed_subset id hid := (h.removed_gone id hid).1
  count_eq := by rw [ids_registry, List.length_map, listenerCount]

/-- What one step of a caller does on the bus: which ids the caller has taken and is yet to
register, before and after it, and what is observed. -/
inductive Act (n : Nat) (b : Bus β) :
    List ListenerId → List Observation → Bus β → List ListenerId → Prop where
  | silent {held : List ListenerId} : Act n b held [] b held
  | posted {held : List ListenerId} (e : Event) : Act n b held [.posted n e] (b.store e) held
  | received {held : List ListenerId} (id : ListenerId) (e : Event) :
      Act n b held [.received id n e] b held
  | answered {held : List ListenerId} (id : String) :
      Act n b held [.answered n id (b.latest? id)] b held
  | subscribed {held : List ListenerId} :
      Act n b held [.subscribed n b.takeId.1] b.takeId.2 (b.takeId.1 :: held)
  | registered {held : List ListenerId} (r : Registration β) :
      Act n b (r.id :: held) [.registered n r.id] (b.register r) held
  | unsubscribed {held : List ListenerId} (id : ListenerId) :
      Act n b held [.unsubscribed n id (b.unsubscribe id).1] (b.unsubscribe id).2 held
  | detached {held : List ListenerId} : Act n b held [.detached n] b.detach.2 held

/-- How the listeners change at a step, told by what is observed of it. -/
inductive Change (n : Nat) (ls : List (Registration β)) :
    List Observation → List (Registration β) → Prop where
  | none {seen : List Observation} : (∀ o ∈ seen, o.isChange = false) → Change n ls seen ls
  | registered {r : Registration β} : r.id ∉ ls.map Registration.id →
      Change n ls [.registered n r.id] (ls ++ [r])
  | removed {before after : List (Registration β)} {r : Registration β} :
      ls = before ++ r :: after → Change n ls [.unsubscribed n r.id true] (before ++ after)
  | missed {id : ListenerId} : id ∉ ls.map Registration.id →
      Change n ls [.unsubscribed n id false] ls
  | detached : Change n ls [.detached n] []

namespace Act

variable {n : Nat} {seen : List Observation} {held held' others : List ListenerId} {b' : Bus β}

theorem reachable (h : Act n b held seen b' held') (hb : b.Reachable taken)
    (htaken : taken.Perm (held ++ others)) :
    ∃ taken', b'.Reachable taken' ∧ taken'.Perm (held' ++ others) := by
  cases h with
  | silent | received | answered => exact ⟨taken, hb, htaken⟩
  | posted e => exact ⟨taken, hb.store e, htaken⟩
  | subscribed => exact ⟨b.takeId.1 :: taken, hb.takeId, htaken.cons _⟩
  | registered r => exact ⟨held' ++ others, hb.register r htaken, .refl _⟩
  | unsubscribed id => exact ⟨taken, hb.unsubscribe id, htaken⟩
  | detached => exact ⟨taken, hb.detach, htaken⟩

theorem enrolled (h : Act n b held seen b' held') (hb : Enrolled os taken b)
    (htaken : taken.Perm (held ++ others)) :
    ∃ taken', Enrolled (os ++ seen) taken' b' ∧ taken'.Perm (held' ++ others) := by
  cases h with
  | silent => exact ⟨taken, (List.append_nil os).symm ▸ hb, htaken⟩
  | posted e =>
    refine ⟨taken, hb.unconcerned rfl rfl (fun _ => ?_) nextId_store registry_store, htaken⟩
    simp [Observation.Delists, Observation.removed?]
  | received | answered =>
    refine ⟨taken, hb.unconcerned rfl rfl (fun _ => ?_) rfl rfl, htaken⟩
    simp [Observation.Delists, Observation.removed?]
  | subscribed => exact ⟨b.takeId.1 :: taken, hb.takeId n, htaken.cons _⟩
  | registered r => exact ⟨held' ++ others, hb.register n r htaken, .refl _⟩
  | unsubscribed id => exact ⟨taken, hb.unsubscribe n id, htaken⟩
  | detached => exact ⟨taken, hb.detach n, htaken⟩

theorem change (h : Act n b held seen b' held') (hb : b.registry.ids.Nodup)
    (hb' : b'.registry.ids.Nodup) : Change n b.listeners seen b'.listeners := by
  cases h with
  | silent | received | answered | subscribed => exact .none (by simp [Observation.isChange])
  | posted e =>
    rw [listeners_store]
    exact .none (by simp [Observation.isChange])
  | registered r =>
    rw [ids_register] at hb'
    refine .registered fun hmem => ?_
    exact List.disjoint_of_nodup_append hb' (ids_registry ▸ hmem) List.mem_cons_self
  | unsubscribed id =>
    rcases unsubscribe_cases hb id with ⟨hid, heq⟩ | ⟨before, r, after, hsplit, rfl, heq⟩
    · rw [heq]
      exact .missed (ids_registry ▸ hid)
    · rw [heq]
      exact .removed hsplit
  | detached => exact .detached

end Act

end HomeAutomation.Bus
