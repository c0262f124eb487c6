import Mathlib.Data.List.Dedup
import Mathlib.Data.List.Induction
import HomeAutomation.Bus

/-! What a cache holds. Kept events are found under their own ids, and putting in one event after
another leaves the last one of each id. -/

namespace HomeAutomation.Cache

def ids (c : Cache) : List String := c.entries.map Prod.fst

def putAll (c : Cache) (es : List Event) : Cache := es.foldl put c

/-- The last of the events with an id. -/
def last? (id : String) (es : List Event) : Option Event := es.reverse.find? fun e => e.id == id

section Lookup

variable {c : Cache} {e : Event} {id : String}

theorem lookup_filter_ne {entries : List (String × Event)} {key : String} (h : id ≠ key) :
    (entries.filter fun (k, _) => k != key).lookup id = entries.lookup id := by
  induction entries with
  | nil => rfl
  | cons entry entries ih =>
    obtain ⟨k, f⟩ := entry
    by_cases hk : k = key
    · have hid : (id == k) = false := by simpa [hk] using h
      simp [hk ▸ hid, hk, List.lookup_cons, ih]
    · simp [hk, List.lookup_cons, ih]

theorem get?_put : (c.put e).get? id = if id = e.id then some e else c.get? id := by
  by_cases h : id = e.id
  · simp [get?, put, h]
  · have hid : (id == e.id) = false := by simpa using h
    simp only [get?, put, List.lookup_cons, hid, if_neg h]
    exact lookup_filter_ne h

theorem values_put : (c.put e).values id = if id = e.id then e.value else c.values id := by
  simp only [values, get?_put]
  split <;> rfl

theorem last?_append {es fs : List Event} :
    last? id (es ++ fs) = (last? id fs).or (last? id es) := by
  simp [last?, List.find?_append]

/-- The last event put under an id is the one that is found there. -/
theorem get?_putAll {es : List Event} : (c.putAll es).get? id = (last? id es).or (c.get? id) := by
  induction es using List.reverseRecOn with
  | nil => rfl
  | append_singleton es e ih =>
    have hput : c.putAll (es ++ [e]) = (c.putAll es).put e := by simp [putAll]
    rw [hput, get?_put, ih, last?_append]
    by_cases h : e.id = id
    · simp [last?, h]
    · simp [last?, h, Ne.symm h]

theorem last?_eq_getLast? {es : List Event} :
    last? id es = (es.filter fun e => e.id == id).getLast? := by
  rw [last?, ← List.head?_filter, List.filter_reverse, List.head?_reverse]

theorem last?_isSome_iff {es : List Event} : (last? id es).isSome = true ↔ id ∈ es.map Event.id := by
  simp [last?]

end Lookup

/-- Every entry is a stable event under its own id, and there is one for each id. -/
structure Kept (c : Cache) : Prop where
  nodup : c.ids.Nodup
  own : ∀ entry ∈ c.entries, entry.2.stable = true ∧ entry.1 = entry.2.id

theorem Kept.empty : Kept {} := ⟨List.nodup_nil, by simp⟩

theorem Kept.put {c : Cache} {e : Event} (h : c.Kept) (he : e.stable = true) : (c.put e).Kept := by
  constructor
  · have hsub : ((c.entries.filter fun (k, _) => k != e.id).map Prod.fst).Sublist c.ids :=
      List.filter_sublist.map _
    refine List.nodup_cons.mpr ⟨?_, h.nodup.sublist hsub⟩
    simp
  · intro entry hentry
    rcases List.mem_cons.mp hentry with rfl | hentry
    · exact ⟨he, rfl⟩
    · exact h.own entry (List.mem_of_mem_filter hentry)

theorem Kept.putAll {c : Cache} {es : List Event} (h : c.Kept) (hes : ∀ e ∈ es, e.stable = true) :
    (c.putAll es).Kept := by
  induction es generalizing c with
  | nil => exact h
  | cons e es ih =>
    exact ih (h.put (hes e List.mem_cons_self)) fun f hf => hes f (List.mem_cons_of_mem e hf)

section Snapshot

variable {c : Cache} {e : Event}

theorem mem_ids_iff {id : String} : id ∈ c.ids ↔ (c.get? id).isSome = true := by
  simp [ids, get?]

theorem Kept.map_id_snapshot_perm (h : c.Kept) : (c.snapshot.map Event.id).Perm c.ids := by
  refine ((List.mergeSort_perm _ _).map Event.id).trans (.of_eq ?_)
  rw [List.map_map]
  exact List.map_congr_left fun entry hentry => (h.own entry hentry).2.symm

theorem Kept.get?_eq_some_iff (h : c.Kept) {id : String} :
    c.get? id = some e ↔ (id, e) ∈ c.entries := by
  rw [get?, List.lookup_eq_some_iff]
  constructor
  · rintro ⟨before, after, heq, -⟩
    simp [heq]
  · intro hmem
    obtain ⟨before, after, heq⟩ := List.append_of_mem hmem
    refine ⟨before, after, heq, fun entry hentry => ?_⟩
    have hnd := h.nodup
    rw [Cache.ids, heq, List.map_append, List.map_cons, List.nodup_append] at hnd
    simpa using (hnd.2.2 entry.1 (List.mem_map_of_mem hentry) id List.mem_cons_self).symm

theorem Kept.mem_snapshot_iff (h : c.Kept) : e ∈ c.snapshot ↔ c.get? e.id = some e := by
  rw [h.get?_eq_some_iff, snapshot, List.mem_mergeSort, List.mem_map]
  constructor
  · rintro ⟨entry, hentry, rfl⟩
    rwa [← (h.own entry hentry).2]
  · exact fun hmem => ⟨_, hmem, rfl⟩

end Snapshot

end HomeAutomation.Cache
