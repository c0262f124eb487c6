import HomeAutomation.Proofs.Bus.Reception

/-! A bus as a source of values. Conditions find on it what they would find in a table that notes
the values of stable events as they are posted, and strikes out those of stable events without
one. -/

namespace HomeAutomation

namespace Trigger

abbrev Table := Std.HashMap String Value

namespace Table

def values (t : Table) : Values := fun id => t[id]?

def note (t : Table) (e : Event) : Table :=
  if e.stable then
    match e.value with
    | some v => t.insert e.id v
    | none => t.erase e.id
  else t

def noteAll (t : Table) (es : List Event) : Table := es.foldl note t

section

variable {t : Table} {e : Event} {es : List Event} {id : String}

theorem values_note (he : e.stable = true) :
    (t.note e).values id = if id = e.id then e.value else t.values id := by
  rw [note, if_pos he]
  by_cases hid : id = e.id
  · cases hv : e.value <;> simp [values, hid]
  · have hne : ¬ e.id = id := Ne.symm hid
    cases hv : e.value with
    | some v => simp [values, Std.HashMap.getElem?_insert, hid, hne]
    | none => simp [values, Std.HashMap.getElem?_erase, hid, hne]

theorem noteAll_filter_stable : t.noteAll (es.filter Event.stable) = t.noteAll es := by
  rw [noteAll, List.foldl_filter, noteAll]
  congr
  funext t e
  by_cases he : e.stable = true
  · rw [if_pos he]
  · rw [if_neg he, note, if_neg he]

/-- A cache and a table that answer alike still do so after the same stable events. -/
theorem values_noteAll {c : Cache} (hes : ∀ e ∈ es, e.stable = true) (h : c.values = t.values) :
    (c.putAll es).values = (t.noteAll es).values := by
  induction es generalizing c t with
  | nil => exact h
  | cons e es ih =>
    obtain ⟨he, hes⟩ := List.forall_mem_cons.mp hes
    refine ih hes (funext fun id => ?_)
    rw [Cache.values_put, values_note he, h]

theorem values_empty : ({} : Cache).values = (∅ : Table).values := by
  funext id
  simp [values, Cache.values, Cache.get?]

theorem values_of_posts (hs : List Happening) :
    (Cache.putAll {} (stored hs)).values =
      (noteAll ∅ (hs.filterMap Happening.begun?)).values := by
  rw [values_noteAll (fun e => stable_of_mem_stored) values_empty, ← filter_stable_begun,
    noteAll_filter_stable]

end

end Table

end Trigger

namespace Session

variable {σ : Type} {s t : Session σ} {e : Event} {es : List Event} {depth : Nat}

def postAll (depth : Nat) (s : Session σ) (es : List Event) : Option (Session σ) :=
  es.foldlM (post depth) s

theorem exists_postAll_unheard (h : s.bus.listeners = []) (es : List Event) :
    ∃ t hs, s.postAll (depth + 1) es = some t ∧ s.Grows hs t ∧
      hs.filterMap Happening.begun? = es := by
  induction es generalizing s with
  | nil => exact ⟨s, [], rfl, .refl, rfl⟩
  | cons e es ih =>
    let u := (s.begin e).record (.postEnded e)
    have hu : u.bus.listeners = [] := Bus.listeners_store.trans h
    have hended : (s.begin e).Grows [.postEnded e] u := .of_cache_eq rfl rfl rfl
    obtain ⟨t, hs, ht, hgrows, hbegun⟩ := ih hu
    refine ⟨t, [.postBegan e] ++ [.postEnded e] ++ hs, ?_,
      ((Scene.grows_begin s e).1.trans hended).trans hgrows, ?_⟩
    · rw [postAll, List.foldlM_cons, post_unheard h]
      exact ht
    · exact congrArg (e :: ·) hbegun

end Session

namespace Trigger.Condition

/-- A condition runs on a bus as it runs on the table of what was posted there, comparison by
comparison: after every sequence of posts, and at every moment of a run in which listeners post as
well. -/
theorem run_bus_eq_run_table {σ : Type} (x : σ) (condition : Condition) (event : Event) :
    (∀ es depth, ∃ t, Session.postAll (depth + 1) { state := x } es = some t ∧
      condition.run event t.bus.values = condition.run event (Table.noteAll ∅ es).values) ∧
    ∀ c, Scene.Visits (Scene.idle x) c → condition.run event c.session.bus.values =
      condition.run event
        (Table.noteAll ∅ (c.session.history.filterMap Happening.begun?)).values := by
  refine ⟨fun es depth => ?_, fun c h => ?_⟩
  · obtain ⟨t, hs, ht, hgrows, rfl⟩ :=
      Session.exists_postAll_unheard (s := { state := x }) rfl es
    exact ⟨t, ht, by rw [Bus.values, hgrows.cache, Table.values_of_posts]⟩
  · obtain ⟨hs, hgrows⟩ := h.exists_grows
    have hhistory : c.session.history = hs := hgrows.history
    have hcache : c.session.bus.cache = Cache.putAll {} (stored hs) := hgrows.cache
    rw [Bus.values, hcache, hhistory, Table.values_of_posts]

def kept : Condition :=
  ⟨"chime == true & lantern ==", .and [.compare ⟨"chime", .eq, .literal (.bool true), 1⟩,
    .compare ⟨"lantern", .eq, .unknown, 1⟩]⟩

def lantern (stable : Bool) (value : Option Value) : Event := ⟨"lantern", .ui, stable, value, by decide⟩

/-- The lantern forgets its value, and a transient event does not bring it back; the chime is answered
by a listener in the midst of the post. -/
theorem run_bus_eq_run_table_kept :
    (∃ t, Session.postAll 1 { state := () }
        [Scene.answered, lantern true (some (.bool true)), lantern true none,
          lantern false (some (.bool true))] = some t ∧
      kept.run (Lifecycle.ready).event t.bus.values = kept.run (Lifecycle.ready).event
        (Table.noteAll ∅ [Scene.answered, lantern true (some (.bool true)), lantern true none,
          lantern false (some (.bool true))]).values ∧
      kept.eval (Lifecycle.ready).event t.bus.values = .ok true) ∧
    ∃ t, Scene.Visits (Scene.idle ()) ⟨t, []⟩ ∧
      kept.run (Lifecycle.ready).event t.bus.values = kept.run (Lifecycle.ready).event
        (Table.noteAll ∅ [Scene.ring, Scene.answered]).values ∧
      kept.eval (Lifecycle.ready).event t.bus.values = .ok true := by
  obtain ⟨hposts, hruns⟩ := run_bus_eq_run_table () kept (Lifecycle.ready).event
  constructor
  · obtain ⟨t, ht, hrun⟩ := hposts _ 0
    refine ⟨t, ht, hrun, ?_⟩
    obtain rfl := Option.some.inj ht
    decide
  · obtain ⟨t, ht⟩ : ∃ t, Scene.hall.post 2 Scene.ring = some t := ⟨_, rfl⟩
    have hstart : Scene.Visits (Scene.idle ()) (Scene.start Scene.hall Scene.ring []) :=
      (Relation.ReflTransGen.single (.subscribe "hall" _)).tail (.post Scene.ring)
    have hvisits : Scene.Visits (Scene.idle ()) ⟨t, []⟩ :=
      hstart.reaches (Scene.walksPost 2 ht []).reaches
    have hrun := hruns _ hvisits
    refine ⟨t, hvisits, ?_, ?_⟩
    · obtain rfl := Option.some.inj ht
      exact hrun
    · obtain rfl := Option.some.inj ht
      decide

end Trigger.Condition

end HomeAutomation
