import HomeAutomation.Proofs.Bus.Cache
import HomeAutomation.Proofs.Bus.Delivery

/-! The latest stable events of whole runs. At every moment of a run, also amid nested dispatches,
the cache holds what is read off the history: of each id the stable event whose post began last. -/

namespace HomeAutomation

/-- The event that is to be kept, if this is the beginning of its post. -/
def Happening.stored? : Happening → Option Event
  | .postBegan e => if e.stable then some e else none
  | _ => none

/-- The stable events of a history in the order in which their posts began. -/
def stored (hs : List Happening) : List Event := hs.filterMap Happening.stored?

theorem stable_of_mem_stored {hs : List Happening} {e : Event} (h : e ∈ stored hs) :
    e.stable = true := by
  obtain ⟨x, -, hx⟩ := List.mem_filterMap.mp h
  cases x with
  | postBegan f =>
    simp only [Happening.stored?] at hx
    split at hx
    · cases hx
      assumption
    · cases hx
  | _ => cases hx

theorem stored_returned {id : ListenerId} {name : String} {e : Event} {o : Outcome} :
    stored (.returned id name e o :: reports id name e o) = [] := by
  rw [reports]
  cases lineDue? id name e o <;> rfl

namespace Bus

variable {β : Type} {b : Bus β}

theorem cache_store {e : Event} : (b.store e).cache = b.cache.putAll (stored [.postBegan e]) := by
  unfold store
  split <;> simp_all [stored, Happening.stored?, Cache.putAll]

theorem cache_unsubscribe {id : ListenerId} : (b.unsubscribe id).2.cache = b.cache := by
  unfold unsubscribe
  split <;> rfl

end Bus

variable {σ : Type}

namespace Session

/-- A session goes on to another one: the history grows, and the stable events whose posts began are
put into the cache. -/
structure Grows (s : Session σ) (hs : List Happening) (t : Session σ) : Prop where
  history : t.history = s.history ++ hs
  cache : t.bus.cache = s.bus.cache.putAll (stored hs)

section Grows

variable {s t u : Session σ} {hs hs' : List Happening}

theorem Grows.refl : s.Grows [] s := ⟨(List.append_nil _).symm, rfl⟩

theorem Grows.trans (h : s.Grows hs t) (h' : t.Grows hs' u) : s.Grows (hs ++ hs') u := by
  constructor
  · rw [h'.history, h.history, List.append_assoc]
  · rw [h'.cache, h.cache, stored, stored, stored, List.filterMap_append, Cache.putAll,
      Cache.putAll, Cache.putAll, List.foldl_append]

/-- What is no beginning of a post leaves the cache alone. -/
theorem Grows.of_cache_eq (hh : t.history = s.history ++ hs) (hc : t.bus.cache = s.bus.cache)
    (hs₀ : stored hs = []) : s.Grows hs t := ⟨hh, by rw [hc, hs₀]; rfl⟩

end Grows

end Session

namespace Scene

/-- Before the first call, whatever the surroundings are. -/
def idle (x : σ) : Scene σ := ⟨{ state := x }, []⟩

/-- What happens next on a bus: a move of the posts under way or, when there is none, a call from
outside. Whoever looks up an event or takes a snapshot changes nothing. -/
inductive Move : Scene σ → Scene σ → Prop where
  | within {c d : Scene σ} : Step c d → Move c d
  | subscribe {s : Session σ} (name : String) (react : Handler σ) :
      Move ⟨s, []⟩ ⟨(s.subscribe name react).2, []⟩
  | unsubscribe {s : Session σ} (id : ListenerId) : Move ⟨s, []⟩ ⟨(s.unsubscribe id).2, []⟩
  | shutdown {s : Session σ} : Move ⟨s, []⟩ ⟨s.shutdown, []⟩
  | post {s : Session σ} (e : Event) : Move ⟨s, []⟩ (start s e [])
  | surroundings {s : Session σ} (x : σ) : Move ⟨s, []⟩ ⟨{ s with state := x }, []⟩

abbrev Visits : Scene σ → Scene σ → Prop := Relation.ReflTransGen Move

theorem Visits.reaches {c d e : Scene σ} (h : Visits c d) (h' : Reaches d e) : Visits c e :=
  h.trans (Relation.ReflTransGen.mono (fun _ _ hstep => .within hstep) _ _ h')

/-- The history of one move holds at most one beginning of a stable post, and then nothing else. -/
def AtMostOneStored (hs : List Happening) : Prop :=
  stored hs = [] ∨ ∃ e : Event, e.stable = true ∧ hs = [.postBegan e]

section Moves

variable {c d : Scene σ}

theorem grows_begin (s : Session σ) (e : Event) :
    s.Grows [.postBegan e] (s.begin e) ∧ AtMostOneStored [.postBegan e] := by
  refine ⟨⟨rfl, Bus.cache_store⟩, ?_⟩
  by_cases he : e.stable = true
  · exact .inr ⟨e, he, rfl⟩
  · exact .inl (by simp [stored, Happening.stored?, he])

theorem grows_unsubscribe (s : Session σ) (id : ListenerId) :
    s.Grows [.unsubscribed id (s.bus.unsubscribe id).1] (s.unsubscribe id).2 :=
  .of_cache_eq rfl Bus.cache_unsubscribe rfl

theorem grows_shutdown (s : Session σ) :
    s.Grows [.detached s.bus.detach.1, .logged (.busShutDown s.bus.detach.1)] s.shutdown :=
  .of_cache_eq (by simp [Session.shutdown, Session.log, Session.record]) rfl rfl

theorem grows_callEnded (s : Session σ) (l : Registration (Handler σ)) (e : Event) (o : Outcome) :
    s.Grows (.returned l.id l.name e o :: reports l.id l.name e o) (s.callEnded l e o) :=
  .of_cache_eq (Session.history_callEnded l o) (by rw [Session.bus_callEnded]) stored_returned

theorem Step.exists_grows (h : Step c d) :
    ∃ hs, c.session.Grows hs d.session ∧ AtMostOneStored hs := by
  obtain ⟨s, fs⟩ := c
  cases fs with
  | nil => cases h
  | cons f fs =>
    obtain ⟨e, due, calling⟩ := f
    cases calling with
    | none =>
      cases due with
      | nil | cons l due =>
        cases h
        exact ⟨[_], .of_cache_eq rfl rfl rfl, .inl rfl⟩
    | some calling =>
      obtain ⟨l, r⟩ := calling
      cases r with
      | finish o =>
        cases h
        exact ⟨_, grows_callEnded s l e o, .inl stored_returned⟩
      | log n next | subscribe name handler next =>
        cases h
        exact ⟨[_], .of_cache_eq rfl rfl rfl, .inl rfl⟩
      | update g next =>
        cases h
        exact ⟨[], .of_cache_eq (List.append_nil _).symm rfl rfl, .inl rfl⟩
      | look next | read next =>
        cases h
        exact ⟨[], .refl, .inl rfl⟩
      | unsubscribe id next =>
        cases h
        exact ⟨_, grows_unsubscribe s id, .inl rfl⟩
      | post f next =>
        cases h
        exact ⟨_, grows_begin s f⟩
      | shutdown next =>
        cases h
        exact ⟨_, grows_shutdown s, .inl rfl⟩

theorem Move.exists_grows (h : Move c d) :
    ∃ hs, c.session.Grows hs d.session ∧ AtMostOneStored hs := by
  cases h with
  | within hstep => exact hstep.exists_grows
  | subscribe name react => exact ⟨[_], .of_cache_eq rfl rfl rfl, .inl rfl⟩
  | unsubscribe id => exact ⟨_, grows_unsubscribe _ id, .inl rfl⟩
  | shutdown => exact ⟨_, grows_shutdown _, .inl rfl⟩
  | post e => exact ⟨_, grows_begin _ e⟩
  | surroundings x => exact ⟨[], .of_cache_eq (List.append_nil _).symm rfl rfl, .inl rfl⟩

theorem Visits.exists_grows (h : Visits c d) : ∃ hs, c.session.Grows hs d.session := by
  induction h with
  | refl => exact ⟨[], .refl⟩
  | tail _ hmove ih =>
    obtain ⟨hs, hgrows⟩ := ih
    obtain ⟨hs', hgrows', -⟩ := hmove.exists_grows
    exact ⟨hs ++ hs', hgrows.trans hgrows'⟩

end Moves

/-- The cache is what the history makes of it. -/
structure UpToDate (c : Scene σ) : Prop where
  latest : ∀ id, c.session.bus.latest? id = Cache.last? id (stored c.session.history)
  own : ∀ entry ∈ c.session.bus.cache.entries, entry.2.stable = true ∧ entry.1 = entry.2.id
  snapshot : ∀ e, e ∈ c.session.bus.snapshot ↔ c.session.bus.latest? e.id = some e
  ids : (c.session.bus.snapshot.map Event.id).Perm ((stored c.session.history).map Event.id).dedup
  count : c.session.bus.cachedCount = ((stored c.session.history).map Event.id).dedup.length

theorem upToDate_of_grows {x : σ} {c : Scene σ} {hs : List Happening}
    (h : Session.Grows (idle x).session hs c.session) : c.UpToDate := by
  have hhist : c.session.history = hs := h.history
  have hcache : c.session.bus.cache = Cache.putAll {} (stored c.session.history) := by
    rw [hhist]
    exact h.cache
  have hkept : c.session.bus.cache.Kept := by
    rw [hcache]
    exact Cache.Kept.empty.putAll fun e => stable_of_mem_stored
  have hlatest : ∀ id, c.session.bus.latest? id = Cache.last? id (stored c.session.history) := by
    intro id
    rw [Bus.latest?, hcache, Cache.get?_putAll]
    exact Option.or_none
  have hids : ∀ id, id ∈ c.session.bus.cache.ids ↔
      id ∈ ((stored c.session.history).map Event.id).dedup := by
    intro id
    rw [Cache.mem_ids_iff, List.mem_dedup, ← Cache.last?_isSome_iff, ← hlatest]
    rfl
  have hperm := (List.perm_ext_iff_of_nodup hkept.nodup (List.nodup_dedup _)).mpr hids
  exact {
    latest := hlatest
    own := hkept.own
    snapshot := fun e => hkept.mem_snapshot_iff
    ids := hkept.map_id_snapshot_perm.trans hperm
    count := by simpa [Bus.cachedCount, Cache.size, Cache.ids] using hperm.length_eq }

section Start

variable {s : Session σ} {e : Event} {fs : List (Frame σ)} {d : Scene σ}

theorem latest_start (he : e.stable = true) :
    (start s e fs).session.bus.latest? e.id = some e := by
  have hcache : (start s e fs).session.bus.cache = s.bus.cache.put e := by
    simp [start, Session.begin, Session.record, Bus.store, he]
  rw [Bus.latest?, hcache, Cache.get?_put, if_pos rfl]

/-- The first call of a dispatch comes right after its beginning. -/
theorem cache_of_step_start (h : Step (start s e fs) d) :
    d.session.bus.cache = (start s e fs).session.bus.cache := by
  rw [start] at h
  cases hl : s.bus.listeners with
  | nil | cons l due =>
    rw [hl] at h
    cases h
    rfl

/-- From the beginning of a stable post on, its event or a later one of the same id is kept. -/
theorem latest_of_reaches_start (he : e.stable = true) (h : Reaches (start s e fs) d) :
    ∃ later, d.session.history = (start s e fs).session.history ++ later ∧
      d.session.bus.latest? e.id = some ((Cache.last? e.id (stored later)).getD e) := by
  obtain ⟨later, hgrows⟩ := (Visits.reaches .refl h).exists_grows
  have hstart : (start s e fs).session.bus.cache.get? e.id = some e := latest_start he
  refine ⟨later, hgrows.history, ?_⟩
  rw [Bus.latest?, hgrows.cache, Cache.get?_putAll, hstart]
  cases Cache.last? e.id (stored later) <;> rfl

end Start

/-- The last write wins at every moment of a run. Only the beginning of a stable post changes the
cache; the listener that is called first finds the event there, and from then on it is there or one
that was posted later. -/
theorem last_write_wins {x : σ} {c : Scene σ} (h : Visits (idle x) c) :
    c.UpToDate ∧
    (∀ d, Move c d → d.session.bus.cache = c.session.bus.cache ∨
      ∃ e : Event, e.stable = true ∧ d.session.history = c.session.history ++ [.postBegan e]) ∧
    ∀ s e fs, c = start s e fs → e.stable = true →
      (∀ d, Step c d → d.session.bus.latest? e.id = some e) ∧
      ∀ d, Reaches c d → ∃ later, d.session.history = c.session.history ++ later ∧
        d.session.bus.latest? e.id = some ((Cache.last? e.id (stored later)).getD e) := by
  obtain ⟨hs, hgrows⟩ := h.exists_grows
  refine ⟨upToDate_of_grows hgrows, ?_, ?_⟩
  · intro d hmove
    obtain ⟨hs', hgrows', hnone | ⟨e, he, rfl⟩⟩ := hmove.exists_grows
    · exact .inl (by rw [hgrows'.cache, hnone]; rfl)
    · exact .inr ⟨e, he, hgrows'.history⟩
  · rintro s e fs rfl he
    refine ⟨fun d hstep => ?_, fun d hd => latest_of_reaches_start he hd⟩
    rw [Bus.latest?, cache_of_step_start hstep]
    exact latest_start he

def ring : Event := ⟨"chime", .ui, true, none, by decide⟩

def answered : Event := ⟨"chime", .system, true, some (.bool true), by decide⟩

/-- A listener that answers a chime by another one, within the call, and fails afterwards; the answer
itself makes it panic. -/
def hall : Session Unit :=
  (Session.subscribe { state := () } "hall" fun e =>
    if e.value.isNone then .post answered (.finish (.failure ⟨["late"]⟩))
    else .finish (.panic .other)).2

theorem last_write_wins_answered :
    ∃ t, Visits (idle ()) (start hall ring []) ∧ Reaches (start hall ring []) ⟨t, []⟩ ∧
      (start hall ring []).UpToDate ∧ t.bus.latest? "chime" = some answered ∧
      ∃ later, t.history = (start hall ring []).session.history ++ later ∧
        t.bus.latest? "chime" = some ((Cache.last? "chime" (stored later)).getD ring) := by
  obtain ⟨t, ht⟩ : ∃ t, hall.post 2 ring = some t := ⟨_, rfl⟩
  have hlatest : t.bus.latest? "chime" = some answered := by
    obtain rfl := Option.some.inj ht
    rfl
  have hvisits : Visits (idle ()) (start hall ring []) :=
    (Relation.ReflTransGen.single (.subscribe "hall" _)).tail (.post ring)
  have hreaches : Reaches (start hall ring []) ⟨t, []⟩ := (walksPost 2 ht []).reaches
  obtain ⟨hdate, -, hstart⟩ := last_write_wins hvisits
  exact ⟨t, hvisits, hreaches, hdate, hlatest, (hstart hall ring [] rfl rfl).2 _ hreaches⟩

end Scene

end HomeAutomation
