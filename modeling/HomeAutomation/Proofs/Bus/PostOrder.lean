import Mathlib.Data.List.Infix
import HomeAutomation.Proofs.Bus.Reception

/-! The order of events on one thread, for posts from outside and from within calls. At every moment
of a run a listener that stays registered has received the posts in the order in which they began,
but for those that one overtook; and what it received last of an id is what the cache holds, unless
that has overtaken an event of the same id. -/

namespace HomeAutomation

open Reception (Orderly)

/-- The listener is registered at every moment of a history. -/
def Registry.Keeps (l : ListenerId) (reg : Registry) (hs : List Happening) : Prop :=
  ∀ before, before <+: hs → l ∈ (before.foldl Registry.after reg).ids

namespace Registry.Keeps

variable {l : ListenerId} {reg : Registry} {hs hs' : List Happening}

theorem mem (h : reg.Keeps l hs) : l ∈ reg.ids := h [] hs.nil_prefix

theorem left (h : reg.Keeps l (hs ++ hs')) : reg.Keeps l hs := fun before hbefore =>
  h before (hbefore.trans (List.prefix_append hs hs'))

theorem right (h : reg.Keeps l (hs ++ hs')) : (hs.foldl Registry.after reg).Keeps l hs' := by
  intro before hbefore
  rw [← List.foldl_append]
  exact h (hs ++ before) ((List.prefix_append_right_inj hs).mpr hbefore)

end Registry.Keeps

namespace Moment

variable {m m' : Moment} {hs : List Happening} {l : ListenerId} {r : Reception}

theorem foldl_after_reports_reception {id : ListenerId} {name : String} {e : Event} {o : Outcome} :
    (reports id name e o).foldl (Reception.after l) r = r := by
  rw [reports]
  cases lineDue? id name e o <;> rfl

theorem Step.orderly (h : Step m hs m') (hl : l ∈ m.registry.ids)
    (ho : Orderly l r m.dispatches) :
    Orderly l (hs.foldl (Reception.after l) r) m'.dispatches := by
  cases h with
  | @call reg due e id name ds =>
    by_cases hid : id = l
    · subst hid
      exact ho.called
    · have hsame : r.after l (.called id e) = r := if_neg hid
      show Orderly l (r.after l (.called id e)) _
      rw [hsame]
      refine ho.of_due rfl (fun hnd => (List.nodup_cons.mp hnd).2) ?_
      simp [Registry.ids, Ne.symm hid]
  | @returned reg due e id name ds o =>
    show Orderly l ((reports id name e o).foldl (Reception.after l) r) _
    rw [foldl_after_reports_reception]
    exact ho.of_due rfl (fun hnd => hnd) Iff.rfl
  | finish => exact ho.ended
  | begin e _ hnd => exact ho.begun hl hnd
  | subscribe | unsubscribe | detach | log => exact ho

theorem Run.orderly (h : Run m hs m') (hl : m.registry.Keeps l hs)
    (ho : Orderly l r m.dispatches) :
    Orderly l (hs.foldl (Reception.after l) r) m'.dispatches := by
  induction h generalizing r with
  | nil => exact ho
  | step hstep hrun ih =>
    rw [List.foldl_append]
    have hright := hl.right
    rw [hstep.foldl_after] at hright
    exact ih hright (hstep.orderly hl.mem ho)

end Moment

variable {σ : Type}

namespace Scene

/-- From one scene to another one with this history a listener that stays registered keeps its
order. -/
structure Passes (c : Scene σ) (hs : List Happening) (d : Scene σ) : Prop where
  history : d.session.history = c.session.history ++ hs
  registry : hs.foldl Registry.after c.session.bus.registry = d.session.bus.registry
  distinct : d.session.bus.Distinct
  orderly : ∀ l r, c.session.bus.registry.Keeps l hs → Orderly l r c.dispatches →
    Orderly l (hs.foldl (Reception.after l) r) d.dispatches

section Passing

variable {c d e : Scene σ} {hs hs' : List Happening}

theorem Passes.refl (h : c.session.bus.Distinct) : c.Passes [] c :=
  ⟨(List.append_nil _).symm, rfl, h, fun _ _ _ ho => ho⟩

theorem Passes.trans (h : c.Passes hs d) (h' : d.Passes hs' e) : c.Passes (hs ++ hs') e := by
  constructor
  case history => rw [h'.history, h.history, List.append_assoc]
  case registry => rw [List.foldl_append, h.registry, h'.registry]
  case distinct => exact h'.distinct
  case orderly =>
    intro l r hl ho
    rw [List.foldl_append]
    have hright := hl.right
    rw [h.registry] at hright
    exact h'.orderly l _ hright (h.orderly l r hl.left ho)

theorem Step.passes (h : Step c d) (hc : c.session.bus.Distinct) : ∃ hs, c.Passes hs d := by
  obtain ⟨hdistinct, hs, hhist, hrun⟩ := h.leads hc
  exact ⟨hs, hhist, hrun.foldl_after, hdistinct, fun _ _ hl ho => hrun.orderly hl ho⟩

theorem Move.passes (h : Move c d) (hc : c.session.bus.Distinct) : ∃ hs, c.Passes hs d := by
  cases h with
  | within hstep => exact hstep.passes hc
  | @subscribe s name react =>
    exact ⟨[_], rfl, Bus.registry_subscribe.symm, hc.subscribe name react, fun _ _ _ ho => ho⟩
  | @unsubscribe s id =>
    exact ⟨[_], rfl, Bus.registry_unsubscribe.symm, hc.unsubscribe id, fun _ _ _ ho => ho⟩
  | @shutdown s =>
    exact ⟨_, (grows_shutdown s).history, rfl, Bus.Distinct.detach, fun _ _ _ ho => ho⟩
  | @post s e =>
    refine ⟨[.postBegan e], rfl, Bus.registry_store.symm, hc.store e, fun l r hl ho => ?_⟩
    exact ho.begun hl.mem hc.nodup
  | surroundings x => exact ⟨[], (List.append_nil _).symm, rfl, hc, fun _ _ _ ho => ho⟩

theorem Visits.passes (h : Visits c d) (hc : c.session.bus.Distinct) : ∃ hs, c.Passes hs d := by
  induction h with
  | refl => exact ⟨[], .refl hc⟩
  | tail _ hmove ih =>
    obtain ⟨hs, hpasses⟩ := ih
    obtain ⟨hs', hpasses'⟩ := hmove.passes hpasses.distinct
    exact ⟨hs ++ hs', hpasses.trans hpasses'⟩

end Passing

end Scene

namespace Reception

variable {l : ListenerId} {r : Reception} {id : String} {p q : Nat}

theorem mem_numbers_filter {k : Nat} :
    k ∈ r.numbers.filter (r.concerns id) ↔ r.concerns id k = true := by
  rw [List.mem_filter, and_iff_right_iff_imp]
  intro hk
  refine List.mem_range.mpr (Nat.lt_of_not_le fun hle => ?_)
  rw [concerns, List.getElem?_eq_none hle] at hk
  cases hk

theorem last?_numbers_eq_none (h : r.last? id r.numbers = none) (k : Nat) :
    r.concerns id k = false := by
  rw [last?, List.getLast?_eq_none_iff] at h
  rw [Bool.eq_false_iff, ne_eq, ← mem_numbers_filter, h]
  exact List.not_mem_nil

theorem last?_numbers_eq_some (h : r.last? id r.numbers = some q) :
    r.concerns id q = true ∧ ∀ k, r.concerns id k = true → k ≤ q := by
  obtain ⟨init, heq⟩ := List.getLast?_eq_some_iff.mp h
  have hsorted : (r.numbers.filter (r.concerns id)).Pairwise (· < ·) :=
    List.pairwise_lt_range.filter _
  refine ⟨mem_numbers_filter.mp (by simp [heq]), fun k hk => ?_⟩
  rw [← mem_numbers_filter, heq, List.mem_append, List.mem_singleton] at hk
  rw [heq, List.pairwise_append] at hsorted
  rcases hk with hk | rfl
  · exact Nat.le_of_lt (hsorted.2.2 k hk q List.mem_cons_self)
  · exact Nat.le_refl _

theorem map_some_posts : r.posts.map some = r.numbers.map fun k => r.posts[k]? := by
  refine List.ext_getElem (by simp [numbers]) fun k hk _ => ?_
  rw [List.length_map] at hk
  simp [numbers, hk]

theorem last?_events {es : List Event} {ks : List Nat}
    (h : es.map some = ks.map fun k => r.posts[k]?) :
    Cache.last? id (es.filter Event.stable) = (r.last? id ks).bind fun k => r.posts[k]? := by
  have hfilter : (es.filter fun e => e.id == id && e.stable).map some =
      (ks.filter (r.concerns id)).map fun k => r.posts[k]? := by
    have hboth := congrArg (List.filter fun o => o.any fun e => e.id == id && e.stable) h
    rw [List.filter_map, List.filter_map] at hboth
    exact hboth
  have hlast := congrArg List.getLast? hfilter
  rw [List.getLast?_map, List.getLast?_map] at hlast
  rw [Cache.last?_eq_getLast?, List.filter_filter, last?]
  revert hlast
  cases (es.filter fun e => e.id == id && e.stable).getLast? <;>
    cases (ks.filter (r.concerns id)).getLast? <;> simp

namespace Orderly

theorem nodup {ds : List Dispatch} (h : Orderly l r ds) : r.received.Nodup :=
  h.order.imp fun hbefore => hbefore.elim (fun hb => Nat.ne_of_lt hb.1) fun hb =>
    Nat.ne_of_gt hb.1

theorem lt_length_iff {ds : List Dispatch} (h : Orderly l r ds) {k : Nat} :
    k < r.posts.length ↔ k ∈ r.received ∨ k ∈ r.awaited := by
  rw [mem_awaited]
  constructor
  · intro hk
    by_cases hmem : k ∈ r.received
    · exact .inl hmem
    · exact .inr ⟨(h.known k hk).resolve_right hmem, hmem⟩
  · exact fun hk => h.lt_length k (hk.symm.imp_left And.left)

section Quiet

variable (h : Orderly l r [])

include h

theorem received_perm : r.received.Perm r.numbers := by
  have hunderWay : r.underWay = [] := List.forall₂_nil_right_iff.mp h.tracks
  refine (List.perm_ext_iff_of_nodup h.nodup List.nodup_range).mpr fun k => ?_
  rw [List.mem_range, h.lt_length_iff, awaited, hunderWay]
  simp

theorem received_eq (hnone : r.overtaken = []) : r.received = r.numbers := by
  refine h.received_perm.eq_of_pairwise (fun a b _ _ hab hba => absurd hab (Nat.lt_asymm hba)) ?_
    List.pairwise_lt_range
  refine h.order.imp fun hbefore => ?_
  rcases hbefore with ⟨hlt, -⟩ | ⟨-, hover⟩
  · exact hlt
  · rw [hnone] at hover
    cases hover

/-- What was received last of an id is what was posted last of it, unless that has overtaken another
event of the id. -/
theorem last?_received_iff : r.last? id r.received = r.last? id r.numbers ↔
    ∀ q, r.last? id r.numbers = some q → ∀ p, r.concerns id p = true → (p, q) ∉ r.overtaken := by
  have hmem : ∀ k, k ∈ r.received.filter (r.concerns id) ↔ r.concerns id k = true := by
    intro k
    rw [← mem_numbers_filter, List.mem_filter, List.mem_filter, h.received_perm.mem_iff]
  have horder : (r.received.filter (r.concerns id)).Pairwise r.Before := h.order.filter _
  constructor
  · intro heq q hq p hp hover
    obtain ⟨init, hinit⟩ := List.getLast?_eq_some_iff.mp (heq.trans hq)
    have hlt := (h.lt p q hover).1
    have hp' : p ∈ init := by
      rw [← hmem, hinit, List.mem_append, List.mem_singleton] at hp
      exact hp.resolve_right (Nat.ne_of_lt hlt)
    rw [hinit, List.pairwise_append] at horder
    rcases horder.2.2 p hp' q List.mem_cons_self with ⟨-, hnot⟩ | ⟨hgt, -⟩
    · exact hnot hover
    · exact Nat.lt_asymm hlt hgt
  · intro hnot
    cases hlast : r.last? id r.numbers with
    | none =>
      rw [last?, List.getLast?_eq_none_iff, List.filter_eq_nil_iff]
      exact fun k _ => by simp [last?_numbers_eq_none hlast k]
    | some q =>
      obtain ⟨hq, hmax⟩ := last?_numbers_eq_some hlast
      have hq' := (hmem q).mpr hq
      rcases List.eq_nil_or_concat (r.received.filter (r.concerns id)) with hnil | ⟨init, z, hz⟩
      · rw [hnil] at hq'
        cases hq'
      · -- Had another one come after the last post, that would have overtaken it.
        rw [List.concat_eq_append] at hz
        rw [last?, hz, List.getLast?_concat, Option.some.injEq]
        rw [hz, List.mem_append, List.mem_singleton] at hq'
        rcases hq' with hq' | rfl
        · have hz' : r.concerns id z = true := (hmem z).mp (by simp [hz])
          rw [hz, List.pairwise_append] at horder
          rcases horder.2.2 q hq' z List.mem_cons_self with ⟨hlt, -⟩ | ⟨-, hover⟩
          · exact absurd (hmax z hz') (Nat.not_le.mpr hlt)
          · exact absurd hover (hnot q hlast z hz')
        · rfl

end Quiet

end Orderly

end Reception

namespace Scene

/-- On one thread, a listener that stays registered receives every post once its dispatch comes to
it, and the posts in the order in which they began, but that one which began within the dispatch of
another, before that came to the listener, is received first. When no dispatch is under way it has
received all of them; and of an id it has received last what the cache holds if and only if the last
post of a stable event of that id has overtaken no other one. -/
theorem receives_in_order {s : Session σ} {c : Scene σ} {taken : List ListenerId}
    {hs : List Happening} {l : ListenerId} (hb : s.bus.Reachable taken) (h : Visits ⟨s, []⟩ c)
    (hhist : c.session.history = s.history ++ hs) (hl : s.bus.registry.Keeps l hs) :
    let r := Reception.read l hs
    (r.posts = hs.filterMap Happening.begun? ∧ r.heard = hs.filterMap (Happening.heard? l) ∧
      r.heard.map some = r.received.map fun k => r.posts[k]?) ∧
    (r.received.Nodup ∧ ∀ k, k < r.posts.length ↔ k ∈ r.received ∨ k ∈ r.awaited) ∧
    r.received.Pairwise r.Before ∧
    (∀ p q, (p, q) ∈ r.overtaken ↔ ∃ before e later, hs = before ++ .postBegan e :: later ∧
      p ∈ (Reception.read l before).awaited ∧ q = (Reception.read l before).posts.length) ∧
    (c.frames = [] → r.received.Perm r.numbers ∧
      (r.overtaken = [] → r.received = r.numbers) ∧
      ∀ id, c.session.bus.latest? id =
          (Cache.last? id (r.posts.filter Event.stable)).or (s.bus.latest? id) ∧
        (r.last? id r.received = r.last? id r.numbers ↔
          ∀ q, r.last? id r.numbers = some q → ∀ p, r.concerns id p = true →
            (p, q) ∉ r.overtaken) ∧
        (r.last? id r.received = r.last? id r.numbers →
          c.session.bus.latest? id =
            (Cache.last? id (r.heard.filter Event.stable)).or (s.bus.latest? id))) := by
  intro r
  obtain ⟨hs', hpasses⟩ := h.passes hb.distinct
  obtain rfl : hs' = hs := List.append_cancel_left (hpasses.history.symm.trans hhist)
  have ho : Orderly l r c.dispatches := hpasses.orderly l {} hl Reception.orderly_start
  refine ⟨⟨Reception.posts_read, Reception.heard_read, ho.heard⟩,
    ⟨ho.nodup, fun k => ho.lt_length_iff⟩, ho.order,
    fun p q => Reception.mem_overtaken_read, ?_⟩
  intro hquiet
  have ho' : Orderly l r [] := by
    rw [dispatches, hquiet] at ho
    exact ho
  refine ⟨ho'.received_perm, ho'.received_eq, fun id => ?_⟩
  have hlatest : c.session.bus.latest? id =
      (Cache.last? id (r.posts.filter Event.stable)).or (s.bus.latest? id) := by
    obtain ⟨hs'', hgrows⟩ := h.exists_grows
    obtain rfl : hs'' = hs' := List.append_cancel_left (hgrows.history.symm.trans hhist)
    rw [Bus.latest?, hgrows.cache, Cache.get?_putAll, Reception.filter_stable_posts_read]
    rfl
  refine ⟨hlatest, ho'.last?_received_iff, fun heq => ?_⟩
  rw [hlatest, Reception.last?_events Reception.map_some_posts, ← heq,
    Reception.last?_events ho.heard]

/-- The first of two listeners answers a chime by another one, within the call. -/
def porch : Session Unit :=
  let hall : Handler Unit := fun e =>
    if e.value.isNone then .post answered (.finish .success) else .finish .success
  ((Session.subscribe { state := () } "hall" hall).2.subscribe "log" fun _ => .finish .success).2

/-- What happens as the chime rings. -/
def rung : List Happening :=
  [.postBegan ring, .called 1 ring,
    .postBegan answered, .called 1 answered, .returned 1 "hall" answered .success,
    .called 2 answered, .returned 2 "log" answered .success, .postEnded answered,
    .returned 1 "hall" ring .success, .called 2 ring, .returned 2 "log" ring .success,
    .postEnded ring]

theorem visits_porch : Visits (idle ()) ⟨porch, []⟩ :=
  (Relation.ReflTransGen.single (.subscribe "hall" _)).tail (.subscribe "log" _)

theorem keeps_rung : porch.bus.registry.Keeps 2 rung := by
  have hinits : ∀ before ∈ rung.inits,
      2 ∈ (before.foldl Registry.after porch.bus.registry).ids := by decide
  exact fun before hbefore => hinits before ((List.mem_inits before rung).mpr hbefore)

theorem receives_in_order_porch :
    ∃ t, Visits ⟨porch, []⟩ ⟨t, []⟩ ∧ t.history = porch.history ++ rung ∧
      porch.bus.registry.Keeps 2 rung ∧
      (Reception.read 2 rung).received = [1, 0] ∧ (Reception.read 2 rung).overtaken = [(0, 1)] ∧
      (Reception.read 2 rung).received.Pairwise (Reception.read 2 rung).Before ∧
      (Reception.read 2 rung).received.Perm [0, 1] ∧
      t.bus.latest? "chime" = (Cache.last? "chime" [ring, answered]).or none := by
  obtain ⟨t, ht⟩ : ∃ t, porch.post 2 ring = some t := ⟨_, rfl⟩
  have hhist : t.history = porch.history ++ rung := by
    obtain rfl := Option.some.inj ht
    rfl
  have hvisits : Visits ⟨porch, []⟩ ⟨t, []⟩ :=
    Visits.reaches (.single (.post ring)) (walksPost 2 ht []).reaches
  have hb : porch.bus.Reachable [] := (Bus.Reachable.empty.subscribe _ _).subscribe _ _
  obtain ⟨-, -, horder, -, hquiet⟩ := receives_in_order hb hvisits hhist keeps_rung
  obtain ⟨hperm, -, hlatest⟩ := hquiet rfl
  exact ⟨t, hvisits, hhist, keeps_rung, rfl, rfl, horder, hperm, (hlatest "chime").1⟩

/-- A listener behind one that answers hears the answer first, and ends with what is not the latest
event. -/
theorem answer_heard_first :
    ∃ t, Visits (idle ()) ⟨porch, []⟩ ∧ Visits ⟨porch, []⟩ ⟨t, []⟩ ∧
      t.history = porch.history ++ rung ∧ porch.bus.registry.Keeps 2 rung ∧
      rung.filterMap Happening.begun? = [ring, answered] ∧
      rung.filterMap (Happening.heard? 2) = [answered, ring] ∧
      t.bus.latest? "chime" = some answered ∧
      Cache.last? "chime" ((rung.filterMap (Happening.heard? 2)).filter Event.stable) = some ring ∧
      ring ≠ answered := by
  obtain ⟨t, ht⟩ : ∃ t, porch.post 2 ring = some t := ⟨_, rfl⟩
  have hhist : t.history = porch.history ++ rung ∧ t.bus.latest? "chime" = some answered := by
    obtain rfl := Option.some.inj ht
    exact ⟨rfl, rfl⟩
  have hvisits : Visits ⟨porch, []⟩ ⟨t, []⟩ :=
    Visits.reaches (.single (.post ring)) (walksPost 2 ht []).reaches
  exact ⟨t, visits_porch, hvisits, hhist.1, keeps_rung, rfl, rfl, hhist.2, rfl, by decide⟩

end Scene

end HomeAutomation
