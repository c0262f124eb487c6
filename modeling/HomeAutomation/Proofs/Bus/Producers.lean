import HomeAutomation.Proofs.Bus.Cache
import HomeAutomation.Proofs.Bus.Callers

/-! Producers on one bus. Whoever looks an event up finds the last one that was cached before, and
each listener receives the events of each caller in the order of that caller's posts, however the
callers take turns. -/

namespace HomeAutomation.Bus

def Observation.posting? : Observation → Option (Nat × Event)
  | .posted n e => some (n, e)
  | _ => none

def Observation.receipt? (l : ListenerId) : Observation → Option (Nat × Event)
  | .received l' n e => if l' = l then some (n, e) else none
  | _ => none

/-- The events in the order in which they were cached, with the callers that posted them. -/
def postings (os : List Observation) : List (Nat × Event) := os.filterMap Observation.posting?

/-- The events in the order in which a listener received them, with the callers that posted them. -/
def receipts (l : ListenerId) (os : List Observation) : List (Nat × Event) :=
  os.filterMap (Observation.receipt? l)

def ofCaller (n : Nat) (xs : List (Nat × Event)) : List Event :=
  (xs.filter fun x => x.1 == n).map Prod.snd

def kept (os : List Observation) : List Event :=
  ((postings os).map Prod.snd).filter Event.stable

def Call.event? : Call → Option Event
  | .post e => some e
  | _ => none

def posts (calls : List Call) : List Event := calls.filterMap Call.event?

def Call.produces : Call → Bool
  | .post _ | .latest _ => true
  | .subscribe _ | .unsubscribe _ | .shutdown => false

def Observation.call? (n : Nat) : Observation → Option Call
  | .posted m e => if m = n then some (.post e) else none
  | .answered m id _ => if m = n then some (.latest id) else none
  | _ => none

def made (n : Nat) (os : List Observation) : List Call := os.filterMap (Observation.call? n)

/-- A caller that posts and looks up, and nothing else. -/
def Caller.Produces (c : Caller) : Prop := c.taken = [] ∧ ∀ call ∈ c.calls, call.produces = true

/-- What is left of a caller's post for a listener. -/
def Caller.pending (l : ListenerId) (c : Caller) : List Event :=
  match c.stage with
  | .stored e => [e]
  | .delivering e left => List.replicate (left.count l) e
  | .idle | .named _ _ => []

section Observations

variable {os os' : List Observation} {l : ListenerId} {n : Nat}

theorem postings_append : postings (os ++ os') = postings os ++ postings os' :=
  List.filterMap_append

theorem receipts_append : receipts l (os ++ os') = receipts l os ++ receipts l os' :=
  List.filterMap_append

theorem ofCaller_append {xs ys : List (Nat × Event)} :
    ofCaller n (xs ++ ys) = ofCaller n xs ++ ofCaller n ys := by
  rw [ofCaller, List.filter_append, List.map_append]
  rfl

theorem made_append : made n (os ++ os') = made n os ++ made n os' := List.filterMap_append

theorem posts_append {calls calls' : List Call} :
    posts (calls ++ calls') = posts calls ++ posts calls' :=
  List.filterMap_append

theorem posts_made : posts (made n os) = ofCaller n (postings os) := by
  induction os with
  | nil => rfl
  | cons o os ih =>
    rw [← List.singleton_append, made_append, posts_append, postings_append, ofCaller_append, ih]
    congr 1
    cases o with
    | posted m e =>
      by_cases hm : m = n <;>
        simp [made, posts, postings, ofCaller, Observation.call?, Observation.posting?, Call.event?,
          hm]
    | answered m id answer =>
      by_cases hm : m = n
      · rw [made, List.filterMap_cons, Observation.call?, if_pos hm]
        rfl
      · rw [made, List.filterMap_cons, Observation.call?, if_neg hm]
        rfl
    | received | subscribed | registered | unsubscribed | detached => rfl

theorem kept_append : kept (os ++ os') = kept os ++ kept os' := by
  rw [kept, postings_append, List.map_append, List.filter_append]
  rfl

theorem count_ofCaller {xs : List (Nat × Event)} {e : Event} :
    (ofCaller n xs).count e = xs.count (n, e) := by
  induction xs with
  | nil => rfl
  | cons x xs ih =>
    obtain ⟨m, f⟩ := x
    have hcons : ofCaller n ((m, f) :: xs) =
        (if m = n then [f] else []) ++ ofCaller n xs := by
      by_cases hm : m = n <;> simp [ofCaller, hm]
    rw [hcons, List.count_append, ih, List.count_cons]
    by_cases hm : m = n
    · simp [hm, List.count_singleton, Nat.add_comm]
    · simp [hm]

theorem perm_of_ofCaller_eq {xs ys : List (Nat × Event)}
    (h : ∀ n, ofCaller n xs = ofCaller n ys) : xs.Perm ys := by
  rw [List.perm_iff_count]
  rintro ⟨n, e⟩
  rw [← count_ofCaller, ← count_ofCaller, h n]

theorem ofCaller_of_forall {xs : List (Nat × Event)} {m : Nat} (h : ∀ x ∈ xs, x.1 = m) :
    ofCaller n xs = if n = m then xs.map Prod.snd else [] := by
  rw [ofCaller]
  split
  · rename_i hn
    rw [List.filter_eq_self.mpr fun x hx => by simp [h x hx, hn]]
  · rename_i hn
    rw [List.filter_eq_nil_iff.mpr fun x hx => by simpa [h x hx] using Ne.symm hn]
    rfl

theorem filter_ofCaller {xs : List (Nat × Event)} {p : Event → Bool}
    (h : ∀ x ∈ xs, x.1 ≠ n → p x.2 = false) :
    (ofCaller n xs).filter p = (xs.map Prod.snd).filter p := by
  induction xs with
  | nil => rfl
  | cons x xs ih =>
    obtain ⟨hx, hxs⟩ := List.forall_mem_cons.mp h
    by_cases hn : x.1 = n
    · have hrest := ih hxs
      rw [ofCaller] at hrest ⊢
      simp [hn, List.filter_cons, hrest]
    · simpa [ofCaller, hn, hx hn] using ih hxs

/-- Every answer is what a cache gives after the events before it. -/
def Answered (c : Cache) : List Observation → Prop
  | [] => True
  | o :: os => (∀ n id answer, o = .answered n id answer → answer = c.get? id) ∧
      Answered (c.putAll (kept [o])) os

theorem answered_append {c : Cache} :
    Answered c (os ++ os') ↔ Answered c os ∧ Answered (c.putAll (kept os)) os' := by
  induction os generalizing c with
  | nil => simp [Answered, kept, postings, Cache.putAll]
  | cons o os ih =>
    have hcache : (c.putAll (kept [o])).putAll (kept os) = c.putAll (kept (o :: os)) := by
      have hkept : kept (o :: os) = kept [o] ++ kept os := by
        rw [← kept_append, List.singleton_append]
      rw [hkept]
      exact List.foldl_append.symm
    rw [List.cons_append, Answered, Answered, ih, hcache, and_assoc]

end Observations

section Answers

variable {c : Cache} {id : String}

/-- Whoever looks up an event that was cached before gets it or one that was cached later. -/
theorem Answered.answer_eq {os before after : List Observation} {n : Nat} {answer : Option Event}
    (h : Answered c os) (heq : os = before ++ .answered n id answer :: after)
    {earlier between : List Observation} {m : Nat} {e : Event}
    (hbefore : before = earlier ++ .posted m e :: between) (he : e.stable = true)
    (hid : e.id = id) : answer = some ((Cache.last? id (kept between)).getD e) := by
  rw [heq, answered_append] at h
  have hanswer := h.2.1 n id answer rfl
  have hposted : kept [.posted m e] = [e] := by simp [kept, postings, Observation.posting?, he]
  have hkept : kept before = kept earlier ++ ([e] ++ kept between) := by
    rw [hbefore, ← List.singleton_append, kept_append, kept_append, hposted]
  have hlast : Cache.last? id [e] = some e := by simp [Cache.last?, hid]
  rw [hanswer, Cache.get?_putAll, hkept, Cache.last?_append, Cache.last?_append, hlast]
  cases Cache.last? id (kept between) <;> rfl

end Answers

namespace Threads

section Steps

variable {n m : Nat} {b : Bus Unit} {c : Caller} {l : ListenerId}

/-- A caller makes its calls one after the other, and only its own. -/
theorem made_callerStep : made m (callerStep n b c).2.2 ++
    (if m = n then (callerStep n b c).2.1.calls.filter Call.produces else []) =
      if m = n then c.calls.filter Call.produces else [] := by
  obtain ⟨stage, calls⟩ := c
  cases stage with
  | stored e | named id name => rfl
  | delivering e left => cases left <;> rfl
  | idle =>
    cases calls with
    | nil => rfl
    | cons call calls =>
      by_cases hm : m = n
      · cases call <;>
          simp [callerStep, made, Observation.call?, Call.produces, List.filter_cons, hm]
      · cases call <;> simp [callerStep, made, Observation.call?, hm, Ne.symm hm]

/-- What a caller has to deliver to a listener gets less by what the listener receives, and more by
what the caller posts. -/
theorem pending_callerStep (hl : b.registry.ids.count l = 1) :
    c.pending l ++ (postings (callerStep n b c).2.2).map Prod.snd =
      (receipts l (callerStep n b c).2.2).map Prod.snd ++ (callerStep n b c).2.1.pending l := by
  obtain ⟨stage, calls⟩ := c
  cases stage with
  | named id name => rfl
  | stored e =>
    show [e] ++ [] = [] ++ List.replicate ((b.listeners.map Registration.id).count l) e
    rw [← ids_registry, hl]
    rfl
  | delivering e left =>
    cases left with
    | nil => rfl
    | cons l' left =>
      by_cases hl' : l' = l
      · simp [callerStep, Caller.pending, postings, receipts, Observation.posting?,
          Observation.receipt?, hl', List.replicate_succ]
      · simp [callerStep, Caller.pending, postings, receipts, Observation.posting?,
          Observation.receipt?, hl']
  | idle =>
    cases calls with
    | nil => rfl
    | cons call calls => cases call <;> rfl

/-- A caller only tells of itself. -/
theorem caller_callerStep : (∀ x ∈ postings (callerStep n b c).2.2, x.1 = n) ∧
    ∀ x ∈ receipts l (callerStep n b c).2.2, x.1 = n := by
  have hnone : (∀ x ∈ postings [], x.1 = n) ∧ ∀ x ∈ receipts l [], x.1 = n :=
    ⟨fun _ hx => absurd hx List.not_mem_nil, fun _ hx => absurd hx List.not_mem_nil⟩
  obtain ⟨stage, calls⟩ := c
  cases stage with
  | stored e | named id name => exact hnone
  | delivering e left =>
    cases left with
    | nil => exact hnone
    | cons l' left =>
      simp [callerStep, postings, receipts, Observation.posting?, Observation.receipt?]
  | idle =>
    cases calls with
    | nil => exact hnone
    | cons call calls =>
      cases call with
      | post e => simp [callerStep, postings, receipts, Observation.posting?, Observation.receipt?]
      | latest id | subscribe name | unsubscribe id | shutdown => exact hnone

theorem cache_callerStep :
    (callerStep n b c).1.cache = b.cache.putAll (kept (callerStep n b c).2.2) := by
  obtain ⟨stage, calls⟩ := c
  cases stage with
  | stored e | named id name => rfl
  | delivering e left => cases left <;> rfl
  | idle =>
    cases calls with
    | nil => rfl
    | cons call calls =>
      cases call with
      | post e =>
        show (b.store e).cache = b.cache.putAll ([e].filter Event.stable)
        cases he : e.stable <;> simp [store, he, Cache.putAll]
      | unsubscribe id =>
        show (b.unsubscribe id).2.cache = b.cache
        unfold Bus.unsubscribe
        split <;> rfl
      | latest id | subscribe name | shutdown => rfl

theorem answered_callerStep : Answered b.cache (callerStep n b c).2.2 := by
  obtain ⟨stage, calls⟩ := c
  cases stage with
  | stored e => trivial
  | named id name => simp [callerStep, Answered]
  | delivering e left => cases left <;> simp [callerStep, Answered]
  | idle =>
    cases calls with
    | nil => trivial
    | cons call calls => cases call <;> simp [callerStep, Answered, latest?]

end Steps

section Runs

variable {b : Bus Unit} {programs : List (List Call)} {t : Threads} {c : Caller} {l : ListenerId}
  {m n : Nat}

def start (b : Bus Unit) (programs : List (List Call)) : Threads where
  bus := b
  callers := programs.map fun calls => { calls }

/-- What a caller of so many is to post and to look up. -/
def toMake (programs : List (List Call)) (n : Nat) : List Call :=
  programs[n]?.elim [] (List.filter Call.produces)

def toPost (programs : List (List Call)) (n : Nat) : List Event := posts (toMake programs n)

/-- What is left of the post that a caller is in, for a listener. -/
def pending (l : ListenerId) (t : Threads) (n : Nat) : List Event :=
  t.callers[n]?.elim [] (Caller.pending l)

theorem elim_callers_step {α : Type} {x : α} {f : Caller → α} (h : t.callers[m]? = some c) :
    (t.step m).callers[n]?.elim x f =
      if n = m then f (callerStep m t.bus c).2.1 else t.callers[n]?.elim x f := by
  split
  · rename_i hn
    rw [hn, callers_step h, Option.elim_some]
  · rename_i hn
    rw [step_eq h, List.getElem?_set_ne (Ne.symm hn)]

/-- What was observed of callers that began at a bus with these calls. -/
structure Recorded (b : Bus Unit) (programs : List (List Call)) (t : Threads) : Prop where
  cache : t.bus.cache = b.cache.putAll (kept t.observed)
  answered : Answered b.cache t.observed
  made : ∀ n, toMake programs n =
    made n t.observed ++ t.callers[n]?.elim [] fun c => c.calls.filter Call.produces

theorem recorded_start : Recorded b programs (start b programs) where
  cache := rfl
  answered := trivial
  made n := by
    rw [toMake, start, List.getElem?_map]
    cases programs[n]? <;> rfl

theorem Recorded.step (h : Recorded b programs t) (m : Nat) : Recorded b programs (t.step m) := by
  cases hc : t.callers[m]? with
  | none => rwa [step_eq_self hc]
  | some c =>
    constructor
    case cache =>
      rw [step_eq hc]
      show (callerStep m t.bus c).1.cache = b.cache.putAll (kept (t.observed ++ _))
      rw [cache_callerStep, h.cache, kept_append]
      exact List.foldl_append.symm
    case answered =>
      rw [step_eq hc]
      refine answered_append.mpr ⟨h.answered, ?_⟩
      rw [← h.cache]
      exact answered_callerStep
    case made =>
      intro n
      have hmade := made_callerStep (m := n) (n := m) (b := t.bus) (c := c)
      rw [elim_callers_step hc, step_eq hc, made_append, h.made n, List.append_assoc]
      by_cases hn : n = m
      · rw [if_pos hn, if_pos hn] at hmade
        rw [if_pos hn, hmade, hn, hc, Option.elim_some]
      · rw [if_neg hn, if_neg hn, List.append_nil] at hmade
        rw [if_neg hn, hmade, List.nil_append]

theorem Recorded.run (h : Recorded b programs t) (schedule : List Nat) :
    Recorded b programs (t.run schedule) := by
  induction schedule generalizing t with
  | nil => exact h
  | cons m schedule ih => exact ih (h.step m)

/-- Of each caller a listener has received the events that were posted, but for what is left of the
post that the caller is in. -/
def Delivered (l : ListenerId) (t : Threads) : Prop :=
  ∀ n, ofCaller n (receipts l t.observed) ++ t.pending l n = ofCaller n (postings t.observed)

theorem delivered_start : (start b programs).Delivered l := by
  intro n
  show [] ++ Option.elim _ _ _ = []
  rw [start, List.getElem?_map]
  cases programs[n]? <;> rfl

theorem Delivered.step (h : t.Delivered l) (hsound : t.Sound) (hl : l ∈ t.bus.registry.ids)
    (m : Nat) : (t.step m).Delivered l := by
  cases hc : t.callers[m]? with
  | none => rwa [step_eq_self hc]
  | some c =>
    intro n
    have hbalance := pending_callerStep (n := m) (c := c)
      (List.count_eq_one_of_mem hsound.nodup hl)
    have hbefore := h n
    -- The step is of one caller only, so for any other one nothing changes on either side.
    rw [pending] at hbefore ⊢
    rw [elim_callers_step hc, step_eq hc, postings_append, receipts_append, ofCaller_append,
      ofCaller_append, ofCaller_of_forall caller_callerStep.2,
      ofCaller_of_forall (caller_callerStep (l := l)).1, ← hbefore]
    by_cases hn : n = m
    · rw [hn, hc, if_pos rfl, if_pos rfl, if_pos rfl, Option.elim_some, List.append_assoc,
        List.append_assoc, hbalance]
    · rw [if_neg hn, if_neg hn, if_neg hn, List.append_nil, List.append_nil]

theorem Delivered.run (h : t.Delivered l) (hsound : t.Sound) {schedule : List Nat}
    (hl : ∀ first, first <+: schedule → l ∈ (t.run first).bus.registry.ids) :
    (t.run schedule).Delivered l := by
  induction schedule using List.reverseRecOn with
  | nil => exact h
  | append_singleton schedule m ih =>
    have hprefix : schedule <+: schedule ++ [m] := List.prefix_append schedule [m]
    rw [run_concat]
    exact (ih fun first hfirst => hl first (hfirst.trans hprefix)).step (hsound.run schedule)
      (hl schedule hprefix) m

end Runs

section Producing

variable {b : Bus Unit} {programs : List (List Call)} {t : Threads} {c : Caller} {m : Nat}

theorem produces_callerStep (hc : c.Produces) : (callerStep m b c).1.registry = b.registry ∧
    (callerStep m b c).2.1.Produces := by
  obtain ⟨stage, calls⟩ := c
  obtain ⟨htaken, hcalls⟩ := hc
  cases stage with
  | stored e => exact ⟨rfl, rfl, hcalls⟩
  | delivering e left => cases left <;> exact ⟨rfl, rfl, hcalls⟩
  | named id name => cases htaken
  | idle =>
    cases calls with
    | nil => exact ⟨rfl, rfl, hcalls⟩
    | cons call calls =>
      obtain ⟨hcall, hrest⟩ : call.produces = true ∧ ∀ next ∈ calls, next.produces = true :=
        List.forall_mem_cons.mp hcalls
      cases call with
      | post e => exact ⟨registry_store, rfl, hrest⟩
      | latest id => exact ⟨rfl, rfl, hrest⟩
      | subscribe name | unsubscribe id | shutdown => cases hcall

theorem registry_run (h : ∀ c ∈ t.callers, c.Produces) (schedule : List Nat) :
    (t.run schedule).bus.registry = t.bus.registry := by
  induction schedule generalizing t with
  | nil => rfl
  | cons m schedule ih =>
    have hstep : (t.step m).bus.registry = t.bus.registry ∧
        ∀ c ∈ (t.step m).callers, c.Produces := by
      cases hc : t.callers[m]? with
      | none =>
        rw [step_eq_self hc]
        exact ⟨rfl, h⟩
      | some c =>
        obtain ⟨hregistry, hproduces⟩ :=
          produces_callerStep (b := t.bus) (m := m) (h c (List.mem_of_getElem? hc))
        rw [step_eq hc]
        refine ⟨hregistry, fun x hx => ?_⟩
        rcases List.mem_or_eq_of_mem_set hx with hx | rfl
        · exact h x hx
        · exact hproduces
    exact (ih hstep.2).trans hstep.1

end Producing

section Endings

variable {b : Bus Unit} {programs : List (List Call)} {t : Threads} {l : ListenerId} {n : Nat}

theorem Finished.elim_eq_nil {α : Type} (h : t.Finished) {f : Caller → List α}
    (hf : f ⟨.idle, []⟩ = []) : t.callers[n]?.elim [] f = [] := by
  cases hc : t.callers[n]? with
  | none => rfl
  | some c =>
    obtain ⟨hstage, hcalls⟩ := h c (List.mem_of_getElem? hc)
    obtain ⟨stage, calls⟩ := c
    cases hstage
    cases hcalls
    exact hf

theorem Recorded.postings_eq (h : Recorded b programs t) (hfinished : t.Finished) :
    ofCaller n (postings t.observed) = toPost programs n := by
  rw [toPost, h.made n, hfinished.elim_eq_nil rfl, List.append_nil, posts_made]

theorem Delivered.receipts_eq (h : t.Delivered l) (hfinished : t.Finished) :
    ofCaller n (receipts l t.observed) = ofCaller n (postings t.observed) := by
  rw [← h n, pending, hfinished.elim_eq_nil rfl, List.append_nil]

/-- An id that only one caller posts ends with that caller's last event. -/
theorem Recorded.latest?_eq (h : Recorded b programs t) (hfinished : t.Finished) {id : String}
    (honly : ∀ m, m ≠ n → ∀ e ∈ toPost programs m, e.stable = true → e.id ≠ id) :
    t.bus.latest? id =
      (Cache.last? id ((toPost programs n).filter Event.stable)).or (b.latest? id) := by
  -- Among all events those with this id are the caller's own, in its own order.
  have hothers : ∀ x ∈ postings t.observed, x.1 ≠ n →
      (x.2.id == id && x.2.stable) = false := by
    rintro ⟨m, e⟩ hx hm
    have hmem : e ∈ toPost programs m := by
      rw [← h.postings_eq hfinished]
      exact List.mem_map_of_mem (f := Prod.snd) (List.mem_filter.mpr ⟨hx, beq_self_eq_true m⟩)
    cases he : e.stable with
    | false => exact Bool.and_false _
    | true => simpa using honly m hm e hmem he
  have hlast : Cache.last? id (kept t.observed) =
      Cache.last? id ((toPost programs n).filter Event.stable) := by
    rw [Cache.last?_eq_getLast?, Cache.last?_eq_getLast?, kept, List.filter_filter,
      List.filter_filter, ← filter_ofCaller hothers, h.postings_eq hfinished]
  rw [Bus.latest?, h.cache, Cache.get?_putAll, hlast]
  rfl

/-- However callers take turns on a bus: each of them makes its calls one after the other, and who
looks an event up gets the one that was cached last, hence none from before one that it has posted
itself; an id that only one caller posts ends with that caller's last event; and a listener that is
registered throughout receives what each caller posts, each event once and in that caller's order.
As long as all callers only post and look up, every listener is; and all of them can get to the end
of their calls. -/
theorem producers_spec (hb : b.Reachable []) (programs : List (List Call))
    (schedule : List Nat) :
    let t := (start b programs).run schedule
    (∀ before n id answer after, t.observed = before ++ .answered n id answer :: after →
      ∀ earlier m e between, before = earlier ++ .posted m e :: between → e.stable = true →
        e.id = id → answer = some ((Cache.last? id (kept between)).getD e)) ∧
    (∀ n, toMake programs n =
      made n t.observed ++ t.callers[n]?.elim [] fun c => c.calls.filter Call.produces) ∧
    (∀ id n, (∀ m, m ≠ n → ∀ e ∈ toPost programs m, e.stable = true → e.id ≠ id) → t.Finished →
      t.bus.latest? id =
        (Cache.last? id ((toPost programs n).filter Event.stable)).or (b.latest? id)) ∧
    (∀ l, (∀ first, first <+: schedule →
        l ∈ ((start b programs).run first).bus.registry.ids) →
      (∀ n, ofCaller n (receipts l t.observed) ++ t.pending l n =
        ofCaller n (postings t.observed)) ∧
      (t.Finished → (receipts l t.observed).Perm (postings t.observed) ∧
        ∀ n, ofCaller n (receipts l t.observed) = toPost programs n)) ∧
    ((∀ calls ∈ programs, ∀ call ∈ calls, call.produces = true) →
      ∀ first, ((start b programs).run first).bus.registry = b.registry) ∧
    ∃ more, (t.run more).Finished := by
  intro t
  have hsound : (start b programs).Sound := by
    refine ⟨[], hb, ?_⟩
    rw [start, List.flatMap_map]
    exact .of_eq (List.flatMap_eq_nil_iff.mpr fun _ _ => rfl).symm
  have hrecorded : Recorded b programs t := recorded_start.run schedule
  refine ⟨?_, hrecorded.made, fun id n honly hfinished => hrecorded.latest?_eq hfinished honly,
    ?_, ?_, exists_run_finished t⟩
  · intro before n id answer after heq earlier m e between hbefore he hid
    exact hrecorded.answered.answer_eq heq hbefore he hid
  · intro l hl
    have hdelivered : t.Delivered l := delivered_start.run hsound hl
    refine ⟨hdelivered, fun hfinished => ⟨perm_of_ofCaller_eq fun n => ?_, fun n => ?_⟩⟩
    · exact hdelivered.receipts_eq hfinished
    · rw [hdelivered.receipts_eq hfinished, hrecorded.postings_eq hfinished]
  · intro hproduces
    refine registry_run fun c hc => ?_
    obtain ⟨calls, hcalls, rfl⟩ := List.mem_map.mp hc
    exact ⟨rfl, hproduces calls hcalls⟩

def lampOn : Event := ⟨"lamp", .ui, true, some (.bool true), by decide⟩

def lampOff : Event := ⟨"lamp", .system, true, some (.bool false), by decide⟩

def gong : Event := ⟨"gong", .system, true, none, by decide⟩

def lampLog : Bus Unit := (({} : Bus Unit).subscribe "log" ()).2

def lampCalls : List (List Call) :=
  [[.post lampOn, .latest "lamp"], [.post lampOff, .post gong]]

def lampTurns : List Nat := [0, 1, 0, 1, 1, 1, 0, 0, 0, 1, 1, 1, 1]

/-- The first of two callers turns a lamp on and looks it up when the second one has turned it off
already, before either event got to the listener. -/
theorem producers_spec_lamp :
    let t := (start lampLog lampCalls).run lampTurns
    t.Finished ∧
      t.observed = [.posted 0 lampOn, .posted 1 lampOff, .received 1 1 lampOff,
        .received 1 0 lampOn, .answered 0 "lamp" (some lampOff), .posted 1 gong,
        .received 1 1 gong] ∧
      some lampOff =
        some ((Cache.last? "lamp" (kept [.posted 1 lampOff, .received 1 1 lampOff,
          .received 1 0 lampOn])).getD lampOn) ∧
      t.bus.latest? "gong" = (Cache.last? "gong" [lampOff, gong]).or none ∧
      (receipts 1 t.observed).Perm (postings t.observed) ∧
      ofCaller 1 (receipts 1 t.observed) = [lampOff, gong] := by
  have hb : lampLog.Reachable [] := Reachable.empty.subscribe "log" ()
  obtain ⟨hanswer, -, honly, hreceipts, hregistry, -⟩ := producers_spec hb lampCalls lampTurns
  have hfinished : ((start lampLog lampCalls).run lampTurns).Finished := by
    have hcallers : ((start lampLog lampCalls).run lampTurns).callers =
        [⟨.idle, []⟩, ⟨.idle, []⟩] := rfl
    intro c hc
    rw [hcallers] at hc
    simp only [List.mem_cons, List.not_mem_nil, or_false, or_self] at hc
    rw [hc]
    exact ⟨rfl, rfl⟩
  have hregistered : ∀ first, first <+: lampTurns →
      1 ∈ ((start lampLog lampCalls).run first).bus.registry.ids := by
    intro first _
    rw [hregistry (by simp [lampCalls, Call.produces]) first]
    decide
  have hgong : ∀ m, m ≠ 1 → ∀ e ∈ toPost lampCalls m, e.stable = true → e.id ≠ "gong" := by
    intro m hm e he _
    rcases m with _ | _ | m
    · rw [List.mem_singleton.mp he]
      decide
    · exact absurd rfl hm
    · cases he
  have hobserved : ((start lampLog lampCalls).run lampTurns).observed =
      [.posted 0 lampOn, .posted 1 lampOff, .received 1 1 lampOff, .received 1 0 lampOn,
        .answered 0 "lamp" (some lampOff), .posted 1 gong, .received 1 1 gong] := rfl
  obtain ⟨-, hend⟩ := hreceipts 1 hregistered
  exact ⟨hfinished, hobserved,
    hanswer [.posted 0 lampOn, .posted 1 lampOff, .received 1 1 lampOff, .received 1 0 lampOn]
      0 "lamp" (some lampOff) [.posted 1 gong, .received 1 1 gong] hobserved []
      0 lampOn [.posted 1 lampOff, .received 1 1 lampOff, .received 1 0 lampOn] rfl rfl rfl,
    honly "gong" 1 hgong hfinished, (hend hfinished).1, (hend hfinished).2 1⟩

end Endings

end Threads

end HomeAutomation.Bus
