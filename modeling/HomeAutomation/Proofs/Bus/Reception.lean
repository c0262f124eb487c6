import HomeAutomation.Proofs.Bus.Latest

/-! The order in which a listener receives events. It is the order in which their posts began, but
that a post within a call gets ahead of every dispatch around it that has not come to the listener
yet. -/

namespace HomeAutomation

def Happening.begun? : Happening → Option Event
  | .postBegan e => some e
  | _ => none

def Happening.heard? (l : ListenerId) : Happening → Option Event
  | .called id e => if id = l then some e else none
  | _ => none

theorem filter_stable_begun {hs : List Happening} :
    (hs.filterMap Happening.begun?).filter Event.stable = stored hs := by
  rw [List.filter_filterMap, stored]
  refine congrArg (List.filterMap · hs) (funext fun x => ?_)
  cases x <;> rfl

/-- What has come to a listener. Posts go by their numbers, in the order in which they began. -/
structure Reception where
  posts : List Event := []
  /-- The posts whose dispatches go on, the innermost first. -/
  underWay : List Nat := []
  heard : List Event := []
  received : List Nat := []
  /-- A post together with one that began within its dispatch, before that came to the listener. -/
  overtaken : List (Nat × Nat) := []

namespace Reception

/-- The dispatches under way that are yet to come to the listener. -/
def awaited (r : Reception) : List Nat := r.underWay.filter fun k => k ∉ r.received

def after (l : ListenerId) (r : Reception) : Happening → Reception
  | .postBegan e =>
    { r with
      posts := r.posts ++ [e]
      underWay := r.posts.length :: r.underWay
      overtaken := r.overtaken ++ r.awaited.map fun k => (k, r.posts.length) }
  | .called id e =>
    if id = l then
      { r with heard := r.heard ++ [e], received := r.received ++ r.underWay.head?.toList }
    else r
  | .postEnded _ => { r with underWay := r.underWay.tail }
  | _ => r

/-- What has come to a listener in a history that began with no dispatch under way. -/
def read (l : ListenerId) (hs : List Happening) : Reception := hs.foldl (after l) {}

/-- A post is received before another one: as they began, unless the second one has overtaken it. -/
def Before (r : Reception) (p q : Nat) : Prop :=
  p < q ∧ (p, q) ∉ r.overtaken ∨ q < p ∧ (q, p) ∈ r.overtaken

def concerns (r : Reception) (id : String) (k : Nat) : Bool :=
  r.posts[k]?.any fun e => e.id == id && e.stable

/-- The last post of a stable event with an id, among some posts. -/
def last? (r : Reception) (id : String) (ks : List Nat) : Option Nat :=
  (ks.filter (r.concerns id)).getLast?

def numbers (r : Reception) : List Nat := List.range r.posts.length

section Reading

variable {l : ListenerId} {hs : List Happening}

theorem read_concat {x : Happening} : read l (hs ++ [x]) = (read l hs).after l x :=
  List.foldl_append

theorem posts_read : (read l hs).posts = hs.filterMap Happening.begun? := by
  induction hs using List.reverseRecOn with
  | nil => rfl
  | append_singleton hs x ih =>
    rw [read_concat, List.filterMap_append, ← ih]
    cases x with
    | postBegan e => rfl
    | called id e =>
      rw [after]
      split <;> exact (List.append_nil _).symm
    | _ => exact (List.append_nil _).symm

theorem heard_read : (read l hs).heard = hs.filterMap (Happening.heard? l) := by
  induction hs using List.reverseRecOn with
  | nil => rfl
  | append_singleton hs x ih =>
    rw [read_concat, List.filterMap_append, ← ih]
    cases x with
    | called id e =>
      by_cases hid : id = l
      · simp [after, Happening.heard?, hid]
      · simp [after, Happening.heard?, hid]
    | _ => exact (List.append_nil _).symm

theorem filter_stable_posts_read : (read l hs).posts.filter Event.stable = stored hs := by
  rw [posts_read, filter_stable_begun]

end Reading

section Overtaking

variable {l : ListenerId} {r : Reception} {p q k : Nat}

theorem mem_awaited : k ∈ r.awaited ↔ k ∈ r.underWay ∧ k ∉ r.received := by
  simp [awaited]

theorem mem_overtaken_begun {e : Event} : (p, q) ∈ (r.after l (.postBegan e)).overtaken ↔
    (p, q) ∈ r.overtaken ∨ p ∈ r.awaited ∧ q = r.posts.length := by
  simp [after, eq_comm]

/-- A post is overtaken by those that begin while it is yet to come to the listener. -/
theorem mem_overtaken_read {hs : List Happening} : (p, q) ∈ (read l hs).overtaken ↔
    ∃ before e later, hs = before ++ .postBegan e :: later ∧ p ∈ (read l before).awaited ∧
      q = (read l before).posts.length := by
  induction hs using List.reverseRecOn with
  | nil => simp [read]
  | append_singleton hs x ih =>
    have hlast : (∃ before e later, hs ++ [x] = before ++ .postBegan e :: later ∧
          p ∈ (read l before).awaited ∧ q = (read l before).posts.length) ↔
        (p, q) ∈ (read l hs).overtaken ∨ ∃ e, x = .postBegan e ∧ p ∈ (read l hs).awaited ∧
          q = (read l hs).posts.length := by
      rw [ih]
      constructor
      · rintro ⟨before, e, later, heq, hpq⟩
        rcases List.eq_nil_or_concat later with rfl | ⟨later, y, rfl⟩
        · obtain ⟨rfl, hx⟩ := List.append_inj' heq rfl
          exact .inr ⟨e, (List.cons.inj hx).1, hpq⟩
        · rw [List.concat_eq_append, ← List.cons_append, ← List.append_assoc] at heq
          exact .inl ⟨before, e, later, (List.append_inj' heq rfl).1, hpq⟩
      · rintro (⟨before, e, later, rfl, hpq⟩ | ⟨e, rfl, hpq⟩)
        · exact ⟨before, e, later ++ [x], by simp, hpq⟩
        · exact ⟨hs, e, [], rfl, hpq⟩
    rw [hlast, read_concat]
    cases x with
    | postBegan e =>
      rw [mem_overtaken_begun]
      simp
    | called id e =>
      rw [after]
      split <;> simp
    | _ => simp [after]

end Overtaking

/-- A dispatch under way is that of a post, and it is yet to come to the listener if and only if the
listener is due. -/
structure Tracks (l : ListenerId) (r : Reception) (k : Nat) (d : Dispatch) : Prop where
  event : r.posts[k]? = some d.event
  nodup : d.due.ids.Nodup
  due : l ∈ d.due.ids ↔ k ∉ r.received

/-- What holds of a listener that is registered from the beginning, amid these dispatches. -/
structure Orderly (l : ListenerId) (r : Reception) (ds : List Dispatch) : Prop where
  tracks : List.Forall₂ (Tracks l r) r.underWay ds
  inner : r.underWay.Pairwise (· > ·)
  lt_length : ∀ k, k ∈ r.underWay ∨ k ∈ r.received → k < r.posts.length
  known : ∀ k, k < r.posts.length → k ∈ r.underWay ∨ k ∈ r.received
  passed : ∀ p ∈ r.underWay, p ∉ r.received → ∀ q, p < q → q < r.posts.length →
    (p, q) ∈ r.overtaken
  lt : ∀ p q, (p, q) ∈ r.overtaken → p < q ∧ q < r.posts.length
  /-- As long as a post goes on, those that it has overtaken are still on their way. -/
  within : ∀ p q, (p, q) ∈ r.overtaken → q ∈ r.underWay → p ∈ r.awaited
  order : r.received.Pairwise r.Before
  heard : r.heard.map some = r.received.map fun k => r.posts[k]?

theorem length_posts_begun {r : Reception} {l : ListenerId} {e : Event} {k : Nat} :
    k < (r.after l (.postBegan e)).posts.length ↔ k < r.posts.length ∨ k = r.posts.length := by
  rw [after, List.length_append, List.length_singleton, Nat.lt_succ_iff_lt_or_eq]

theorem orderly_start {l : ListenerId} : Orderly l {} [] where
  tracks := .nil
  inner := .nil
  lt_length := by simp
  known := fun _ hk => absurd hk (Nat.not_lt_zero _)
  passed := by simp
  lt := by simp
  within := by simp
  order := .nil
  heard := rfl

namespace Orderly

variable {l : ListenerId} {r : Reception} {ds : List Dispatch} {e : Event}

theorem begun (h : Orderly l r ds) {reg : Registry} (hl : l ∈ reg.ids) (hnd : reg.ids.Nodup) :
    Orderly l (r.after l (.postBegan e)) (⟨e, reg, none⟩ :: ds) := by
  have hfresh : r.posts.length ∉ r.received := fun hmem =>
    Nat.lt_irrefl _ (h.lt_length _ (.inr hmem))
  constructor
  case tracks =>
    refine .cons ⟨List.getElem?_concat_length, hnd, iff_of_true hl hfresh⟩
      (h.tracks.imp fun k d hd => ⟨?_, hd.nodup, hd.due⟩)
    obtain ⟨hk, -⟩ := List.getElem?_eq_some_iff.mp hd.event
    exact (List.getElem?_append_left hk).trans hd.event
  case inner => exact h.inner.cons fun k hk => h.lt_length k (.inl hk)
  case lt_length =>
    intro k hk
    refine length_posts_begun.mpr ?_
    rcases hk with hk | hk
    · rcases List.mem_cons.mp hk with rfl | hk
      · exact .inr rfl
      · exact .inl (h.lt_length k (.inl hk))
    · exact .inl (h.lt_length k (.inr hk))
  case known =>
    intro k hk
    rcases length_posts_begun.mp hk with hk | rfl
    · exact (h.known k hk).imp_left (List.mem_cons_of_mem _)
    · exact .inl List.mem_cons_self
  case passed =>
    intro p hp hnew q hlt hq
    refine mem_overtaken_begun.mpr ?_
    rcases List.mem_cons.mp hp with rfl | hp
    · rcases length_posts_begun.mp hq with hq | rfl
      · exact absurd hq (Nat.lt_asymm hlt)
      · exact absurd hlt (Nat.lt_irrefl _)
    · rcases length_posts_begun.mp hq with hq | rfl
      · exact .inl (h.passed p hp hnew q hlt hq)
      · exact .inr ⟨mem_awaited.mpr ⟨hp, hnew⟩, rfl⟩
  case lt =>
    intro p q hpq
    rw [length_posts_begun]
    rcases mem_overtaken_begun.mp hpq with hpq | ⟨hp, rfl⟩
    · exact (h.lt p q hpq).imp_right .inl
    · exact ⟨h.lt_length p (.inl (mem_awaited.mp hp).1), .inr rfl⟩
  case within =>
    intro p q hpq hq
    have hawaited : p ∈ r.awaited := by
      rcases mem_overtaken_begun.mp hpq with hpq | ⟨hp, -⟩
      · rcases List.mem_cons.mp hq with rfl | hq
        · exact absurd (h.lt p _ hpq).2 (Nat.lt_irrefl _)
        · exact h.within p q hpq hq
      · exact hp
    exact mem_awaited.mpr ((mem_awaited.mp hawaited).imp_left (List.mem_cons_of_mem _))
  case order =>
    -- What is new has been overtaken by the new post, and that has not been received.
    have hold : ∀ p, ∀ q ∈ r.received,
        ((p, q) ∈ (r.after l (.postBegan e)).overtaken ↔ (p, q) ∈ r.overtaken) := by
      intro p q hq
      rw [mem_overtaken_begun, or_iff_left]
      rintro ⟨-, rfl⟩
      exact hfresh hq
    refine h.order.imp_of_mem fun {p q} hp hq hbefore => ?_
    rwa [Before, hold p q hq, hold q p hp]
  case heard =>
    show r.heard.map some = r.received.map fun k => (r.posts ++ [e])[k]?
    rw [h.heard]
    exact List.map_congr_left fun k hk =>
      (List.getElem?_append_left (h.lt_length k (.inr hk))).symm

/-- The innermost dispatch comes to the listener. -/
theorem called {name : String} {due : Registry}
    (h : Orderly l r (⟨e, (l, name) :: due, none⟩ :: ds)) :
    Orderly l (r.after l (.called l e)) (⟨e, due, some (l, name)⟩ :: ds) := by
  obtain ⟨posts, underWay, heard, received, overtaken⟩ := r
  obtain ⟨htracks, hinner, hlength, hknown, hpassed, hlt, hwithin, horder, hheard⟩ := h
  cases htracks with
  | @cons k _ ks _ hk htracks =>
    obtain ⟨hnotin, hdue⟩ := List.nodup_cons.mp hk.nodup
    have hnew : k ∉ received := hk.due.mp List.mem_cons_self
    obtain ⟨hless, hinner'⟩ := List.pairwise_cons.mp hinner
    have hle : ∀ q ∈ k :: ks, q ≤ k := fun q hq =>
      (List.mem_cons.mp hq).elim Nat.le_of_eq fun hq => Nat.le_of_lt (hless q hq)
    rw [after, if_pos rfl]
    simp only [List.head?_cons, Option.toList_some]
    constructor
    case tracks =>
      refine .cons ⟨hk.event, hdue, iff_of_false hnotin ?_⟩ ?_
      · simp
      · refine ((List.forall₂_and_left _ _).mpr ⟨hless, htracks⟩).imp fun j d hd => ?_
        refine ⟨hd.2.event, hd.2.nodup, hd.2.due.trans ?_⟩
        simp [Nat.ne_of_lt hd.1]
    case inner => exact hinner
    case lt_length =>
      intro j hj
      rcases hj with hj | hj
      · exact hlength j (.inl hj)
      · rcases List.mem_append.mp hj with hj | hj
        · exact hlength j (.inr hj)
        · exact hlength j (.inl (List.mem_singleton.mp hj ▸ List.mem_cons_self))
    case known => exact fun j hj => (hknown j hj).imp_right (List.mem_append_left _)
    case passed =>
      exact fun p hp hpnew => hpassed p hp fun hmem => hpnew (List.mem_append_left _ hmem)
    case lt => exact hlt
    case within =>
      -- What a post under way has overtaken is further out than the innermost one.
      intro p q hpq hq
      obtain ⟨hp, hpnew⟩ := mem_awaited.mp (hwithin p q hpq hq)
      have hne : p ≠ k := Nat.ne_of_lt (Nat.lt_of_lt_of_le (hlt p q hpq).1 (hle q hq))
      exact mem_awaited.mpr ⟨hp, by simpa [hne] using hpnew⟩
    case order =>
      refine List.pairwise_append.mpr ⟨horder, List.pairwise_singleton _ _, fun p hp q hq => ?_⟩
      obtain rfl := List.mem_singleton.mp hq
      have hne : p ≠ q := fun heq => hnew (heq ▸ hp)
      rcases Nat.lt_or_gt_of_ne hne with hless | hgreater
      · refine .inl ⟨hless, fun hpq => ?_⟩
        exact (mem_awaited.mp (hwithin p q hpq List.mem_cons_self)).2 hp
      · exact .inr ⟨hgreater,
          hpassed q List.mem_cons_self hnew p hgreater (hlength p (.inr hp))⟩
    case heard => simp only [List.map_append, hheard, List.map_cons, List.map_nil, hk.event]

/-- A dispatch changes while the listener is as much due as before. -/
theorem of_due {d d' : Dispatch} (h : Orderly l r (d :: ds)) (he : d'.event = d.event)
    (hnd : d.due.ids.Nodup → d'.due.ids.Nodup) (hl : l ∈ d'.due.ids ↔ l ∈ d.due.ids) :
    Orderly l r (d' :: ds) := by
  refine { h with tracks := ?_ }
  obtain ⟨k, ks, hk, hks, heq⟩ := List.forall₂_cons_right_iff.mp h.tracks
  rw [heq]
  exact .cons ⟨hk.event.trans (congrArg some he.symm), hnd hk.nodup, hl.trans hk.due⟩ hks

theorem ended (h : Orderly l r (⟨e, [], none⟩ :: ds)) :
    Orderly l (r.after l (.postEnded e)) ds := by
  obtain ⟨k, ks, hk, hks, heq⟩ := List.forall₂_cons_right_iff.mp h.tracks
  have hdone : k ∈ r.received := by
    have hdue := hk.due
    simpa [Registry.ids] using hdue
  have hsub : ∀ j ∈ ks, j ∈ r.underWay := fun j hj => heq ▸ List.mem_cons_of_mem k hj
  have hunderWay : r.underWay.tail = ks := by rw [heq, List.tail_cons]
  rw [after, hunderWay]
  refine ⟨hks.imp fun j d hd => ⟨hd.event, hd.nodup, hd.due⟩, ?_, ?_, ?_, ?_, h.lt, ?_, h.order,
    h.heard⟩
  · have hinner := h.inner
    rw [heq] at hinner
    exact hinner.of_cons
  · exact fun j hj => h.lt_length j (hj.imp_left (hsub j))
  · intro j hj
    rcases h.known j hj with hmem | hmem
    · rw [heq] at hmem
      rcases List.mem_cons.mp hmem with rfl | hmem
      · exact .inr hdone
      · exact .inl hmem
    · exact .inr hmem
  · exact fun p hp => h.passed p (hsub p hp)
  · intro p q hpq hq
    obtain ⟨hp, hnew⟩ := mem_awaited.mp (h.within p q hpq (hsub q hq))
    rw [heq] at hp
    rcases List.mem_cons.mp hp with rfl | hp
    · exact absurd hdone hnew
    · exact mem_awaited.mpr ⟨hp, hnew⟩

end Orderly

end Reception

end HomeAutomation
