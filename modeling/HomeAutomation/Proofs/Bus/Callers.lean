import HomeAutomation.Proofs.Bus.Enrolment

/-! Callers that use one bus at the same time. Whatever their interleaving, the bus is one that
single steps bring about, and every caller can get to the end of its calls. -/

namespace HomeAutomation.Bus

/-- The id that a caller has taken and is yet to register. -/
def Caller.taken (c : Caller) : List ListenerId :=
  match c.stage with
  | .named id _ => [id]
  | .idle | .stored _ | .delivering _ _ => []

namespace Threads

variable {t : Threads} {n : Nat} {c : Caller}

theorem run_append {schedule more : List Nat} :
    t.run (schedule ++ more) = (t.run schedule).run more :=
  List.foldl_append

theorem run_concat {schedule : List Nat} {n : Nat} :
    t.run (schedule ++ [n]) = (t.run schedule).step n :=
  run_append

theorem step_eq_self (h : t.callers[n]? = none) : t.step n = t := by
  rw [step, h]

theorem step_eq (h : t.callers[n]? = some c) : t.step n =
    ⟨(callerStep n t.bus c).1, t.callers.set n (callerStep n t.bus c).2.1,
      t.observed ++ (callerStep n t.bus c).2.2⟩ := by
  rw [step, h]

section Registering

theorem act_callerStep (n : Nat) (b : Bus Unit) (c : Caller) :
    Act n b c.taken (callerStep n b c).2.2 (callerStep n b c).1 (callerStep n b c).2.1.taken := by
  obtain ⟨stage, calls⟩ := c
  cases stage with
  | stored e => exact .silent
  | delivering e left =>
    cases left with
    | nil => exact .silent
    | cons l left => exact .received l e
  | named id name => exact .registered ⟨id, name, ()⟩
  | idle =>
    cases calls with
    | nil => exact .silent
    | cons call calls =>
      cases call with
      | post e => exact .posted e
      | latest id => exact .answered id
      | subscribe name => exact .subscribed
      | unsubscribe id => exact .unsubscribed id
      | shutdown => exact .detached

/-- The bus is one that single steps bring about. -/
def Sound (t : Threads) : Prop :=
  ∃ taken, t.bus.Reachable taken ∧ taken.Perm (t.callers.flatMap Caller.taken)

theorem Sound.step (h : t.Sound) (n : Nat) : (t.step n).Sound := by
  cases hc : t.callers[n]? with
  | none => rwa [step_eq_self hc]
  | some c =>
    obtain ⟨taken, hb, htaken⟩ := h
    -- The ids of the other callers are the same before and after the step.
    obtain ⟨others, hbefore, hafter⟩ := exists_others hc Caller.taken
    obtain ⟨taken', hb', htaken'⟩ :=
      (act_callerStep n t.bus c).reachable hb (htaken.trans hbefore)
    rw [step_eq hc]
    exact ⟨taken', hb', htaken'.trans (hafter _).symm⟩

theorem Sound.run (h : t.Sound) (schedule : List Nat) : (t.run schedule).Sound := by
  induction schedule generalizing t with
  | nil => exact h
  | cons n schedule ih => exact ih (h.step n)

theorem Sound.nodup (h : t.Sound) : t.bus.registry.ids.Nodup := by
  obtain ⟨taken, hb, -⟩ := h
  exact hb.distinct.nodup

end Registering

section Finishing

def Finished (t : Threads) : Prop := ∀ c ∈ t.callers, c.stage = .idle ∧ c.calls = []

theorem callers_step (h : t.callers[n]? = some c) :
    (t.step n).callers[n]? = some (callerStep n t.bus c).2.1 := by
  rw [step_eq h]
  exact List.getElem?_set_self (List.getElem?_eq_some_iff.mp h).1

/-- What a caller gets to after its next step, it gets to from before it. -/
theorem exists_run_of_step {x : Caller} (h : t.callers[n]? = some c)
    (hrun : ∃ more, ((t.step n).run more).callers = (t.step n).callers.set n x) :
    ∃ more, (t.run more).callers = t.callers.set n x := by
  obtain ⟨more, hmore⟩ := hrun
  refine ⟨n :: more, ?_⟩
  rw [step_eq h, List.set_set] at hmore
  rw [← hmore, ← step_eq h]
  rfl

theorem exists_run_delivering {e : Event} {left : List ListenerId} {calls : List Call}
    (h : t.callers[n]? = some ⟨.delivering e left, calls⟩) :
    ∃ more, (t.run more).callers = t.callers.set n ⟨.idle, calls⟩ := by
  induction left generalizing t with
  | nil =>
    refine ⟨[n], ?_⟩
    rw [run, List.foldl_cons, step_eq h]
    rfl
  | cons l left ih => exact exists_run_of_step h (ih (callers_step h))

theorem exists_run_idle (h : t.callers[n]? = some c) :
    ∃ more, (t.run more).callers = t.callers.set n ⟨.idle, c.calls⟩ := by
  obtain ⟨stage, calls⟩ := c
  cases stage with
  | idle =>
    refine ⟨[], ?_⟩
    obtain ⟨hn, heq⟩ := List.getElem?_eq_some_iff.mp h
    rw [← heq, List.set_getElem_self]
    rfl
  | stored e => exact exists_run_of_step h (exists_run_delivering (callers_step h))
  | delivering e left => exact exists_run_delivering h
  | named id name =>
    refine ⟨[n], ?_⟩
    rw [run, List.foldl_cons, step_eq h]
    rfl

theorem exists_run_done (h : t.callers[n]? = some c) :
    ∃ more, (t.run more).callers = t.callers.set n ⟨.idle, []⟩ := by
  obtain ⟨stage, calls⟩ := c
  induction calls generalizing t stage with
  | nil => exact exists_run_idle h
  | cons call calls ih =>
    obtain ⟨more, hmore⟩ := exists_run_idle h
    have hidle : (t.run more).callers[n]? = some ⟨.idle, call :: calls⟩ := by
      rw [hmore]
      exact List.getElem?_set_self (List.getElem?_eq_some_iff.mp h).1
    have hnext : ∃ stage, ((t.run more).step n).callers[n]? = some ⟨stage, calls⟩ := by
      rw [callers_step hidle]
      cases call <;> exact ⟨_, rfl⟩
    obtain ⟨stage', hstage'⟩ := hnext
    obtain ⟨rest, hrest⟩ := exists_run_of_step hidle (ih _ hstage')
    refine ⟨more ++ rest, ?_⟩
    rw [run_append, hrest, hmore, List.set_set]

/-- Whatever has happened, all callers can get to the end of their calls. -/
theorem exists_run_finished (t : Threads) : ∃ more, (t.run more).Finished := by
  -- One caller after the other, as none of them moves another one.
  have hdone : ∀ k, ∃ more, (t.run more).callers.length = t.callers.length ∧
      ∀ (i : Nat) (c : Caller), i < k → (t.run more).callers[i]? = some c → c = ⟨.idle, []⟩ := by
    intro k
    induction k with
    | zero => exact ⟨[], rfl, fun i _ hi => absurd hi (Nat.not_lt_zero i)⟩
    | succ k ih =>
      obtain ⟨more, hlen, hbelow⟩ := ih
      cases hk : (t.run more).callers[k]? with
      | none =>
        refine ⟨more, hlen, fun i c hi hc => ?_⟩
        rcases Nat.lt_succ_iff_lt_or_eq.mp hi with hi | rfl
        · exact hbelow i c hi hc
        · rw [hk] at hc
          cases hc
      | some c =>
        obtain ⟨rest, hrest⟩ := exists_run_done hk
        have hlen' : (t.run (more ++ rest)).callers.length = t.callers.length := by
          rw [run_append, hrest, List.length_set, hlen]
        refine ⟨more ++ rest, hlen', fun i x hi hx => ?_⟩
        rw [run_append, hrest] at hx
        rcases Nat.lt_succ_iff_lt_or_eq.mp hi with hi | rfl
        · rw [List.getElem?_set_ne (Nat.ne_of_gt hi)] at hx
          exact hbelow i x hi hx
        · rw [List.getElem?_set_self (List.getElem?_eq_some_iff.mp hk).1] at hx
          exact (Option.some.inj hx).symm
  obtain ⟨more, hlen, hall⟩ := hdone t.callers.length
  refine ⟨more, fun c hc => ?_⟩
  obtain ⟨i, hi, rfl⟩ := List.mem_iff_getElem.mp hc
  rw [hall i _ (hlen ▸ hi) (List.getElem?_eq_getElem hi)]
  exact ⟨rfl, rfl⟩

end Finishing

end Threads

end HomeAutomation.Bus
