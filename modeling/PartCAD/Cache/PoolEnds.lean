import PartCAD.Cache.PoolRuns

/-!
# Requests leave

Every step of a request brings it closer to its end, and while one is in progress there is such a
step.  So when no request comes any more, those in progress leave `connected()`, and the clients are
closed.

* `Inv.getsOn` : what a step does to the requests;
* `ends_run` : they leave from every state, in whatever order they get on.
-/

namespace PartCAD.Cache.Pool

open PartCAD.Lib

/-! ## What is before a request -/

/-- The steps that a request has before it at most, when it has not left. -/
def ahead : Phase → ℕ
  | .outside => 0
  | .closing _ => 1
  | .leaving _ => 2
  | .connected _ _ => 3
  | .opening _ => 4
  | .entering _ => 5

/-- How many requests are in progress. -/
def busy (s : Pool) : ℕ := s.requests.countP (· ≠ .outside)

theorem ahead_le (p : Phase) : ahead p ≤ 5 := by
  cases p with
  | _ => simp [ahead]

theorem sum_ahead_le (requests : List Phase) :
    (requests.map ahead).sum ≤ 5 * requests.countP (· ≠ .outside) := by
  induction requests with
  | nil => simp
  | cons p requests ih =>
    rw [List.map_cons, List.sum_cons, List.countP_cons]
    by_cases hp : p = .outside
    · subst hp
      simpa [ahead] using ih
    · have hle := ahead_le p
      rw [if_pos (by simpa using hp)]
      omega

/-- A request gets on. -/
def GetsOn (s s' : Pool) : Prop :=
  ∃ i p p', s.requests[i]? = some p ∧ ahead p' < ahead p ∧ s'.requests = s.requests.set i p'

theorem getsOn_enter {s : Pool} {i k : ℕ} {state : LoopState}
    (hp : s.requests[i]? = some (.entering k)) : GetsOn s (s.enter i k state) := by
  unfold enter
  split
  · exact ⟨i, _, _, hp, by simp [ahead], rfl⟩
  · exact ⟨i, _, _, hp, by simp [ahead], rfl⟩

theorem getsOn_leave {s : Pool} {i k : ℕ} {state : LoopState} {p : Phase}
    (hp : s.requests[i]? = some p) (hahead : 2 ≤ ahead p) : GetsOn s (s.leave i k state) := by
  unfold leave
  dsimp only
  split
  · exact ⟨i, p, .outside, hp, Nat.lt_of_lt_of_le (by simp [ahead]) hahead, rfl⟩
  · next c _ => exact ⟨i, p, .closing c, hp, Nat.lt_of_lt_of_le (by simp [ahead]) hahead, rfl⟩

/-- **Every step of a request takes it further.** -/
theorem Inv.getsOn {s s' : Pool} {e : PoolEvent} (h : Inv s) (he : e ≠ .start)
    (hs : s.step e = some s') : GetsOn s s' := by
  cases h.stepTo hs with
  | start => exact absurd rfl he
  | resumeEntering hp htaken => exact getsOn_enter hp
  | resumeLeaving hp htaken => exact getsOn_leave hp (by simp [ahead])
  | opened hp => exact ⟨_, _, _, hp, by simp [ahead], rfl⟩
  | openFailed hp => exact ⟨_, _, _, hp, by simp [ahead], rfl⟩
  | @finished i k c hp =>
    simp only [Pool.acquire]
    split
    · exact getsOn_leave hp (by simp [ahead])
    · exact ⟨i, _, .leaving k, hp, by simp [ahead], rfl⟩
  | closed hp => exact ⟨_, _, _, hp, by simp [ahead], rfl⟩

theorem GetsOn.sum_lt {s s' : Pool} (h : GetsOn s s') :
    (s'.requests.map ahead).sum < (s.requests.map ahead).sum := by
  obtain ⟨i, p, p', hp, hlt, hrequests⟩ := h
  rw [hrequests]
  exact sum_map_set_lt hp hlt

/-! ## When no request comes -/

/-- The steps of the requests that have come. -/
abbrev Goes (n : ℕ) (s t : Pool) : Prop := Steps pool (· ≠ .start) n s t

/-- What happens from a state on, when no request comes. -/
structure Ends (s : Pool) : Prop where
  /-- Five steps for each request in progress are enough. -/
  bounded : ∀ n t, Goes n s t → n ≤ 5 * busy s
  /-- Where they stop, all have left. -/
  left : ∀ n t, Goes n s t → (∀ e, e ≠ .start → t.step e = none) → Idle t
  /-- No client is held by then. -/
  closed : ∀ n t, Goes n s t → Idle t → ∀ c < t.opened, t.closes.count c = 1

/-- **Requests leave**, from every state and in whatever order they get on: they come to a stop after
a number of steps, and have left there, with every client closed once. -/
theorem ends_run {s : Pool} (h : Run pool (fun _ _ => True) s) : Ends s where
  bounded n t hgoes := by
    have hlower : ∀ s e s', Run pool (fun _ _ => True) s → e ≠ .start → pool.step s e = some s' →
        (s'.requests.map ahead).sum < (s.requests.map ahead).sum :=
      fun s e s' hrun he hs => ((inv_run hrun).getsOn he hs).sum_lt
    have hsteps := hgoes.add_le (m := fun s => (s.requests.map ahead).sum) hlower h
    have hbusy := sum_ahead_le s.requests
    unfold busy
    omega
  left n t hgoes hstopped := by
    by_contra hbusy
    obtain ⟨e, s', he, hs'⟩ := (inv_run (hgoes.run h)).progress hbusy
    rw [hstopped e he] at hs'
    exact absurd hs' (by simp)
  closed n t hgoes := (inv_run (hgoes.run h)).closedOnce.once

/-- Two requests, of which one waits for the other's client. -/
theorem ends_twoRequests : ∃ s, s.requests = [.opening 0, .entering 0] ∧ Ends s := by
  have hafter : (pool.after (fun _ _ => True) [.start, .start]).map (·.requests) =
      some [.opening 0, .entering 0] := by decide
  obtain ⟨s, hs, hrequests⟩ := Option.map_eq_some_iff.1 hafter
  exact ⟨s, hrequests, ends_run (run_after hs)⟩

end PartCAD.Cache.Pool
