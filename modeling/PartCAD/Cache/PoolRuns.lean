import PartCAD.Cache.Pool

/-!
# One client at a time

A failed `_open()` leaves the entry in the table, and a request may come while others are on a state
that has been taken out of it.  Otherwise all requests are on one state.

* `single_run` : the state that was made last, and somebody on the entry;
* `served_run` : clients are closed once and not in use, one at a time, and no entry is left behind.
-/

namespace PartCAD.Cache.Pool

open PartCAD.Lib

/-! ## One state at a time -/

/-- A request comes when nobody is on a state that has been taken out of the table, and when
`_open()` raises, somebody else waits for it, or the state is not in the table. -/
def orderly (s : Pool) : PoolEvent → Bool
  | .start => s.perLoop.isSome || s.requests.all (! ·.onState)
  | .openFailed i =>
    match s.requests[i]? with
    | some (.opening k) => s.perLoop != some k || ! (s.states k).waiters.isEmpty
    | _ => true
  | _ => true

/-- The requests are on the state that was made last, and so is the entry. -/
structure Newest (s : Pool) : Prop where
  on : ∀ p ∈ s.requests, ∀ k, p.on k = true → k + 1 = s.made
  entry : ∀ k, s.perLoop = some k → k + 1 = s.made

/-- **Some request is on the entry.** -/
structure Single (s : Pool) : Prop where
  newest : Newest s
  entry : ∀ k, s.perLoop = some k → ∃ p ∈ s.requests, p.on k = true

theorem single_init : Single init where
  newest := ⟨by simp [init], by simp [init]⟩
  entry := by simp [init]

theorem Newest.set {s s' : Pool} {i k : ℕ} {p' : Phase} (h : Newest s) (hk : k + 1 = s.made)
    (hrequests : s'.requests = s.requests.set i p') (hmade : s'.made = s.made) (honly : p'.Only k)
    (hentry : ∀ k', s'.perLoop = some k' → s.perLoop = some k') : Newest s' where
  on p hp k' hon := by
    rw [hrequests] at hp
    rw [hmade]
    rcases List.mem_or_eq_of_mem_set hp with hp | rfl
    · exact h.on p hp k' hon
    · rw [honly k' hon]
      exact hk
  entry k' hk' := by
    rw [hmade]
    exact h.entry k' (hentry k' hk')

/-- The request itself is on the entry. -/
theorem Newest.single_set {s s' : Pool} {i k : ℕ} {p' : Phase} (h : Newest s) (hk : k + 1 = s.made)
    (hi : i < s.requests.length) (hrequests : s'.requests = s.requests.set i p')
    (hmade : s'.made = s.made) (honly : p'.Only k) (hentry : s'.perLoop = s.perLoop)
    (hon : p'.on k = true) : Single s' where
  newest := h.set hk hrequests hmade honly fun k' hk' => hentry ▸ hk'
  entry k' hk' := by
    rw [hentry] at hk'
    have hsame := h.entry k' hk'
    obtain rfl : k' = k := by omega
    refine ⟨p', ?_, hon⟩
    rw [hrequests]
    exact List.mem_set hi p'

theorem Newest.single_enter {s : Pool} {i k : ℕ} {state : LoopState} (h : Newest s)
    (hk : k + 1 = s.made) (hi : i < s.requests.length) : Single (s.enter i k state) := by
  unfold Pool.enter
  cases state.client with
  | none =>
    exact h.single_set hk hi rfl rfl (by simp) rfl (by simp [Phase.on])
  | some c =>
    exact h.single_set hk hi rfl rfl (by simp) rfl (by simp [Phase.on])

theorem Newest.single_leave {s : Pool} {i k : ℕ} {state : LoopState} (h : Newest s)
    (hk : k + 1 = s.made) (hinv : Inv (s.leave i k state)) (hclient : state.client ≠ none) :
    Single (s.leave i k state) := by
  obtain ⟨c, hc⟩ := Option.ne_none_iff_exists'.1 hclient
  unfold Pool.leave at hinv ⊢
  by_cases hlast : state.users - 1 = 0
  · simp only [hlast, if_true, hc]
    exact ⟨h.set hk rfl rfl (by simp) (by simp), by simp⟩
  · simp only [hlast, if_false] at hinv ⊢
    refine ⟨h.set hk rfl rfl (by simp) (fun _ => id), fun k' hk' => ?_⟩
    have hsame := h.entry k' hk'
    obtain rfl : k' = k := by omega
    exact hinv.exists_on (by simpa using hlast)

theorem Newest.single_acquire {s : Pool} {i k : ℕ} {waiting : Phase}
    {next : Pool → ℕ → ℕ → LoopState → Pool} (h : Newest s) (hk : k + 1 = s.made)
    (hi : i < s.requests.length) (honly : waiting.Only k) (hon : waiting.on k = true)
    (hnext : (s.states k).locked = false → (s.states k).waiters = [] →
      Single (next s i k (s.states k))) : Single (s.acquire i k next waiting) := by
  unfold Pool.acquire
  by_cases hfree : (s.states k).locked = false ∧ (s.states k).waiters = []
  · simp only [hfree, and_self, if_true]
    exact hnext hfree.1 hfree.2
  · simp only [hfree, if_false]
    exact h.single_set hk hi rfl rfl honly rfl hon

/-- A new request comes to the state that was made last, or makes one when nobody is on another. -/
theorem Single.guard {s : Pool} (h : Single s) (hok : orderly s .start = true) :
    Newest { s.guard.2 with requests := s.guard.2.requests ++ [Phase.outside] } ∧
      s.guard.1 + 1 = s.guard.2.made := by
  have happend : ∀ {t : Pool}, Newest t → Newest { t with requests := t.requests ++ [Phase.outside] } := by
    intro t ht
    refine ⟨fun p hp k hon => ?_, ht.entry⟩
    rcases List.mem_append.1 hp with hp | hp
    · exact ht.on p hp k hon
    · obtain rfl := List.mem_singleton.1 hp
      exact absurd hon (by simp [Phase.on])
  unfold Pool.guard
  cases hentry : s.perLoop with
  | some k => exact ⟨happend h.newest, h.newest.entry k hentry⟩
  | none =>
    have hnobody : ∀ p ∈ s.requests, p.onState = false := by
      simpa [orderly, hentry] using hok
    refine ⟨happend ⟨fun p hp k hon => ?_, fun k hk => ?_⟩, rfl⟩
    · exact absurd (Phase.onState_of_on hon) (by simp [hnobody p hp])
    · obtain rfl := Option.some.inj hk
      rfl

theorem Single.start {s : Pool} (h : Single s) (hok : orderly s .start = true) : Single s.start := by
  obtain ⟨hnewest, hk⟩ := h.guard hok
  have hi : s.guard.2.requests.length < (s.guard.2.requests ++ [Phase.outside]).length := by simp
  exact hnewest.single_acquire hk hi (by simp) (by simp [Phase.on])
    fun _ _ => hnewest.single_enter hk hi

theorem Single.openFailed {s : Pool} {i k : ℕ} (h : Single s) (hok : orderly s (.openFailed i) = true)
    (hp : s.requests[i]? = some (.opening k))
    (hinv : Inv (s.move i .outside k { s.states k with locked := false })) :
    Single (s.move i .outside k { s.states k with locked := false }) := by
  have hk := h.newest.on _ (List.mem_of_getElem? hp) k (by simp [Phase.on])
  refine ⟨h.newest.set hk rfl rfl (by simp) (fun _ => id), fun k' hk' => ?_⟩
  have hsame := h.newest.entry k' hk'
  obtain rfl : k' = k := by omega
  have hentry : s.perLoop = some k' := hk'
  have hwaiters : (s.states k').waiters ≠ [] := by simpa [orderly, hp, hentry] using hok
  obtain ⟨j, hj⟩ := List.exists_mem_of_ne_nil _ hwaiters
  -- who waits is on the state
  obtain ⟨p, hp', hwaits⟩ := ((hinv.states k').waits j).1 (by simpa using hj)
  exact ⟨p, List.mem_of_getElem? hp', Phase.on_of_waits hwaits⟩

theorem Single.closed {s : Pool} {i c : ℕ} (h : Single s) (hp : s.requests[i]? = some (.closing c)) :
    Single { s with requests := s.requests.set i .outside } where
  newest := by
    refine ⟨fun p hp' k hon => ?_, h.newest.entry⟩
    rcases List.mem_or_eq_of_mem_set hp' with hp' | rfl
    · exact h.newest.on p hp' k hon
    · exact absurd hon (by simp [Phase.on])
  entry k hk := by
    obtain ⟨p, hp', hon⟩ := h.entry k hk
    obtain ⟨j, hj⟩ := List.getElem?_of_mem hp'
    refine ⟨p, List.mem_of_getElem? (i := j) ?_, hon⟩
    have hij : i ≠ j := by
      rintro rfl
      rw [hp] at hj
      obtain rfl := Option.some.inj hj
      exact absurd hon (by simp [Phase.on])
    rw [List.getElem?_set_ne hij, hj]

theorem Single.step {s s' : Pool} {e : PoolEvent} (h : Single s) (hinv : Inv s)
    (hok : orderly s e = true) (hs : s.step e = some s') : Single s' := by
  have hinv' := hinv.step hs
  have hnewest : ∀ {i k : ℕ} {p : Phase}, s.requests[i]? = some p → p.on k = true →
      k + 1 = s.made ∧ i < s.requests.length := fun hp hon =>
    ⟨h.newest.on _ (List.mem_of_getElem? hp) _ hon, (List.getElem?_eq_some_iff.1 hp).1⟩
  -- a state with a user has a client
  have hclient : ∀ {i k : ℕ} {p : Phase} {state : LoopState}, s.requests[i]? = some p →
      p.counted k = true → state.client = (s.states k).client → state.client ≠ none := by
    intro i k p state hp hcounted hsame hnone
    have hpos := users_pos (hinv.states k) hp hcounted
    have hzero := (hinv.states k).client.1 (hsame ▸ hnone)
    omega
  cases hinv.stepTo hs with
  | start => exact h.start hok
  | @resumeEntering i k state hp htaken =>
    obtain ⟨hk, hi⟩ := hnewest (k := k) hp (by simp [Phase.on])
    exact h.newest.single_enter hk hi
  | @resumeLeaving i k state hp htaken =>
    obtain ⟨hk, hi⟩ := hnewest (k := k) hp (by simp [Phase.on])
    exact h.newest.single_leave hk hinv' (hclient hp (by simp [Phase.counted]) htaken.client)
  | @opened i k hp =>
    obtain ⟨hk, hi⟩ := hnewest (k := k) hp (by simp [Phase.on])
    exact h.newest.single_set hk hi rfl rfl (by simp) rfl (by simp [Phase.on])
  | openFailed hp => exact h.openFailed hok hp hinv'
  | @finished i k c hp =>
    obtain ⟨hk, hi⟩ := hnewest (k := k) hp (by simp [Phase.on])
    refine h.newest.single_acquire hk hi (by simp) (by simp [Phase.on])
      fun hlocked hwaiters => ?_
    have hleave : Inv (s.leave i k (s.states k)) := by
      simpa [Pool.acquire, hlocked, hwaiters] using hinv'
    exact h.newest.single_leave hk hleave (hclient hp (by simp [Phase.counted]) rfl)
  | closed hp => exact h.closed hp

theorem single_run {s : Pool} (h : Run pool (fun s e => orderly s e = true) s) : Inv s ∧ Single s :=
  h.invariant (P := fun s => Inv s ∧ Single s) ⟨inv_init, single_init⟩
    fun _ _ _ hinv hok hs => ⟨hinv.1.step hs, hinv.2.step hinv.1 hok hs⟩

/-! ## The clients -/

/-- `_close` has not been called. -/
def Unclosed (s : Pool) (c : ℕ) : Prop := c < s.opened ∧ c ∉ s.closes

/-- `_close` has not come back. -/
def Open (s : Pool) (c : ℕ) : Prop := c < s.opened ∧ (c ∈ s.closes → Phase.closing c ∈ s.requests)

/-- Every client that is opened is closed once, and not while a request is using it. -/
structure ClosedOnce (s : Pool) : Prop where
  atMostOnce : ∀ c, s.closes.count c ≤ 1
  once : Idle s → ∀ c < s.opened, s.closes.count c = 1
  notInUse : ∀ k c, Phase.connected k c ∈ s.requests → c ∉ s.closes

/-- One client is open at a time, and nothing is left behind when no request is in progress. -/
structure Served (isOpen : Pool → ℕ → Prop) (s : Pool) : Prop extends ClosedOnce s where
  oneOpen : ∀ c c', isOpen s c → isOpen s c' → c = c'
  noEntry : Idle s → s.perLoop = none

/-- When a client has been opened, no other is still being closed. -/
def spaced (s : Pool) : PoolEvent → Bool
  | .opened _ => s.requests.all fun p => match p with | .closing _ => false | _ => true
  | _ => true

/-- A client that has not been closed is on a state with requests. -/
theorem Inv.exists_client {s : Pool} (h : Inv s) {c : ℕ} (hc : Unclosed s c) :
    ∃ k, (s.states k).client = some c ∧ ∃ p ∈ s.requests, p.on k = true := by
  rcases h.kept c hc.1 with hclosed | ⟨k, hk⟩
  · exact absurd hclosed hc.2
  · refine ⟨k, hk, h.exists_on fun hzero => ?_⟩
    rw [(h.states k).client.2 hzero] at hk
    exact absurd hk (by simp)

theorem not_idle {s : Pool} {k : ℕ} (h : ∃ p ∈ s.requests, p.on k = true) : ¬ Idle s := by
  obtain ⟨p, hp, hon⟩ := h
  intro hidle
  rw [hidle p hp] at hon
  exact absurd hon (by simp [Phase.on])

theorem Single.unclosed {s : Pool} (h : Single s) (hinv : Inv s) {c c' : ℕ} (hc : Unclosed s c)
    (hc' : Unclosed s c') : c = c' := by
  obtain ⟨k, hk, p, hp, hon⟩ := hinv.exists_client hc
  obtain ⟨k', hk', p', hp', hon'⟩ := hinv.exists_client hc'
  have hsame := h.newest.on p hp k hon
  have hsame' := h.newest.on p' hp' k' hon'
  obtain rfl : k = k' := by omega
  rw [hk] at hk'
  exact Option.some.inj hk'

theorem Inv.closedOnce {s : Pool} (h : Inv s) : ClosedOnce s where
  atMostOnce := List.nodup_iff_count_le_one.1 h.nodup
  once hidle c hc := by
    apply List.count_eq_one_of_mem h.nodup
    by_contra hnot
    obtain ⟨k, -, hk⟩ := h.exists_client ⟨hc, hnot⟩
    exact not_idle hk hidle
  notInUse k c hc := (h.fresh k c ((h.states k).held c hc)).2

/-- What there is to show is that one client is open at a time. -/
theorem Single.served {isOpen : Pool → ℕ → Prop} {s : Pool} (h : Single s) (hinv : Inv s)
    (hopen : ∀ c c', isOpen s c → isOpen s c' → c = c') : Served isOpen s where
  toClosedOnce := hinv.closedOnce
  oneOpen := hopen
  noEntry hidle := by
    cases hentry : s.perLoop with
    | none => rfl
    | some k => exact absurd hidle (not_idle (h.entry k hentry))

/-- A step that closes no client opens none but its own. -/
theorem Open.of_closing {s s' : Pool} {c : ℕ} (h : Open s' c) (hopened : s'.opened = s.opened)
    (hcloses : s'.closes = s.closes)
    (hclosing : Phase.closing c ∈ s'.requests → Phase.closing c ∈ s.requests) : Open s c := by
  refine ⟨hopened ▸ h.1, fun hmem => hclosing (h.2 ?_)⟩
  rw [hcloses]
  exact hmem

theorem closing_of_set {requests : List Phase} {i c : ℕ} {p : Phase} (hp : p ≠ .closing c)
    (h : Phase.closing c ∈ requests.set i p) : Phase.closing c ∈ requests := by
  rcases List.mem_or_eq_of_mem_set h with h | h
  · exact h
  · exact absurd h.symm hp

theorem Open.of_move {s : Pool} {i k c : ℕ} {p : Phase} {state : LoopState}
    (h : Open (s.move i p k state) c) (hp : p ≠ .closing c) : Open s c :=
  h.of_closing rfl rfl (closing_of_set hp)

theorem Open.of_enter {s : Pool} {i k c : ℕ} {state : LoopState}
    (h : Open (s.enter i k state) c) : Open s c := by
  unfold Pool.enter at h
  split at h
  · exact h.of_move (by simp)
  · exact h.of_move (by simp)

/-- A client that is given to `_close` was open. -/
theorem Open.of_leave {s : Pool} {i k c : ℕ} {state : LoopState}
    (h : Open (s.leave i k state) c) (hinv : Inv s)
    (hclient : state.client = (s.states k).client) : Open s c := by
  unfold Pool.leave at h
  simp only at h
  split at h
  · exact h.of_move (by simp)
  · next c' hc' =>
    have hstate : (s.states k).client = some c' := by
      rw [← hclient]
      exact (Option.ite_none_right_eq_some.1 hc').2
    obtain ⟨hlt, hnot⟩ := hinv.fresh k c' hstate
    by_cases hcc : c = c'
    · subst hcc
      exact ⟨hlt, fun hmem => absurd hmem hnot⟩
    · refine ⟨h.1, fun hmem => ?_⟩
      exact closing_of_set (by simpa using Ne.symm hcc) (h.2 (List.mem_append_left _ hmem))

theorem Open.of_acquire {s : Pool} {i k c : ℕ} {waiting : Phase}
    {next : Pool → ℕ → ℕ → LoopState → Pool} (h : Open (s.acquire i k next waiting) c)
    (hwaiting : waiting ≠ .closing c) (hnext : Open (next s i k (s.states k)) c → Open s c) :
    Open s c := by
  unfold Pool.acquire at h
  simp only at h
  split at h
  · exact hnext h
  · exact h.of_move hwaiting

theorem Open.of_guard {s : Pool} {c : ℕ}
    (h : Open { s.guard.2 with requests := s.guard.2.requests ++ [Phase.outside] } c) : Open s c := by
  unfold Pool.guard at h
  split at h
  · exact h.of_closing rfl rfl (by simp)
  · exact h.of_closing rfl rfl (by simp)

/-- **One client at a time**, with those that are being closed. -/
theorem open_step {s s' : Pool} {e : PoolEvent} (h : ∀ c c', Open s c → Open s c' → c = c')
    (hinv : Inv s) (hsingle : Single s') (hspaced : spaced s e = true) (hs : s.step e = some s') :
    ∀ c c', Open s' c → Open s' c' → c = c' := by
  have hinv' := hinv.step hs
  cases hinv.stepTo hs with
  | start =>
    intro c c' hc hc'
    apply h c c' (hc.of_acquire (by simp) Open.of_enter).of_guard
    exact (hc'.of_acquire (by simp) Open.of_enter).of_guard
  | resumeEntering hp htaken => exact fun c c' hc hc' => h c c' hc.of_enter hc'.of_enter
  | resumeLeaving hp htaken =>
    exact fun c c' hc hc' => h c c' (hc.of_leave hinv htaken.client) (hc'.of_leave hinv htaken.client)
  | @opened i k hp =>
    -- none is being closed, so all that are open have not been given to `_close`
    have hnone : ∀ c, Phase.closing c ∉ s.requests := by
      intro c hc
      exact absurd (List.all_eq_true.1 hspaced _ hc) (by simp)
    intro c c' hc hc'
    refine hsingle.unclosed hinv' ⟨hc.1, fun hmem => ?_⟩ ⟨hc'.1, fun hmem => ?_⟩
    · exact hnone c (closing_of_set (by simp) (hc.2 hmem))
    · exact hnone c' (closing_of_set (by simp) (hc'.2 hmem))
  | openFailed hp => exact fun c c' hc hc' => h c c' (hc.of_move (by simp)) (hc'.of_move (by simp))
  | finished hp =>
    intro c c' hc hc'
    apply h c c' (hc.of_acquire (by simp) fun hnext => hnext.of_leave hinv rfl)
    exact hc'.of_acquire (by simp) fun hnext => hnext.of_leave hinv rfl
  | closed hp =>
    intro c c' hc hc'
    apply h c c' (hc.of_closing rfl rfl (closing_of_set (by simp)))
    exact hc'.of_closing rfl rfl (closing_of_set (by simp))

/-- **Requests are served.**  Clients are closed once in every run.  When no `_open()` fails with
nobody waiting for it, and no request comes while others are on a state that has been taken out of
the table, one client at a time has not been given to `_close`, and no entry is left behind; when
also no client is opened while another is being closed, one client is open at a time. -/
theorem served_run {s : Pool} :
    (Run pool (fun _ _ => True) s → ClosedOnce s) ∧
      (Run pool (fun s e => orderly s e = true) s → Served Unclosed s) ∧
      (Run pool (fun s e => orderly s e = true ∧ spaced s e = true) s → Served Open s) := by
  refine ⟨fun h => (inv_run h).closedOnce, fun h => ?_, fun h => ?_⟩
  · obtain ⟨hinv, hsingle⟩ := single_run h
    exact hsingle.served hinv fun c c' => hsingle.unclosed hinv
  · have hopen : (Inv s ∧ Single s) ∧ ∀ c c', Open s c → Open s c' → c = c' := by
      refine h.invariant (P := fun s => (Inv s ∧ Single s) ∧ ∀ c c', Open s c → Open s c' → c = c')
        ⟨⟨inv_init, single_init⟩, ?_⟩ ?_
      · intro c c' hc
        exact absurd hc.1 (Nat.not_lt_zero c)
      · intro s e s' ⟨⟨hinv, hsingle⟩, hopen⟩ hok hs
        have hsingle' := hsingle.step hinv hok.1 hs
        exact ⟨⟨hinv.step hs, hsingle'⟩, open_step hopen hinv hsingle' hok.2 hs⟩
    exact hopen.1.2.served hopen.1.1 hopen.2

/-- Two requests share a client. -/
theorem served_twoRequests : ∃ s, s.opened = 1 ∧ s.closes = [0] ∧ Served Open s := by
  have hafter : (pool.after (fun s e => orderly s e = true ∧ spaced s e = true)
      [.start, .start, .opened 0, .resume 0, .finished 0, .finished 1, .closed 1]).map
      (fun s => (s.opened, s.closes)) = some (1, [0]) := by decide
  obtain ⟨s, hs, hseen⟩ := Option.map_eq_some_iff.1 hafter
  obtain ⟨hopened, hcloses⟩ := Prod.mk.inj hseen
  exact ⟨s, hopened, hcloses, served_run.2.2 (run_after hs)⟩

/-- `_open()` fails, and the entry stays. -/
theorem not_served_openFailed :
    ∃ s, Run pool (fun _ _ => True) s ∧ ∀ isOpen, ¬ Served isOpen s := by
  have hafter : (pool.after (fun _ _ => True) [.start, .openFailed 0]).map
      (fun s => (s.requests, s.perLoop)) = some ([.outside], some 0) := by decide
  obtain ⟨s, hs, hseen⟩ := Option.map_eq_some_iff.1 hafter
  obtain ⟨hrequests, hentry⟩ := Prod.mk.inj hseen
  refine ⟨s, run_after hs, fun isOpen h => ?_⟩
  have hidle : Idle s := by
    intro p hp
    rw [hrequests] at hp
    exact List.mem_singleton.1 hp
  rw [h.noEntry hidle] at hentry
  exact absurd hentry (by simp)

/-- A request waits behind the last user of a client, and another one comes after it. -/
theorem not_served_staleState :
    ∃ s, Run pool (fun _ _ => True) s ∧ ¬ Served Unclosed s := by
  have hafter : (pool.after (fun _ _ => True)
      [.start, .start, .opened 0, .finished 0, .resume 0, .finished 1, .resume 0, .start, .resume 0,
        .resume 0, .start, .opened 2, .opened 3]).map
      (fun s => (s.opened, s.closes)) = some (3, [0]) := by decide
  obtain ⟨s, hs, hseen⟩ := Option.map_eq_some_iff.1 hafter
  obtain ⟨hopened, hcloses⟩ := Prod.mk.inj hseen
  refine ⟨s, run_after hs, fun h => ?_⟩
  have hunclosed : ∀ c, 0 < c → c < 3 → Unclosed s c := by
    intro c hpos hc
    refine ⟨by rw [hopened]; exact hc, ?_⟩
    rw [hcloses, List.mem_singleton]
    omega
  have hsame := h.oneOpen 1 2 (hunclosed 1 (by omega) (by omega)) (hunclosed 2 (by omega) (by omega))
  omega

end PartCAD.Cache.Pool
