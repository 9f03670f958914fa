import Mathlib.Data.List.Nodup
import Mathlib.Logic.Function.Basic
import PartCAD.Lib.Run

/-!
# The client of a tier on one event loop

Requests share a client, which is opened for the first and closed after the last.  A request runs
from one pause to the next: it pauses for the lock of the loop's state, for `_open`, for what it
does with the client, and for `_close`.

* `Inv`, `inv_run` : what holds of states and clients after every run, whatever happens in it;
* `Inv.stepTo` : what a step can do;
* `Inv.progress` : nobody is stuck.
-/

namespace PartCAD.Cache

open PartCAD.Lib

/-! ## The backend -/

/-- `{"lock", "client", "users"}`; clients and requests are numbered. -/
structure LoopState where
  locked : Bool
  waiters : List ℕ
  client : Option ℕ
  users : ℕ

def LoopState.new : LoopState := ⟨false, [], none, 0⟩

/-- Where a request is.  A state is given by its number. -/
inductive Phase where
  /-- It has not come to `connected()`, or has left it. -/
  | outside
  /-- It waits for the lock, to enter. -/
  | entering (k : ℕ)
  /-- It has the lock, and waits for `_open()`. -/
  | opening (k : ℕ)
  | connected (k c : ℕ)
  /-- It waits for the lock, to leave. -/
  | leaving (k : ℕ)
  /-- It waits for `_close(client)`. -/
  | closing (c : ℕ)
  deriving DecidableEq

namespace Phase

/-- The request is on the state. -/
def on (k : ℕ) : Phase → Bool
  | entering k' | opening k' | connected k' _ | leaving k' => k' = k
  | outside | closing _ => false

/-- The request is on some state. -/
def onState : Phase → Bool
  | entering _ | opening _ | connected _ _ | leaving _ => true
  | outside | closing _ => false

theorem onState_of_on {k : ℕ} {p : Phase} (h : p.on k = true) : p.onState = true := by
  cases p with
  | outside => exact h
  | closing c => exact h
  | _ => rfl

/-- The request counts as a user of the state. -/
def counted (k : ℕ) : Phase → Bool
  | connected k' _ | leaving k' => k' = k
  | _ => false

def opens (k : ℕ) : Phase → Bool
  | opening k' => k' = k
  | _ => false

def waits (k : ℕ) : Phase → Bool
  | entering k' | leaving k' => k' = k
  | _ => false

/-- The request is on no other state. -/
def Only (k : ℕ) (p : Phase) : Prop := ∀ k', p.on k' = true → k' = k

@[simp]
theorem only_outside (k : ℕ) : outside.Only k := fun _ h => absurd h (by simp [on])

@[simp]
theorem only_closing (k c : ℕ) : (closing c).Only k := fun _ h => absurd h (by simp [on])

@[simp]
theorem only_entering (k : ℕ) : (entering k).Only k := fun _ h => (of_decide_eq_true h).symm

@[simp]
theorem only_opening (k : ℕ) : (opening k).Only k := fun _ h => (of_decide_eq_true h).symm

@[simp]
theorem only_connected (k c : ℕ) : (connected k c).Only k := fun _ h => (of_decide_eq_true h).symm

@[simp]
theorem only_leaving (k : ℕ) : (leaving k).Only k := fun _ h => (of_decide_eq_true h).symm

theorem on_of_counted {k : ℕ} {p : Phase} (h : p.counted k = true) : p.on k = true := by
  cases p with
  | connected k' c => exact h
  | leaving k' => exact h
  | _ => exact absurd h (by simp [counted])

theorem on_of_opens {k : ℕ} {p : Phase} (h : p.opens k = true) : p.on k = true := by
  cases p with
  | opening k' => exact h
  | _ => exact absurd h (by simp [opens])

theorem on_of_waits {k : ℕ} {p : Phase} (h : p.waits k = true) : p.on k = true := by
  cases p with
  | entering k' => exact h
  | leaving k' => exact h
  | _ => exact absurd h (by simp [waits])

theorem Only.on_eq_false {k k' : ℕ} {p : Phase} (h : p.Only k) (hk : k' ≠ k) : p.on k' = false := by
  cases hon : p.on k' with
  | false => rfl
  | true => exact absurd (h k' hon) hk

end Phase

/-- The backend on one loop: the entry of the loop in `_per_loop`, the states made so far, and the
requests.  Clients are opened one number after the other; `closes` are the calls of `_close`. -/
structure Pool where
  perLoop : Option ℕ
  states : ℕ → LoopState
  made : ℕ
  requests : List Phase
  opened : ℕ
  closes : List ℕ

namespace Pool

def init : Pool := ⟨none, fun _ => LoopState.new, 0, [], 0, []⟩

/-- A request gets on, and changes the state it is on. -/
def move (s : Pool) (i : ℕ) (phase : Phase) (k : ℕ) (state : LoopState) : Pool :=
  { s with
    requests := s.requests.set i phase
    states := Function.update s.states k state }

/-- `_guard` -/
def guard (s : Pool) : ℕ × Pool :=
  match s.perLoop with
  | some k => (k, s)
  | none =>
    (s.made,
      { s with
        perLoop := some s.made
        states := Function.update s.states s.made LoopState.new
        made := s.made + 1 })

/-- The first `async with lock`, from the lock to the next pause. -/
def enter (s : Pool) (i k : ℕ) (state : LoopState) : Pool :=
  match state.client with
  | none => s.move i (.opening k) k { state with locked := true }
  | some c => s.move i (.connected k c) k { state with locked := false, users := state.users + 1 }

/-- The second `async with lock`, from the lock to the next pause. -/
def leave (s : Pool) (i k : ℕ) (state : LoopState) : Pool :=
  let users := state.users - 1
  match if users = 0 then state.client else none with
  | none => s.move i .outside k { state with locked := false, users := users }
  | some c =>
    { s.move i (.closing c) k { state with locked := false, users := users, client := none } with
      perLoop := none
      closes := s.closes ++ [c] }

/-- `lock.acquire()`: a lock that is free is taken at once, unless somebody waits for it. -/
def acquire (s : Pool) (i k : ℕ) (next : Pool → ℕ → ℕ → LoopState → Pool) (waiting : Phase) : Pool :=
  let state := s.states k
  if state.locked = false ∧ state.waiters = [] then next s i k state
  else s.move i waiting k { state with waiters := state.waiters ++ [i] }

/-- A new request, from `_guard` to the next pause. -/
def start (s : Pool) : Pool :=
  let (k, s) := s.guard
  let i := s.requests.length
  { s with requests := s.requests ++ [Phase.outside] }.acquire i k enter (.entering k)

/-- The client that `_open()` returns, and the rest of the first `async with lock`. -/
def hold (s : Pool) (i k : ℕ) : Pool :=
  let state := s.states k
  let c := s.opened
  let state := { state with locked := false, client := some c, users := state.users + 1 }
  { s.move i (.connected k c) k state with opened := s.opened + 1 }

end Pool

inductive PoolEvent where
  /-- A new request comes to `connected()`. -/
  | start
  /-- The first that waits for a lock gets it. -/
  | resume (k : ℕ)
  /-- `_open()` returns. -/
  | opened (i : ℕ)
  /-- `_open()` raises. -/
  | openFailed (i : ℕ)
  /-- The request is done with the client. -/
  | finished (i : ℕ)
  /-- `_close(client)` returns or raises. -/
  | closed (i : ℕ)

namespace Pool

def step (s : Pool) : PoolEvent → Option Pool
  | .start => some s.start
  | .resume k =>
    let state := s.states k
    match state.locked, state.waiters with
    | false, i :: waiters =>
      match s.requests[i]? with
      | some (.entering _) => some (s.enter i k { state with waiters := waiters })
      | some (.leaving _) => some (s.leave i k { state with waiters := waiters })
      | _ => none
    | _, _ => none
  | .opened i =>
    match s.requests[i]? with
    | some (.opening k) => some (s.hold i k)
    | _ => none
  | .openFailed i =>
    match s.requests[i]? with
    | some (.opening k) => some (s.move i .outside k { s.states k with locked := false })
    | _ => none
  | .finished i =>
    match s.requests[i]? with
    | some (.connected k _) => some (s.acquire i k leave (.leaving k))
    | _ => none
  | .closed i =>
    match s.requests[i]? with
    | some (.closing _) => some { s with requests := s.requests.set i .outside }
    | _ => none

end Pool

def pool : System Pool PoolEvent := ⟨Pool.init, Pool.step⟩

namespace Pool

@[simp]
theorem states_move_self {s : Pool} {i k : ℕ} {p : Phase} {state : LoopState} :
    (s.move i p k state).states k = state := by
  simp [move]

theorem states_move_of_ne {s : Pool} {i k k' : ℕ} {p : Phase} {state : LoopState} (h : k' ≠ k) :
    (s.move i p k state).states k' = s.states k' := by
  simp [move, Function.update_of_ne h]

/-! ## Requests and states -/

/-- What a state says of the requests that are on it. -/
structure StateInv (state : LoopState) (requests : List Phase) (k : ℕ) : Prop where
  users : state.users = requests.countP (·.counted k)
  opens : state.locked.toNat = requests.countP (·.opens k)
  nodup : state.waiters.Nodup
  waits : ∀ i, i ∈ state.waiters ↔ ∃ p, requests[i]? = some p ∧ p.waits k = true
  client : state.client = none ↔ state.users = 0
  free : state.locked = true → state.client = none
  held : ∀ c, Phase.connected k c ∈ requests → state.client = some c

/-- A request gets on, and the state follows it. -/
theorem StateInv.set {state state' : LoopState} {requests : List Phase} {k i : ℕ} {p p' : Phase}
    (h : StateInv state requests k) (hp : requests[i]? = some p)
    (husers : state'.users + (p.counted k).toNat = state.users + (p'.counted k).toNat)
    (hopens : state'.locked.toNat + (p.opens k).toNat = state.locked.toNat + (p'.opens k).toNat)
    (hnodup : state'.waiters.Nodup)
    (hwaits : ∀ j, j ∈ state'.waiters ↔ if j = i then p'.waits k = true else j ∈ state.waiters)
    (hclient : state'.client = none ↔ state'.users = 0)
    (hfree : state'.locked = true → state'.client = none)
    (hkept : state'.users = 0 ∨ state.client = none ∨ state'.client = state.client)
    (hheld : ∀ c, p' = .connected k c → state'.client = some c) :
    StateInv state' (requests.set i p') k := by
  have hcount : state'.users = (requests.set i p').countP (·.counted k) := by
    have hset := countP_set (·.counted k) hp p'
    have husers' := h.users
    omega
  have hi : i < requests.length := (List.getElem?_eq_some_iff.1 hp).1
  refine ⟨hcount, ?_, hnodup, ?_, hclient, hfree, ?_⟩
  · have hset := countP_set (·.opens k) hp p'
    have hopens' := h.opens
    omega
  · intro j
    rw [hwaits]
    by_cases hj : j = i
    · subst hj
      simp [hi]
    · rw [if_neg hj, h.waits, List.getElem?_set_ne (Ne.symm hj)]
  · intro c hc
    rcases List.mem_or_eq_of_mem_set hc with hc' | hc'
    · have hclient' := h.held c hc'
      rcases hkept with hzero | hnone | hsame
      · -- the request is a user
        have hpos : 0 < (requests.set i p').countP (·.counted k) :=
          List.countP_pos_iff.2 ⟨_, hc, by simp [Phase.counted]⟩
        omega
      · rw [hnone] at hclient'
        exact absurd hclient' (by simp)
      · rw [hsame, hclient']
    · exact hheld c hc'.symm

/-- A state that the request is not on stays as it is. -/
theorem StateInv.other {state : LoopState} {requests : List Phase} {k i : ℕ} {p p' : Phase}
    (h : StateInv state requests k) (hp : requests[i]? = some p) (hon : p.on k = false)
    (hon' : p'.on k = false) : StateInv state (requests.set i p') k := by
  have hquiet : ∀ q : Phase, q.on k = false →
      q.counted k = false ∧ q.opens k = false ∧ q.waits k = false := by
    intro q hq
    refine ⟨?_, ?_, ?_⟩
    · exact Bool.eq_false_iff.2 fun h => absurd (Phase.on_of_counted h) (by simp [hq])
    · exact Bool.eq_false_iff.2 fun h => absurd (Phase.on_of_opens h) (by simp [hq])
    · exact Bool.eq_false_iff.2 fun h => absurd (Phase.on_of_waits h) (by simp [hq])
  obtain ⟨hcounted, hopens, hwaits⟩ := hquiet p hon
  obtain ⟨hcounted', hopens', hwaits'⟩ := hquiet p' hon'
  refine h.set hp ?_ ?_ h.nodup ?_ h.client h.free (Or.inr (Or.inr rfl)) ?_
  · rw [hcounted, hcounted']
  · rw [hopens, hopens']
  · intro j
    by_cases hj : j = i
    · subst hj
      rw [if_pos rfl, hwaits', h.waits]
      simp [hp, hwaits]
    · rw [if_neg hj]
  · rintro c rfl
    exact absurd hon' (by simp [Phase.on])

/-! ## What always holds -/

/-- What holds of the states and of the clients, whatever happens. -/
structure Inv (s : Pool) : Prop where
  states : ∀ k, StateInv (s.states k) s.requests k
  made : ∀ p ∈ s.requests, ∀ k, p.on k = true → k < s.made
  entry : ∀ k, s.perLoop = some k → k < s.made
  /-- The client of a state is not closed. -/
  fresh : ∀ k c, (s.states k).client = some c → c < s.opened ∧ c ∉ s.closes
  distinct : ∀ k k' c, (s.states k).client = some c → (s.states k').client = some c → k = k'
  nodup : s.closes.Nodup
  known : ∀ c ∈ s.closes, c < s.opened
  kept : ∀ c < s.opened, c ∈ s.closes ∨ ∃ k, (s.states k).client = some c

theorem inv_init : Inv init where
  states k := by
    refine ⟨rfl, rfl, List.nodup_nil, ?_, by simp [init, LoopState.new], ?_, ?_⟩
    · simp [init, LoopState.new]
    · intro h
      exact absurd h (by simp [init, LoopState.new])
    · intro c hc
      exact absurd hc (by simp [init])
  made := by simp [init]
  entry := by simp [init]
  fresh := by simp [init, LoopState.new]
  distinct := by simp [init, LoopState.new]
  nodup := List.nodup_nil
  known := by simp [init]
  kept := by simp [init]

/-- What holds of states and requests after a request has got on. -/
theorem Inv.states_move {s : Pool} {i k : ℕ} {p p' : Phase} {state : LoopState} (h : Inv s)
    (hp : s.requests[i]? = some p) (honly : Phase.Only k p) (honly' : Phase.Only k p')
    (hstate : StateInv state (s.requests.set i p') k) (k' : ℕ) :
    StateInv ((s.move i p' k state).states k') (s.move i p' k state).requests k' := by
  by_cases hk : k' = k
  · subst hk
    rw [states_move_self]
    exact hstate
  · have hother := (h.states k').other hp (honly.on_eq_false hk) (honly'.on_eq_false hk)
    rw [states_move_of_ne hk]
    exact hother

theorem Inv.made_set {s : Pool} {i k : ℕ} {p' : Phase} (h : Inv s) (honly' : Phase.Only k p')
    (hk : k < s.made) : ∀ q ∈ s.requests.set i p', ∀ k', q.on k' = true → k' < s.made := by
  intro q hq k' hon
  rcases List.mem_or_eq_of_mem_set hq with hq | rfl
  · exact h.made q hq k' hon
  · rw [honly' k' hon]
    exact hk

/-- **A request gets on** without opening or closing. -/
theorem Inv.move {s : Pool} {i k : ℕ} {p p' : Phase} {state : LoopState} (h : Inv s)
    (hp : s.requests[i]? = some p) (honly : Phase.Only k p) (honly' : Phase.Only k p')
    (hstate : StateInv state (s.requests.set i p') k) (hk : k < s.made)
    (hclient : state.client = (s.states k).client) : Inv (s.move i p' k state) := by
  have hclients : ∀ k', ((s.move i p' k state).states k').client = (s.states k').client := by
    intro k'
    by_cases hk' : k' = k
    · subst hk'
      rw [states_move_self]
      exact hclient
    · rw [states_move_of_ne hk']
  refine ⟨h.states_move hp honly honly' hstate, h.made_set honly' hk, h.entry, ?_, ?_, h.nodup,
    h.known, ?_⟩
  · intro k' c hc
    rw [hclients] at hc
    exact h.fresh k' c hc
  · intro k' k'' c hc hc'
    rw [hclients] at hc hc'
    exact h.distinct k' k'' c hc hc'
  · intro c hc
    rcases h.kept c hc with hclosed | ⟨k', hk'⟩
    · exact Or.inl hclosed
    · refine Or.inr ⟨k', ?_⟩
      rw [hclients]
      exact hk'

/-- The lock is there to take, and the request is not in the queue any more. -/
structure Taken (s : Pool) (i k : ℕ) (state : LoopState) : Prop where
  unlocked : (s.states k).locked = false
  users : state.users = (s.states k).users
  client : state.client = (s.states k).client
  nodup : state.waiters.Nodup
  waits : ∀ j, j ∈ state.waiters ↔ j ≠ i ∧ j ∈ (s.states k).waiters

theorem Taken.waits_set {s : Pool} {i k : ℕ} {state : LoopState} (h : Taken s i k state) (j : ℕ) :
    j ∈ state.waiters ↔ if j = i then false = true else j ∈ (s.states k).waiters := by
  rw [h.waits]
  by_cases hj : j = i
  · simp [hj]
  · simp [hj]

theorem Inv.enter {s : Pool} {i k : ℕ} {p : Phase} {state : LoopState} (h : Inv s)
    (hp : s.requests[i]? = some p) (honly : Phase.Only k p) (hcounted : p.counted k = false)
    (hopens : p.opens k = false) (hk : k < s.made) (htaken : Taken s i k state) :
    Inv (s.enter i k state) := by
  have hk' := h.states k
  unfold Pool.enter
  cases hclient : state.client with
  | none =>
    have hnone : (s.states k).client = none := by rw [← htaken.client, hclient]
    refine h.move hp honly (by simp) ?_ hk hnone.symm
    refine hk'.set hp ?_ ?_ htaken.nodup htaken.waits_set ?_ (fun _ => rfl) (Or.inr (Or.inl hnone)) ?_
    · rw [hcounted, htaken.users]
      rfl
    · rw [hopens, htaken.unlocked]
      simp [Phase.opens]
    · have hzero : state.users = 0 := by rw [htaken.users, ← hk'.client, hnone]
      simp [hzero]
    · simp
  | some c =>
    have hsome : (s.states k).client = some c := by rw [← htaken.client, hclient]
    refine h.move hp honly (by simp) ?_ hk hsome.symm
    refine hk'.set hp ?_ ?_ htaken.nodup htaken.waits_set ?_ ?_ (Or.inr (Or.inr hsome.symm)) ?_
    · rw [hcounted, htaken.users]
      simp [Phase.counted]
    · rw [hopens, htaken.unlocked]
      rfl
    · simp
    · simp
    · intro c' hc'
      obtain ⟨-, rfl⟩ := Phase.connected.inj hc'
      rfl

theorem users_pos {state : LoopState} {requests : List Phase} {k i : ℕ} {p : Phase}
    (h : StateInv state requests k) (hp : requests[i]? = some p) (hcounted : p.counted k = true) :
    0 < state.users := by
  rw [h.users]
  exact List.countP_pos_iff.2 ⟨p, List.mem_of_getElem? hp, hcounted⟩

/-- The entry goes, and the client is given to `_close`. -/
theorem Inv.close {s : Pool} {i k c : ℕ} {p : Phase} {state : LoopState} (h : Inv s)
    (hp : s.requests[i]? = some p) (honly : Phase.Only k p) (hk : k < s.made)
    (hc : (s.states k).client = some c) (hnone : state.client = none)
    (hstate : StateInv state (s.requests.set i (.closing c)) k) :
    Inv { s.move i (.closing c) k state with perLoop := none, closes := s.closes ++ [c] } := by
  have hclients : ∀ k' c', ((s.move i (.closing c) k state).states k').client = some c' →
      k' ≠ k ∧ (s.states k').client = some c' := by
    intro k' c' hc'
    by_cases hkk : k' = k
    · subst hkk
      rw [states_move_self, hnone] at hc'
      exact absurd hc' (by simp)
    · rw [states_move_of_ne hkk] at hc'
      exact ⟨hkk, hc'⟩
  refine ⟨h.states_move hp honly (by simp) hstate, h.made_set (by simp) hk, by simp, ?_, ?_, ?_, ?_, ?_⟩
  · intro k' c' hc'
    obtain ⟨hkk, hold⟩ := hclients k' c' hc'
    obtain ⟨hlt, hnot⟩ := h.fresh k' c' hold
    refine ⟨hlt, fun hmem => ?_⟩
    rcases List.mem_append.1 hmem with hmem | hmem
    · exact hnot hmem
    · obtain rfl := List.mem_singleton.1 hmem
      exact hkk (h.distinct k' k c' hold hc)
  · intro k' k'' c' hc' hc''
    exact h.distinct k' k'' c' (hclients k' c' hc').2 (hclients k'' c' hc'').2
  · simpa using h.nodup.concat (h.fresh k c hc).2
  · intro c' hc'
    rcases List.mem_append.1 hc' with hc' | hc'
    · exact h.known c' hc'
    · obtain rfl := List.mem_singleton.1 hc'
      exact (h.fresh k c' hc).1
  · intro c' hc'
    rcases h.kept c' hc' with hclosed | ⟨k', hk'⟩
    · exact Or.inl (List.mem_append_left _ hclosed)
    · by_cases hkk : k' = k
      · subst hkk
        rw [hc] at hk'
        obtain rfl := Option.some.inj hk'
        exact Or.inl (List.mem_append_right _ (List.mem_singleton_self c))
      · have hsame : (s.move i (.closing c) k state).states k' = s.states k' := states_move_of_ne hkk
        exact Or.inr ⟨k', (congrArg LoopState.client hsame).trans hk'⟩

theorem Inv.leave {s : Pool} {i k : ℕ} {p : Phase} {state : LoopState} (h : Inv s)
    (hp : s.requests[i]? = some p) (honly : Phase.Only k p) (hcounted : p.counted k = true)
    (hopens : p.opens k = false) (hk : k < s.made) (htaken : Taken s i k state) :
    Inv (s.leave i k state) := by
  have hk' := h.states k
  have hpos := users_pos hk' hp hcounted
  obtain ⟨c, hc⟩ : ∃ c, (s.states k).client = some c := by
    apply Option.ne_none_iff_exists'.1
    intro hnone
    have hzero := hk'.client.1 hnone
    omega
  have hclient : state.client = some c := by rw [htaken.client, hc]
  have husers : state.users - 1 + 1 = (s.states k).users := by
    rw [htaken.users]
    omega
  unfold Pool.leave
  by_cases hlast : state.users - 1 = 0
  · simp only [hlast, if_true, hclient]
    apply h.close hp honly hk hc rfl
    refine hk'.set hp ?_ ?_ htaken.nodup htaken.waits_set (by simp) (by simp) (Or.inl rfl) (by simp)
    · rw [hcounted, ← husers, hlast]
      rfl
    · rw [hopens, htaken.unlocked]
      rfl
  · simp only [hlast, if_false]
    refine h.move hp honly (by simp) ?_ hk htaken.client
    refine hk'.set hp ?_ ?_ htaken.nodup htaken.waits_set ?_ (by simp)
      (Or.inr (Or.inr htaken.client)) (by simp)
    · rw [hcounted]
      exact husers
    · rw [hopens, htaken.unlocked]
      rfl
    · simp [hclient, hlast]

/-- **A request that asks for a lock** takes it or waits for it. -/
theorem Inv.acquire {s : Pool} {i k : ℕ} {p waiting : Phase} {next : Pool → ℕ → ℕ → LoopState → Pool}
    (h : Inv s) (hp : s.requests[i]? = some p) (honly : Phase.Only k p)
    (honly' : Phase.Only k waiting) (hcounted : p.counted k = waiting.counted k)
    (hopens : p.opens k = waiting.opens k) (hwaits : p.waits k = false)
    (hwaits' : waiting.waits k = true) (hconnected : ∀ c, waiting ≠ .connected k c) (hk : k < s.made)
    (hnext : ∀ state, Taken s i k state → Inv (next s i k state)) :
    Inv (s.acquire i k next waiting) := by
  have hk' := h.states k
  unfold Pool.acquire
  by_cases hfree : (s.states k).locked = false ∧ (s.states k).waiters = []
  · simp only [hfree, and_self, if_true]
    refine hnext _ ⟨hfree.1, rfl, rfl, hk'.nodup, fun j => ?_⟩
    simp [hfree.2]
  · simp only [hfree, if_false]
    have hi : i ∉ (s.states k).waiters := by
      intro hmem
      obtain ⟨q, hq, hq'⟩ := (hk'.waits i).1 hmem
      rw [hp] at hq
      obtain rfl := Option.some.inj hq
      exact absurd hq' (by simp [hwaits])
    refine h.move hp honly honly' ?_ hk rfl
    refine hk'.set hp ?_ ?_ ?_ ?_ hk'.client hk'.free (Or.inr (Or.inr rfl)) ?_
    · rw [hcounted]
    · rw [hopens]
    · simpa using hk'.nodup.concat hi
    · intro j
      by_cases hj : j = i
      · simp [hj, hwaits']
      · simp [hj]
    · intro c hc
      exact absurd hc (hconnected c)

/-- While a client is opened, the lock is held, and there is no other client on the state. -/
theorem StateInv.opening {state : LoopState} {requests : List Phase} {k i : ℕ}
    (h : StateInv state requests k) (hp : requests[i]? = some (.opening k)) :
    state.locked = true ∧ state.client = none ∧ state.users = 0 := by
  have hpos : 0 < requests.countP (·.opens k) :=
    List.countP_pos_iff.2 ⟨_, List.mem_of_getElem? hp, by simp [Phase.opens]⟩
  have hlocked : state.locked = true := by
    cases hlocked : state.locked with
    | true => rfl
    | false =>
      have hopens := h.opens
      rw [hlocked] at hopens
      simp only [Bool.toNat_false] at hopens
      omega
  have hclient := h.free hlocked
  exact ⟨hlocked, hclient, h.client.1 hclient⟩

/-- A request that does not wait is not in the queue. -/
theorem StateInv.waits_set {state : LoopState} {requests : List Phase} {k i : ℕ} {p : Phase}
    (h : StateInv state requests k) (hp : requests[i]? = some p) (hwaits : p.waits k = false) (j : ℕ) :
    j ∈ state.waiters ↔ if j = i then false = true else j ∈ state.waiters := by
  by_cases hj : j = i
  · subst hj
    rw [if_pos rfl, h.waits]
    simp [hp, hwaits]
  · rw [if_neg hj]

theorem Inv.hold {s : Pool} {i k : ℕ} (h : Inv s) (hp : s.requests[i]? = some (.opening k)) :
    Inv (s.hold i k) := by
  have hk' := h.states k
  have hk := h.made _ (List.mem_of_getElem? hp) k (by simp [Phase.on])
  obtain ⟨hlocked, hnone, hzero⟩ := hk'.opening hp
  set state : LoopState := { s.states k with
    locked := false, client := some s.opened, users := (s.states k).users + 1 } with hstate
  have honly := Phase.only_opening k
  have honly' := Phase.only_connected k s.opened
  have hinv : StateInv state (s.requests.set i (.connected k s.opened)) k := by
    refine hk'.set hp ?_ ?_ hk'.nodup (hk'.waits_set hp rfl) (by simp [hstate]) (by simp [hstate])
      (Or.inr (Or.inl hnone)) ?_
    · simp [hstate, Phase.counted]
    · simp [hstate, Phase.opens, hlocked]
    · intro c hc
      obtain ⟨-, rfl⟩ := Phase.connected.inj hc
      rfl
  have hself : ((s.hold i k).states k).client = some s.opened := by simp [Pool.hold]
  have hother : ∀ k' ≠ k, (s.hold i k).states k' = s.states k' := by
    intro k' hkk
    simp [Pool.hold, states_move_of_ne hkk]
  have hclients : ∀ k' c', ((s.hold i k).states k').client = some c' →
      k' = k ∧ c' = s.opened ∨ (s.states k').client = some c' := by
    intro k' c' hc'
    by_cases hkk : k' = k
    · subst hkk
      rw [hself] at hc'
      exact Or.inl ⟨rfl, (Option.some.inj hc').symm⟩
    · rw [hother k' hkk] at hc'
      exact Or.inr hc'
  refine ⟨h.states_move hp honly honly' hinv, h.made_set honly' hk, h.entry, ?_, ?_, h.nodup, ?_, ?_⟩
  · intro k' c' hc'
    rcases hclients k' c' hc' with ⟨-, rfl⟩ | hold
    · exact ⟨Nat.lt_succ_self _, fun hmem => absurd (h.known _ hmem) (Nat.lt_irrefl _)⟩
    · obtain ⟨hlt, hnot⟩ := h.fresh k' c' hold
      exact ⟨Nat.lt_succ_of_lt hlt, hnot⟩
  · intro k' k'' c' hc' hc''
    rcases hclients k' c' hc' with ⟨rfl, rfl⟩ | hold
    · rcases hclients k'' _ hc'' with ⟨rfl, -⟩ | hold
      · rfl
      · exact absurd (h.fresh k'' _ hold).1 (Nat.lt_irrefl _)
    · rcases hclients k'' c' hc'' with ⟨rfl, rfl⟩ | hold'
      · exact absurd (h.fresh k' _ hold).1 (Nat.lt_irrefl _)
      · exact h.distinct k' k'' c' hold hold'
  · intro c' hc'
    exact Nat.lt_succ_of_lt (h.known c' hc')
  · intro c' hc'
    rcases Nat.lt_succ_iff_lt_or_eq.1 hc' with hlt | rfl
    · rcases h.kept c' hlt with hclosed | ⟨k', hk''⟩
      · exact Or.inl hclosed
      · refine Or.inr ⟨k', ?_⟩
        have hkk : k' ≠ k := by
          rintro rfl
          rw [hnone] at hk''
          exact absurd hk'' (by simp)
        rw [hother k' hkk]
        exact hk''
    · exact Or.inr ⟨k, hself⟩

theorem Inv.openFailed {s : Pool} {i k : ℕ} (h : Inv s)
    (hp : s.requests[i]? = some (.opening k)) :
    Inv (s.move i .outside k { s.states k with locked := false }) := by
  have hk' := h.states k
  have hk := h.made _ (List.mem_of_getElem? hp) k (by simp [Phase.on])
  obtain ⟨hlocked, hnone, -⟩ := hk'.opening hp
  refine h.move hp (by simp) (by simp) ?_ hk rfl
  refine hk'.set hp rfl ?_ hk'.nodup (hk'.waits_set hp rfl) hk'.client (by simp)
    (Or.inr (Or.inl hnone)) (by simp)
  simp [Phase.opens, hlocked]

/-- A request that is on no state changes none. -/
theorem Inv.closed {s : Pool} {i c : ℕ} (h : Inv s) (hp : s.requests[i]? = some (.closing c)) :
    Inv { s with requests := s.requests.set i .outside } where
  states k := (h.states k).other hp rfl rfl
  made := by
    intro p hp k hon
    rcases List.mem_or_eq_of_mem_set hp with hp | rfl
    · exact h.made p hp k hon
    · exact absurd hon (by simp [Phase.on])
  entry := h.entry
  fresh := h.fresh
  distinct := h.distinct
  nodup := h.nodup
  known := h.known
  kept := h.kept

/-- A new request. -/
theorem StateInv.append {state : LoopState} {requests : List Phase} {k : ℕ}
    (h : StateInv state requests k) : StateInv state (requests ++ [.outside]) k where
  users := by simpa [Phase.counted] using h.users
  opens := by simpa [Phase.opens] using h.opens
  nodup := h.nodup
  waits i := by
    rw [h.waits]
    constructor
    · rintro ⟨p, hp, hwaits⟩
      have hi := (List.getElem?_eq_some_iff.1 hp).1
      exact ⟨p, by rw [List.getElem?_append_left hi, hp], hwaits⟩
    · rintro ⟨p, hp, hwaits⟩
      by_cases hi : i < requests.length
      · exact ⟨p, by rwa [List.getElem?_append_left hi] at hp, hwaits⟩
      · rw [List.getElem?_append_right (Nat.le_of_not_lt hi)] at hp
        obtain rfl := List.mem_singleton.1 (List.mem_of_getElem? hp)
        exact absurd hwaits (by simp [Phase.waits])
  client := h.client
  free := h.free
  held c hc := by
    rcases List.mem_append.1 hc with hc | hc
    · exact h.held c hc
    · exact absurd hc (by simp)

theorem Inv.append {s : Pool} (h : Inv s) :
    Inv { s with requests := s.requests ++ [Phase.outside] } where
  states k := (h.states k).append
  made := by
    intro p hp k hon
    rcases List.mem_append.1 hp with hp | hp
    · exact h.made p hp k hon
    · obtain rfl := List.mem_singleton.1 hp
      exact absurd hon (by simp [Phase.on])
  entry := h.entry
  fresh := h.fresh
  distinct := h.distinct
  nodup := h.nodup
  known := h.known
  kept := h.kept

/-- A state that no request is on. -/
theorem StateInv.unused {state : LoopState} {requests : List Phase} {k : ℕ}
    (h : StateInv state requests k) (hon : ∀ p ∈ requests, p.on k = false) : state = LoopState.new := by
  have husers : state.users = 0 := by
    rw [h.users]
    apply List.countP_eq_zero.2
    intro p hp hcounted
    exact absurd (Phase.on_of_counted hcounted) (by simp [hon p hp])
  have hopens : requests.countP (·.opens k) = 0 := by
    apply List.countP_eq_zero.2
    intro p hp hopens
    exact absurd (Phase.on_of_opens hopens) (by simp [hon p hp])
  have hwaiters : state.waiters = [] := by
    apply List.eq_nil_iff_forall_not_mem.2
    intro i hi
    obtain ⟨p, hp, hwaits⟩ := (h.waits i).1 hi
    exact absurd (Phase.on_of_waits hwaits) (by simp [hon p (List.mem_of_getElem? hp)])
  have hlocked : state.locked = false := by
    have hopens' := h.opens
    rw [hopens] at hopens'
    exact Bool.toNat_eq_zero.1 hopens'
  have hclient := h.client.2 husers
  cases state
  simp_all [LoopState.new]

theorem Inv.guard {s : Pool} (h : Inv s) : Inv s.guard.2 ∧ s.guard.1 < s.guard.2.made := by
  unfold Pool.guard
  cases hentry : s.perLoop with
  | some k => exact ⟨h, h.entry k hentry⟩
  | none =>
    -- the state is made where no request is yet, so the states stay the same
    have hsame : Function.update s.states s.made LoopState.new = s.states := by
      have hnew := (h.states s.made).unused fun p hp => by
        cases hon : p.on s.made with
        | false => rfl
        | true => exact absurd (h.made p hp _ hon) (Nat.lt_irrefl _)
      rw [← hnew, Function.update_eq_self]
    rw [hsame]
    refine ⟨⟨h.states, ?_, ?_, h.fresh, h.distinct, h.nodup, h.known, h.kept⟩, Nat.lt_succ_self _⟩
    · intro p hp k hon
      exact Nat.lt_succ_of_lt (h.made p hp k hon)
    · intro k hk
      obtain rfl := Option.some.inj hk
      exact Nat.lt_succ_self _

theorem Inv.start {s : Pool} (h : Inv s) : Inv s.start := by
  obtain ⟨hinv, hk⟩ := h.guard
  set t : Pool := { s.guard.2 with requests := s.guard.2.requests ++ [Phase.outside] } with ht
  have hp : t.requests[s.guard.2.requests.length]? = some .outside := by simp [ht]
  refine hinv.append.acquire hp (by simp) (by simp) rfl
    rfl rfl (by simp [Phase.waits]) (by simp) hk fun state htaken => ?_
  exact hinv.append.enter hp (by simp) rfl rfl hk htaken

/-- The first in the queue takes a lock that is free. -/
theorem Inv.taken {s : Pool} {i k : ℕ} {waiters : List ℕ} (h : Inv s)
    (hlocked : (s.states k).locked = false) (hwaiters : (s.states k).waiters = i :: waiters) :
    Taken s i k { s.states k with waiters := waiters } := by
  have hnodup := (h.states k).nodup
  rw [hwaiters] at hnodup
  obtain ⟨hi, hrest⟩ := List.nodup_cons.1 hnodup
  refine ⟨hlocked, rfl, rfl, hrest, fun j => ?_⟩
  rw [hwaiters, List.mem_cons]
  constructor
  · intro hj
    exact ⟨fun hji => hi (hji ▸ hj), Or.inr hj⟩
  · rintro ⟨hne, rfl | hj⟩
    · exact absurd rfl hne
    · exact hj

/-- What a step can do. -/
inductive StepTo (s : Pool) : PoolEvent → Pool → Prop where
  | start : StepTo s .start s.start
  | resumeEntering {i k : ℕ} {state : LoopState} (hp : s.requests[i]? = some (.entering k))
    (htaken : Taken s i k state) : StepTo s (.resume k) (s.enter i k state)
  | resumeLeaving {i k : ℕ} {state : LoopState} (hp : s.requests[i]? = some (.leaving k))
    (htaken : Taken s i k state) : StepTo s (.resume k) (s.leave i k state)
  | opened {i k : ℕ} (hp : s.requests[i]? = some (.opening k)) :
    StepTo s (.opened i) (s.hold i k)
  | openFailed {i k : ℕ} (hp : s.requests[i]? = some (.opening k)) :
    StepTo s (.openFailed i) (s.move i .outside k { s.states k with locked := false })
  | finished {i k c : ℕ} (hp : s.requests[i]? = some (.connected k c)) :
    StepTo s (.finished i) (s.acquire i k Pool.leave (.leaving k))
  | closed {i c : ℕ} (hp : s.requests[i]? = some (.closing c)) :
    StepTo s (.closed i) { s with requests := s.requests.set i .outside }

theorem Inv.stepTo {s s' : Pool} {e : PoolEvent} (h : Inv s) (hs : s.step e = some s') :
    StepTo s e s' := by
  cases e with
  | start =>
    obtain rfl := Option.some.inj hs
    exact StepTo.start
  | resume k =>
    simp only [Pool.step] at hs
    split at hs
    · next i waiters hlocked hwaiters =>
      obtain ⟨p, hp, hwaits⟩ := ((h.states k).waits i).1 (by simp [hwaiters])
      have htaken := h.taken hlocked hwaiters
      rw [hp] at hs
      cases p with
      | entering k' =>
        obtain rfl : k' = k := by simpa [Phase.waits] using hwaits
        obtain rfl := Option.some.inj hs
        exact StepTo.resumeEntering hp htaken
      | leaving k' =>
        obtain rfl : k' = k := by simpa [Phase.waits] using hwaits
        obtain rfl := Option.some.inj hs
        exact StepTo.resumeLeaving hp htaken
      | _ => exact absurd hwaits (by simp [Phase.waits])
    · exact absurd hs (by simp)
  | opened i =>
    simp only [Pool.step] at hs
    split at hs
    · next k hp =>
      obtain rfl := Option.some.inj hs
      exact StepTo.opened hp
    · exact absurd hs (by simp)
  | openFailed i =>
    simp only [Pool.step] at hs
    split at hs
    · next k hp =>
      obtain rfl := Option.some.inj hs
      exact StepTo.openFailed hp
    · exact absurd hs (by simp)
  | finished i =>
    simp only [Pool.step] at hs
    split at hs
    · next k c hp =>
      obtain rfl := Option.some.inj hs
      exact StepTo.finished hp
    · exact absurd hs (by simp)
  | closed i =>
    simp only [Pool.step] at hs
    split at hs
    · next c hp =>
      obtain rfl := Option.some.inj hs
      exact StepTo.closed hp
    · exact absurd hs (by simp)

/-- **Every step keeps it.** -/
theorem Inv.step {s s' : Pool} {e : PoolEvent} (h : Inv s) (hs : s.step e = some s') : Inv s' := by
  have hmade : ∀ {i k : ℕ} {p : Phase}, s.requests[i]? = some p → p.on k = true → k < s.made :=
    fun hp hon => h.made _ (List.mem_of_getElem? hp) _ hon
  cases h.stepTo hs with
  | start => exact h.start
  | resumeEntering hp htaken =>
    exact h.enter hp (by simp) rfl rfl (hmade hp (by simp [Phase.on])) htaken
  | resumeLeaving hp htaken =>
    exact h.leave hp (by simp) (by simp [Phase.counted]) rfl
      (hmade hp (by simp [Phase.on])) htaken
  | opened hp => exact h.hold hp
  | openFailed hp => exact h.openFailed hp
  | @finished i k c hp =>
    have hk : k < s.made := hmade hp (by simp [Phase.on])
    refine h.acquire hp (by simp) (by simp) rfl rfl rfl
      (by simp [Phase.waits]) (by simp) hk fun state htaken => ?_
    exact h.leave hp (by simp) (by simp [Phase.counted]) rfl hk htaken
  | closed hp => exact h.closed hp

theorem inv_run {ok : Pool → PoolEvent → Prop} {s : Pool} (h : Run pool ok s) : Inv s :=
  h.invariant inv_init fun _ _ _ hinv _ hs => hinv.step hs

/-- A state that has users has requests on it. -/
theorem Inv.exists_on {s : Pool} {k : ℕ} (h : Inv s) (husers : (s.states k).users ≠ 0) :
    ∃ p ∈ s.requests, p.on k = true := by
  rw [(h.states k).users] at husers
  obtain ⟨p, hp, hcounted⟩ := List.countP_pos_iff.1 (Nat.pos_of_ne_zero husers)
  exact ⟨p, hp, Phase.on_of_counted hcounted⟩

/-- Nobody is in `connected()`. -/
def Idle (s : Pool) : Prop := ∀ p ∈ s.requests, p = .outside

/-- **Nobody is stuck**: while some request is in progress, one of them can get on. -/
theorem Inv.progress {s : Pool} (h : Inv s) (hbusy : ¬ Idle s) :
    ∃ e s', e ≠ .start ∧ s.step e = some s' := by
  have hsome : ∀ {e : PoolEvent}, e ≠ .start → (s.step e).isSome = true →
      ∃ e s', e ≠ .start ∧ s.step e = some s' := by
    intro e he hstep
    obtain ⟨s', hs'⟩ := Option.isSome_iff_exists.1 hstep
    exact ⟨e, s', he, hs'⟩
  obtain ⟨p, hp, hout⟩ : ∃ p ∈ s.requests, p ≠ .outside := by simpa [Idle] using hbusy
  obtain ⟨i, hi⟩ := List.getElem?_of_mem hp
  -- who waits for a lock waits for whoever opens a client, or the first in the queue gets on
  have hwaiting : ∀ k, p.waits k = true → ∃ e s', e ≠ .start ∧ s.step e = some s' := by
    intro k hwaits
    have hk := h.states k
    have hmem : i ∈ (s.states k).waiters := (hk.waits i).2 ⟨p, hi, hwaits⟩
    cases hlocked : (s.states k).locked with
    | true =>
      have hopens := hk.opens
      rw [hlocked] at hopens
      obtain ⟨q, hq, hq'⟩ := List.countP_pos_iff.1 (show 0 < s.requests.countP (·.opens k) by
        rw [← hopens]
        exact Nat.one_pos)
      obtain ⟨j, hj⟩ := List.getElem?_of_mem hq
      cases q with
      | opening k' =>
        have hstep : (s.step (.opened j)).isSome = true := by simp [Pool.step, hj]
        exact hsome (by simp) hstep
      | _ => exact absurd hq' (by simp [Phase.opens])
    | false =>
      obtain ⟨j, waiters, hwaiters⟩ := List.exists_cons_of_ne_nil (List.ne_nil_of_mem hmem)
      obtain ⟨q, hq, hq'⟩ := (hk.waits j).1 (by simp [hwaiters])
      refine hsome (e := .resume k) (by simp) ?_
      cases q with
      | entering k' => simp [Pool.step, hlocked, hwaiters, hq]
      | leaving k' => simp [Pool.step, hlocked, hwaiters, hq]
      | _ => exact absurd hq' (by simp [Phase.waits])
  cases p with
  | outside => exact absurd rfl hout
  | entering k => exact hwaiting k (by simp [Phase.waits])
  | leaving k => exact hwaiting k (by simp [Phase.waits])
  | opening k =>
    have hstep : (s.step (.opened i)).isSome = true := by simp [Pool.step, hi]
    exact hsome (by simp) hstep
  | connected k c =>
    have hstep : (s.step (.finished i)).isSome = true := by simp [Pool.step, hi]
    exact hsome (by simp) hstep
  | closing c =>
    have hstep : (s.step (.closed i)).isSome = true := by simp [Pool.step, hi]
    exact hsome (by simp) hstep

end Pool

end PartCAD.Cache
