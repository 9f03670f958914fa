import Mathlib.Data.List.Count
import Mathlib.Data.List.Nodup
import Mathlib.Tactic.Common

/-!
# A fair counting semaphore

`asyncio.Semaphore`: a number of permits, and those who wait for one, in order, each with a future.  A
permit that is given back is handed to the first who waits.  Who has been handed a permit, or has been
cancelled, is in the queue until it goes on.

* `permits` : the permits that nobody has taken, those that are handed over among them;
* `Ready` : nobody waits for nothing;
* `release_spec`, `acquire_true`, `acquire_false`, `goOn_spec`, `giveUp_spec` : what giving back, asking,
  going on and giving up do to these.
-/

namespace PartCAD.Lib

/-- The future of one who waits. -/
inductive Future where
  | pending | woken | cancelled
  deriving DecidableEq

structure Semaphore (α : Type) where
  value : ℕ
  waiters : List (α × Future)

namespace Semaphore

variable {α : Type}

/-- `locked()` -/
def locked (s : Semaphore α) : Bool :=
  s.value = 0 ∨ s.waiters.any fun w => w.2 ≠ .cancelled

/-- The queue after its first pending future is resolved. -/
def wakeFirst : List (α × Future) → Option (List (α × Future))
  | [] => none
  | (a, .pending) :: waiters => some ((a, .woken) :: waiters)
  | w :: waiters => (wakeFirst waiters).map (w :: ·)

/-- `_wake_up_next()` -/
def wakeUpNext (s : Semaphore α) : Option (Semaphore α) :=
  (wakeFirst s.waiters).map fun waiters => ⟨s.value - 1, waiters⟩

/-- `release()` -/
def release (s : Semaphore α) : Semaphore α :=
  let s := { s with value := s.value + 1 }
  s.wakeUpNext.getD s

/-- `while self._value > 0`: as many as there are permits for are woken up. -/
def wakeUpMany : ℕ → Semaphore α → Semaphore α
  | 0, s => s
  | n + 1, s =>
    match s.wakeUpNext with
    | none => s
    | some s => wakeUpMany n s

def wakeUp (s : Semaphore α) : Semaphore α := wakeUpMany s.value s

/-- The beginning of `acquire()`: whether there is a permit at once, and the semaphore then. -/
def acquire (a : α) (s : Semaphore α) : Bool × Semaphore α :=
  if s.locked then (false, { s with waiters := s.waiters ++ [(a, .pending)] })
  else (true, { s with value := s.value - 1 })

variable [DecidableEq α]

/-- What becomes of the future of one who waits. -/
def futureOf (a : α) (s : Semaphore α) : Option Future :=
  (s.waiters.find? fun w => w.1 = a).map Prod.snd

/-- `fut.cancel()`: a future that is resolved is left as it is. -/
def cancel (a : α) (s : Semaphore α) : Semaphore α :=
  { s with
    waiters := s.waiters.map fun w => if w = (a, .pending) then (a, .cancelled) else w }

/-- `self._waiters.remove(fut)` -/
def remove (a : α) (s : Semaphore α) : Semaphore α :=
  { s with waiters := s.waiters.filter fun w => w.1 ≠ a }

/-- The end of `acquire()` for one who goes on with the permit. -/
def goOn (a : α) (s : Semaphore α) : Semaphore α := (s.remove a).wakeUp

/-- The end of `acquire()` for one who is cancelled: a permit that was handed over is given back. -/
def giveUp (a : α) (s : Semaphore α) : Semaphore α :=
  let left := s.remove a
  if s.futureOf a = some .woken then wakeUp { left with value := left.value + 1 } else left.wakeUp

/-! ## Permits -/

/-- How many futures are so. -/
def count (f : Future) (s : Semaphore α) : ℕ := s.waiters.countP fun w => w.2 = f

/-- The permits that nobody has taken. -/
def permits (s : Semaphore α) : ℕ := s.value + s.count .woken

/-- While somebody waits, there is no permit, or somebody goes on and will wake up others. -/
def Ready (s : Semaphore α) : Prop := 0 < s.count .pending → s.value = 0 ∨ 0 < s.count .woken

/-- Those who are in the queue. -/
def names (s : Semaphore α) : List α := s.waiters.map Prod.fst

/-! ## Waking up -/

omit [DecidableEq α]

theorem wakeFirst_eq_none {waiters : List (α × Future)} :
    wakeFirst waiters = none ↔ waiters.countP (fun w => w.2 = .pending) = 0 := by
  induction waiters with
  | nil => simp [wakeFirst]
  | cons w waiters ih =>
    obtain ⟨a, f⟩ := w
    cases f <;> simp [wakeFirst, ih]

theorem wakeFirst_eq_some {waiters waiters' : List (α × Future)}
    (h : wakeFirst waiters = some waiters') :
    waiters'.map Prod.fst = waiters.map Prod.fst ∧
      waiters'.countP (fun w => w.2 = .woken) = waiters.countP (fun w => w.2 = .woken) + 1 := by
  induction waiters generalizing waiters' with
  | nil => cases h
  | cons w waiters ih =>
    obtain ⟨a, f⟩ := w
    cases f with
    | pending =>
      obtain rfl := Option.some.inj h
      simp
    | woken =>
      obtain ⟨rest, hrest, rfl⟩ := Option.map_eq_some_iff.1 h
      obtain ⟨hnames, hwoken⟩ := ih hrest
      simp [hnames, hwoken]
    | cancelled =>
      obtain ⟨rest, hrest, rfl⟩ := Option.map_eq_some_iff.1 h
      obtain ⟨hnames, hwoken⟩ := ih hrest
      simp [hnames, hwoken]

theorem wakeUpNext_eq_none {s : Semaphore α} (h : s.wakeUpNext = none) : s.count .pending = 0 :=
  wakeFirst_eq_none.1 (Option.map_eq_none_iff.1 h)

theorem wakeUpNext_eq_some {s s' : Semaphore α} (h : s.wakeUpNext = some s') :
    s'.names = s.names ∧ s'.value = s.value - 1 ∧ s'.count .woken = s.count .woken + 1 := by
  obtain ⟨waiters, hwaiters, rfl⟩ := Option.map_eq_some_iff.1 h
  obtain ⟨hnames, hwoken⟩ := wakeFirst_eq_some hwaiters
  exact ⟨hnames, rfl, hwoken⟩

/-- **Giving back** a permit. -/
theorem release_spec (s : Semaphore α) :
    s.release.names = s.names ∧ s.release.permits = s.permits + 1 ∧ s.release.Ready := by
  unfold release
  dsimp only
  cases h : wakeUpNext { s with value := s.value + 1 } with
  | none =>
    have hnone := wakeUpNext_eq_none h
    refine ⟨rfl, ?_, fun hpending => ?_⟩
    · show s.value + 1 + s.count .woken = s.value + s.count .woken + 1
      omega
    · exact absurd hnone (Nat.ne_of_gt hpending)
  | some s' =>
    obtain ⟨hnames, hvalue, hwoken⟩ := wakeUpNext_eq_some h
    have hwoken : s'.count .woken = s.count .woken + 1 := hwoken
    have hvalue : s'.value = s.value := hvalue
    refine ⟨hnames, ?_, fun _ => Or.inr ?_⟩
    · show s'.value + s'.count .woken = s.value + s.count .woken + 1
      omega
    · show 0 < s'.count .woken
      omega

theorem wakeUpMany_spec (n : ℕ) : ∀ {s : Semaphore α}, n ≤ s.value →
    (wakeUpMany n s).names = s.names ∧ (wakeUpMany n s).permits = s.permits ∧
      ((wakeUpMany n s).value = s.value - n ∨ (wakeUpMany n s).count .pending = 0) := by
  induction n with
  | zero => exact fun _ => ⟨rfl, rfl, Or.inl rfl⟩
  | succ n ih =>
    intro s hn
    rw [wakeUpMany]
    cases h : s.wakeUpNext with
    | none => exact ⟨rfl, rfl, Or.inr (wakeUpNext_eq_none h)⟩
    | some s' =>
      obtain ⟨hnames, hvalue, hwoken⟩ := wakeUpNext_eq_some h
      obtain ⟨hnames', hpermits', hend⟩ := ih (s := s') (by omega)
      dsimp only
      refine ⟨hnames'.trans hnames, hpermits'.trans ?_, ?_⟩
      · unfold permits
        omega
      · rcases hend with hend | hend
        · exact Or.inl (by omega)
        · exact Or.inr hend

theorem wakeUp_spec (s : Semaphore α) :
    s.wakeUp.names = s.names ∧ s.wakeUp.permits = s.permits ∧ s.wakeUp.Ready := by
  obtain ⟨hnames, hpermits, hend⟩ := wakeUpMany_spec s.value (s := s) (Nat.le_refl _)
  refine ⟨hnames, hpermits, fun hpending => ?_⟩
  rcases hend with hend | hend
  · exact Or.inl (by rw [wakeUp, hend, Nat.sub_self])
  · exact absurd hend (Nat.ne_of_gt hpending)

/-! ## Asking -/

/-- **Asking** for a permit that is there. -/
theorem acquire_true {a : α} {s s' : Semaphore α} (h : s.acquire a = (true, s')) :
    s'.names = s.names ∧ s'.permits + 1 = s.permits ∧ s'.Ready := by
  unfold acquire at h
  split at h
  · cases h
  · rename_i hfree
    obtain rfl := (Prod.mk.inj h).2
    rw [locked, decide_eq_true_eq, not_or] at hfree
    have hvalue : s.value ≠ 0 := hfree.1
    refine ⟨rfl, ?_, fun hpending => ?_⟩
    · show s.value - 1 + s.count .woken + 1 = s.value + s.count .woken
      omega
    · obtain ⟨w, hw, hpending⟩ := List.countP_pos_iff.1 hpending
      refine absurd (List.any_eq_true.2 ⟨w, hw, ?_⟩) hfree.2
      rw [of_decide_eq_true hpending]
      rfl

/-- Asking for a permit that one has to wait for. -/
theorem acquire_false {a : α} {s s' : Semaphore α} (h : s.acquire a = (false, s')) (hready : s.Ready) :
    s'.waiters = s.waiters ++ [(a, .pending)] ∧ s'.permits = s.permits ∧ s'.Ready := by
  unfold acquire at h
  split at h
  · rename_i hlocked
    obtain rfl := (Prod.mk.inj h).2
    have hwoken : count .woken { s with waiters := s.waiters ++ [(a, .pending)] } =
        s.count .woken := by
      simp [count]
    refine ⟨rfl, congrArg (s.value + ·) hwoken, fun _ => ?_⟩
    rw [hwoken]
    show s.value = 0 ∨ 0 < s.count .woken
    rw [locked, decide_eq_true_eq] at hlocked
    rcases hlocked with hlocked | hlocked
    · exact Or.inl hlocked
    · obtain ⟨⟨b, f⟩, hw, hf⟩ := List.any_eq_true.1 hlocked
      cases f with
      | pending => exact hready (List.countP_pos_iff.2 ⟨_, hw, rfl⟩)
      | woken => exact Or.inr (List.countP_pos_iff.2 ⟨_, hw, rfl⟩)
      | cancelled => exact absurd hf (by simp)
  · cases h

/-! ## Cancelling and going on -/

variable [DecidableEq α]

theorem cancel_spec (a : α) {s : Semaphore α} (hready : s.Ready) :
    (s.cancel a).names = s.names ∧ (s.cancel a).permits = s.permits ∧ (s.cancel a).Ready := by
  have hnames : (s.cancel a).names = s.names := by
    unfold cancel names
    rw [List.map_map]
    refine List.map_congr_left fun w _ => ?_
    by_cases hw : w = (a, .pending) <;> simp [hw]
  have hwoken : (s.cancel a).count .woken = s.count .woken := by
    unfold cancel count
    rw [List.countP_map]
    refine List.countP_congr fun w _ => ?_
    by_cases hw : w = (a, .pending) <;> simp [hw]
  refine ⟨hnames, congrArg (s.value + ·) hwoken, fun hpending => ?_⟩
  rw [hwoken]
  refine hready (Nat.lt_of_lt_of_le hpending ?_)
  unfold cancel count
  rw [List.countP_map]
  refine List.countP_mono_left fun w _ h => ?_
  by_cases hw : w = (a, .pending)
  · simp [hw]
  · simpa [hw] using h

/-- What one who leaves the queue leaves there. -/
theorem count_remove {a : α} {f g : Future} {s : Semaphore α} (hdistinct : s.names.Nodup)
    (h : s.futureOf a = some f) :
    (s.remove a).count g + (if f = g then 1 else 0) = s.count g := by
  obtain ⟨value, waiters⟩ := s
  unfold names at hdistinct
  unfold futureOf at h
  unfold remove count
  dsimp only at *
  induction waiters with
  | nil => cases h
  | cons w waiters ih =>
    obtain ⟨b, e⟩ := w
    obtain ⟨hnew, hrest⟩ := List.nodup_cons.1 hdistinct
    by_cases hb : b = a
    · subst hb
      have hf : e = f := by simpa using h
      have hkeep : waiters.filter (fun w => w.1 ≠ b) = waiters := by
        refine List.filter_eq_self.2 fun w hw => decide_eq_true fun heq => ?_
        exact hnew (List.mem_map.2 ⟨w, hw, heq⟩)
      rw [List.filter_cons_of_neg (by simp), hkeep, List.countP_cons, hf]
      simp
    · have hrec := ih hrest (by simpa [hb] using h)
      rw [List.filter_cons_of_pos (by simpa using hb), List.countP_cons, List.countP_cons]
      omega

theorem names_remove (a : α) (s : Semaphore α) : (s.remove a).names = s.names.filter (· ≠ a) := by
  unfold remove names
  rw [List.filter_map]
  rfl

/-- **Going on** with a permit. -/
theorem goOn_spec {a : α} {s : Semaphore α} (hdistinct : s.names.Nodup)
    (h : s.futureOf a = some .woken) :
    (s.goOn a).names = s.names.filter (· ≠ a) ∧ (s.goOn a).permits + 1 = s.permits ∧
      (s.goOn a).Ready := by
  obtain ⟨hnames, hpermits, hready⟩ := wakeUp_spec (s.remove a)
  refine ⟨hnames.trans (names_remove a s), ?_, hready⟩
  have hcount := count_remove (g := .woken) hdistinct h
  rw [if_pos rfl] at hcount
  rw [goOn, hpermits]
  show s.value + (s.remove a).count .woken + 1 = s.value + s.count .woken
  omega

/-- **Giving up.** -/
theorem giveUp_spec {a : α} {f : Future} {s : Semaphore α} (hdistinct : s.names.Nodup)
    (h : s.futureOf a = some f) :
    (s.giveUp a).names = s.names.filter (· ≠ a) ∧ (s.giveUp a).permits = s.permits ∧
      (s.giveUp a).Ready := by
  have hcount := count_remove (g := .woken) hdistinct h
  unfold giveUp
  rw [h]
  split
  · rename_i hwoken
    rw [if_pos (Option.some.inj hwoken)] at hcount
    obtain ⟨hnames, hpermits, hready⟩ :=
      wakeUp_spec { s.remove a with value := (s.remove a).value + 1 }
    refine ⟨hnames.trans (names_remove a s), hpermits.trans ?_, hready⟩
    show s.value + 1 + (s.remove a).count .woken = s.value + s.count .woken
    omega
  · rename_i hother
    rw [if_neg fun heq => hother (congrArg some heq)] at hcount
    obtain ⟨hnames, hpermits, hready⟩ := wakeUp_spec (s.remove a)
    refine ⟨hnames.trans (names_remove a s), hpermits.trans ?_, hready⟩
    show s.value + (s.remove a).count .woken = s.value + s.count .woken
    omega

theorem futureOf_of_mem {a : α} {f : Future} {s : Semaphore α} (hdistinct : s.names.Nodup)
    (h : (a, f) ∈ s.waiters) : s.futureOf a = some f := by
  unfold futureOf
  cases hfind : s.waiters.find? fun w => w.1 = a with
  | none => exact absurd (decide_eq_true rfl) (List.find?_eq_none.1 hfind _ h)
  | some w =>
    have hname := List.find?_some hfind
    have hw := List.inj_on_of_nodup_map hdistinct (List.mem_of_find?_eq_some hfind) h
      (of_decide_eq_true hname)
    rw [hw]
    rfl

end Semaphore

end PartCAD.Lib
