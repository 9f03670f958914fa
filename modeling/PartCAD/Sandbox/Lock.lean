import Mathlib.Data.Int.Notation
import Mathlib.Data.Nat.Notation
import PartCAD.Lib.Run

/-!
# The lock over a sandbox environment

Readers run wrappers out of an environment, and writers install into it.  A caller that does not
get the lock at once polls for it, and a writer is counted as waiting while it does.  The lock
file keeps the writers of several processes apart.

* `Inv` : what the counters of the lock say of its callers;
* `Inv.stepTo` : what a step can do;
* `excluded_run` : what holds after every run.
-/

namespace PartCAD.Sandbox

open PartCAD.Lib

/-! ## The lock file -/

/-- What becomes of `acquire(blocking=False)`: the lock is acquired, or `Timeout` or something else
is raised. -/
inductive Attempt where
  | acquired
  | timeout
  | error
  deriving DecidableEq

/-- `FileLock`, in the states `F`.  `O` is what other processes do with the file. -/
structure FileLock (F O : Type) where
  new : F
  /-- How often this process has acquired the lock and not released it. -/
  lockCounter : F → ℕ
  acquire : F → Attempt × F
  release : F → F
  elsewhere : F → O → F

namespace FileLock

variable {F O : Type}

/-- This process holds the lock. -/
def isLocked (fileLock : FileLock F O) (f : F) : Prop := 0 < fileLock.lockCounter f

/-- Recursive acquires are counted. -/
structure Lawful (fileLock : FileLock F O) : Prop where
  new : fileLock.lockCounter fileLock.new = 0
  acquired : ∀ f f', fileLock.acquire f = (.acquired, f') →
    fileLock.lockCounter f' = fileLock.lockCounter f + 1
  missed : ∀ f f' a, fileLock.acquire f = (a, f') → a ≠ .acquired →
    fileLock.lockCounter f' = fileLock.lockCounter f
  release : ∀ f, fileLock.lockCounter (fileLock.release f) = fileLock.lockCounter f - 1
  elsewhere : ∀ f o, fileLock.lockCounter (fileLock.elsewhere f o) = fileLock.lockCounter f

end FileLock

/-- The file that this process has locked so often, or that another process has locked. -/
def lockFile : FileLock (ℕ × Bool) Bool where
  new := (0, false)
  lockCounter f := f.1
  acquire f := if f.1 = 0 ∧ f.2 then (.timeout, f) else (.acquired, (f.1 + 1, f.2))
  release f := (f.1 - 1, f.2)
  elsewhere f locked := if f.1 = 0 then (f.1, locked) else f

theorem lockFile_lawful : lockFile.Lawful where
  new := rfl
  acquired := by
    intro f f' hf
    simp only [lockFile] at hf
    split at hf
    · exact absurd (Prod.mk.inj hf).1 (by decide)
    · obtain ⟨-, rfl⟩ := Prod.mk.inj hf
      rfl
  missed := by
    intro f f' a hf ha
    simp only [lockFile] at hf
    split at hf
    · obtain ⟨-, rfl⟩ := Prod.mk.inj hf
      rfl
    · exact absurd (Prod.mk.inj hf).1.symm ha
  release _ := rfl
  elsewhere := by
    intro f locked
    simp only [lockFile]
    split
    · rfl
    · rfl

/-! ## Callers -/

/-- Where a caller of `acquire` or `acquire_async` is. -/
inductive Phase where
  | called
  /-- The first try has failed. -/
  | missed
  /-- In the loop, between two polls. -/
  | polling
  /-- In the `finally` of the loop, with the lock or without it. -/
  | ending (acquired : Bool)
  /-- In the body of the `with`. -/
  | inside
  | outside
  deriving DecidableEq

structure Caller where
  write : Bool
  phase : Phase
  deriving DecidableEq

namespace Caller

def holds (c : Caller) : Bool :=
  match c.phase with
  | .inside => true
  | .ending acquired => acquired
  | _ => false

/-- The caller is in the loop, or in its `finally`. -/
def waits (c : Caller) : Bool :=
  match c.phase with
  | .polling | .ending _ => true
  | _ => false

def reads (c : Caller) : Bool := !c.write && c.holds

def writes (c : Caller) : Bool := c.write && c.holds

/-- The caller is a writer that has been counted as waiting, and still is. -/
def registered (c : Caller) : Bool := c.write && c.waits

/-- The caller is a writer that is in `_wait_sync` or `_wait_async`. -/
def acquiring (c : Caller) : Bool :=
  c.write &&
    match c.phase with
    | .called | .missed | .polling | .ending _ => true
    | .inside | .outside => false

theorem acquiring_of_registered {c : Caller} (h : c.registered = true) : c.acquiring = true := by
  obtain ⟨write, phase⟩ := c
  obtain ⟨hwrite, hwaits⟩ := (Bool.and_eq_true _ _).mp h
  cases phase with
  | polling => simpa [acquiring] using hwrite
  | ending acquired => simpa [acquiring] using hwrite
  | _ => exact absurd hwaits (by simp [waits])

end Caller

/-! ## The lock -/

structure EnvironmentLock (F : Type) where
  fileLock : F
  readers : ℤ
  writer : Bool
  writersWaiting : ℤ

section

variable {F O : Type} (fileLock : FileLock F O)

namespace EnvironmentLock

def new : EnvironmentLock F := ⟨fileLock.new, 0, false, 0⟩

/-- `_try_acquire`, which returns or raises. -/
def tryAcquire (l : EnvironmentLock F) (write : Bool) : Attempt × EnvironmentLock F :=
  if write then
    if l.writer ∨ l.readers ≠ 0 then (.timeout, l)
    else
      match fileLock.acquire l.fileLock with
      | (.acquired, f) => (.acquired, { l with fileLock := f, writer := true })
      | (.timeout, f) => (.timeout, { l with fileLock := f })
      | (.error, f) => (.error, { l with fileLock := f })
  else if l.writer ∨ l.writersWaiting ≠ 0 then (.timeout, l)
  else (.acquired, { l with readers := l.readers + 1 })

/-- `_release` -/
def release (l : EnvironmentLock F) (write : Bool) : EnvironmentLock F :=
  if write then { l with writer := false, fileLock := fileLock.release l.fileLock }
  else { l with readers := l.readers - 1 }

end EnvironmentLock

/-- `_writers_waiting += 1` of a writer. -/
def EnvironmentLock.register (l : EnvironmentLock F) (write : Bool) : EnvironmentLock F :=
  if write then { l with writersWaiting := l.writersWaiting + 1 } else l

/-- `_writers_waiting -= 1` of a writer. -/
def EnvironmentLock.deregister (l : EnvironmentLock F) (write : Bool) : EnvironmentLock F :=
  if write then { l with writersWaiting := l.writersWaiting - 1 } else l

/-- A lock and all that have called it. -/
structure Environment (F : Type) where
  lock : EnvironmentLock F
  callers : List Caller

inductive LockEvent (O : Type) where
  | call (write : Bool)
  /-- The first try of a caller. -/
  | attempt (i : ℕ)
  | register (i : ℕ)
  | poll (i : ℕ)
  /-- The wait of a caller is cancelled between two polls. -/
  | cancel (i : ℕ)
  | deregister (i : ℕ)
  | release (i : ℕ)
  | elsewhere (o : O)

namespace Environment

/-- A caller gets on, and leaves the lock as given. -/
def advance (s : Environment F) (i : ℕ) (write : Bool) (phase : Phase) (lock : EnvironmentLock F) :
    Environment F :=
  ⟨lock, s.callers.set i ⟨write, phase⟩⟩

/-- Where a caller is after its first try. -/
def afterAttempt : Attempt → Phase
  | .acquired => .inside
  | .timeout => .missed
  | .error => .outside

/-- Where a caller is after a poll. -/
def afterPoll : Attempt → Phase
  | .acquired => .ending true
  | .timeout => .polling
  | .error => .ending false

def step (s : Environment F) : LockEvent O → Option (Environment F)
  | .call write => some ⟨s.lock, s.callers ++ [⟨write, .called⟩]⟩
  | .attempt i =>
    match s.callers[i]? with
    | some ⟨write, .called⟩ =>
      let (a, lock) := s.lock.tryAcquire fileLock write
      some (s.advance i write (afterAttempt a) lock)
    | _ => none
  | .register i =>
    match s.callers[i]? with
    | some ⟨write, .missed⟩ => some (s.advance i write .polling (s.lock.register write))
    | _ => none
  | .poll i =>
    match s.callers[i]? with
    | some ⟨write, .polling⟩ =>
      let (a, lock) := s.lock.tryAcquire fileLock write
      some (s.advance i write (afterPoll a) lock)
    | _ => none
  | .cancel i =>
    match s.callers[i]? with
    | some ⟨write, .polling⟩ => some (s.advance i write (.ending false) s.lock)
    | _ => none
  | .deregister i =>
    match s.callers[i]? with
    | some ⟨write, .ending acquired⟩ =>
      some (s.advance i write (if acquired then .inside else .outside) (s.lock.deregister write))
    | _ => none
  | .release i =>
    match s.callers[i]? with
    | some ⟨write, .inside⟩ => some (s.advance i write .outside (s.lock.release fileLock write))
    | _ => none
  | .elsewhere o =>
    some { s with lock := { s.lock with fileLock := fileLock.elsewhere s.lock.fileLock o } }

end Environment

/-- The environment and what happens to it. -/
def environment : System (Environment F) (LockEvent O) :=
  ⟨⟨.new fileLock, []⟩, Environment.step fileLock⟩

/-! ## What a step can do -/

/-- What a try finds, and what it does to the lock. -/
inductive Tried (l : EnvironmentLock F) : Bool → Attempt → EnvironmentLock F → Prop where
  | writer {f : F} : l.writer = false → l.readers = 0 →
      fileLock.lockCounter f = fileLock.lockCounter l.fileLock + 1 →
      Tried l true .acquired { l with fileLock := f, writer := true }
  | reader : l.writer = false → l.writersWaiting = 0 →
      Tried l false .acquired { l with readers := l.readers + 1 }
  | failed {write : Bool} {a : Attempt} {f : F} : a ≠ .acquired →
      fileLock.lockCounter f = fileLock.lockCounter l.fileLock →
      Tried l write a { l with fileLock := f }

variable {fileLock}

theorem EnvironmentLock.tried (hfile : fileLock.Lawful) (l : EnvironmentLock F) (write : Bool) :
    Tried fileLock l write (l.tryAcquire fileLock write).1 (l.tryAcquire fileLock write).2 := by
  unfold EnvironmentLock.tryAcquire
  cases write with
  | true =>
    by_cases hbusy : l.writer = true ∨ l.readers ≠ 0
    · simp only [hbusy, if_true]
      exact .failed (by simp) rfl
    · simp only [hbusy, if_true, if_false]
      obtain ⟨hwriter, hreaders⟩ := not_or.1 hbusy
      rcases hacquire : fileLock.acquire l.fileLock with ⟨a, f⟩
      cases a with
      | acquired =>
        exact .writer (by simpa using hwriter) (by simpa using hreaders) (hfile.acquired _ _ hacquire)
      | timeout => exact .failed (by simp) (hfile.missed _ _ _ hacquire (by decide))
      | error => exact .failed (by simp) (hfile.missed _ _ _ hacquire (by decide))
  | false =>
    by_cases hbusy : l.writer = true ∨ l.writersWaiting ≠ 0
    · simp only [hbusy, if_true]
      exact .failed (by simp) rfl
    · simp only [hbusy, if_false]
      obtain ⟨hwriter, hwaiting⟩ := not_or.1 hbusy
      exact .reader (by simpa using hwriter) (by simpa using hwaiting)

variable (fileLock)

/-- The lock follows a caller that gets on from `c` to `c'`. -/
structure Follows (l l' : EnvironmentLock F) (c c' : Caller) : Prop where
  readers : l'.readers + c.reads.toNat = l.readers + c'.reads.toNat
  writer : l'.writer.toNat + c.writes.toNat = l.writer.toNat + c'.writes.toNat
  file : fileLock.lockCounter l'.fileLock + c.writes.toNat =
    fileLock.lockCounter l.fileLock + c'.writes.toNat
  waiting : l'.writersWaiting + c.registered.toNat = l.writersWaiting + c'.registered.toNat
  apart : l'.writer = true → l'.readers = 0
  /-- A reader does not get in past a writer. -/
  deferring : c.reads = false → c'.reads = true → l.writersWaiting = 0

inductive StepTo (s : Environment F) : Environment F → Prop where
  | call {write : Bool} : StepTo s ⟨s.lock, s.callers ++ [⟨write, .called⟩]⟩
  | advance {i : ℕ} {c c' : Caller} {l : EnvironmentLock F} :
      s.callers[i]? = some c → Follows fileLock s.lock l c c' →
      StepTo s ⟨l, s.callers.set i c'⟩
  | elsewhere {f : F} : fileLock.lockCounter f = fileLock.lockCounter s.lock.fileLock →
      StepTo s { s with lock := { s.lock with fileLock := f } }

/-- What the counters of the lock say of the callers. -/
structure Inv (s : Environment F) : Prop where
  readers : s.lock.readers = s.callers.countP Caller.reads
  writer : s.lock.writer.toNat = s.callers.countP Caller.writes
  file : fileLock.lockCounter s.lock.fileLock = s.callers.countP Caller.writes
  waiting : s.lock.writersWaiting = s.callers.countP Caller.registered
  apart : s.lock.writer = true → s.lock.readers = 0

variable {fileLock}

theorem inv_init (hfile : fileLock.Lawful) : Inv fileLock (environment fileLock).init where
  readers := rfl
  writer := rfl
  file := hfile.new
  waiting := rfl
  apart _ := rfl

namespace Inv

variable {s s' : Environment F} {i : ℕ} {c : Caller} {write : Bool}

/-- A writer that holds the lock keeps it, and the lock file, and there are no readers. -/
theorem writer_holds (h : Inv fileLock s) (hc : s.callers[i]? = some c) (hwrites : c.writes = true) :
    s.lock.writer = true ∧ fileLock.lockCounter s.lock.fileLock = 1 ∧ s.lock.readers = 0 := by
  have hpos : 0 < s.callers.countP Caller.writes :=
    List.countP_pos_iff.2 ⟨c, List.mem_of_getElem? hc, hwrites⟩
  have hwriter : s.lock.writer = true := by
    cases hw : s.lock.writer with
    | true => rfl
    | false =>
      have hcount := h.writer
      rw [hw, Bool.toNat_false] at hcount
      omega
  refine ⟨hwriter, ?_, h.apart hwriter⟩
  rw [h.file, ← h.writer, hwriter, Bool.toNat_true]

/-- While a reader holds the lock, no writer does. -/
theorem reader_holds (h : Inv fileLock s) (hc : s.callers[i]? = some c) (hreads : c.reads = true) :
    s.lock.writer = false := by
  have hpos : 0 < s.callers.countP Caller.reads :=
    List.countP_pos_iff.2 ⟨c, List.mem_of_getElem? hc, hreads⟩
  cases hw : s.lock.writer with
  | false => rfl
  | true =>
    have hcount := h.readers
    rw [h.apart hw] at hcount
    omega

/-- A caller that stays with the lock, or without it, while the lock stays as it is but for the
writers that are waiting. -/
theorem follows_same {c' : Caller} {l : EnvironmentLock F} (h : Inv fileLock s)
    (hreads : c'.reads = c.reads) (hwrites : c'.writes = c.writes)
    (hfile : fileLock.lockCounter l.fileLock = fileLock.lockCounter s.lock.fileLock)
    (hreaders : l.readers = s.lock.readers) (hwriter : l.writer = s.lock.writer)
    (hwaiting : l.writersWaiting + c.registered.toNat =
      s.lock.writersWaiting + c'.registered.toNat) : Follows fileLock s.lock l c c' where
  readers := by rw [hreads, hreaders]
  writer := by rw [hwrites, hwriter]
  file := by rw [hwrites, hfile]
  waiting := hwaiting
  apart hw := by
    rw [hwriter] at hw
    rw [hreaders, h.apart hw]
  deferring hout hin := by
    rw [hreads, hout] at hin
    exact absurd hin (by simp)

/-- A caller without the lock that tries for it. -/
theorem follows_tried {a : Attempt} {l : EnvironmentLock F} {p p' : Phase} (h : Inv fileLock s)
    (htried : Tried fileLock s.lock write a l) (hout : (Caller.mk write p).holds = false)
    (hin : (Caller.mk write p').holds = (a == .acquired))
    (hwaits : (Caller.mk write p').waits = (Caller.mk write p).waits) :
    Follows fileLock s.lock l ⟨write, p⟩ ⟨write, p'⟩ := by
  cases htried with
  | @writer f hwriter hreaders hf =>
    refine ⟨?_, ?_, ?_, ?_, fun _ => hreaders, ?_⟩
    · simp [Caller.reads]
    · simp [Caller.writes, hout, hin, hwriter]
    · simp [Caller.writes, hout, hin, hf]
    · simp [Caller.registered, hwaits]
    · simp [Caller.reads]
  | reader hwriter hwaiting =>
    refine ⟨?_, ?_, ?_, ?_, ?_, fun _ _ => hwaiting⟩
    · simp [Caller.reads, hout, hin]
    · simp [Caller.writes]
    · simp [Caller.writes]
    · simp [Caller.registered]
    · intro hw
      exact absurd hw (by simp [hwriter])
  | failed ha hf =>
    have hmissed : (Caller.mk write p').holds = false := by
      rw [hin]
      simpa using ha
    apply h.follows_same
    · simp [Caller.reads, hout, hmissed]
    · simp [Caller.writes, hout, hmissed]
    · exact hf
    · rfl
    · rfl
    · simp [Caller.registered, hwaits]

theorem follows_release (hfile : fileLock.Lawful) (h : Inv fileLock s)
    (hc : s.callers[i]? = some ⟨write, .inside⟩) :
    Follows fileLock s.lock (s.lock.release fileLock write) ⟨write, .inside⟩ ⟨write, .outside⟩ := by
  cases write with
  | true =>
    obtain ⟨hwriter, hcounter, hreaders⟩ := h.writer_holds hc rfl
    refine ⟨?_, ?_, ?_, ?_, ?_, ?_⟩
    · simp [EnvironmentLock.release, Caller.reads]
    · simp [EnvironmentLock.release, Caller.writes, Caller.holds, hwriter]
    · simp [EnvironmentLock.release, Caller.writes, Caller.holds, hfile.release, hcounter]
    · simp [EnvironmentLock.release, Caller.registered, Caller.waits]
    · simp [EnvironmentLock.release]
    · simp [Caller.reads]
  | false =>
    have hwriter := h.reader_holds hc rfl
    refine ⟨?_, ?_, ?_, ?_, ?_, ?_⟩
    · simp [EnvironmentLock.release, Caller.reads, Caller.holds]
    · simp [EnvironmentLock.release, Caller.writes]
    · simp [EnvironmentLock.release, Caller.writes]
    · simp [EnvironmentLock.release, Caller.registered]
    · simp [EnvironmentLock.release, hwriter]
    · simp [Caller.reads, Caller.holds]

/-- **What a step can do.** -/
theorem stepTo (hfile : fileLock.Lawful) (h : Inv fileLock s) {e : LockEvent O}
    (hs : s.step fileLock e = some s') : StepTo fileLock s s' := by
  cases e with
  | call write =>
    obtain rfl := Option.some.inj hs
    exact .call
  | attempt i =>
    simp only [Environment.step] at hs
    split at hs
    · rename_i write hc
      obtain rfl := Option.some.inj hs
      refine .advance hc (h.follows_tried (s.lock.tried hfile write) rfl ?_ ?_)
      · cases (s.lock.tryAcquire fileLock write).1 with
        | _ => rfl
      · cases (s.lock.tryAcquire fileLock write).1 with
        | _ => rfl
    · exact absurd hs (by simp)
  | register i =>
    simp only [Environment.step] at hs
    split at hs
    · rename_i write hc
      obtain rfl := Option.some.inj hs
      refine .advance hc ?_
      cases write with
      | true =>
        refine h.follows_same rfl rfl rfl rfl rfl ?_
        simp [EnvironmentLock.register, Caller.registered, Caller.waits]
      | false => exact h.follows_same rfl rfl rfl rfl rfl rfl
    · exact absurd hs (by simp)
  | poll i =>
    simp only [Environment.step] at hs
    split at hs
    · rename_i write hc
      obtain rfl := Option.some.inj hs
      refine .advance hc (h.follows_tried (s.lock.tried hfile write) rfl ?_ ?_)
      · cases (s.lock.tryAcquire fileLock write).1 with
        | _ => rfl
      · cases (s.lock.tryAcquire fileLock write).1 with
        | _ => rfl
    · exact absurd hs (by simp)
  | cancel i =>
    simp only [Environment.step] at hs
    split at hs
    · rename_i write hc
      obtain rfl := Option.some.inj hs
      refine .advance hc (h.follows_same ?_ ?_ rfl rfl rfl ?_)
      · simp [Caller.reads, Caller.holds]
      · simp [Caller.writes, Caller.holds]
      · simp [Caller.registered, Caller.waits]
    · exact absurd hs (by simp)
  | deregister i =>
    simp only [Environment.step] at hs
    split at hs
    · rename_i write acquired hc
      obtain rfl := Option.some.inj hs
      refine .advance hc ?_
      cases write with
      | true =>
        cases acquired with
        | _ =>
          refine h.follows_same rfl rfl rfl rfl rfl ?_
          simp [EnvironmentLock.deregister, Caller.registered, Caller.waits]
      | false =>
        cases acquired with
        | _ => exact h.follows_same rfl rfl rfl rfl rfl rfl
    · exact absurd hs (by simp)
  | release i =>
    simp only [Environment.step] at hs
    split at hs
    · rename_i write hc
      obtain rfl := Option.some.inj hs
      exact .advance hc (h.follows_release hfile hc)
    · exact absurd hs (by simp)
  | elsewhere o =>
    obtain rfl := Option.some.inj hs
    exact .elsewhere (hfile.elsewhere _ o)

/-- **Every step keeps the counters.** -/
theorem step (hfile : fileLock.Lawful) (h : Inv fileLock s) {e : LockEvent O}
    (hs : s.step fileLock e = some s') : Inv fileLock s' := by
  cases h.stepTo hfile hs with
  | call =>
    refine ⟨?_, ?_, ?_, ?_, h.apart⟩
    · simp [h.readers, Caller.reads, Caller.holds]
    · simp [h.writer, Caller.writes, Caller.holds]
    · simp [h.file, Caller.writes, Caller.holds]
    · simp [h.waiting, Caller.registered, Caller.waits]
  | @advance i c c' l hc hl =>
    have hreads := countP_set Caller.reads hc c'
    have hwrites := countP_set Caller.writes hc c'
    have hregistered := countP_set Caller.registered hc c'
    refine ⟨?_, ?_, ?_, ?_, hl.apart⟩
    · show l.readers = (((s.callers.set i c').countP Caller.reads : ℕ) : ℤ)
      have hold := h.readers
      have hnew := hl.readers
      omega
    · show l.writer.toNat = (s.callers.set i c').countP Caller.writes
      have hold := h.writer
      have hnew := hl.writer
      omega
    · show fileLock.lockCounter l.fileLock = (s.callers.set i c').countP Caller.writes
      have hold := h.file
      have hnew := hl.file
      omega
    · show l.writersWaiting = (((s.callers.set i c').countP Caller.registered : ℕ) : ℤ)
      have hold := h.waiting
      have hnew := hl.waiting
      omega
  | elsewhere hf => exact ⟨h.readers, h.writer, by rw [hf, h.file], h.waiting, h.apart⟩

end Inv

theorem inv_run (hfile : fileLock.Lawful) {s : Environment F}
    (h : Run (environment fileLock) (fun _ _ => True) s) : Inv fileLock s :=
  h.invariant (inv_init hfile) fun _ _ _ hinv _ hs => hinv.step hfile hs

/-! ## What the lock is for -/

variable (fileLock)

/-- What the lock promises to its callers. -/
structure Excluded (s : Environment F) : Prop where
  /-- A writer holds the lock alone. -/
  alone : ∀ (i j : ℕ) (c c' : Caller), s.callers[i]? = some c → s.callers[j]? = some c' →
    c.writes = true → c'.holds = true → i = j
  /-- The lock file is held while a writer holds the lock. -/
  file : fileLock.isLocked s.lock.fileLock ↔ ∃ c ∈ s.callers, c.writes = true
  readers : s.lock.readers = s.callers.countP Caller.reads
  waiting : s.lock.writersWaiting = s.callers.countP Caller.registered
  /-- No count is left behind. -/
  drained : (∀ c ∈ s.callers, c.acquiring = false) → s.lock.writersWaiting = 0
  /-- No reader gets in while a writer waits. -/
  deferring : ∀ (e : LockEvent O) (s' : Environment F) (i : ℕ) (c c' : Caller),
    s.step fileLock e = some s' → s.callers[i]? = some c → s'.callers[i]? = some c' →
    c.reads = false → c'.reads = true → ∀ w ∈ s.callers, w.registered = false

variable {fileLock}

theorem Inv.alone {s : Environment F} (h : Inv fileLock s) {i j : ℕ} {c c' : Caller}
    (hc : s.callers[i]? = some c) (hc' : s.callers[j]? = some c') (hwrites : c.writes = true)
    (hholds : c'.holds = true) : i = j := by
  obtain ⟨hwriter, -, -⟩ := h.writer_holds hc hwrites
  cases hwrite : c'.write with
  | true =>
    have hone : s.callers.countP Caller.writes ≤ 1 := by
      rw [← h.writer, hwriter]
      exact Nat.le_refl 1
    exact eq_of_countP_le_one hone hc hc' hwrites (by simp [Caller.writes, hwrite, hholds])
  | false =>
    have hnone := h.reader_holds hc' (by simp [Caller.reads, hwrite, hholds])
    rw [hwriter] at hnone
    exact absurd hnone (by simp)

/-- While no writer is counted as waiting, none is registered. -/
theorem Inv.registered {s : Environment F} (h : Inv fileLock s) (hzero : s.lock.writersWaiting = 0) :
    ∀ w ∈ s.callers, w.registered = false := by
  intro w hw
  cases hregistered : w.registered with
  | false => rfl
  | true =>
    have hpos : 0 < s.callers.countP Caller.registered := List.countP_pos_iff.2 ⟨w, hw, hregistered⟩
    have hcount := h.waiting
    omega

theorem Inv.excluded (hfile : fileLock.Lawful) {s : Environment F} (h : Inv fileLock s) :
    Excluded fileLock s where
  alone _ _ _ _ hc hc' hwrites hholds := h.alone hc hc' hwrites hholds
  file := by
    unfold FileLock.isLocked
    rw [h.file, List.countP_pos_iff]
  readers := h.readers
  waiting := h.waiting
  drained hnone := by
    rw [h.waiting, List.countP_eq_zero.2]
    · rfl
    · intro c hc hregistered
      have hacquiring := Caller.acquiring_of_registered hregistered
      rw [hnone c hc] at hacquiring
      exact absurd hacquiring (by simp)
  deferring := by
    intro e s' j c c' hs hc hc' hout hin
    apply h.registered
    cases h.stepTo hfile hs with
    | call =>
      -- a caller that is there stays as it is
      obtain ⟨hj, -⟩ := List.getElem?_eq_some_iff.1 hc
      rw [List.getElem?_append_left hj, hc] at hc'
      obtain rfl := Option.some.inj hc'
      rw [hout] at hin
      exact absurd hin (by simp)
    | @advance i d d' l hd hl =>
      by_cases hij : i = j
      · subst hij
        rw [hc] at hd
        obtain rfl := Option.some.inj hd
        obtain ⟨hi, -⟩ := List.getElem?_eq_some_iff.1 hc
        rw [List.getElem?_set_self hi] at hc'
        obtain rfl := Option.some.inj hc'
        exact hl.deferring hout hin
      · rw [List.getElem?_set_ne hij, hc] at hc'
        obtain rfl := Option.some.inj hc'
        rw [hout] at hin
        exact absurd hin (by simp)
    | elsewhere hf =>
      rw [hc] at hc'
      obtain rfl := Option.some.inj hc'
      rw [hout] at hin
      exact absurd hin (by simp)

/-- **The lock holds in every run**, whoever is cancelled and whatever other processes do with the
lock file. -/
theorem excluded_run (hfile : fileLock.Lawful) {s : Environment F}
    (h : Run (environment fileLock) (fun _ _ => True) s) : Excluded fileLock s :=
  (inv_run hfile h).excluded hfile

/-- Another process has the lock file, and a writer gives up while a reader waits for it. -/
theorem excluded_cancelledWriter : ∃ s : Environment (ℕ × Bool),
    s.callers = [⟨true, .outside⟩, ⟨false, .inside⟩] ∧ s.lock.readers = 1 ∧
      s.lock.writersWaiting = 0 ∧ Excluded lockFile s := by
  have hafter : ((environment lockFile).after (fun _ _ => True)
      [.elsewhere true, .call true, .attempt 0, .register 0, .call false, .attempt 1, .register 1,
        .poll 1, .cancel 0, .deregister 0, .poll 1, .deregister 1]).map
      (fun s => (s.callers, s.lock.readers, s.lock.writersWaiting)) =
        some ([⟨true, .outside⟩, ⟨false, .inside⟩], 1, 0) := by decide
  obtain ⟨s, hs, hseen⟩ := Option.map_eq_some_iff.1 hafter
  obtain ⟨hcallers, hcounts⟩ := Prod.mk.inj hseen
  obtain ⟨hreaders, hwaiting⟩ := Prod.mk.inj hcounts
  exact ⟨s, hcallers, hreaders, hwaiting, excluded_run lockFile_lawful (run_after hs)⟩

/-- Nobody is locked out for good: when all have left, a reader gets in at once. -/
theorem Inv.reader_admitted (hfile : fileLock.Lawful) {s : Environment F} (h : Inv fileLock s)
    (hidle : ∀ c ∈ s.callers, c.phase = .outside) :
    (s.lock.tryAcquire fileLock false).1 = .acquired := by
  have hwriter : s.lock.writer = false := by
    have hcount := h.writer
    rw [List.countP_eq_zero.2] at hcount
    · simpa using hcount
    · intro c hc hwrites
      exact absurd hwrites (by simp [Caller.writes, Caller.holds, hidle c hc])
  have hwaiting : s.lock.writersWaiting = 0 := by
    apply (h.excluded hfile).drained
    intro c hc
    simp [Caller.acquiring, hidle c hc]
  simp [EnvironmentLock.tryAcquire, hwriter, hwaiting]

end

end PartCAD.Sandbox
