import PartCAD.Lib.Program
import PartCAD.Lib.Repr
import PartCAD.Lib.Run

/-!
# Git imports

An imported repository is kept in a cache directory: it is cloned there once, and refreshed when it
is a day old or of another revision.  A guard file beside the work tree records that it is there.

* `Copy`, `Call`, `effect` : what the directory holds, and what the calls to `git` and to the file
  system do to it;
* `Does` : the calls that can do one thing only;
* `cloneRepo`, `refresh`, `cloneOrUpdateRepo` : the program of one run;
* `history` : runs one after the other, each of which may be stopped between any two calls.
-/

namespace PartCAD.GitClone

open PartCAD.Lib PartCAD.Lib.Text

/-! ## The import -/

/-- What is fixed for an import. -/
structure Import (Commit : Type) where
  cacheDir : Str
  /-- The first digits of the hash of the address. -/
  digest : Str
  revision : Option Str
  relPath : Option Str
  /-- The transport answers a shallow request. -/
  supportsShallow : Bool
  isRetryable : Str → Bool
  isAuthFailure : Str → Bool
  /-- `str(oid)` -/
  hex : Commit → Str

/-- `user_config`, which is read anew in every run. -/
structure Settings where
  forceUpdate : Bool
  maxRetries : ℤ

/-- `os.path.join` -/
def joinPath (a b : Str) : Str :=
  if b.head? = some '/' then b
  else if a = [] ∨ a.getLast? = some '/' then a ++ b
  else a ++ '/' :: b

section

variable {Commit : Type} (i : Import Commit)

def Import.repoHash : Str :=
  match i.revision with
  | none => i.digest
  | some revision => i.digest ++ '-' :: replace ['/'] "-slash-".toList revision

def Import.cachePath : Str := joinPath i.cacheDir i.repoHash

/-- The path that a run returns. -/
def Import.path : Str :=
  match i.relPath with
  | none => i.cachePath
  | some relPath => joinPath i.cachePath relPath

end

def isHex (c : Char) : Bool := ('0' ≤ c ∧ c ≤ '9') ∨ ('a' ≤ c ∧ c ≤ 'f')

def looksLikeCommitId (revision : Str) : Bool :=
  let s := strip revision
  (7 ≤ s.length ∧ s.length ≤ 40) && s.all isHex

structure CloneOptions where
  revision : Option Str
  depth : ℕ
  allBranches : Bool

def CloneOptions.singleCommit (options : CloneOptions) : Bool :=
  options.revision.any looksLikeCommitId

def getCloneOptions (revision : Option Str) : CloneOptions := ⟨revision, 1, false⟩

def getFallbackCloneOptions (revision : Option Str) : CloneOptions :=
  if revision.any looksLikeCommitId then ⟨none, 0, true⟩ else ⟨revision, 0, false⟩

/-! ## The cache directory -/

structure Guard where
  text : Str
  time : ℤ

/-- A cache directory. -/
structure Copy (Commit : Type) where
  /-- There is a repository that can be opened. -/
  opens : Bool
  /-- What `HEAD` leads to, unless it is unborn. -/
  head : Option Commit
  /-- The commit that the whole work tree is a checkout of, unless it is written in part. -/
  tree : Option Commit
  /-- `.partcad.git.cloned` -/
  guard : Option Guard

/-- `None` where there is no cache directory. -/
abbrev Disk (Commit : Type) := Option (Copy Commit)

inductive Exn where
  /-- One of `GIT_ERRORS`. -/
  | git (message : Str)
  | fileNotFound
  | runtimeError (message : Str)

/-- What a remote is asked for, and whether the ambient config is honoured meanwhile. -/
structure Request where
  revision : Option Str
  depth : ℕ
  allBranches : Bool
  ambient : Bool

/-- The calls of a run.  What takes a library several steps is several calls. -/
inductive Call (Commit : Type) where
  | isConnected
  | pathExists
  | time
  | getmtime
  | readGuard
  /-- `open(guard_path, "w")` -/
  | openGuard
  | writeGuard (text : Str)
  | utime (now : ℤ)
  /-- `rmtree`, part of the way -/
  | rmtreeStart
  | rmtree
  | initStart
  | initRepository
  | openRepository
  | headTarget
  /-- The target of a symbolic `origin/HEAD` -/
  | originHead
  | headIsDetached
  | headShorthand
  | fetch (request : Request)
  /-- The lines of `FETCH_HEAD`, each split at its tabs -/
  | readFetchHead
  | peel (oid : Str)
  /-- `revparse_single` and `peel`, or the text of a `KeyError` or `ValueError` -/
  | revparse (name : Str)
  | get (commit : Commit)
  | cloneStart
  | cloneRepository (request : Request)
  /-- The work tree is no longer what it was. -/
  | checkoutStart
  | checkoutTree (commit : Commit)
  | setHead (commit : Commit)

@[reducible] def Call.Answer {Commit : Type} : Call Commit → Type
  | .isConnected | .pathExists | .headIsDetached | .get _ => Bool
  | .time | .getmtime => ℤ
  | .readGuard | .headShorthand => Str
  | .headTarget | .peel _ => Commit
  | .originHead => Option Str
  | .readFetchHead => List (List Str)
  | .revparse _ => Except Str Commit
  | _ => Unit

/-- How a call ends, where the directory does not decide it. -/
inductive Fate (Commit : Type) where
  | yes
  | no
  | at (time : ℤ)
  | name (name : Str)
  | commit (commit : Commit)
  | entries (entries : List (List Str))
  /-- A clone has left `HEAD` there. -/
  | cloned (head : Option Commit)
  /-- What is there part of the way -/
  | leaves (opens : Bool) (head tree : Option Commit)
  | fails (message : Str)

section

variable {Commit : Type}

/-- The guard file, if there is one. -/
def guardOf (disk : Disk Commit) : Option Guard := disk.bind (·.guard)

/-- The call that needs the guard file. -/
def withGuard {α : Type} (disk : Disk Commit) (f : Copy Commit → Guard → α × Copy Commit) :
    Except Exn α × Disk Commit :=
  match disk with
  | none => (.error .fileNotFound, none)
  | some copy =>
    match copy.guard with
    | none => (.error .fileNotFound, some copy)
    | some guard => (.ok (f copy guard).1, some (f copy guard).2)

/-- **What a call answers and does to the directory.** -/
@[grind =]
def effect : (c : Call Commit) → Disk Commit → Fate Commit → Option (Except Exn c.Answer × Disk Commit)
  | .isConnected, disk, .yes => some (.ok true, disk)
  | .isConnected, disk, .no => some (.ok false, disk)
  | .pathExists, disk, .yes => some (.ok disk.isSome, disk)
  | .time, disk, .at now => some (.ok now, disk)
  | .getmtime, disk, .yes => some (withGuard disk fun copy guard => (guard.time, copy))
  | .readGuard, disk, .yes => some (withGuard disk fun copy guard => (guard.text, copy))
  | .openGuard, none, .at _ => some (.error .fileNotFound, none)
  | .openGuard, some copy, .at now => some (.ok (), some { copy with guard := some ⟨[], now⟩ })
  | .writeGuard text, disk, .at now =>
    some (withGuard disk fun copy _ => ((), { copy with guard := some ⟨text, now⟩ }))
  | .utime now, disk, .yes =>
    some (withGuard disk fun copy guard => ((), { copy with guard := some { guard with time := now } }))
  | .rmtreeStart, disk, .leaves opens head tree =>
    some (.ok (), disk.map fun copy => ⟨opens, head, tree, copy.guard⟩)
  | .rmtree, _, .yes => some (.ok (), none)
  | .initStart, disk, .yes => some (.ok (), some (disk.getD ⟨false, none, none, none⟩))
  | .initRepository, disk, .yes =>
    some (.ok (), disk.map fun copy => { copy with opens := true })
  | .openRepository, none, .fails message => some (.error (.git message), none)
  | .openRepository, some copy, .fails message =>
    if copy.opens then none else some (.error (.git message), some copy)
  | .openRepository, some copy, .yes => if copy.opens then some (.ok (), some copy) else none
  | .headTarget, disk, .yes => (disk.bind (·.head)).map fun head => (.ok head, disk)
  | .headTarget, disk, .fails message =>
    if (disk.bind (·.head)).isSome then none else some (.error (.git message), disk)
  | .originHead, disk, .name target => some (.ok (some target), disk)
  | .originHead, disk, .no => some (.ok none, disk)
  | .headIsDetached, disk, .yes => some (.ok true, disk)
  | .headIsDetached, disk, .no => some (.ok false, disk)
  | .headShorthand, disk, .name branch => some (.ok branch, disk)
  | .fetch _, disk, .yes => some (.ok (), disk)
  | .fetch _, disk, .fails message => some (.error (.git message), disk)
  | .readFetchHead, disk, .entries entries => some (.ok entries, disk)
  | .peel _, disk, .commit commit => some (.ok commit, disk)
  | .peel _, disk, .fails message => some (.error (.git message), disk)
  | .revparse _, disk, .commit commit => some (.ok (.ok commit), disk)
  | .revparse _, disk, .name message => some (.ok (.error message), disk)
  | .revparse _, disk, .fails message => some (.error (.git message), disk)
  | .get _, disk, .yes => some (.ok true, disk)
  | .get _, disk, .no => some (.ok false, disk)
  | .cloneStart, disk, .leaves opens head tree =>
    some (.ok (), some ⟨opens, head, tree, guardOf disk⟩)
  | .cloneRepository _, disk, .cloned head => some (.ok (), some ⟨true, head, head, guardOf disk⟩)
  | .cloneRepository _, disk, .fails message => some (.error (.git message), disk)
  | .checkoutStart, disk, .yes => some (.ok (), disk.map fun copy => { copy with tree := none })
  | .checkoutTree commit, disk, .yes =>
    some (.ok (), disk.map fun copy => { copy with tree := some commit })
  | .setHead commit, disk, .yes =>
    some (.ok (), disk.map fun copy => { copy with head := some commit })
  | _, _, _ => none

/-! ## Calls that can do one thing only -/

/-- Whatever its fate, the call answers that and leaves the directory so. -/
def Does (c : Call Commit) (disk : Disk Commit) (a : c.Answer) (disk' : Disk Commit) : Prop :=
  ∀ fate r s, effect c disk fate = some (r, s) → r = .ok a ∧ s = disk'

variable {disk : Disk Commit} {copy : Copy Commit}

theorem does_of_yes {c : Call Commit} {a : c.Answer} {disk' : Disk Commit}
    (hyes : effect c disk .yes = some (.ok a, disk'))
    (honly : ∀ fate r s, effect c disk fate = some (r, s) → fate = .yes) : Does c disk a disk' := by
  intro fate r s h
  obtain rfl := honly fate r s h
  rw [hyes] at h
  obtain ⟨rfl, rfl⟩ := Prod.mk.inj (Option.some.inj h)
  exact ⟨rfl, rfl⟩

theorem does_pathExists : Does .pathExists disk disk.isSome disk :=
  does_of_yes rfl fun fate _ _ h => by cases fate <;> first | rfl | cases h

theorem does_getmtime {guard : Guard} (hguard : copy.guard = some guard) :
    Does .getmtime (some copy) guard.time (some copy) :=
  does_of_yes (by simp [effect, withGuard, hguard]) fun fate _ _ h => by
    cases fate <;> first | rfl | cases h

theorem does_readGuard {guard : Guard} (hguard : copy.guard = some guard) :
    Does .readGuard (some copy) guard.text (some copy) :=
  does_of_yes (by simp [effect, withGuard, hguard]) fun fate _ _ h => by
    cases fate <;> first | rfl | cases h

theorem does_utime {guard : Guard} (hguard : copy.guard = some guard) (now : ℤ) :
    Does (.utime now) (some copy) () (some { copy with guard := some { guard with time := now } }) :=
  does_of_yes (by simp [effect, withGuard, hguard]) fun fate _ _ h => by
    cases fate <;> first | rfl | cases h

theorem does_rmtree : Does .rmtree disk () none :=
  does_of_yes rfl fun fate _ _ h => by cases fate <;> first | rfl | cases h

theorem does_initStart : Does .initStart disk () (some (disk.getD ⟨false, none, none, none⟩)) :=
  does_of_yes rfl fun fate _ _ h => by cases fate <;> first | rfl | cases h

theorem does_initRepository : Does .initRepository (some copy) () (some { copy with opens := true }) :=
  does_of_yes rfl fun fate _ _ h => by cases fate <;> first | rfl | cases h

theorem does_openRepository (hopens : copy.opens = true) :
    Does .openRepository (some copy) () (some copy) :=
  does_of_yes (by simp [effect, hopens]) fun fate _ _ h => by
    cases fate with
    | yes => rfl
    | fails message => exact absurd h (by simp [effect, hopens])
    | _ => cases h

theorem does_headTarget {head : Commit} (hhead : copy.head = some head) :
    Does .headTarget (some copy) head (some copy) :=
  does_of_yes (by simp [effect, hhead]) fun fate _ _ h => by
    cases fate with
    | yes => rfl
    | fails message => exact absurd h (by simp [effect, hhead])
    | _ => cases h

theorem does_checkoutStart : Does .checkoutStart (some copy) () (some { copy with tree := none }) :=
  does_of_yes rfl fun fate _ _ h => by cases fate <;> first | rfl | cases h

theorem does_checkoutTree (commit : Commit) :
    Does (.checkoutTree commit) (some copy) () (some { copy with tree := some commit }) :=
  does_of_yes rfl fun fate _ _ h => by cases fate <;> first | rfl | cases h

theorem does_setHead (commit : Commit) :
    Does (.setHead commit) (some copy) () (some { copy with head := some commit }) :=
  does_of_yes rfl fun fate _ _ h => by cases fate <;> first | rfl | cases h

/-! ## The program of a run -/

abbrev Git (Commit α : Type) := Program (Call Commit) Call.Answer Exn α

open Program (raised tryCatch)

def ask (c : Call Commit) : Git Commit c.Answer := Program.perform c

/-- `except GIT_ERRORS as e` -/
def exceptGit {α : Type} (body : Git Commit α) (handler : Str → Git Commit α) : Git Commit α :=
  tryCatch body fun e =>
    match e with
    | .git message => handler message
    | e => raised e

/-- `shutil.rmtree(cache_path, ignore_errors=True)` -/
def rmtree : Git Commit Unit := do
  ask .rmtreeStart
  ask .rmtree

/-- The candidates of `_local_commit`, one after the other. -/
def firstCommit : List Str → Git Commit (Option Commit)
  | [] => pure none
  | candidate :: candidates => do
    match ← ask (.revparse candidate) with
    | .ok commit => pure (some commit)
    | .error _ => firstCommit candidates

def localCommit (revision : Str) : Git Commit (Option Commit) :=
  firstCommit ["refs/tags/".toList ++ revision, "refs/remotes/origin/".toList ++ revision, revision]

/-- The line is one to be merged. -/
def forMerge (fields : List Str) : Bool := (fields[1]?.getD [] |> strip).isEmpty

def fetchedCommit (revision : Str) : Git Commit Commit := do
  let entries ← ask .readFetchHead
  match entries.find? forMerge with
  | some fields => ask (.peel (strip (fields.headD [])))
  | none => do
    match ← localCommit revision with
    | some commit => pure commit
    | none =>
      raised (.git ("Revision '".toList ++ revision ++ "' was not found on the remote".toList))

variable (i : Import Commit)

/-- `depth if _supports_shallow(remote.url) else 0` -/
def shallowDepth (depth : ℕ) : ℕ := if i.supportsShallow then depth else 0

def fetch (revision : Str) (depth : ℕ) (ambient : Bool) : Git Commit Commit := do
  ask (.fetch ⟨some revision, shallowDepth i depth, false, ambient⟩)
  fetchedCommit revision

/-- `checkout_tree` and `set_head`, which is also what a hard reset does. -/
def checkoutCommit (commit : Commit) : Git Commit Unit := do
  ask .checkoutStart
  ask (.checkoutTree commit)
  ask (.setHead commit)

/-- `_checkout` of the commit that was fetched -/
def checkoutFetched (commit : Commit) : Git Commit Unit := do
  if ← ask (.get commit) then checkoutCommit commit
  else
    raised (.git ("Revision '".toList ++ i.hex commit ++ "' is missing from the repository".toList))

/-- `_checkout` of a revision by its name -/
def checkoutRevision (revision : Str) : Git Commit Unit := do
  match ← ask (.revparse revision) with
  | .ok commit => checkoutCommit commit
  | .error message => raised (.git message)

/-- `_clone` -/
def clone (options : CloneOptions) (ambient : Bool) : Git Commit Unit := do
  ask .cloneStart
  ask (.cloneRepository ⟨none, shallowDepth i options.depth, options.allBranches, ambient⟩)

/-- A request for one revision, and its checkout -/
def initFetch (revision : Str) (depth : ℕ) (ambient : Bool) : Git Commit Unit := do
  let commit ← fetch i revision depth ambient
  checkoutFetched i commit

def initRepository : Git Commit Unit := do
  ask .initStart
  ask .initRepository

def cloneSingleCommit (revision : Str) (ambient : Bool) : Git Commit Unit := do
  initRepository
  exceptGit (initFetch i revision (getCloneOptions (some revision)).depth ambient) fun message =>
    if i.isRetryable message then raised (.git message)
    else do
      rmtree
      clone i (getFallbackCloneOptions (some revision)) ambient
      checkoutRevision revision

/-- `_download` -/
def download (options : CloneOptions) (ambient : Bool) : Git Commit Unit :=
  match options.revision with
  | none => clone i options ambient
  | some revision => do
    initRepository
    initFetch i revision options.depth ambient

/-- `attempt` of `_clone_repo` -/
def attempt (body : Git Commit Unit) : Git Commit Unit :=
  exceptGit body fun message => do
    rmtree
    raised (.git message)

/-- `_clone_repo` -/
def cloneRepo (options : CloneOptions) (ambient : Bool) : Git Commit Unit :=
  match options.revision, options.singleCommit with
  | some revision, true => attempt (cloneSingleCommit i revision ambient)
  | _, _ =>
    exceptGit (attempt (download i options ambient)) fun message =>
      if i.isRetryable message then raised (.git message)
      else attempt (download i (getFallbackCloneOptions options.revision) ambient)

/-- `with open(guard_path, "w") as f: f.write(text)` -/
def writeGuard (text : Str) : Git Commit Unit := do
  ask .openGuard
  ask (.writeGuard text)

/-- The guard of a new clone -/
def recordClone : Git Commit Unit := do
  match i.revision with
  | some revision => writeGuard revision
  | none => do
    let after ← ask .headTarget
    writeGuard (i.hex after)

/-- `_clone_ignoring_ambient_config` -/
def cloneIgnoringAmbientConfig : Git Commit Bool := do
  let filled ← exceptGit (do cloneRepo i (getCloneOptions i.revision) false; pure true)
    fun _ => pure false
  if filled then do
    recordClone i
    pure true
  else pure false

/-- `str.removeprefix` -/
def removeprefix (start s : Str) : Str := if start.isPrefixOf s then s.drop start.length else s

/-- `_default_branch` -/
def defaultBranch : Git Commit Str := do
  match ← ask .originHead with
  | some target => pure ( removeprefix "refs/remotes/origin/".toList target)
  | none => do
    if ← ask .headIsDetached then
      raised (.git "Could not determine the default branch of 'origin'".toList)
    else ask .headShorthand

/-- Seconds -/
def day : ℤ := 24 * 3600

variable [DecidableEq Commit] (settings : Settings)

/-- The part that follows a fetch: `reset`, `utime`, and the guard where `HEAD` has moved. -/
def takeFetched (now : ℤ) (before fetched : Commit) : Git Commit Unit := do
  checkoutCommit fetched
  ask (.utime now)
  let after ← ask .headTarget
  if before ≠ after ∨ settings.forceUpdate then
    writeGuard (i.revision.getD (i.hex after))
  else pure ()

/-- The guard file is a day old, which is not asked in a forced update. -/
def isDue (now : ℤ) : Git Commit Bool := do
  if settings.forceUpdate then pure true
  else do
    let time ← ask .getmtime
    pure (now - time > day)

/-- What the guard file says, which a forced update takes for nothing. -/
def readGuard : Git Commit Str := do
  if settings.forceUpdate then pure [] else ask .readGuard

/-- The update of a copy that is there. -/
def refresh : Git Commit Unit := do
  let now ← ask .time
  match i.revision with
  | none => do
    if ← isDue settings now then do
      ask .openRepository
      let before ← ask .headTarget
      let branch ← defaultBranch
      let fetched ← fetch i branch 1 true
      takeFetched i settings now before fetched
    else pure ()
  | some revision => do
    let guard ← readGuard settings
    let time ← ask .getmtime
    let stale := !looksLikeCommitId revision && decide (now - time > day)
    if guard ≠ revision ∨ stale then do
      ask .openRepository
      let before ← ask .headTarget
      let fetched ← fetch i revision 1 true
      takeFetched i settings now before fetched
    else pure ()

/-- The first clone, with the guard written after it. -/
def firstClone : Git Commit Unit := do
  cloneRepo i (getCloneOptions i.revision) true
  recordClone i

/-- What follows a clone that failed; `true` leaves the loop. -/
def cloneFailed (attempt : ℤ) (message : Str) : Git Commit Bool :=
  if i.isRetryable message ∧ attempt < settings.maxRetries then pure false
  else if i.isAuthFailure message then do
    if ← cloneIgnoringAmbientConfig i then pure true
    else raised (.runtimeError ("Failed to clone repo: ".toList ++ message))
  else raised (.runtimeError ("Failed to clone repo: ".toList ++ message))

/-- The loop, with so many attempts left; `attempt` counts up from 0 to `max_retries`. -/
def attempts : ℕ → Git Commit Unit
  | 0 => pure ()
  | left + 1 => do
    if ← ask .isConnected then do
      if ← ask .pathExists then do
        -- whatever the error is, the copy is left as it is, and there may be another attempt
        let stop ← exceptGit (do refresh i settings; pure true) fun _ => pure false
        if stop then pure () else attempts left
      else do
        let stop ← exceptGit (do firstClone i; pure true) (cloneFailed i settings (settings.maxRetries - left))
        if stop then pure () else attempts left
    else pure ()

/-- `_clone_or_update_repo`, with the locks held -/
def cloneOrUpdateRepo : Git Commit Str := do
  attempts i settings (settings.maxRetries + 1).toNat
  pure i.path

/-! ## Runs, one after the other -/

/-- The run that holds the locks, or that was the last to hold them, and the cache directory. -/
structure State (Commit : Type) where
  run : Option (Git Commit Str)
  disk : Disk Commit

inductive Event (Commit : Type) where
  | start (settings : Settings)
  | next (fate : Fate Commit)
  /-- The process is killed, or an exception is raised that is no git error. -/
  | stop

def State.pending (s : State Commit) : Option (Call Commit) := s.run.bind (·.pending)

/-- No run holds the locks. -/
def State.idle (s : State Commit) : Bool := s.pending.isNone

def step (s : State Commit) : Event Commit → Option (State Commit)
  | .start settings => if s.idle then some { s with run := some (cloneOrUpdateRepo i settings) } else none
  | .next fate =>
    match s.run with
    | none => none
    | some run => (Program.advance effect fate (run, s.disk)).map fun next => ⟨some next.1, next.2⟩
  | .stop => if s.idle then none else some { s with run := none }

def history : System (State Commit) (Event Commit) where
  init := ⟨none, none⟩
  step := step i

end

end PartCAD.GitClone
