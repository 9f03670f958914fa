import PartCAD.Lib.Run
import PartCAD.Sandbox.Requirements

/-!
# A Python runtime and its environments

A runtime has an environment of its own, and one for every session that needs more.  Calls ensure
that a requirement is installed, or run a command, for which the session's environment is created
and filled first; they hold the lock of an environment meanwhile.

* `environmentPath`, `getVenvPythonPath` : where a command runs;
* `Disk` : what is in an environment, with the files that record the installs;
* `Runtime.step` : the calls get on, one at a time, from one point where they wait to the next;
* `StepTo`, `stepTo` : what a step can do;
* `Grows` : what no step takes back.
-/

namespace PartCAD.Sandbox

open PartCAD.Lib

/-! ## Environments -/

/-- What is fixed for a runtime. -/
structure Configuration (P : Type) where
  /-- `self.path` -/
  path : P
  /-- `self.exec_path` is known. -/
  execPath : Bool
  /-- The last name of the path starts with `VENV_PREFIX`. -/
  isVenv : P → Bool
  /-- `PC_PARTCAD_PACKAGE_SUB` -/
  localPackage : Option Str
  /-- What a new session is seeded with. -/
  seed : List Str
  lower : Str → Str
  /-- The marker of a requirement holds here. -/
  applies : Str → Bool

structure Session (P : Type) where
  path : P
  dirty : Bool
  deps : List Str
  installed : List Str

/-- `session_needs_install` of a session. -/
def Session.needsInstall {P : Type} (session : Session P) : Bool :=
  session.dirty && !session.deps.all fun dep => dep ∈ session.installed

inductive Interpreter (P : Type) where
  | execPath
  /-- Inside an environment; the flag says that it is a v-env. -/
  | inside (path : P) (useVenv : Bool)

section

variable {P : Type} [DecidableEq P] (config : Configuration P)

/-- `get_local_partcad_pkg`, where the requirement is `partcad`. -/
def substitute (dep : Str) : Str :=
  if dep = "partcad".toList then config.localPackage.getD dep else dep

def reconcile (requirement : Str) : Str := (reconcileRequirement config.lower requirement).1

/-- `environment_path` -/
def environmentPath (session : Option (Session P)) (path : Option P) : P :=
  match path, session with
  | some path, _ => path
  | none, some session => if session.dirty then session.path else config.path
  | none, none => config.path

/-- `get_venv_python_path` -/
def getVenvPythonPath (session : Option (Session P)) (path : Option P) : Interpreter P :=
  match path with
  | none =>
    match session with
    | none => if config.execPath then .execPath else .inside config.path false
    | some session =>
      if session.dirty then .inside session.path true
      else if config.execPath then .execPath
      else .inside config.path false
  | some path =>
    if config.isVenv path then .inside path true
    else if config.execPath ∧ path = config.path then .execPath
    else .inside path false

/-- The environment that an interpreter runs out of. -/
def Interpreter.environment : Interpreter P → P
  | .execPath => config.path
  | .inside path _ => path

/-- **The two choices are one.** -/
theorem environment_getVenvPythonPath (session : Option (Session P)) (path : Option P) :
    (getVenvPythonPath config session path).environment config =
      environmentPath config session path := by
  unfold getVenvPythonPath environmentPath
  cases path with
  | none =>
    cases session with
    | none =>
      simp only
      split
      · rfl
      · rfl
    | some session =>
      simp only
      split
      · rfl
      · split
        · rfl
        · rfl
  | some path =>
    simp only
    split
    · rfl
    · split
      · rename_i hpath
        exact hpath.2.symm
      · rfl

end

/-! ## What is installed -/

/-- An environment: its directory and the files that record the installs, what `pip` finds there,
and what has happened in it. -/
structure Disk where
  onDisk : Bool
  guard : Str → Bool
  reassert : Str → Bool
  /-- `pip` takes the requirement as satisfied. -/
  present : Str → Bool
  /-- Another package has overwritten files of this one since they were installed. -/
  overwritten : Str → Bool
  /-- An install of the requirement has succeeded. -/
  succeeded : Str → Bool
  /-- An install of the requirement has been started. -/
  attempted : Str → Bool

namespace Disk

/-- `installed_onced` -/
def installedOnced (d : Disk) (requirement : Str) (force : Bool) : Bool :=
  !force && d.guard requirement

/-- What two requirements have in common that differ in the marker only. -/
def body (requirement : Str) : Str := (splitMarker requirement).1

def attempt (d : Disk) (requirement : Str) : Disk :=
  { d with attempted := fun r => r = requirement || d.attempted r }

/-- What `pip install` does, given its exit status: it fails, or installs, unless the requirement is
there already and the install is not forced. -/
def pipInstall (applies : Str → Bool) (lower : Str → Str) (d : Disk) (requirement : Str)
    (force : Bool) (status : ℤ) : Disk :=
  if status ≠ 0 then d
  else
    let d := { d with succeeded := fun r => r = requirement || d.succeeded r }
    if applies requirement ∧ (force ∨ d.present requirement = false) then
      { d with
        present := fun r => body r = body requirement || d.present r
        overwritten := fun r =>
          overwrites lower requirement r || (d.overwritten r && body r ≠ body requirement) }
    else d

/-- `record_install` -/
def recordInstall (d : Disk) (requirement : Str) : Disk :=
  { d with
    guard := fun r =>
      r ∉ invalidates requirement && (r = requirement || d.guard r)
    reassert := fun r =>
      r ∈ invalidates requirement || (r ≠ requirement && d.reassert r) }

end Disk

/-! ## Calls -/

/-- A call that takes a lock, with what it had read when it asked for it. -/
inductive Call (P : Type) where
  /-- `ensure_async_onced` of a requirement that is not installed. -/
  | ensure (requirement : Str) (path : P) (force : Bool)
  /-- `run_async_onced`, with the environment whose lock it takes, and whether to write. -/
  | run (session : Option ℕ) (path : Option P) (environment : P) (write : Bool)

/-- The lock that a call takes, and whether for writing. -/
def Call.lock {P : Type} : Call P → P × Bool
  | .ensure _ path _ => (path, true)
  | .run _ _ environment write => (environment, write)

/-- An install that a call makes. -/
structure Job (P : Type) where
  requirement : Str
  path : P
  force : Bool

/-- The loop of a run over what its session depends on: the session, where that is at home, whether
its environment has just been created, and how many requirements are done. -/
structure Provision (P : Type) where
  session : ℕ
  path : P
  created : Bool
  next : ℕ

/-- Where a call is. -/
inductive Stage (P : Type) where
  | waiting (c : Call P)
  /-- `ensure_async_onced` has its lock. -/
  | locked (requirement : Str) (path : P) (force : Bool)
  /-- `python -m venv` runs. -/
  | creating (c : Call P) (session : ℕ) (path : P)
  | provisioning (c : Call P) (loop : Provision P)
  /-- `pip install` runs, or has exited with a status. -/
  | installing (c : Call P) (job : Job P) (loop : Option (Provision P)) (status : Option ℤ)
  /-- `pip check` runs. -/
  | checking (c : Call P) (loop : Provision P)
  /-- The command of a run runs. -/
  | running (c : Call P) (interpreter : Interpreter P)
  | done

/-- The lock that is held. -/
def Stage.holds {P : Type} : Stage P → Option (P × Bool)
  | .waiting _ | .done => none
  | .locked _ path _ => some (path, true)
  | .creating c _ _ | .provisioning c _ | .installing c _ _ _ | .checking c _ | .running c _ =>
    some c.lock

structure Runtime (P : Type) where
  disk : P → Disk
  sessions : List (Session P)
  tasks : List (Stage P)

inductive RuntimeEvent (P : Type) where
  /-- `get_session` -/
  | getSession (path : P)
  /-- `ensure_async_onced` is called. -/
  | ensure (requirement : Str) (session : Option ℕ) (path : Option P) (force : Bool)
  /-- `run_async_onced` is called. -/
  | run (session : Option ℕ) (path : Option P)
  /-- A call that waits gets its lock. -/
  | acquire (i : ℕ)
  /-- A call gets on that does not wait for a process. -/
  | proceed (i : ℕ)
  /-- The process of a call exits; the flag says whether the directory it was to make is there. -/
  | exit (i : ℕ) (status : ℤ) (made : Bool)
  /-- The process of a call cannot be started, and the call raises. -/
  | fail (i : ℕ)

namespace Runtime

section

variable {P : Type} [DecidableEq P]

/-- `_try_acquire` would succeed: a writer is alone, and a reader gives way to writers that wait. -/
def free (s : Runtime P) (lock : P × Bool) : Bool :=
  s.tasks.all fun stage =>
    match stage.holds with
    | some held => held.1 ≠ lock.1 || (!held.2 && !lock.2)
    | none =>
      match stage with
      | .waiting c => c.lock ≠ (lock.1, true) || lock.2
      | _ => true

def move (s : Runtime P) (i : ℕ) (stage : Stage P) : Runtime P :=
  { s with tasks := s.tasks.set i stage }

def setDisk (s : Runtime P) (path : P) (d : Disk) : Runtime P :=
  { s with disk := Function.update s.disk path d }

def setSession (s : Runtime P) (k : ℕ) (session : Session P) : Runtime P :=
  { s with sessions := s.sessions.set k session }

variable (config : Configuration P)

/-- `install_async_onced_locked`, up to where it waits for `pip`. -/
def startInstall (s : Runtime P) (i : ℕ) (c : Call P) (job : Job P) (loop : Option (Provision P)) :
    Runtime P :=
  (s.setDisk job.path ((s.disk job.path).attempt job.requirement)).move i
    (.installing c job loop none)

/-- Where a call is once it has its lock. -/
def entered (s : Runtime P) : Call P → Stage P
  | .ensure requirement path force => .locked requirement path force
  | .run session path environment write =>
    let c := Call.run session path environment write
    match session.bind fun k => s.sessions[k]?.map fun value => (k, value) with
    | none => .running c (getVenvPythonPath config none path)
    | some (k, value) =>
      if value.needsInstall then
        if (s.disk value.path).onDisk then .provisioning c ⟨k, value.path, false, 0⟩
        else .creating c k value.path
      else .running c (getVenvPythonPath config (some value) path)

/-- A call asks for its lock, and has it if that is free. -/
def request (s : Runtime P) (c : Call P) : Runtime P :=
  { s with tasks := s.tasks ++ [if s.free c.lock then s.entered config c else .waiting c] }

/-- A session has what it depends on, and the command of the run is started. -/
def finishProvision (s : Runtime P) (i : ℕ) (c : Call P) (loop : Provision P) : Option (Runtime P) :=
  match c with
  | .ensure .. => none
  | .run _ path _ _ =>
    s.sessions[loop.session]?.map fun session =>
      let session := { session with installed := session.installed ++ session.deps }
      (s.setSession loop.session session).move i
        (.running c (getVenvPythonPath config (some session) path))

def step (s : Runtime P) : RuntimeEvent P → Option (Runtime P)
  | .getSession path => some { s with sessions := s.sessions ++ [⟨path, false, config.seed, []⟩] }
  | .ensure requirement session path force =>
    let requirement := reconcile config requirement
    let path := path.getD config.path
    let force := force || (s.disk path).reassert requirement
    match session with
    | some k =>
      s.sessions[k]?.map fun session =>
        s.setSession k
          { session with
            deps := session.deps ++ [requirement]
            dirty := session.dirty || !(s.disk path).installedOnced requirement false }
    | none =>
      if (s.disk path).installedOnced requirement force then some s
      else some (s.request config (.ensure requirement path force))
  | .run session path =>
    let value := session.bind fun k => s.sessions[k]?
    if session.isSome && value.isNone then none
    else
      some (s.request config (.run session path (environmentPath config value path)
        (value.any Session.needsInstall)))
  | .acquire i =>
    match s.tasks[i]? with
    | some (.waiting c) => if s.free c.lock then some (s.move i (s.entered config c)) else none
    | _ => none
  | .proceed i =>
    match s.tasks[i]? with
    | some (.locked requirement path force) =>
      if (s.disk path).installedOnced requirement force then some (s.move i .done)
      else
        some (s.startInstall i (.ensure requirement path force) ⟨requirement, path, force⟩ none)
    | some (.provisioning c loop) =>
      s.sessions[loop.session]?.bind fun session =>
        match session.deps[loop.next]? with
        | some dep =>
          let requirement := reconcile config (substitute config dep)
          let force := (s.disk loop.path).reassert requirement
          if (s.disk loop.path).installedOnced requirement force then
            some (s.move i (.provisioning c { loop with next := loop.next + 1 }))
          else some (s.startInstall i c ⟨requirement, loop.path, force⟩ (some loop))
        | none =>
          if loop.created then some (s.move i (.checking c loop))
          else s.finishProvision config i c loop
    | some (.installing c job loop (some _)) =>
      let s := s.setDisk job.path ((s.disk job.path).recordInstall job.requirement)
      match loop with
      | none => some (s.move i .done)
      | some loop => some (s.move i (.provisioning c { loop with next := loop.next + 1 }))
    | _ => none
  | .exit i status made =>
    match s.tasks[i]? with
    | some (.creating c k path) =>
      -- without the directory, the first command in it cannot be started
      if made then
        some ((s.setDisk path { s.disk path with onDisk := true }).move i
          (.provisioning c ⟨k, path, true, 0⟩))
      else some (s.move i .done)
    | some (.installing c job loop none) =>
      let d := (s.disk job.path).pipInstall config.applies config.lower job.requirement job.force
        status
      some ((s.setDisk job.path d).move i (.installing c job loop (some status)))
    | some (.checking c loop) => s.finishProvision config i c loop
    | some (.running _ _) => some (s.move i .done)
    | _ => none
  | .fail i =>
    match s.tasks[i]? with
    | some (.creating ..) | some (.installing _ _ _ none) | some (.checking ..) | some (.running ..) =>
      some (s.move i .done)
    | _ => none

end

end Runtime

/-- The runtime and its calls, from what is on disk when it starts. -/
def pythonRuntime {P : Type} [DecidableEq P] (config : Configuration P) (disk : P → Disk) :
    System (Runtime P) (RuntimeEvent P) :=
  ⟨⟨disk, [], []⟩, Runtime.step config⟩

/-! ## What a step can do -/

namespace Runtime

section

variable {P : Type} [DecidableEq P] (config : Configuration P)

/-- A step, by the stages that a call goes through. -/
inductive StepTo (s : Runtime P) : RuntimeEvent P → Runtime P → Prop where
  | getSession {path : P} :
      StepTo s (.getSession path) { s with sessions := s.sessions ++ [⟨path, false, config.seed, []⟩] }
  | declares {requirement : Str} {k : ℕ} {path : Option P} {force dirty : Bool}
      {session : Session P} : s.sessions[k]? = some session → (session.dirty = true → dirty = true) →
      StepTo s (.ensure requirement (some k) path force)
        (s.setSession k
          { session with deps := session.deps ++ [reconcile config requirement], dirty := dirty })
  | known {requirement : Str} {path : Option P} {force : Bool} :
      StepTo s (.ensure requirement none path force) s
  | ensures {requirement : Str} {path : Option P} {force force' : Bool} :
      StepTo s (.ensure requirement none path force)
        (s.request config (.ensure (reconcile config requirement) (path.getD config.path) force'))
  | runs {session : Option ℕ} {path : Option P} :
      StepTo s (.run session path)
        (s.request config
          (.run session path (environmentPath config (session.bind fun k => s.sessions[k]?) path)
            ((session.bind fun k => s.sessions[k]?).any Session.needsInstall)))
  | acquires {i : ℕ} {c : Call P} : s.tasks[i]? = some (.waiting c) → s.free c.lock = true →
      StepTo s (.acquire i) (s.move i (s.entered config c))
  | skips {i : ℕ} {requirement : Str} {path : P} {force : Bool} :
      s.tasks[i]? = some (.locked requirement path force) → StepTo s (.proceed i) (s.move i .done)
  | starts {i : ℕ} {requirement : Str} {path : P} {force : Bool} :
      s.tasks[i]? = some (.locked requirement path force) →
      (s.disk path).installedOnced requirement force = false →
      StepTo s (.proceed i)
        (s.startInstall i (.ensure requirement path force) ⟨requirement, path, force⟩ none)
  | skipsDep {i : ℕ} {c : Call P} {loop : Provision P} {session : Session P} {dep : Str} :
      s.tasks[i]? = some (.provisioning c loop) → s.sessions[loop.session]? = some session →
      session.deps[loop.next]? = some dep →
      (s.disk loop.path).guard (reconcile config (substitute config dep)) = true →
      StepTo s (.proceed i) (s.move i (.provisioning c { loop with next := loop.next + 1 }))
  | startsDep {i : ℕ} {c : Call P} {loop : Provision P} {session : Session P} {dep : Str} :
      s.tasks[i]? = some (.provisioning c loop) → s.sessions[loop.session]? = some session →
      session.deps[loop.next]? = some dep →
      (s.disk loop.path).installedOnced (reconcile config (substitute config dep))
        ((s.disk loop.path).reassert (reconcile config (substitute config dep))) = false →
      StepTo s (.proceed i)
        (s.startInstall i c
          ⟨reconcile config (substitute config dep), loop.path,
            (s.disk loop.path).reassert (reconcile config (substitute config dep))⟩ (some loop))
  | checks {i : ℕ} {c : Call P} {loop : Provision P} {session : Session P} :
      s.tasks[i]? = some (.provisioning c loop) → s.sessions[loop.session]? = some session →
      session.deps.length ≤ loop.next →
      StepTo s (.proceed i) (s.move i (.checking c loop))
  | provisioned {i : ℕ} {c : Call P} {loop : Provision P} {session : Session P} {s' : Runtime P} :
      s.tasks[i]? = some (.provisioning c loop) → s.sessions[loop.session]? = some session →
      session.deps.length ≤ loop.next → s.finishProvision config i c loop = some s' →
      StepTo s (.proceed i) s'
  | recorded {i : ℕ} {c : Call P} {job : Job P} {status : ℤ} :
      s.tasks[i]? = some (.installing c job none (some status)) →
      StepTo s (.proceed i)
        ((s.setDisk job.path ((s.disk job.path).recordInstall job.requirement)).move i .done)
  | recordedDep {i : ℕ} {c : Call P} {job : Job P} {loop : Provision P} {status : ℤ} :
      s.tasks[i]? = some (.installing c job (some loop) (some status)) →
      StepTo s (.proceed i)
        ((s.setDisk job.path ((s.disk job.path).recordInstall job.requirement)).move i
          (.provisioning c { loop with next := loop.next + 1 }))
  | created {i : ℕ} {status : ℤ} {c : Call P} {k : ℕ} {path : P} :
      s.tasks[i]? = some (.creating c k path) →
      StepTo s (.exit i status true)
        ((s.setDisk path { s.disk path with onDisk := true }).move i
          (.provisioning c ⟨k, path, true, 0⟩))
  | exited {i : ℕ} {status : ℤ} {made : Bool} {c : Call P} {job : Job P}
      {loop : Option (Provision P)} : s.tasks[i]? = some (.installing c job loop none) →
      StepTo s (.exit i status made)
        ((s.setDisk job.path
          ((s.disk job.path).pipInstall config.applies config.lower job.requirement job.force
            status)).move i (.installing c job loop (some status)))
  | checked {i : ℕ} {status : ℤ} {made : Bool} {c : Call P} {loop : Provision P} {s' : Runtime P} :
      s.tasks[i]? = some (.checking c loop) → s.finishProvision config i c loop = some s' →
      StepTo s (.exit i status made) s'
  | ends {i : ℕ} {e : RuntimeEvent P} {stage : Stage P} : s.tasks[i]? = some stage →
      (∀ c job loop status, stage ≠ .installing c job loop (some status)) →
      StepTo s e (s.move i .done)

variable {config} {s s' : Runtime P}

theorem stepTo {e : RuntimeEvent P} (hs : s.step config e = some s') : StepTo config s e s' := by
  cases e with
  | getSession path =>
    obtain rfl := Option.some.inj hs
    exact .getSession
  | ensure requirement session path force =>
    simp only [step] at hs
    cases session with
    | some k =>
      obtain ⟨session, hsession, rfl⟩ := Option.map_eq_some_iff.1 hs
      refine .declares hsession fun hdirty => ?_
      simp [hdirty]
    | none =>
      simp only at hs
      split at hs
      · obtain rfl := Option.some.inj hs
        exact .known
      · obtain rfl := Option.some.inj hs
        exact .ensures
  | run session path =>
    simp only [step] at hs
    split at hs
    · exact absurd hs (by simp)
    · obtain rfl := Option.some.inj hs
      exact .runs
  | acquire i =>
    simp only [step] at hs
    split at hs
    · rename_i c htask
      obtain ⟨hfree, hs⟩ := Option.ite_none_right_eq_some.1 hs
      obtain rfl := Option.some.inj hs
      exact .acquires htask hfree
    · exact absurd hs (by simp)
  | proceed i =>
    simp only [step] at hs
    split at hs
    · rename_i requirement path force htask
      split at hs
      · obtain rfl := Option.some.inj hs
        exact .skips htask
      · rename_i hinstalled
        obtain rfl := Option.some.inj hs
        exact .starts htask (by simpa using hinstalled)
    · rename_i c loop htask
      obtain ⟨session, hsession, hs⟩ := Option.bind_eq_some_iff.1 hs
      split at hs
      · rename_i dep hdep
        split at hs
        · rename_i hinstalled
          obtain rfl := Option.some.inj hs
          exact .skipsDep htask hsession hdep ((Bool.and_eq_true_iff.1 hinstalled).2)
        · rename_i hinstalled
          obtain rfl := Option.some.inj hs
          exact .startsDep htask hsession hdep (by simpa using hinstalled)
      · rename_i hdep
        have hlen := List.getElem?_eq_none_iff.1 hdep
        split at hs
        · obtain rfl := Option.some.inj hs
          exact .checks htask hsession hlen
        · exact .provisioned htask hsession hlen hs
    · rename_i c job loop status htask
      cases loop with
      | none =>
        obtain rfl := Option.some.inj hs
        exact .recorded htask
      | some loop =>
        obtain rfl := Option.some.inj hs
        exact .recordedDep htask
    · exact absurd hs (by simp)
  | exit i status made =>
    simp only [step] at hs
    split at hs
    · rename_i c k path htask
      cases made with
      | true =>
        obtain rfl := Option.some.inj hs
        exact .created htask
      | false =>
        obtain rfl := Option.some.inj hs
        exact .ends htask fun _ _ _ _ h => by cases h
    · rename_i c job loop htask
      obtain rfl := Option.some.inj hs
      exact .exited htask
    · rename_i c loop htask
      exact .checked htask hs
    · rename_i htask
      obtain rfl := Option.some.inj hs
      exact .ends htask fun _ _ _ _ h => by cases h
    · exact absurd hs (by simp)
  | fail i =>
    simp only [step] at hs
    cases htask : s.tasks[i]? with
    | none =>
      rw [htask] at hs
      exact absurd hs (by simp)
    | some stage =>
      rw [htask] at hs
      cases stage with
      | creating | checking | running =>
        obtain rfl := Option.some.inj hs
        exact .ends htask fun _ _ _ _ h => by cases h
      | installing c job loop status =>
        cases status with
        | none =>
          obtain rfl := Option.some.inj hs
          exact .ends htask fun _ _ _ _ h => by cases h
        | some status => exact absurd hs (by simp)
      | waiting | locked | provisioning | done => exact absurd hs (by simp)

/-! ## What only grows -/

/-- Sessions stay where they are, and dirty, and keep what they depend on; and what has been
attempted stays so. -/
structure Grows (s s' : Runtime P) : Prop where
  sessions : ∀ (k : ℕ) (session : Session P), s.sessions[k]? = some session →
    ∃ session' : Session P, s'.sessions[k]? = some session' ∧ session'.path = session.path ∧
      (session.dirty = true → session'.dirty = true) ∧ session.deps <+: session'.deps
  attempted : ∀ (path : P) (r : Str), (s.disk path).attempted r = true → (s'.disk path).attempted r = true

omit [DecidableEq P] in
theorem Grows.of_eq (hsessions : s'.sessions = s.sessions)
    (hattempted : ∀ path r, (s.disk path).attempted r = true → (s'.disk path).attempted r = true) :
    Grows s s' := by
  refine ⟨fun k session hsession => ?_, hattempted⟩
  exact ⟨session, hsessions ▸ hsession, rfl, id, List.prefix_refl _⟩

omit [DecidableEq P] in
theorem Grows.refl (s : Runtime P) : Grows s s := .of_eq rfl fun _ _ h => h

theorem Grows.setDisk {path : P} {d : Disk} {stage : Stage P} {i : ℕ}
    (h : ∀ r, (s.disk path).attempted r = true → d.attempted r = true) :
    Grows s ((s.setDisk path d).move i stage) := by
  refine .of_eq rfl fun path' r hr => ?_
  by_cases heq : path' = path
  · subst heq
    simp only [move, Runtime.setDisk, Function.update_self]
    exact h r hr
  · simp only [move, Runtime.setDisk, Function.update_of_ne heq]
    exact hr

omit [DecidableEq P] in
theorem Grows.setSession {k : ℕ} {session session' : Session P}
    (hsession : s.sessions[k]? = some session) (hpath : session'.path = session.path)
    (hdirty : session.dirty = true → session'.dirty = true)
    (hdeps : session.deps <+: session'.deps) : Grows s (s.setSession k session') := by
  refine ⟨fun j value hvalue => ?_, fun _ _ h => h⟩
  by_cases hj : k = j
  · subst hj
    obtain rfl : session = value := Option.some.inj (hsession.symm.trans hvalue)
    obtain ⟨hk, -⟩ := List.getElem?_eq_some_iff.1 hsession
    exact ⟨session', by simp [Runtime.setSession, hk], hpath, hdirty, hdeps⟩
  · exact ⟨value, by simp [Runtime.setSession, hj, hvalue], rfl, id, List.prefix_refl _⟩

theorem attempted_pipInstall {applies : Str → Bool} {lower : Str → Str} {d : Disk} {r r' : Str}
    {force : Bool} {status : ℤ} :
    (d.pipInstall applies lower r force status).attempted r' = d.attempted r' := by
  unfold Disk.pipInstall
  split
  · rfl
  · simp only
    split
    · rfl
    · rfl

/-- What the end of the loop of a run does. -/
theorem finishProvision_eq {i : ℕ} {c : Call P} {loop : Provision P}
    (h : s.finishProvision config i c loop = some s') :
    ∃ k path environment write session, c = .run k path environment write ∧
      s.sessions[loop.session]? = some session ∧
        s' = (s.setSession loop.session
          { session with installed := session.installed ++ session.deps }).move i
            (.running c (getVenvPythonPath config (some session) path)) := by
  cases c with
  | ensure requirement path force => exact absurd h (by simp [finishProvision])
  | run k path environment write =>
    obtain ⟨session, hsession, rfl⟩ := Option.map_eq_some_iff.1 h
    exact ⟨k, path, environment, write, session, rfl, hsession, rfl⟩

theorem grows_finishProvision {i : ℕ} {c : Call P} {loop : Provision P}
    (h : s.finishProvision config i c loop = some s') : Grows s s' := by
  obtain ⟨k, path, environment, write, session, -, hsession, rfl⟩ := finishProvision_eq h
  have hgrows : Grows s (s.setSession loop.session
      { session with installed := session.installed ++ session.deps }) :=
    .setSession hsession rfl id (List.prefix_refl _)
  exact ⟨hgrows.sessions, hgrows.attempted⟩

theorem StepTo.grows {e : RuntimeEvent P} (h : StepTo config s e s') : Grows s s' := by
  cases h with
  | getSession =>
    refine ⟨fun k session hsession => ?_, fun _ _ h => h⟩
    obtain ⟨hk, -⟩ := List.getElem?_eq_some_iff.1 hsession
    exact ⟨session, by rw [List.getElem?_append_left hk]; exact hsession, rfl, id,
      List.prefix_refl _⟩
  | declares hsession hdirty => exact .setSession hsession rfl hdirty (List.prefix_append _ _)
  | known => exact .refl s
  | ensures | runs | acquires | skips | skipsDep | checks | ends =>
    exact .of_eq rfl fun _ _ h => h
  | starts | startsDep =>
    refine .setDisk fun r hr => ?_
    simp [Disk.attempt, hr]
  | provisioned _ _ _ hfinish => exact grows_finishProvision hfinish
  | checked _ hfinish => exact grows_finishProvision hfinish
  | recorded | recordedDep | created => exact .setDisk fun r hr => hr
  | exited =>
    refine .setDisk fun r hr => ?_
    rw [attempted_pipInstall]
    exact hr

/-- What holds of every call, where a call gets on. -/
theorem forall_mem_set {α : Type} {q q' : α → Prop} {as : List α} {i : ℕ} {a : α}
    (h : ∀ b ∈ as, q b) (hmono : ∀ b, q b → q' b) (ha : q' a) : ∀ b ∈ as.set i a, q' b := by
  intro b hb
  rcases List.mem_or_eq_of_mem_set hb with hb | rfl
  · exact hmono b (h b hb)
  · exact ha

/-- What holds of every call, where there is a new one. -/
theorem forall_mem_concat {α : Type} {q q' : α → Prop} {as : List α} {a : α}
    (h : ∀ b ∈ as, q b) (hmono : ∀ b, q b → q' b) (ha : q' a) : ∀ b ∈ as ++ [a], q' b := by
  intro b hb
  rcases List.mem_append.1 hb with hb | hb
  · exact hmono b (h b hb)
  · rw [List.mem_singleton.1 hb]
    exact ha

end

end Runtime

end PartCAD.Sandbox
