import PartCAD.Sandbox.Runtime

/-!
# The locks that processes run under

A call decides which environment's lock it takes, and whether to write, when it asks for the lock;
what it then runs, and where, is decided when it has it.

* `Guarded` : a process runs under the lock of its environment;
* `Fresh`, `Settled` : what was read before the wait for the lock still holds after it;
* `guarded_run`, `locked_run` : then every process is guarded.
-/

namespace PartCAD.Sandbox.Runtime

open PartCAD.Lib

variable {P : Type} [DecidableEq P] (config : Configuration P)

/-! ## Processes -/

/-- A process that runs: the environment it runs out of, and the one that it installs into or
creates. -/
structure Process (P : Type) where
  environment : P
  target : Option P
  deriving DecidableEq

def process : Stage P → Option (Process P)
  | .creating _ _ path => some ⟨(getVenvPythonPath config none none).environment config, some path⟩
  | .installing _ job _ none =>
    let environment := (getVenvPythonPath config none (some job.path)).environment config
    some ⟨environment, some environment⟩
  | .checking _ loop =>
    some ⟨(getVenvPythonPath config none (some loop.path)).environment config, none⟩
  | .running _ interpreter => some ⟨interpreter.environment config, none⟩
  | _ => none

/-- The call that started the process holds the lock of the environment that this runs out of, and
for writing the lock of the one that it changes. -/
structure Guarded (stage : Stage P) (p : Process P) : Prop where
  environment : ∃ write, stage.holds = some (p.environment, write)
  target : ∀ path, p.target = some path → stage.holds = some (path, true)

/-! ## What is read before the lock is there -/

/-- The call that gets its lock in a step. -/
def entering (s : Runtime P) : RuntimeEvent P → Option (Call P)
  | .run session path =>
    let value := session.bind fun k => s.sessions[k]?
    let c := Call.run session path (environmentPath config value path)
      (value.any Session.needsInstall)
    if s.free c.lock then some c else none
  | .acquire i =>
    match s.tasks[i]? with
    | some (.waiting c) => some c
    | _ => none
  | _ => none

/-- The command would run in the environment whose lock the call takes; and when its session needs
an install, this is the session's environment, and the lock is for writing. -/
def fresh (s : Runtime P) : Call P → Bool
  | .ensure .. => true
  | .run session path environment write =>
    let value := session.bind fun k => s.sessions[k]?
    environment = environmentPath config value path &&
      value.all fun value => !value.needsInstall || (environment = value.path && write)

/-- The environment of the session is there, if the session needs an install. -/
def provided (s : Runtime P) : Call P → Bool
  | .ensure .. => true
  | .run session _ _ _ =>
    (session.bind fun k => s.sessions[k]?).all fun value =>
      !value.needsInstall || (s.disk value.path).onDisk

/-- What a run has read of its session when it asked for the lock still holds when it gets it. -/
def Fresh (s : Runtime P) (e : RuntimeEvent P) : Prop := (entering config s e).all (fresh config s)

/-- And a session that needs an install has its environment. -/
def Settled (s : Runtime P) (e : RuntimeEvent P) : Prop :=
  (entering config s e).all fun c => fresh config s c && provided s c

instance (s : Runtime P) (e : RuntimeEvent P) : Decidable (Fresh config s e) := by
  unfold Fresh
  infer_instance

instance (s : Runtime P) (e : RuntimeEvent P) : Decidable (Settled config s e) := by
  unfold Settled
  infer_instance

/-! ## What holds of a call -/

/-- The session that a run fills has its environment there, and the run has no other. -/
structure AtHome (s : Runtime P) (c : Call P) (k : ℕ) (path : P) : Prop where
  lock : c.lock = (path, true)
  session : ∃ session : Session P, s.sessions[k]? = some session ∧ session.path = path ∧
    session.dirty = true
  path : ∀ j p environment write, c = .run j (some p) environment write → p = path

/-- The lock that a call holds is that of the environment it works in. -/
def Owned (s : Runtime P) : Stage P → Prop
  | .creating c k path => AtHome s c k path
  | .provisioning c loop => AtHome s c loop.session loop.path
  | .installing c job loop _ =>
    c.lock = (job.path, true) ∧
      ∀ l, loop = some l → AtHome s c l.session l.path ∧ l.path = job.path
  | .checking c loop => AtHome s c loop.session loop.path
  | .running c interpreter => c.lock.1 = interpreter.environment config
  | _ => True

variable {config} {s s' : Runtime P}

omit [DecidableEq P] in
theorem AtHome.mono {c : Call P} {k : ℕ} {path : P} (h : AtHome s c k path) (hgrows : Grows s s') :
    AtHome s' c k path := by
  obtain ⟨session, hsession, hpath, hdirty⟩ := h.session
  obtain ⟨session', hsession', hpath', hdirty', -⟩ := hgrows.sessions k session hsession
  exact ⟨h.lock, ⟨session', hsession', hpath'.trans hpath, hdirty' hdirty⟩, h.path⟩

omit [DecidableEq P] in
theorem Owned.mono {stage : Stage P} (h : Owned config s stage) (hgrows : Grows s s') :
    Owned config s' stage := by
  cases stage with
  | creating c k path => exact AtHome.mono h hgrows
  | provisioning c loop => exact AtHome.mono h hgrows
  | installing c job loop status =>
    exact ⟨h.1, fun l hl => ⟨(h.2 l hl).1.mono hgrows, (h.2 l hl).2⟩⟩
  | checking c loop => exact AtHome.mono h hgrows
  | running c interpreter => exact h
  | waiting c => exact h
  | locked requirement path force => exact h
  | done => exact h

omit [DecidableEq P] in
theorem dirty_of_needsInstall {session : Session P} (h : session.needsInstall = true) :
    session.dirty = true := (Bool.and_eq_true_iff.1 h).1

/-- **A call that gets its lock**, when what it has read still holds. -/
theorem owned_entered {c : Call P} (h : fresh config s c = true) :
    Owned config s (s.entered config c) := by
  cases c with
  | ensure requirement path force => trivial
  | run session path environment write =>
    obtain ⟨henvironment, hneeds⟩ := Bool.and_eq_true_iff.1 h
    have henvironment := of_decide_eq_true henvironment
    rw [entered]
    cases hvalue : session.bind fun k => s.sessions[k]? with
    | none =>
      have hpair : (session.bind fun k => s.sessions[k]?.map fun value => (k, value)) = none := by
        cases session with
        | none => rfl
        | some k => simpa using hvalue
      rw [hpair]
      rw [hvalue] at henvironment
      exact henvironment.trans (environment_getVenvPythonPath config none path).symm
    | some value =>
      obtain ⟨k, rfl, hk⟩ := Option.bind_eq_some_iff.1 hvalue
      have hpair : ((some k).bind fun k => s.sessions[k]?.map fun value => (k, value)) =
          some (k, value) := by simp [hk]
      rw [hpair]
      simp only
      rw [hvalue] at henvironment hneeds
      by_cases hinstall : value.needsInstall = true
      · have hdirty := dirty_of_needsInstall hinstall
        obtain ⟨hpath, hwrite⟩ : environment = value.path ∧ write = true := by
          simpa [hinstall] using hneeds
        have hhome : AtHome s (.run (some k) path environment write) k value.path := by
          refine ⟨by rw [Call.lock, hpath, hwrite], ⟨value, hk, rfl, hdirty⟩, ?_⟩
          rintro j p _ _ heq
          obtain ⟨-, rfl, -, -⟩ := Call.run.inj heq
          exact henvironment.symm.trans hpath
        rw [if_pos hinstall]
        split
        · exact hhome
        · exact hhome
      · rw [if_neg hinstall]
        exact henvironment.trans (environment_getVenvPythonPath config (some value) path).symm

/-- The command of a run whose session has been filled. -/
theorem owned_finishProvision {i : ℕ} {c : Call P} {loop : Provision P}
    (hhome : AtHome s c loop.session loop.path)
    (h : s.finishProvision config i c loop = some s') :
    ∃ interpreter, s'.tasks = s.tasks.set i (.running c interpreter) ∧
      Owned config s' (.running c interpreter) := by
  obtain ⟨k, path, environment, write, session, hc, hsession, rfl⟩ := finishProvision_eq h
  obtain ⟨session', hsession', hpath, hdirty⟩ := hhome.session
  obtain rfl : session = session' := Option.some.inj (hsession.symm.trans hsession')
  refine ⟨_, rfl, ?_⟩
  rw [Owned, environment_getVenvPythonPath, hhome.lock]
  cases path with
  | none => simp [environmentPath, hdirty, hpath]
  | some p => exact (hhome.path k p environment write hc).symm

/-- **What a step keeps.** -/
theorem owned_step {e : RuntimeEvent P} (h : ∀ stage ∈ s.tasks, Owned config s stage)
    (hfresh : Fresh config s e) (hs : s.step config e = some s') :
    ∀ stage ∈ s'.tasks, Owned config s' stage := by
  have hstep := stepTo hs
  have hgrows := hstep.grows
  have hmono : ∀ stage, Owned config s stage → Owned config s' stage :=
    fun stage hstage => hstage.mono hgrows
  have htask : ∀ {i : ℕ} {stage : Stage P}, s.tasks[i]? = some stage → Owned config s stage :=
    fun htask => h _ (List.mem_of_getElem? htask)
  cases hstep with
  | getSession => exact fun stage hstage => hmono stage (h stage hstage)
  | declares => exact fun stage hstage => hmono stage (h stage hstage)
  | known => exact h
  | ensures =>
    refine forall_mem_concat h hmono ?_
    split
    · trivial
    · trivial
  | runs =>
    refine forall_mem_concat h hmono ?_
    split
    · rename_i hfree
      simp only [Fresh, entering, hfree, if_true, Option.all_some] at hfresh
      exact hmono _ (owned_entered hfresh)
    · trivial
  | acquires hwaiting =>
    simp only [Fresh, entering, hwaiting, Option.all_some] at hfresh
    exact forall_mem_set h hmono (hmono _ (owned_entered hfresh))
  | skips => exact forall_mem_set h hmono trivial
  | starts => exact forall_mem_set h hmono ⟨rfl, fun l hl => absurd hl (by simp)⟩
  | skipsDep hstage =>
    have hhome : AtHome s _ _ _ := htask hstage
    exact forall_mem_set h hmono (hhome.mono hgrows)
  | startsDep hstage =>
    have hhome : AtHome s _ _ _ := htask hstage
    refine forall_mem_set h hmono ⟨hhome.lock, fun l hl => ?_⟩
    obtain rfl := Option.some.inj hl
    exact ⟨hhome.mono hgrows, rfl⟩
  | checks hstage =>
    have hhome : AtHome s _ _ _ := htask hstage
    exact forall_mem_set h hmono (hhome.mono hgrows)
  | provisioned hstage _ _ hfinish =>
    obtain ⟨interpreter, htasks, howned⟩ := owned_finishProvision (htask hstage) hfinish
    rw [htasks]
    exact forall_mem_set h hmono howned
  | recorded => exact forall_mem_set h hmono trivial
  | recordedDep hstage =>
    obtain ⟨hhome, -⟩ := (htask hstage).2 _ rfl
    exact forall_mem_set h hmono (hhome.mono hgrows)
  | created hstage =>
    have hhome : AtHome s _ _ _ := htask hstage
    exact forall_mem_set h hmono (hhome.mono hgrows)
  | exited hstage =>
    have howned : Owned config s _ := htask hstage
    exact forall_mem_set h hmono ⟨howned.1, fun l hl =>
      ⟨(howned.2 l hl).1.mono hgrows, (howned.2 l hl).2⟩⟩
  | checked hstage hfinish =>
    obtain ⟨interpreter, htasks, howned⟩ := owned_finishProvision (htask hstage) hfinish
    rw [htasks]
    exact forall_mem_set h hmono howned
  | ends => exact forall_mem_set h hmono trivial

/-- **What every run keeps.** -/
theorem owned_run {disk : P → Disk} {s : Runtime P}
    (h : Run (pythonRuntime config disk) (Fresh config) s) :
    ∀ stage ∈ s.tasks, Owned config s stage := by
  refine h.invariant (P := fun s => ∀ stage ∈ s.tasks, Owned config s stage) ?_ ?_
  · exact fun stage hstage => absurd hstage (by simp [pythonRuntime])
  · exact fun s e s' hinv hok hs => owned_step hinv hok hs

/-! ## Processes and locks -/

/-- **The changes of a process are locked out**: in a run in which what is read before a wait still
holds after it, a process that changes an environment runs under the write lock of that; and each
but `python -m venv` runs under the lock of the environment it runs out of. -/
theorem locked_run {disk : P → Disk} {s : Runtime P}
    (h : Run (pythonRuntime config disk) (Fresh config) s) {stage : Stage P} (hstage : stage ∈ s.tasks)
    {p : Process P} (hp : process config stage = some p) :
    (∀ path, p.target = some path → stage.holds = some (path, true)) ∧
      ((∀ c k path, stage ≠ .creating c k path) → Guarded stage p) := by
  have howned := owned_run h stage hstage
  cases stage with
  | creating c k path =>
    obtain rfl := Option.some.inj hp
    refine ⟨fun target htarget => ?_, fun hnot => absurd rfl (hnot c k path)⟩
    obtain rfl : path = target := Option.some.inj htarget
    rw [Stage.holds, AtHome.lock howned]
  | installing c job loop status =>
    cases status with
    | some status => exact absurd hp (by simp [process])
    | none =>
      obtain rfl := Option.some.inj hp
      have henvironment : (getVenvPythonPath config none (some job.path)).environment config =
          job.path := environment_getVenvPythonPath config none (some job.path)
      have hlock : (Stage.installing c job loop none).holds = some (job.path, true) := by
        rw [Stage.holds, howned.1]
      have htarget : ∀ path, some ((getVenvPythonPath config none (some job.path)).environment
          config) = some path → (Stage.installing c job loop none).holds = some (path, true) := by
        intro path hpath
        rw [henvironment] at hpath
        rw [hlock, Option.some.inj hpath]
      exact ⟨htarget, fun _ => ⟨⟨true, by rw [hlock, henvironment]⟩, htarget⟩⟩
  | checking c loop =>
    obtain rfl := Option.some.inj hp
    have henvironment : (getVenvPythonPath config none (some loop.path)).environment config =
        loop.path := environment_getVenvPythonPath config none (some loop.path)
    refine ⟨fun path hpath => absurd hpath (by simp), fun _ => ⟨⟨true, ?_⟩, ?_⟩⟩
    · rw [Stage.holds, AtHome.lock howned, henvironment]
    · exact fun path hpath => absurd hpath (by simp)
  | running c interpreter =>
    obtain rfl := Option.some.inj hp
    refine ⟨fun path hpath => absurd hpath (by simp), fun _ => ⟨⟨c.lock.2, ?_⟩, ?_⟩⟩
    · rw [Stage.holds, ← howned]
    · exact fun path hpath => absurd hpath (by simp)
  | waiting c => exact absurd hp (by simp [process])
  | locked requirement path force => exact absurd hp (by simp [process])
  | provisioning c loop => exact absurd hp (by simp [process])
  | done => exact absurd hp (by simp [process])

theorem fresh_of_settled {e : RuntimeEvent P} (h : Settled config s e) : Fresh config s e := by
  unfold Settled at h
  unfold Fresh
  cases hentering : entering config s e with
  | none => rfl
  | some c =>
    rw [hentering] at h
    exact (Bool.and_eq_true_iff.1 h).1

/-- With the environment of its session there, a call does not create it. -/
theorem entered_ne_creating {c : Call P} (h : provided s c = true) :
    ∀ c' k path, s.entered config c ≠ .creating c' k path := by
  intro c' k' path'
  cases c with
  | ensure requirement path force => exact fun h => by cases h
  | run session path environment write =>
    rw [entered]
    cases hvalue : session.bind fun k => s.sessions[k]?.map fun value => (k, value) with
    | none => exact fun h => by cases h
    | some pair =>
      obtain ⟨k, value⟩ := pair
      have hbind : (session.bind fun k => s.sessions[k]?) = some value := by
        obtain ⟨j, rfl, hj⟩ := Option.bind_eq_some_iff.1 hvalue
        obtain ⟨value', hvalue', heq⟩ := Option.map_eq_some_iff.1 hj
        obtain ⟨-, rfl⟩ := Prod.mk.inj heq
        exact hvalue'
      rw [provided, hbind, Option.all_some] at h
      simp only
      split
      · rename_i hinstall
        have hdisk : (s.disk value.path).onDisk = true := by simpa [hinstall] using h
        rw [if_pos hdisk]
        exact fun h => by cases h
      · exact fun h => by cases h

/-- No call creates an environment, when each has its own. -/
theorem not_creating_step {e : RuntimeEvent P}
    (h : ∀ stage ∈ s.tasks, ∀ c k path, stage ≠ .creating c k path) (hsettled : Settled config s e)
    (hs : s.step config e = some s') :
    ∀ stage ∈ s'.tasks, ∀ c k path, stage ≠ .creating c k path := by
  have hstep := stepTo hs
  have hprovided : ∀ c, entering config s e = some c → provided s c = true := by
    intro c hc
    rw [Settled, hc] at hsettled
    exact (Bool.and_eq_true_iff.1 hsettled).2
  cases hstep with
  | getSession | declares | known => exact h
  | ensures =>
    refine forall_mem_concat h (fun _ => id) ?_
    split
    · exact fun _ _ _ h => by cases h
    · exact fun _ _ _ h => by cases h
  | runs =>
    refine forall_mem_concat h (fun _ => id) ?_
    split
    · rename_i hfree
      refine entered_ne_creating (hprovided _ ?_)
      simp only [entering, hfree, if_true]
    · exact fun _ _ _ h => by cases h
  | acquires hwaiting =>
    refine forall_mem_set h (fun _ => id) (entered_ne_creating (hprovided _ ?_))
    simp only [entering, hwaiting]
  | skips | starts | skipsDep | startsDep | checks | recorded | recordedDep | exited | ends =>
    exact forall_mem_set h (fun _ => id) fun _ _ _ h => by cases h
  | created => exact forall_mem_set h (fun _ => id) fun _ _ _ h => by cases h
  | provisioned _ _ _ hfinish =>
    obtain ⟨_, _, _, _, _, -, -, rfl⟩ := finishProvision_eq hfinish
    exact forall_mem_set h (fun _ => id) fun _ _ _ h => by cases h
  | checked _ hfinish =>
    obtain ⟨_, _, _, _, _, -, -, rfl⟩ := finishProvision_eq hfinish
    exact forall_mem_set h (fun _ => id) fun _ _ _ h => by cases h

/-- **Every process is guarded**, in a run in which what is read before a wait for a lock still holds
after it, and sessions have their environments. -/
theorem guarded_run {disk : P → Disk} {s : Runtime P}
    (h : Run (pythonRuntime config disk) (Settled config) s) {stage : Stage P}
    (hstage : stage ∈ s.tasks) {p : Process P} (hp : process config stage = some p) :
    Guarded stage p := by
  have hnot : ∀ stage ∈ s.tasks, ∀ c k path, stage ≠ .creating c k path := by
    refine h.invariant (P := fun s => ∀ stage ∈ s.tasks, ∀ c k path, stage ≠ .creating c k path)
      ?_ ?_
    · exact fun stage hstage => absurd hstage (by simp [pythonRuntime])
    · exact fun s e s' hinv hok hs => not_creating_step hinv hok hs
  exact (locked_run (h.mono fun _ _ => fresh_of_settled) hstage hp).2 (hnot stage hstage)

/-! ## A session that turns dirty -/

/-- A runtime at home in the environment `0`. -/
def hostRuntime : Configuration ℕ where
  path := 0
  execPath := true
  isVenv path := path ≠ 0
  localPackage := none
  seed := []
  lower := List.map Char.toLower
  applies _ := true

/-- Both environments are there, and nothing is installed. -/
def emptyDisk (_ : ℕ) : Disk :=
  ⟨true, fun _ => false, fun _ => false, fun _ => false, fun _ => false, fun _ => false,
    fun _ => false⟩

/-- The process of a call, and the lock that the call holds. -/
def processOf (i : ℕ) (s : Runtime ℕ) : Option (Option (Process ℕ) × Option (ℕ × Bool)) :=
  s.tasks[i]?.map fun stage => (process hostRuntime stage, stage.holds)

theorem exists_processOf {i : ℕ} {s : Runtime ℕ} {p : Process ℕ} {lock : Option (ℕ × Bool)}
    (h : processOf i s = some (some p, lock)) :
    ∃ stage ∈ s.tasks, process hostRuntime stage = some p ∧ stage.holds = lock := by
  obtain ⟨stage, hstage, heq⟩ := Option.map_eq_some_iff.1 h
  obtain ⟨hp, hlock⟩ := Prod.mk.inj heq
  exact ⟨stage, List.mem_of_getElem? hstage, hp, hlock⟩

/-- A session is filled under its own lock. -/
def filledSession : List (RuntimeEvent ℕ) :=
  [.getSession 1, .ensure "b".toList (some 0) none false, .run (some 0) none, .proceed 0]

/-- A run waits for the lock of the runtime's environment while its session turns dirty. -/
def staleSession : List (RuntimeEvent ℕ) :=
  [.getSession 1, .ensure "a".toList none none false, .proceed 0, .run (some 0) none,
    .ensure "b".toList (some 0) none false, .exit 0 0 false, .proceed 0, .acquire 1, .proceed 1]

theorem guarded_filledSession :
    ∃ s : Runtime ℕ, ∃ stage ∈ s.tasks, process hostRuntime stage = some ⟨1, some 1⟩ ∧
      Guarded stage (⟨1, some 1⟩ : Process ℕ) := by
  let after := (pythonRuntime hostRuntime emptyDisk).after (Settled hostRuntime) filledSession
  have hview : after.bind (processOf 0) = some (some ⟨1, some 1⟩, some (1, true)) := by
    decide
  obtain ⟨s, hs, hprocess⟩ := Option.bind_eq_some_iff.1 hview
  obtain ⟨stage, hstage, hp, -⟩ := exists_processOf hprocess
  exact ⟨s, stage, hstage, hp, guarded_run (run_after hs) hstage hp⟩

/-- A session that turns dirty while its run waits is filled under a lock for reading another
environment. -/
theorem not_guarded_staleSession :
    ¬ ∀ s, Run (pythonRuntime hostRuntime emptyDisk) (fun _ _ => True) s → ∀ stage ∈ s.tasks,
      ∀ p, process hostRuntime stage = some p → Guarded stage p := by
  intro h
  let after := (pythonRuntime hostRuntime emptyDisk).after (fun _ _ => True) staleSession
  have hview : after.bind (processOf 1) = some (some ⟨1, some 1⟩, some (0, false)) := by
    decide
  obtain ⟨s, hs, hprocess⟩ := Option.bind_eq_some_iff.1 hview
  obtain ⟨stage, hstage, hp, hlock⟩ := exists_processOf hprocess
  have htarget := (h s (run_after hs) stage hstage _ hp).target 1 rfl
  rw [hlock] at htarget
  exact absurd htarget (by decide)

end PartCAD.Sandbox.Runtime
