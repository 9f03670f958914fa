import PartCAD.Sandbox.Guarded

/-!
# What the records of installs say

A file in an environment records that a requirement is installed, and another one asks for the
install to be repeated, since another package has overwritten its files.

* `Sound` : what the files of an environment say about it;
* `sound_recordInstall` : an install, and its record;
* `Regular` : where the calls do as the records assume;
* `recorded_run` : then the records are right whenever no call holds the lock.
-/

namespace PartCAD.Sandbox.Runtime

open PartCAD.Lib

/-! ## Records -/

section

variable {P : Type} (config : Configuration P)

/-- If its marker holds, the requirement has the spelling under which it is known what it
overwrites, and what overwrites it. -/
def Known (r : Str) : Prop := config.applies r = true → Spelled config.lower r

instance (r : Str) : Decidable (Known config r) := by
  unfold Known Spelled
  infer_instance

/-- What the files of an environment say when no install is under way. -/
structure Sound (d : Disk) : Prop where
  succeeded : ∀ r, d.guard r = true → d.succeeded r = true ∧ d.attempted r = true
  known : ∀ r, d.guard r = true → Known config r
  reassert : ∀ r, config.applies r = true → Spelled config.lower r → d.overwritten r = true →
    d.reassert r = true

/-- A requirement is recorded rightly: an install of it has succeeded, and its files are as that has
left them. -/
def Recorded (d : Disk) (r : Str) : Prop :=
  d.guard r = true → d.reassert r = false →
    d.succeeded r = true ∧ (config.applies r = true → d.overwritten r = false)

/-- An install with this exit status leaves the requirement installed. -/
def Holds (d : Disk) (r : Str) (status : ℤ) : Prop :=
  status = 0 ∨ (d.succeeded r = true ∧ (config.applies r = true → d.overwritten r = false))

instance (d : Disk) (r : Str) (status : ℤ) : Decidable (Holds config d r status) := by
  unfold Holds
  infer_instance

variable {config} {d : Disk} {r : Str} {force : Bool} {status : ℤ}

theorem Sound.recorded (h : Sound config d) (r : Str) : Recorded config d r := by
  intro hguard hreassert
  refine ⟨(h.succeeded r hguard).1, fun happlies => ?_⟩
  by_contra hover
  have hdemand := h.reassert r happlies (h.known r hguard happlies) (by simpa using hover)
  rw [hdemand] at hreassert
  exact absurd hreassert (by simp)

/-- What `pip` overwrites, with the exit status and the force that it has. -/
theorem overwritten_pipInstall {r' : Str}
    (h : (d.pipInstall config.applies config.lower r force status).overwritten r' = true) :
    (config.applies r = true ∧ overwrites config.lower r r' = true) ∨
      (d.overwritten r' = true ∧
        (r' = r → status ≠ 0 ∨ config.applies r = false ∨ force = false)) := by
  unfold Disk.pipInstall at h
  split at h
  · rename_i hstatus
    exact Or.inr ⟨h, fun _ => Or.inl hstatus⟩
  · simp only at h
    split at h
    · rename_i heffect
      rcases Bool.or_eq_true_iff.1 h with hover | hover
      · exact Or.inl ⟨heffect.1, hover⟩
      · obtain ⟨hold, hbody⟩ := Bool.and_eq_true_iff.1 hover
        refine Or.inr ⟨hold, fun heq => ?_⟩
        subst heq
        exact absurd rfl (of_decide_eq_true hbody)
    · rename_i heffect
      rw [not_and_or, not_or] at heffect
      refine Or.inr ⟨h, fun _ => Or.inr ?_⟩
      rcases heffect with happlies | ⟨hforce, -⟩
      · exact Or.inl (by simpa using happlies)
      · exact Or.inr (by simpa using hforce)

theorem guard_pipInstall {r' : Str} :
    (d.pipInstall config.applies config.lower r force status).guard r' = d.guard r' := by
  unfold Disk.pipInstall
  split
  · rfl
  · simp only
    split
    · rfl
    · rfl

theorem reassert_pipInstall {r' : Str} :
    (d.pipInstall config.applies config.lower r force status).reassert r' = d.reassert r' := by
  unfold Disk.pipInstall
  split
  · rfl
  · simp only
    split
    · rfl
    · rfl

theorem succeeded_pipInstall {r' : Str} :
    (d.pipInstall config.applies config.lower r force status).succeeded r' =
      (d.succeeded r' || (status = 0 && r' = r)) := by
  unfold Disk.pipInstall
  split
  · rename_i hstatus
    simp [hstatus]
  · rename_i hstatus
    have hzero : status = 0 := by simpa using hstatus
    simp only
    split
    · simp [hzero, Bool.or_comm]
    · simp [hzero, Bool.or_comm]

/-- **An install and its record** keep the files of an environment right, if the install is forced
where the files ask for it, and leaves the requirement installed. -/
theorem sound_recordInstall (h : Sound config d) (hforce : force = true ∨ d.reassert r = false)
    (hknown : Known config r) (hattempted : d.attempted r = true)
    (hholds : Holds config d r status) :
    Sound config
      ((d.pipInstall config.applies config.lower r force status).recordInstall r) where
  succeeded r' hguard := by
    obtain ⟨-, hguard⟩ := Bool.and_eq_true_iff.1 hguard
    rw [guard_pipInstall] at hguard
    simp only [Disk.recordInstall, succeeded_pipInstall, attempted_pipInstall]
    rcases Bool.or_eq_true_iff.1 hguard with heq | hold
    · obtain rfl := of_decide_eq_true heq
      rcases hholds with hstatus | ⟨hsucceeded, -⟩
      · simp [hstatus, hattempted]
      · simp [hsucceeded, hattempted]
    · obtain ⟨hsucceeded, hattempted'⟩ := h.succeeded r' hold
      simp [hsucceeded, hattempted']
  known r' hguard := by
    obtain ⟨-, hguard⟩ := Bool.and_eq_true_iff.1 hguard
    rw [guard_pipInstall] at hguard
    rcases Bool.or_eq_true_iff.1 hguard with heq | hold
    · obtain rfl := of_decide_eq_true heq
      exact hknown
    · exact h.known r' hold
  reassert r' happlies hspelled hover := by
    simp only [Disk.recordInstall, reassert_pipInstall, Bool.or_eq_true, decide_eq_true_eq,
      Bool.and_eq_true]
    rcases overwritten_pipInstall hover with ⟨happlies', hover⟩ | ⟨hold, hsame⟩
    · exact Or.inl (mem_invalidates (hknown happlies') hspelled hover)
    · have hdemand := h.reassert r' happlies hspelled hold
      refine Or.inr ⟨fun heq => ?_, hdemand⟩
      -- the requirement itself would have been installed anew
      subst heq
      have hforced : force = true := by
        rcases hforce with hforced | hnot
        · exact hforced
        · rw [hdemand] at hnot
          exact absurd hnot (by simp)
      rcases hsame rfl with hstatus | hskip | hskip
      · rcases hholds with hzero | ⟨-, hintact⟩
        · exact hstatus hzero
        · rw [hintact happlies] at hold
          exact absurd hold (by simp)
      · rw [happlies] at hskip
        exact absurd hskip (by simp)
      · rw [hforced] at hskip
        exact absurd hskip (by simp)

/-- Two environments with the same records, where more may have been attempted. -/
structure Similar (d d' : Disk) : Prop where
  guard : d'.guard = d.guard
  reassert : d'.reassert = d.reassert
  overwritten : d'.overwritten = d.overwritten
  succeeded : d'.succeeded = d.succeeded
  attempted : ∀ r, d.attempted r = true → d'.attempted r = true

theorem Similar.refl (d : Disk) : Similar d d := ⟨rfl, rfl, rfl, rfl, fun _ => id⟩

theorem Sound.similar {d' : Disk} (h : Sound config d) (hsimilar : Similar d d') :
    Sound config d' where
  succeeded r hguard := by
    obtain ⟨hsucceeded, hattempted⟩ := h.succeeded r (hsimilar.guard ▸ hguard)
    exact ⟨hsimilar.succeeded ▸ hsucceeded, hsimilar.attempted r hattempted⟩
  known r hguard := h.known r (hsimilar.guard ▸ hguard)
  reassert r happlies hspelled hover := by
    rw [hsimilar.reassert]
    exact h.reassert r happlies hspelled (hsimilar.overwritten ▸ hover)

theorem Similar.recordInstall {d' : Disk} (h : Similar d d') (r : Str) :
    Similar (d.recordInstall r) (d'.recordInstall r) where
  guard := by simp only [Disk.recordInstall, h.guard]
  reassert := by simp only [Disk.recordInstall, h.reassert]
  overwritten := h.overwritten
  succeeded := h.succeeded
  attempted := h.attempted

end

/-! ## Where the calls do as the records assume -/

section

variable {P : Type} [DecidableEq P] (config : Configuration P)

/-- What the records assume of a step: an install is forced where the files ask for it when it
starts, has the known spelling, and leaves the requirement installed; and no requirement is added to
a session between the end of the loop over them and what is noted of it. -/
def Regular (s : Runtime P) : RuntimeEvent P → Prop
  | .proceed i =>
    match s.tasks[i]? with
    | some (.locked r path force) =>
      (s.disk path).installedOnced r force = true ∨
        ((force = true ∨ (s.disk path).reassert r = false) ∧ Known config r)
    | some (.provisioning _ loop) =>
      ((s.sessions[loop.session]?.bind fun session => session.deps[loop.next]?).all fun dep =>
        let r := reconcile config (substitute config dep)
        (s.disk loop.path).installedOnced r ((s.disk loop.path).reassert r) ||
          Known config r) = true
    | _ => True
  | .exit i status _ =>
    match s.tasks[i]? with
    | some (.installing _ job _ none) => Holds config (s.disk job.path) job.requirement status
    | some (.checking _ loop) =>
      (s.sessions[loop.session]?.all fun session => session.deps.length ≤ loop.next) = true
    | _ => True
  | _ => True

instance (s : Runtime P) (e : RuntimeEvent P) : Decidable (Regular config s e) := by
  unfold Regular
  split
  · split <;> infer_instance
  · split <;> infer_instance
  · infer_instance

/-! ## One call at a time -/

/-- The environment that a call installs into. -/
def installs : Stage P → Option P
  | .installing _ job _ _ => some job.path
  | _ => none

/-- The environment that a call has installed into, without having recorded it. -/
def recording : Stage P → Option P
  | .installing _ job _ (some _) => some job.path
  | _ => none

/-- Two calls that hold the lock of one environment both read. -/
def Compatible (a b : Stage P) : Prop :=
  ∀ path write write', a.holds = some (path, write) → b.holds = some (path, write') →
    write = false ∧ write' = false

/-- A lock is held by one writer, or by readers. -/
def Exclusive (s : Runtime P) : Prop :=
  ∀ (i j : ℕ) (a b : Stage P), i ≠ j → s.tasks[i]? = some a → s.tasks[j]? = some b → Compatible a b

variable {config} {s s' : Runtime P}

omit [DecidableEq P] in
theorem Compatible.symm {a b : Stage P} (h : Compatible a b) : Compatible b a :=
  fun path write write' ha hb => (h path write' write hb ha).symm

omit [DecidableEq P] in
theorem compatible_of_holds {a a' b : Stage P} (h : Compatible a b)
    (hholds : a'.holds = none ∨ a'.holds = a.holds) : Compatible a' b := by
  intro path write write' ha hb
  rcases hholds with hnone | hsame
  · rw [hnone] at ha
    exact absurd ha (by simp)
  · exact h path write write' (hsame ▸ ha) hb

omit [DecidableEq P] in
theorem Exclusive.set (h : Exclusive s) {i : ℕ} {a' : Stage P}
    (hnew : ∀ (j : ℕ) (b : Stage P), j ≠ i → s.tasks[j]? = some b → Compatible a' b)
    (htasks : s'.tasks = s.tasks.set i a') : Exclusive s' := by
  intro j k a b hjk ha hb
  rw [htasks] at ha hb
  rcases getElem?_set_cases ha with ⟨rfl, rfl⟩ | ⟨hj, ha'⟩
  · rcases getElem?_set_cases hb with ⟨rfl, -⟩ | ⟨hk, hb'⟩
    · exact absurd rfl hjk
    · exact hnew k b hk hb'
  · rcases getElem?_set_cases hb with ⟨rfl, rfl⟩ | ⟨hk, hb'⟩
    · exact (hnew j a hj ha').symm
    · exact h j k a b hjk ha' hb'

omit [DecidableEq P] in
/-- A call that gets on with the lock it has, or gives it back. -/
theorem Exclusive.move (h : Exclusive s) {i : ℕ} {a a' : Stage P} (ha : s.tasks[i]? = some a)
    (htasks : s'.tasks = s.tasks.set i a') (hholds : a'.holds = none ∨ a'.holds = a.holds) :
    Exclusive s' :=
  h.set (fun j b hj hb => compatible_of_holds (h i j a b hj.symm ha hb) hholds) htasks

omit [DecidableEq P] in
theorem Exclusive.concat (h : Exclusive s) {a' : Stage P}
    (hnew : ∀ b ∈ s.tasks, Compatible a' b) (htasks : s'.tasks = s.tasks ++ [a']) :
    Exclusive s' := by
  intro j k a b hjk ha hb
  rw [htasks] at ha hb
  rcases getElem?_concat_cases ha with ⟨rfl, rfl⟩ | ⟨-, ha'⟩
  · rcases getElem?_concat_cases hb with ⟨rfl, -⟩ | ⟨-, hb'⟩
    · exact absurd rfl hjk
    · exact hnew b (List.mem_of_getElem? hb')
  · rcases getElem?_concat_cases hb with ⟨rfl, rfl⟩ | ⟨-, hb'⟩
    · exact (hnew a (List.mem_of_getElem? ha')).symm
    · exact h j k a b hjk ha' hb'

theorem holds_entered (c : Call P) : (s.entered config c).holds = some c.lock := by
  cases c with
  | ensure requirement path force => rfl
  | run session path environment write =>
    unfold entered
    simp only
    split
    · rfl
    · split
      · split
        · rfl
        · rfl
      · rfl

/-- A lock that is free goes with those that are held. -/
theorem compatible_of_free {lock : P × Bool} (hfree : s.free lock = true) {a b : Stage P}
    (ha : a.holds = some lock) (hb : b ∈ s.tasks) : Compatible a b := by
  intro path write write' ha' hb'
  rw [ha] at ha'
  obtain rfl := Option.some.inj ha'
  have hthis := List.all_eq_true.1 hfree b hb
  rw [hb'] at hthis
  have hreads : write' = false ∧ write = false := by simpa using hthis
  exact hreads.symm

omit [DecidableEq P] in
theorem compatible_of_waiting {c : Call P} {b : Stage P} : Compatible (.waiting c) b :=
  fun _ _ _ ha _ => absurd ha (by simp [Stage.holds])

/-- **What a step keeps.** -/
theorem exclusive_step {e : RuntimeEvent P} (h : Exclusive s) (hs : s.step config e = some s') :
    Exclusive s' := by
  have hrequest : ∀ c : Call P, Exclusive (s.request config c) := by
    intro c
    refine h.concat (fun b hb => ?_) rfl
    split
    · rename_i hfree
      exact compatible_of_free hfree (holds_entered c) hb
    · exact compatible_of_waiting
  cases stepTo hs with
  | getSession | declares | known => exact h
  | ensures => exact hrequest _
  | runs => exact hrequest _
  | acquires _ hfree =>
    refine h.set (fun j b _ hb => ?_) rfl
    exact compatible_of_free hfree (holds_entered _) (List.mem_of_getElem? hb)
  | skips htask => exact h.move htask rfl (Or.inl rfl)
  | starts htask => exact h.move htask rfl (Or.inr rfl)
  | skipsDep htask => exact h.move htask rfl (Or.inr rfl)
  | startsDep htask => exact h.move htask rfl (Or.inr rfl)
  | checks htask => exact h.move htask rfl (Or.inr rfl)
  | provisioned htask _ _ hfinish =>
    obtain ⟨_, _, _, _, _, -, -, rfl⟩ := finishProvision_eq hfinish
    exact h.move htask rfl (Or.inr rfl)
  | recorded htask => exact h.move htask rfl (Or.inl rfl)
  | recordedDep htask => exact h.move htask rfl (Or.inr rfl)
  | created htask => exact h.move htask rfl (Or.inr rfl)
  | exited htask => exact h.move htask rfl (Or.inr rfl)
  | checked htask hfinish =>
    obtain ⟨_, _, _, _, _, -, -, rfl⟩ := finishProvision_eq hfinish
    exact h.move htask rfl (Or.inr rfl)
  | ends htask => exact h.move htask rfl (Or.inl rfl)

omit [DecidableEq P] in
/-- A call that installs holds the lock for writing. -/
theorem holds_of_installs {stage : Stage P} (h : Owned config s stage) {path : P}
    (hinstalls : installs stage = some path) : stage.holds = some (path, true) := by
  cases stage with
  | installing c job loop status =>
    obtain rfl : job.path = path := Option.some.inj hinstalls
    rw [Stage.holds, h.1]
  | _ => exact absurd hinstalls (by simp [installs])

omit [DecidableEq P] in
/-- While a call works in an environment with the lock for writing, no other one installs there. -/
theorem installs_ne {i j : ℕ} {a b : Stage P} {path : P} (hexclusive : Exclusive s)
    (howned : ∀ stage ∈ s.tasks, Owned config s stage) (hij : j ≠ i) (ha : s.tasks[i]? = some a)
    (hholds : a.holds = some (path, true)) (hb : s.tasks[j]? = some b) :
    installs b ≠ some path := by
  intro hinstalls
  have hholds' := holds_of_installs (howned b (List.mem_of_getElem? hb)) hinstalls
  obtain ⟨hread, -⟩ := hexclusive i j a b hij.symm ha hb path true true hholds hholds'
  exact absurd hread (by simp)

/-! ## What a step does to the records -/

variable (config) in
/-- A step, by what it does to what is recorded. -/
inductive InstallTo (s s' : Runtime P) : Prop where
  /-- No install starts or gets on. -/
  | quiet : (∀ p, Similar (s.disk p) (s'.disk p)) →
      (∀ stage ∈ s'.tasks, stage ∈ s.tasks ∨ installs stage = none) →
      (∀ stage ∈ s.tasks, recording stage ≠ none → stage ∈ s'.tasks) → InstallTo s s'
  | starts {i : ℕ} {stage : Stage P} {c : Call P} {job : Job P} {loop : Option (Provision P)} :
      s.tasks[i]? = some stage → installs stage = none →
      (job.force = true ∨ (s.disk job.path).reassert job.requirement = false) →
      Known config job.requirement → s' = s.startInstall i c job loop → InstallTo s s'
  | exits {i : ℕ} {c : Call P} {job : Job P} {loop : Option (Provision P)} {status : ℤ} :
      s.tasks[i]? = some (.installing c job loop none) →
      Holds config (s.disk job.path) job.requirement status →
      s' = (s.setDisk job.path
        ((s.disk job.path).pipInstall config.applies config.lower job.requirement job.force
          status)).move i (.installing c job loop (some status)) → InstallTo s s'
  | records {i : ℕ} {c : Call P} {job : Job P} {loop : Option (Provision P)} {status : ℤ}
      {stage : Stage P} : s.tasks[i]? = some (.installing c job loop (some status)) →
      installs stage = none →
      s' = (s.setDisk job.path ((s.disk job.path).recordInstall job.requirement)).move i stage →
      InstallTo s s'

omit [DecidableEq P] in
theorem recording_of_installs {stage : Stage P} (h : installs stage = none) :
    recording stage = none := by
  cases stage with
  | installing c job loop status => exact absurd h (by simp [installs])
  | _ => rfl

omit [DecidableEq P] in
/-- What the others have to record stays, while a call gets on that has nothing of the kind. -/
theorem mem_set_of_recording {i : ℕ} {a a' b : Stage P} {p : P} (ha : s.tasks[i]? = some a)
    (hnot : recording a ≠ some p) (hb : b ∈ s.tasks) (hrecording : recording b = some p) :
    b ∈ s.tasks.set i a' := by
  obtain ⟨j, hj⟩ := List.mem_iff_getElem?.1 hb
  have hij : i ≠ j := by
    rintro rfl
    obtain rfl := Option.some.inj (ha.symm.trans hj)
    exact hnot hrecording
  refine List.mem_of_getElem? (i := j) ?_
  rw [List.getElem?_set_ne hij]
  exact hj

/-- A call gets on that has nothing to record, and does not start an install. -/
theorem InstallTo.move {i : ℕ} {a a' : Stage P} (ha : s.tasks[i]? = some a)
    (hrecording : recording a = none) (hinstalls : installs a' = none)
    (htasks : s'.tasks = s.tasks.set i a') (hdisk : ∀ p, Similar (s.disk p) (s'.disk p)) :
    InstallTo config s s' := by
  refine .quiet hdisk (fun stage hstage => ?_) fun stage hstage hnot => ?_
  · rw [htasks] at hstage
    rcases List.mem_or_eq_of_mem_set hstage with hmem | rfl
    · exact Or.inl hmem
    · exact Or.inr hinstalls
  · obtain ⟨p, hp⟩ := Option.ne_none_iff_exists'.1 hnot
    rw [htasks]
    exact mem_set_of_recording ha (by simp [hrecording]) hstage hp

/-- A call is new that does not install yet. -/
theorem InstallTo.concat {a' : Stage P} (hinstalls : installs a' = none)
    (htasks : s'.tasks = s.tasks ++ [a']) (hdisk : ∀ p, Similar (s.disk p) (s'.disk p)) :
    InstallTo config s s' := by
  refine .quiet hdisk (fun stage hstage => ?_) fun stage hstage _ => ?_
  · rw [htasks] at hstage
    rcases List.mem_append.1 hstage with hmem | hmem
    · exact Or.inl hmem
    · rw [List.mem_singleton.1 hmem]
      exact Or.inr hinstalls
  · rw [htasks]
    exact List.mem_append_left _ hstage

theorem installs_entered (c : Call P) : installs (s.entered config c) = none := by
  cases c with
  | ensure requirement path force => rfl
  | run session path environment write =>
    unfold entered
    simp only
    split
    · rfl
    · split
      · split
        · rfl
        · rfl
      · rfl

theorem similar_setDisk {path : P} {d : Disk} (h : Similar (s.disk path) d) {i : ℕ}
    {stage : Stage P} (p : P) : Similar (s.disk p) (((s.setDisk path d).move i stage).disk p) := by
  by_cases hp : p = path
  · subst hp
    simpa [move, setDisk] using h
  · simpa [move, setDisk, Function.update_of_ne hp] using Similar.refl (s.disk p)

theorem installTo {e : RuntimeEvent P} (hregular : Regular config s e)
    (hs : s.step config e = some s') : InstallTo config s s' := by
  have hsame : ∀ p, Similar (s.disk p) (s.disk p) := fun p => .refl _
  have hrequest : ∀ c : Call P, InstallTo config s (s.request config c) := by
    intro c
    refine .concat ?_ rfl hsame
    split
    · exact installs_entered c
    · rfl
  cases stepTo hs with
  | getSession | declares | known =>
    exact .quiet hsame (fun stage hstage => Or.inl hstage) fun stage hstage _ => hstage
  | ensures => exact hrequest _
  | runs => exact hrequest _
  | acquires htask => exact .move htask rfl (installs_entered _) rfl hsame
  | skips htask => exact .move htask rfl rfl rfl hsame
  | starts htask hinstalled =>
    simp only [Regular, htask] at hregular
    rcases hregular with hskip | ⟨hforce, hknown⟩
    · rw [hinstalled] at hskip
      exact absurd hskip (by simp)
    · exact .starts htask rfl hforce hknown rfl
  | skipsDep htask => exact .move htask rfl rfl rfl hsame
  | startsDep htask hsession hdep hinstalled =>
    simp only [Regular, htask, hsession, Option.bind_some, hdep, Option.all_some, hinstalled,
      Bool.false_or, decide_eq_true_eq] at hregular
    refine .starts htask rfl ?_ hregular rfl
    simp only
    cases (s.disk _).reassert _ with
    | true => exact Or.inl rfl
    | false => exact Or.inr rfl
  | checks htask => exact .move htask rfl rfl rfl hsame
  | provisioned htask _ _ hfinish =>
    obtain ⟨_, _, _, _, _, -, -, rfl⟩ := finishProvision_eq hfinish
    exact .move htask rfl rfl rfl hsame
  | recorded htask => exact .records htask rfl rfl
  | recordedDep htask => exact .records htask rfl rfl
  | created htask =>
    refine .move htask rfl rfl rfl fun p => similar_setDisk ?_ p
    exact ⟨rfl, rfl, rfl, rfl, fun _ => id⟩
  | exited htask =>
    simp only [Regular, htask] at hregular
    exact .exits htask hregular rfl
  | checked htask hfinish =>
    obtain ⟨_, _, _, _, _, -, -, rfl⟩ := finishProvision_eq hfinish
    exact .move htask rfl rfl rfl hsame
  | @ends i e stage htask hnot =>
    refine .move htask ?_ rfl rfl hsame
    cases stage with
    | installing c job loop status =>
      cases status with
      | none => rfl
      | some status => exact absurd rfl (hnot c job loop status)
    | _ => rfl

/-! ## The records in every run -/

variable (config) in
/-- What is recorded, and what is about to be. -/
structure RecordsInv (s : Runtime P) : Prop where
  sound : ∀ p, (∀ stage ∈ s.tasks, recording stage ≠ some p) → Sound config (s.disk p)
  started : ∀ (c : Call P) (job : Job P) (loop : Option (Provision P)),
    .installing c job loop none ∈ s.tasks →
      (job.force = true ∨ (s.disk job.path).reassert job.requirement = false) ∧
        Known config job.requirement ∧ (s.disk job.path).attempted job.requirement = true
  pending : ∀ (c : Call P) (job : Job P) (loop : Option (Provision P)) (status : ℤ),
    .installing c job loop (some status) ∈ s.tasks →
      Sound config ((s.disk job.path).recordInstall job.requirement)

omit [DecidableEq P] in
theorem installs_of_recording {stage : Stage P} {p : P} (h : recording stage = some p) :
    installs stage = some p := by
  cases stage with
  | installing c job loop status =>
    cases status with
    | none => exact absurd h (by simp [recording])
    | some status => exact h
  | _ => exact absurd h (by simp [recording])

omit [DecidableEq P] in
/-- No install starts or gets on. -/
theorem RecordsInv.quiet (h : RecordsInv config s) (hdisk : ∀ p, Similar (s.disk p) (s'.disk p))
    (hnew : ∀ stage ∈ s'.tasks, stage ∈ s.tasks ∨ installs stage = none)
    (hkept : ∀ stage ∈ s.tasks, recording stage ≠ none → stage ∈ s'.tasks) :
    RecordsInv config s' where
  sound p hp := by
    refine (h.sound p fun stage hstage hrecording => ?_).similar (hdisk p)
    refine hp stage (hkept stage hstage ?_) hrecording
    rw [hrecording]
    exact Option.some_ne_none p
  started c job loop hmem := by
    rcases hnew _ hmem with hold | hnone
    · obtain ⟨hforce, hknown, hattempted⟩ := h.started c job loop hold
      exact ⟨(hdisk job.path).reassert ▸ hforce, hknown, (hdisk job.path).attempted _ hattempted⟩
    · exact absurd hnone (by simp [installs])
  pending c job loop status hmem := by
    rcases hnew _ hmem with hold | hnone
    · exact (h.pending c job loop status hold).similar ((hdisk job.path).recordInstall _)
    · exact absurd hnone (by simp [installs])

/-- An install starts. -/
theorem RecordsInv.starts (h : RecordsInv config s) {i : ℕ} {stage : Stage P} {c : Call P}
    {job : Job P} {loop : Option (Provision P)} (hstage : s.tasks[i]? = some stage)
    (hinstalls : installs stage = none)
    (hforce : job.force = true ∨ (s.disk job.path).reassert job.requirement = false)
    (hknown : Known config job.requirement) :
    RecordsInv config (s.startInstall i c job loop) := by
  have hattempt : Similar (s.disk job.path) ((s.disk job.path).attempt job.requirement) := by
    refine ⟨rfl, rfl, rfl, rfl, fun r hr => ?_⟩
    simp [Disk.attempt, hr]
  have hdisk : ∀ p, Similar (s.disk p) ((s.startInstall i c job loop).disk p) :=
    similar_setDisk hattempt
  have hmem : ∀ b ∈ (s.startInstall i c job loop).tasks,
      b ∈ s.tasks ∨ b = .installing c job loop none := fun b hb => List.mem_or_eq_of_mem_set hb
  refine ⟨fun p hp => ?_, fun c' job' loop' hb => ?_, fun c' job' loop' status hb => ?_⟩
  · refine (h.sound p fun b hb hrecording => ?_).similar (hdisk p)
    have hnot : recording stage ≠ some p := by simp [recording_of_installs hinstalls]
    exact hp b (mem_set_of_recording hstage hnot hb hrecording) hrecording
  · rcases hmem _ hb with hold | hnew
    · obtain ⟨hforce', hknown', hattempted⟩ := h.started c' job' loop' hold
      exact ⟨(hdisk job'.path).reassert ▸ hforce', hknown',
        (hdisk job'.path).attempted _ hattempted⟩
    · obtain ⟨-, rfl, -, -⟩ := Stage.installing.inj hnew
      refine ⟨(hdisk job'.path).reassert ▸ hforce, hknown, ?_⟩
      simp [startInstall, move, setDisk, Disk.attempt]
  · rcases hmem _ hb with hold | hnew
    · exact (h.pending c' job' loop' status hold).similar ((hdisk job'.path).recordInstall _)
    · exact absurd hnew (by simp)

/-- The others, while one call changes an environment. -/
theorem setDisk_move_of_ne {path p : P} {d : Disk} {i : ℕ} {stage : Stage P} (hp : p ≠ path) :
    ((s.setDisk path d).move i stage).disk p = s.disk p := Function.update_of_ne hp _ _

theorem setDisk_move_self {path : P} {d : Disk} {i : ℕ} {stage : Stage P} :
    ((s.setDisk path d).move i stage).disk path = d := Function.update_self ..

/-- **An install exits.** -/
theorem RecordsInv.exits (h : RecordsInv config s) (hexclusive : Exclusive s)
    (howned : ∀ stage ∈ s.tasks, Owned config s stage) {i : ℕ} {c : Call P} {job : Job P}
    {loop : Option (Provision P)} {status : ℤ}
    (hstage : s.tasks[i]? = some (.installing c job loop none))
    (hholds : Holds config (s.disk job.path) job.requirement status) :
    RecordsInv config ((s.setDisk job.path
      ((s.disk job.path).pipInstall config.applies config.lower job.requirement job.force
        status)).move i (.installing c job loop (some status))) := by
  have hlock : (Stage.installing c job loop none).holds = some (job.path, true) :=
    holds_of_installs (howned _ (List.mem_of_getElem? hstage)) rfl
  have hother : ∀ {j : ℕ} {b : Stage P}, j ≠ i → s.tasks[j]? = some b →
      installs b ≠ some job.path := fun hj hb => installs_ne hexclusive howned hj hstage hlock hb
  have hsound : Sound config (s.disk job.path) := by
    refine h.sound job.path fun b hb hrecording => ?_
    obtain ⟨j, hj⟩ := List.mem_iff_getElem?.1 hb
    by_cases hij : j = i
    · subst hij
      obtain rfl := Option.some.inj (hstage.symm.trans hj)
      exact absurd hrecording (by simp [recording])
    · exact hother hij hj (installs_of_recording hrecording)
  refine ⟨fun p hp => ?_, fun c' job' loop' hb => ?_, fun c' job' loop' status' hb => ?_⟩
  · have hne : p ≠ job.path := by
      rintro rfl
      refine hp (.installing c job loop (some status)) ?_ rfl
      exact List.mem_set (List.getElem?_eq_some_iff.1 hstage).1 _
    rw [setDisk_move_of_ne hne]
    refine h.sound p fun b hb hrecording => ?_
    exact hp b (mem_set_of_recording hstage (by simp [recording]) hb hrecording) hrecording
  · obtain ⟨j, hj⟩ := List.mem_iff_getElem?.1 hb
    rcases getElem?_set_cases hj with ⟨-, heq⟩ | ⟨hij, hj'⟩
    · exact absurd heq (by simp)
    · have hne : job'.path ≠ job.path := fun heq => hother hij hj' (congrArg some heq)
      rw [setDisk_move_of_ne hne]
      exact h.started c' job' loop' (List.mem_of_getElem? hj')
  · obtain ⟨j, hj⟩ := List.mem_iff_getElem?.1 hb
    rcases getElem?_set_cases hj with ⟨-, heq⟩ | ⟨hij, hj'⟩
    · obtain ⟨-, rfl, -, -⟩ := Stage.installing.inj heq
      obtain ⟨hforce, hknown, hattempted⟩ := h.started c job' loop (List.mem_of_getElem? hstage)
      rw [setDisk_move_self]
      exact sound_recordInstall hsound hforce hknown hattempted hholds
    · have hne : job'.path ≠ job.path := fun heq => hother hij hj' (congrArg some heq)
      rw [setDisk_move_of_ne hne]
      exact h.pending c' job' loop' status' (List.mem_of_getElem? hj')

/-- **An install is recorded.** -/
theorem RecordsInv.records (h : RecordsInv config s) (hexclusive : Exclusive s)
    (howned : ∀ stage ∈ s.tasks, Owned config s stage) {i : ℕ} {c : Call P} {job : Job P}
    {loop : Option (Provision P)} {status : ℤ} {stage : Stage P}
    (hstage : s.tasks[i]? = some (.installing c job loop (some status)))
    (hinstalls : installs stage = none) :
    RecordsInv config
      ((s.setDisk job.path ((s.disk job.path).recordInstall job.requirement)).move i stage) := by
  have hlock : (Stage.installing c job loop (some status)).holds = some (job.path, true) :=
    holds_of_installs (howned _ (List.mem_of_getElem? hstage)) rfl
  have hother : ∀ {j : ℕ} {b : Stage P}, j ≠ i → s.tasks[j]? = some b →
      installs b ≠ some job.path := fun hj hb => installs_ne hexclusive howned hj hstage hlock hb
  refine ⟨fun p hp => ?_, fun c' job' loop' hb => ?_, fun c' job' loop' status' hb => ?_⟩
  · by_cases hne : p = job.path
    · subst hne
      rw [setDisk_move_self]
      exact h.pending c job loop status (List.mem_of_getElem? hstage)
    · rw [setDisk_move_of_ne hne]
      refine h.sound p fun b hb hrecording => ?_
      have hnot : recording (.installing c job loop (some status)) ≠ some p :=
        fun heq => hne (Option.some.inj heq).symm
      exact hp b (mem_set_of_recording hstage hnot hb hrecording) hrecording
  · obtain ⟨j, hj⟩ := List.mem_iff_getElem?.1 hb
    rcases getElem?_set_cases hj with ⟨-, rfl⟩ | ⟨hij, hj'⟩
    · exact absurd hinstalls (by simp [installs])
    · have hne : job'.path ≠ job.path := fun heq => hother hij hj' (congrArg some heq)
      rw [setDisk_move_of_ne hne]
      exact h.started c' job' loop' (List.mem_of_getElem? hj')
  · obtain ⟨j, hj⟩ := List.mem_iff_getElem?.1 hb
    rcases getElem?_set_cases hj with ⟨-, rfl⟩ | ⟨hij, hj'⟩
    · exact absurd hinstalls (by simp [installs])
    · have hne : job'.path ≠ job.path := fun heq => hother hij hj' (congrArg some heq)
      rw [setDisk_move_of_ne hne]
      exact h.pending c' job' loop' status' (List.mem_of_getElem? hj')

/-- **What a step keeps.** -/
theorem RecordsInv.step {e : RuntimeEvent P} (h : RecordsInv config s) (hexclusive : Exclusive s)
    (howned : ∀ stage ∈ s.tasks, Owned config s stage) (hregular : Regular config s e)
    (hs : s.step config e = some s') : RecordsInv config s' := by
  cases installTo hregular hs with
  | quiet hdisk hnew hkept => exact h.quiet hdisk hnew hkept
  | starts hstage hinstalls hforce hknown heq =>
    subst heq
    exact h.starts hstage hinstalls hforce hknown
  | exits hstage hholds heq =>
    subst heq
    exact h.exits hexclusive howned hstage hholds
  | records hstage hinstalls heq =>
    subst heq
    exact h.records hexclusive howned hstage hinstalls

/-! ## What sessions take as installed -/

variable (config) in
/-- So many of the requirements of a session have been attempted in its environment. -/
def Attempted (s : Runtime P) (k : ℕ) (path : P) (n : ℕ) : Prop :=
  ∃ session : Session P, s.sessions[k]? = some session ∧ session.path = path ∧
    n ≤ session.deps.length ∧ ∀ dep ∈ session.deps.take n,
      (s.disk path).attempted (reconcile config (substitute config dep)) = true

variable (config) in
/-- How far the loop of a run is. -/
def Filled (s : Runtime P) : Stage P → Prop
  | .creating _ k path => Attempted config s k path 0
  | .provisioning _ loop => Attempted config s loop.session loop.path loop.next
  | .installing _ _ (some loop) _ => Attempted config s loop.session loop.path (loop.next + 1)
  | .checking _ loop => Attempted config s loop.session loop.path loop.next
  | _ => True

omit [DecidableEq P] in
theorem Attempted.mono {k n : ℕ} {path : P} (h : Attempted config s k path n)
    (hgrows : Grows s s') : Attempted config s' k path n := by
  obtain ⟨session, hsession, hpath, hlen, hall⟩ := h
  obtain ⟨session', hsession', hpath', -, rest, hdeps⟩ := hgrows.sessions k session hsession
  refine ⟨session', hsession', hpath'.trans hpath, ?_, fun dep hdep => ?_⟩
  · rw [← hdeps, List.length_append]
    omega
  · rw [← hdeps, List.take_append_of_le_length hlen] at hdep
    exact hgrows.attempted path _ (hall dep hdep)

omit [DecidableEq P] in
theorem Filled.mono {stage : Stage P} (h : Filled config s stage) (hgrows : Grows s s') :
    Filled config s' stage := by
  cases stage with
  | creating c k path => exact Attempted.mono h hgrows
  | provisioning c loop => exact Attempted.mono h hgrows
  | installing c job loop status =>
    cases loop with
    | none => trivial
    | some loop => exact Attempted.mono h hgrows
  | checking c loop => exact Attempted.mono h hgrows
  | waiting c => trivial
  | locked requirement path force => trivial
  | running c interpreter => trivial
  | done => trivial

omit [DecidableEq P] in
/-- One more requirement. -/
theorem Attempted.succ {k n : ℕ} {path : P} {session : Session P} {dep : Str}
    (h : Attempted config s k path n) (hsession : s.sessions[k]? = some session)
    (hdep : session.deps[n]? = some dep)
    (hattempted : (s.disk path).attempted (reconcile config (substitute config dep)) = true) :
    Attempted config s k path (n + 1) := by
  obtain ⟨session', hsession', hpath, -, hall⟩ := h
  obtain rfl : session = session' := Option.some.inj (hsession.symm.trans hsession')
  obtain ⟨hlt, hget⟩ := List.getElem?_eq_some_iff.1 hdep
  refine ⟨session, hsession, hpath, hlt, fun dep' hdep' => ?_⟩
  rw [List.take_add_one, hdep] at hdep'
  rcases List.mem_append.1 hdep' with hold | hnew
  · exact hall dep' hold
  · obtain rfl : dep' = dep := by simpa using hnew
    exact hattempted

theorem filled_entered (c : Call P) : Filled config s (s.entered config c) := by
  cases c with
  | ensure requirement path force => trivial
  | run session path environment write =>
    rw [entered]
    cases hvalue : session.bind fun k => s.sessions[k]?.map fun value => (k, value) with
    | none => trivial
    | some pair =>
      obtain ⟨k, value⟩ := pair
      obtain ⟨j, rfl, hj⟩ := Option.bind_eq_some_iff.1 hvalue
      obtain ⟨value', hvalue', heq⟩ := Option.map_eq_some_iff.1 hj
      obtain ⟨rfl, rfl⟩ := Prod.mk.inj heq
      have hnone : Attempted config s j value'.path 0 :=
        ⟨value', hvalue', rfl, Nat.zero_le _, by simp⟩
      simp only
      split
      · split
        · exact hnone
        · exact hnone
      · trivial

variable (config) in
/-- What sessions have noted has been attempted. -/
structure SessionsInv (s : Runtime P) : Prop where
  filled : ∀ stage ∈ s.tasks, Filled config s stage
  installed : ∀ session ∈ s.sessions, ∀ dep ∈ session.installed,
    (s.disk session.path).attempted (reconcile config (substitute config dep)) = true

omit [DecidableEq P] in
/-- A call gets on, and no session changes. -/
theorem SessionsInv.of_tasks (h : SessionsInv config s) (hgrows : Grows s s')
    (hsessions : s'.sessions = s.sessions)
    (hfilled : ∀ stage ∈ s'.tasks, Filled config s' stage) : SessionsInv config s' := by
  refine ⟨hfilled, fun session hsession dep hdep => ?_⟩
  rw [hsessions] at hsession
  exact hgrows.attempted _ _ (h.installed session hsession dep hdep)

/-- The loop of a run is over, and nothing has been added to its session since. -/
theorem SessionsInv.finish (h : SessionsInv config s) {i : ℕ} {c : Call P} {loop : Provision P}
    (hattempted : Attempted config s loop.session loop.path loop.next)
    (hlen : ∀ session, s.sessions[loop.session]? = some session →
      session.deps.length ≤ loop.next)
    (hfinish : s.finishProvision config i c loop = some s') : SessionsInv config s' := by
  have hgrows := grows_finishProvision hfinish
  obtain ⟨k, path, environment, write, session, -, hsession, rfl⟩ := finishProvision_eq hfinish
  obtain ⟨session', hsession', hpath, -, hall⟩ := hattempted
  obtain rfl : session = session' := Option.some.inj (hsession.symm.trans hsession')
  refine ⟨forall_mem_set h.filled (fun stage hstage => hstage.mono hgrows) trivial, ?_⟩
  intro value hvalue dep hdep
  rcases List.mem_or_eq_of_mem_set hvalue with hold | rfl
  · exact h.installed value hold dep hdep
  · rcases List.mem_append.1 hdep with hold | hnew
    · exact h.installed session (List.mem_of_getElem? hsession) dep hold
    · rw [List.take_of_length_le (hlen session hsession)] at hall
      show (s.disk session.path).attempted _ = true
      rw [hpath]
      exact hall dep hnew

/-- **What a step keeps.** -/
theorem SessionsInv.step {e : RuntimeEvent P} (h : SessionsInv config s)
    (hsound : ∀ c loop, .provisioning c loop ∈ s.tasks → Sound config (s.disk loop.path))
    (hregular : Regular config s e) (hs : s.step config e = some s') : SessionsInv config s' := by
  have hstep := stepTo hs
  have hgrows := hstep.grows
  have hmono : ∀ stage, Filled config s stage → Filled config s' stage :=
    fun stage hstage => hstage.mono hgrows
  have htask : ∀ {i : ℕ} {stage : Stage P}, s.tasks[i]? = some stage → Filled config s stage :=
    fun htask => h.filled _ (List.mem_of_getElem? htask)
  cases hstep with
  | getSession =>
    refine ⟨fun stage hstage => hmono stage (h.filled stage hstage), ?_⟩
    intro session hsession dep hdep
    rcases List.mem_append.1 hsession with hold | hnew
    · exact h.installed session hold dep hdep
    · rw [List.mem_singleton.1 hnew] at hdep
      exact absurd hdep (by simp)
  | declares hsession =>
    refine ⟨fun stage hstage => hmono stage (h.filled stage hstage), ?_⟩
    intro session hmem dep hdep
    rcases List.mem_or_eq_of_mem_set hmem with hold | rfl
    · exact h.installed session hold dep hdep
    · exact h.installed _ (List.mem_of_getElem? hsession) dep hdep
  | known => exact h
  | ensures =>
    refine h.of_tasks hgrows rfl (forall_mem_concat h.filled hmono ?_)
    split
    · exact hmono _ (filled_entered _)
    · trivial
  | runs =>
    refine h.of_tasks hgrows rfl (forall_mem_concat h.filled hmono ?_)
    split
    · exact hmono _ (filled_entered _)
    · trivial
  | acquires =>
    exact h.of_tasks hgrows rfl (forall_mem_set h.filled hmono (hmono _ (filled_entered _)))
  | skips => exact h.of_tasks hgrows rfl (forall_mem_set h.filled hmono trivial)
  | starts => exact h.of_tasks hgrows rfl (forall_mem_set h.filled hmono trivial)
  | skipsDep hstage hsession hdep hguard =>
    have hattempted : Attempted config s _ _ _ := htask hstage
    have hrecorded := (hsound _ _ (List.mem_of_getElem? hstage)).succeeded _ hguard
    exact h.of_tasks hgrows rfl (forall_mem_set h.filled hmono
      ((hattempted.succ hsession hdep hrecorded.2).mono hgrows))
  | @startsDep i c loop session dep hstage hsession hdep =>
    have hattempted : Attempted config s _ _ _ := htask hstage
    refine h.of_tasks hgrows rfl (forall_mem_set h.filled hmono ?_)
    refine (hattempted.mono hgrows).succ hsession hdep ?_
    simp [startInstall, move, setDisk, Disk.attempt]
  | checks hstage =>
    have hattempted : Attempted config s _ _ _ := htask hstage
    exact h.of_tasks hgrows rfl (forall_mem_set h.filled hmono (hattempted.mono hgrows))
  | provisioned hstage hsession hlen hfinish =>
    refine h.finish (htask hstage) (fun session hsession' => ?_) hfinish
    obtain rfl := Option.some.inj (hsession.symm.trans hsession')
    exact hlen
  | recorded => exact h.of_tasks hgrows rfl (forall_mem_set h.filled hmono trivial)
  | recordedDep hstage =>
    have hattempted : Attempted config s _ _ _ := htask hstage
    exact h.of_tasks hgrows rfl (forall_mem_set h.filled hmono (hattempted.mono hgrows))
  | created hstage =>
    have hattempted : Attempted config s _ _ _ := htask hstage
    exact h.of_tasks hgrows rfl (forall_mem_set h.filled hmono (hattempted.mono hgrows))
  | @exited i status made c job loop hstage =>
    refine h.of_tasks hgrows rfl (forall_mem_set h.filled hmono ?_)
    have hfilled := htask hstage
    cases loop with
    | none => trivial
    | some loop => exact Attempted.mono hfilled hgrows
  | checked hstage hfinish =>
    refine h.finish (htask hstage) (fun session hsession => ?_) hfinish
    simp only [Regular, hstage, hsession, Option.all_some, decide_eq_true_eq] at hregular
    exact hregular
  | ends => exact h.of_tasks hgrows rfl (forall_mem_set h.filled hmono trivial)

/-! ## Every run -/

variable (config) in
/-- What is read before a wait still holds after it, and the calls do as the records assume. -/
def Orderly (s : Runtime P) (e : RuntimeEvent P) : Prop := Fresh config s e ∧ Regular config s e

instance (s : Runtime P) (e : RuntimeEvent P) : Decidable (Orderly config s e) := by
  unfold Orderly
  infer_instance

variable (config) in
structure Inv (s : Runtime P) : Prop where
  owned : ∀ stage ∈ s.tasks, Owned config s stage
  exclusive : Exclusive s
  records : RecordsInv config s
  sessions : SessionsInv config s

omit [DecidableEq P] in
/-- Where a run fills a session, nothing waits to be recorded. -/
theorem Inv.sound_of_provisioning (h : Inv config s) {c : Call P} {loop : Provision P}
    (hmem : .provisioning c loop ∈ s.tasks) : Sound config (s.disk loop.path) := by
  obtain ⟨i, hi⟩ := List.mem_iff_getElem?.1 hmem
  have hhome : AtHome s c loop.session loop.path := h.owned _ hmem
  have hlock : (Stage.provisioning c loop).holds = some (loop.path, true) := by
    rw [Stage.holds, hhome.lock]
  refine h.records.sound loop.path fun b hb hrecording => ?_
  obtain ⟨j, hj⟩ := List.mem_iff_getElem?.1 hb
  by_cases hij : j = i
  · subst hij
    obtain rfl := Option.some.inj (hi.symm.trans hj)
    exact absurd hrecording (by simp [recording])
  · exact installs_ne h.exclusive h.owned hij hi hlock hj (installs_of_recording hrecording)

/-- **The records in every run**: as long as what is read before a wait still holds after it, and
the calls do as the records assume, the records of an environment are right whenever no call holds
its lock, and what a session has noted as installed has been attempted. -/
theorem recorded_run {disk : P → Disk} (hdisk : ∀ p, Sound config (disk p)) {s : Runtime P}
    (h : Run (pythonRuntime config disk) (Orderly config) s) :
    (∀ p, (∀ stage ∈ s.tasks, ∀ write, stage.holds ≠ some (p, write)) →
      ∀ r, Recorded config (s.disk p) r) ∧
    ∀ session ∈ s.sessions, ∀ dep ∈ session.installed,
      (s.disk session.path).attempted (reconcile config (substitute config dep)) = true := by
  have hinv : Inv config s := by
    refine h.invariant (P := Inv config) ?_ fun s e s' hinv hok hs => ?_
    · refine ⟨fun stage hstage => absurd hstage (by simp [pythonRuntime]), ?_, ?_, ?_⟩
      · exact fun i j a b _ ha => absurd ha (by simp [pythonRuntime])
      · refine ⟨fun p _ => hdisk p, ?_, ?_⟩
        · exact fun c job loop hmem => absurd hmem (by simp [pythonRuntime])
        · exact fun c job loop status hmem => absurd hmem (by simp [pythonRuntime])
      · refine ⟨fun stage hstage => absurd hstage (by simp [pythonRuntime]), ?_⟩
        exact fun session hsession => absurd hsession (by simp [pythonRuntime])
    · exact ⟨owned_step hinv.owned hok.1 hs, exclusive_step hinv.exclusive hs,
        hinv.records.step hinv.exclusive hinv.owned hok.2 hs,
        hinv.sessions.step (fun c loop => hinv.sound_of_provisioning) hok.2 hs⟩
  refine ⟨fun p hfree r => ?_, hinv.sessions.installed⟩
  refine (hinv.records.sound p fun stage hstage hrecording => ?_).recorded r
  exact hfree stage hstage true
    (holds_of_installs (hinv.owned stage hstage) (installs_of_recording hrecording))

end

/-! ## Installs that go wrong -/

theorem sound_emptyDisk (p : ℕ) : Sound hostRuntime (emptyDisk p) :=
  ⟨fun _ h => absurd h (by simp [emptyDisk]), fun _ h => absurd h (by simp [emptyDisk]),
    fun _ _ _ h => absurd h (by simp [emptyDisk])⟩

/-- The locks that are held, and what is recorded of a requirement in the environment `0` and is
true of it. -/
def recordOf (r : Str) (s : Runtime ℕ) : List (Option (ℕ × Bool)) × Bool × Bool × Bool × Bool :=
  let d := s.disk 0
  (s.tasks.map Stage.holds, d.guard r, d.reassert r, d.succeeded r, d.overwritten r)

/-- A requirement is installed for a call without a session. -/
def install (i : ℕ) (requirement : Str) (status : ℤ) : List (RuntimeEvent ℕ) :=
  [.ensure requirement none none false, .proceed i, .exit i status false, .proceed i]

/-- One package overwrites the other, which is installed again. -/
theorem recorded_reassert : ∃ s : Runtime ℕ, (s.disk 0).guard cadqueryOcp = true ∧
    (∀ p, (∀ stage ∈ s.tasks, ∀ write, stage.holds ≠ some (p, write)) →
      ∀ r, Recorded hostRuntime (s.disk p) r) ∧
    ∀ session ∈ s.sessions, ∀ dep ∈ session.installed,
      (s.disk session.path).attempted (reconcile hostRuntime (substitute hostRuntime dep)) = true := by
  let after := (pythonRuntime hostRuntime emptyDisk).after (Orderly hostRuntime)
    (install 0 cadqueryOcp 0 ++ install 1 build123d 0 ++ install 2 cadqueryOcp 0)
  have hview : (after.map fun s => (s.disk 0).guard cadqueryOcp) = some true := by decide
  obtain ⟨s, hs, hguard⟩ := Option.map_eq_some_iff.1 hview
  exact ⟨s, hguard, recorded_run sound_emptyDisk (run_after hs)⟩

/-- An install that fails is recorded. -/
theorem not_recorded_failedInstall : ¬ ∀ s, Run (pythonRuntime hostRuntime emptyDisk)
    (fun _ _ => True) s →
    (∀ p, (∀ stage ∈ s.tasks, ∀ write, stage.holds ≠ some (p, write)) →
      ∀ r, Recorded hostRuntime (s.disk p) r) ∧
    ∀ session ∈ s.sessions, ∀ dep ∈ session.installed,
      (s.disk session.path).attempted (reconcile hostRuntime (substitute hostRuntime dep)) = true := by
  intro h
  let after := (pythonRuntime hostRuntime emptyDisk).after (fun _ _ => True)
    (install 0 "a".toList 1)
  have hview : after.map (recordOf "a".toList) = some ([none], true, false, false, false) := by
    decide
  obtain ⟨s, hs, hrecord⟩ := Option.map_eq_some_iff.1 hview
  obtain ⟨hholds, hguard, hreassert, hsucceeded, -⟩ :
      s.tasks.map Stage.holds = [none] ∧ (s.disk 0).guard "a".toList = true ∧
        (s.disk 0).reassert "a".toList = false ∧ (s.disk 0).succeeded "a".toList = false ∧
          (s.disk 0).overwritten "a".toList = false := by
    simpa [recordOf] using hrecord
  have hfree : ∀ stage ∈ s.tasks, ∀ write, stage.holds ≠ some (0, write) := by
    intro stage hstage write heq
    have hmem : stage.holds ∈ s.tasks.map Stage.holds := List.mem_map_of_mem hstage
    rw [hholds, heq] at hmem
    exact absurd hmem (by simp)
  have hrecorded := (h s (run_after hs)).1 0 hfree "a".toList hguard hreassert
  rw [hsucceeded] at hrecorded
  exact absurd hrecorded.1 (by simp)

-- the force of an install is decided before the wait for the lock, in which the files it is for are
-- overwritten
example : ((pythonRuntime hostRuntime emptyDisk).after (fun _ _ => True)
    [.ensure cadqueryOcp none none false, .proceed 0, .ensure build123d none none false,
      .ensure cadqueryOcp none none false, .exit 0 0 false, .proceed 0, .acquire 1, .proceed 1,
      .exit 1 0 false, .proceed 1, .acquire 2, .proceed 2, .exit 2 0 false, .proceed 2]).map
      (recordOf cadqueryOcp) = some ([none, none, none], true, false, true, true) := by
  decide

-- with a marker, the requirement is not known as one that overwrites files
example : ((pythonRuntime hostRuntime emptyDisk).after (fun _ _ => True)
    (install 0 cadqueryOcp 0 ++ install 1 (build123d ++ "; os_name == 'posix'".toList) 0)).map
      (recordOf cadqueryOcp) = some ([none, none], true, false, true, true) := by
  decide

-- a requirement that comes in during the last check is noted as installed
example : ((pythonRuntime hostRuntime fun p => { emptyDisk p with onDisk := p = 0 }).after
    (fun _ _ => True)
    [.getSession 1, .ensure "b".toList (some 0) none false, .run (some 0) none, .exit 0 0 true,
      .proceed 0, .exit 0 0 false, .proceed 0, .proceed 0, .ensure "c".toList (some 0) none false,
      .exit 0 0 false]).map
      (fun s => (s.sessions.map fun session => session.installed, (s.disk 1).attempted "c".toList)) =
    some ([["b".toList, "c".toList]], false) := by
  decide

end PartCAD.Sandbox.Runtime
