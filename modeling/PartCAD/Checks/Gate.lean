import Mathlib.Data.Int.Notation
import PartCAD.Lib.Run
import PartCAD.Lib.Semaphore

/-!
# The gate that checks run behind

At most so many calls are admitted at once, and what an admitted call does goes straight through.
Whether a task is admitted is a variable of its context, and a task that it creates begins with a copy.

* `step` : what the tasks of an event loop can do at the gate;
* `Inv` : what the gate and its tasks say of each other;
* `Gated` : what is promised of the gate;
* `gate_run` : **it holds after every run**.
-/

namespace PartCAD.Checks

open PartCAD.Lib

/-! ## Tasks at the gate -/

/-- A call of `run` that a task is inside of: one that was admitted, with the token that resets the
variable, or one further in. -/
inductive Frame where
  | outermost (token : Bool)
  | nested
  deriving DecidableEq

def Frame.isOutermost : Frame → Bool
  | outermost _ => true
  | nested => false

/-- A task, with the variable as it was created and as it is, the calls that it is inside of, the last
one first, whether it is in `acquire`, and whether it was cancelled there after it was woken up. -/
structure Task where
  inherited : Bool
  admitted : Bool
  frames : List Frame
  waiting : Bool
  mustCancel : Bool
  deriving DecidableEq

/-- The tasks of an event loop, and its semaphore with the limit that it was created with. -/
structure LoopState where
  tasks : List Task
  semaphore : Option (ℕ × Semaphore ℕ)

/-- What can happen: a task starts elsewhere; a task creates another, calls `run`, is cancelled, or goes
on; or the function of its last call returns or raises. -/
inductive GateEvent where
  | start
  | spawn (i : ℕ)
  | call (i : ℕ) (limit : Option ℤ)
  | cancel (i : ℕ)
  | resume (i : ℕ)
  | leave (i : ℕ)
  deriving DecidableEq

/-- `default_limit` -/
def defaultLimit (cpuCount : Option ℕ) : ℕ :=
  max (match cpuCount with
    | none => 1
    | some 0 => 1
    | some (n + 1) => n + 1) 8

/-- `limit if limit else default_limit()`.  A semaphore is not created with a negative number. -/
def semaphoreLimit (cpuCount : Option ℕ) : Option ℤ → Option ℕ
  | none => some (defaultLimit cpuCount)
  | some limit =>
    if limit = 0 then some (defaultLimit cpuCount)
    else if limit < 0 then none
    else some limit.toNat

/-- A task that its context begins so for. -/
def Task.new (admitted : Bool) : Task := ⟨admitted, admitted, [], false, false⟩

/-- Inside of `async with`: the variable is set. -/
def Task.enter (t : Task) : Task :=
  { t with
    admitted := true
    frames := .outermost t.admitted :: t.frames
    waiting := false }

/-- Out of `acquire`, with what cancelled it. -/
def Task.giveUp (t : Task) : Task := { t with waiting := false, mustCancel := false }

variable (cpuCount : Option ℕ)

namespace LoopState

/-- A task that runs. -/
def running (s : LoopState) (i : ℕ) : Option Task := s.tasks[i]?.filter fun t => !t.waiting

def setTask (s : LoopState) (i : ℕ) (t : Task) : LoopState := { s with tasks := s.tasks.set i t }

/-- `_semaphore` -/
def getSemaphore (s : LoopState) (limit : Option ℤ) : Option (ℕ × Semaphore ℕ) :=
  match s.semaphore with
  | some found => some found
  | none => (semaphoreLimit cpuCount limit).map fun n => (n, ⟨n, []⟩)

/-- `run`, up to where it first waits. -/
def call (s : LoopState) (i : ℕ) (limit : Option ℤ) (t : Task) : LoopState :=
  if t.admitted then s.setTask i { t with frames := .nested :: t.frames }
  else
    match s.getSemaphore cpuCount limit with
    | none => s
    | some (bound, semaphore) =>
      match semaphore.acquire i with
      | (true, semaphore) => ⟨s.tasks.set i t.enter, some (bound, semaphore)⟩
      | (false, semaphore) =>
        ⟨s.tasks.set i { t with waiting := true }, some (bound, semaphore)⟩

/-- `Task.cancel()` for one that is in `acquire`.  What a function makes of it is how it leaves. -/
def cancel (s : LoopState) (i : ℕ) (t : Task) : LoopState :=
  match t.waiting, s.semaphore with
  | true, some (bound, semaphore) =>
    match semaphore.futureOf i with
    | some .pending => { s with semaphore := some (bound, semaphore.cancel i) }
    | _ => s.setTask i { t with mustCancel := true }
  | _, _ => s

/-- The rest of `acquire`, when the future of the task is done. -/
def resume (s : LoopState) (i : ℕ) (t : Task) : Option LoopState :=
  match t.waiting, s.semaphore with
  | true, some (bound, semaphore) =>
    match semaphore.futureOf i with
    | some .woken =>
      if t.mustCancel then
        some ⟨s.tasks.set i t.giveUp, some (bound, semaphore.giveUp i)⟩
      else some ⟨s.tasks.set i t.enter, some (bound, semaphore.goOn i)⟩
    | some .cancelled => some ⟨s.tasks.set i t.giveUp, some (bound, semaphore.giveUp i)⟩
    | _ => none
  | _, _ => none

/-- The end of the last call: the variable is reset, and the permit is given back. -/
def leave (s : LoopState) (i : ℕ) (t : Task) : Option LoopState :=
  match t.frames with
  | [] => none
  | .nested :: frames => some (s.setTask i { t with frames := frames })
  | .outermost token :: frames =>
    some
      { tasks := s.tasks.set i { t with admitted := token, frames := frames }
        semaphore := s.semaphore.map fun (bound, semaphore) => (bound, semaphore.release) }

end LoopState

def gateStep (s : LoopState) : GateEvent → Option LoopState
  | .start => some { s with tasks := s.tasks ++ [Task.new false] }
  | .spawn i => (s.running i).map fun t => { s with tasks := s.tasks ++ [Task.new t.admitted] }
  | .call i limit => (s.running i).map (s.call cpuCount i limit)
  | .cancel i => s.tasks[i]?.map (s.cancel i)
  | .resume i => s.tasks[i]?.bind (s.resume i)
  | .leave i => (s.running i).bind (s.leave i)

/-- An event loop on which nothing has happened at the gate. -/
def gate : System LoopState GateEvent := ⟨⟨[], none⟩, gateStep cpuCount⟩

/-! ## What the gate and its tasks say of each other -/

/-- How many calls have been admitted and are not over. -/
def LoopState.outermost (s : LoopState) : ℕ := (s.tasks.flatMap Task.frames).countP Frame.isOutermost

/-- A task is as it was created, or inside of one call that was admitted. -/
inductive Task.Sound : Task → Prop
  | inherited (frames : List Frame) (mustCancel : Bool) :
    (∀ f ∈ frames, f = .nested) → Sound ⟨true, true, frames, false, mustCancel⟩
  | outside (waiting mustCancel : Bool) : Sound ⟨false, false, [], waiting, mustCancel⟩
  | inside (k : ℕ) (mustCancel : Bool) :
    Sound ⟨false, true, List.replicate k .nested ++ [.outermost false], false, mustCancel⟩

/-- A task that is in `acquire`. -/
def LoopState.Waits (s : LoopState) (i : ℕ) : Prop := ∃ t, s.tasks[i]? = some t ∧ t.waiting = true

/-- What the semaphore says of the tasks: each permit is there or with a call that was admitted, and
those who are in `acquire` are in the queue. -/
structure LoopState.Agrees (s : LoopState) (bound : ℕ) (semaphore : Semaphore ℕ) : Prop where
  positive : 0 < bound
  permits : semaphore.permits + s.outermost = bound
  ready : semaphore.Ready
  distinct : semaphore.names.Nodup
  queue : ∀ i, i ∈ semaphore.names ↔ s.Waits i

structure Inv (s : LoopState) : Prop where
  sound : ∀ t ∈ s.tasks, t.Sound
  fresh : s.semaphore = none → s.outermost = 0 ∧ ∀ i, ¬ s.Waits i
  agrees : ∀ bound semaphore, s.semaphore = some (bound, semaphore) → s.Agrees bound semaphore

variable {cpuCount} {s s' : LoopState} {i : ℕ} {t t' : Task}

theorem outermost_set (h : s.tasks[i]? = some t) (t' : Task) (semaphore : Option (ℕ × Semaphore ℕ)) :
    LoopState.outermost ⟨s.tasks.set i t', semaphore⟩ + t.frames.countP Frame.isOutermost =
      s.outermost + t'.frames.countP Frame.isOutermost :=
  countP_flatMap_set _ Task.frames h t'

theorem waits_set (h : s.tasks[i]? = some t) (t' : Task) (semaphore : Option (ℕ × Semaphore ℕ))
    (j : ℕ) :
    LoopState.Waits ⟨s.tasks.set i t', semaphore⟩ j ↔
      (j = i ∧ t'.waiting = true) ∨ (j ≠ i ∧ s.Waits j) := by
  obtain ⟨hi, -⟩ := List.getElem?_eq_some_iff.1 h
  unfold LoopState.Waits
  dsimp only
  rw [List.getElem?_set]
  by_cases hj : j = i
  · subst hj
    simp [hi]
  · rw [if_neg (Ne.symm hj)]
    simp [hj]

theorem running_eq_some : s.running i = some t ↔ s.tasks[i]? = some t ∧ t.waiting = false := by
  rw [LoopState.running, Option.filter_eq_some_iff]
  simp

theorem sound_set (h : Inv s) (hsound : t'.Sound) : ∀ u ∈ s.tasks.set i t', u.Sound := by
  intro u hu
  rcases List.mem_or_eq_of_mem_set hu with hu | rfl
  · exact h.sound u hu
  · exact hsound

/-- Nothing changes at the gate. -/
theorem Inv.same (h : Inv s) (hsound : ∀ t ∈ s'.tasks, t.Sound)
    (houtermost : s'.outermost = s.outermost) (hwaits : ∀ j, s'.Waits j ↔ s.Waits j) (hsemaphore : s'.semaphore = s.semaphore) : Inv s' := by
  refine ⟨hsound, fun hnone => ?_, fun bound semaphore hsem => ?_⟩
  · obtain ⟨hzero, hwait⟩ := h.fresh (hsemaphore ▸ hnone)
    exact ⟨houtermost.trans hzero, fun j hj => hwait j ((hwaits j).1 hj)⟩
  · have hagrees := h.agrees bound semaphore (hsemaphore ▸ hsem)
    exact ⟨hagrees.positive, by rw [houtermost, hagrees.permits], hagrees.ready, hagrees.distinct,
      fun j => (hagrees.queue j).trans (hwaits j).symm⟩

/-- A task changes, and nothing at the semaphore. -/
theorem Inv.setTask (h : Inv s) (ht : s.tasks[i]? = some t) (hsound : t'.Sound)
    (hwaiting : t'.waiting = t.waiting)
    (hframes : t'.frames.countP Frame.isOutermost = t.frames.countP Frame.isOutermost) :
    Inv (s.setTask i t') := by
  have houtermost : (s.setTask i t').outermost = s.outermost := by
    have hset := outermost_set ht t' s.semaphore
    unfold LoopState.setTask
    omega
  have hwaits : ∀ j, (s.setTask i t').Waits j ↔ s.Waits j := by
    intro j
    have hown : s.Waits i ↔ t.waiting = true := by simp [LoopState.Waits, ht]
    refine (waits_set ht t' s.semaphore j).trans ?_
    rw [hwaiting, ← hown]
    by_cases hj : j = i <;> simp [hj]
  exact h.same (sound_set h hsound) houtermost hwaits rfl

/-- A task changes together with the semaphore. -/
theorem Inv.setBoth {bound : ℕ} {semaphore : Semaphore ℕ} (h : Inv s) (ht : s.tasks[i]? = some t)
    (hsound : t'.Sound) (hbound : 0 < bound) (hready : semaphore.Ready)
    (hpermits : semaphore.permits + s.outermost + t'.frames.countP Frame.isOutermost =
      bound + t.frames.countP Frame.isOutermost)
    (hdistinct : semaphore.names.Nodup)
    (hnames : ∀ j, j ∈ semaphore.names ↔ (j = i ∧ t'.waiting = true) ∨ (j ≠ i ∧ s.Waits j)) :
    Inv ⟨s.tasks.set i t', some (bound, semaphore)⟩ := by
  refine ⟨sound_set h hsound, nofun, fun bound' semaphore' hsem => ?_⟩
  obtain ⟨rfl, rfl⟩ := Prod.mk.inj (Option.some.inj hsem)
  have hset := outermost_set ht t' (some (bound, semaphore))
  exact ⟨hbound, by omega, hready, hdistinct, fun j => (hnames j).trans (waits_set ht t' _ j).symm⟩

/-- A task comes in. -/
theorem Inv.addTask (h : Inv s) (admitted : Bool) :
    Inv { s with tasks := s.tasks ++ [Task.new admitted] } := by
  have houtermost : LoopState.outermost { s with tasks := s.tasks ++ [Task.new admitted] } =
      s.outermost := by
    simp [LoopState.outermost, Task.new]
  have hwaits : ∀ j, LoopState.Waits { s with tasks := s.tasks ++ [Task.new admitted] } j ↔
      s.Waits j := by
    intro j
    constructor
    · rintro ⟨u, hu, hwaiting⟩
      rcases getElem?_concat_cases hu with ⟨-, rfl⟩ | ⟨-, hu⟩
      · exact absurd hwaiting Bool.false_ne_true
      · exact ⟨u, hu, hwaiting⟩
    · rintro ⟨u, hu, hwaiting⟩
      have hj := (List.getElem?_eq_some_iff.1 hu).1
      exact ⟨u, (List.getElem?_append_left hj).trans hu, hwaiting⟩
  refine h.same (fun u hu => ?_) houtermost hwaits rfl
  rcases List.mem_append.1 hu with hu | hu
  · exact h.sound u hu
  · rw [List.mem_singleton.1 hu]
    cases admitted with
    | true => exact .inherited [] false (by simp)
    | false => exact .outside false false

/-! ## Steps -/

theorem semaphoreLimit_pos {limit : Option ℤ} {n : ℕ} (h : semaphoreLimit cpuCount limit = some n) :
    0 < n := by
  have hdefault : 0 < defaultLimit cpuCount := by
    unfold defaultLimit
    omega
  unfold semaphoreLimit at h
  split at h
  · exact Option.some.inj h ▸ hdefault
  · split at h
    · exact Option.some.inj h ▸ hdefault
    · split at h
      · cases h
      · obtain rfl := Option.some.inj h
        omega

theorem Inv.getSemaphore (h : Inv s) {limit : Option ℤ} {bound : ℕ} {semaphore : Semaphore ℕ}
    (hget : s.getSemaphore cpuCount limit = some (bound, semaphore)) : s.Agrees bound semaphore := by
  unfold LoopState.getSemaphore at hget
  split at hget
  · rename_i found hfound
    exact h.agrees bound semaphore (hfound.trans hget)
  · rename_i hnone
    obtain ⟨n, hn, heq⟩ := Option.map_eq_some_iff.1 hget
    obtain ⟨rfl, rfl⟩ := Prod.mk.inj heq
    obtain ⟨hzero, hwait⟩ := h.fresh hnone
    refine ⟨semaphoreLimit_pos hn, ?_, fun hpending => ?_, List.nodup_nil, fun j => ?_⟩
    · rw [hzero]
      rfl
    · exact absurd hpending (Nat.lt_irrefl 0)
    · exact iff_of_false List.not_mem_nil (hwait j)

theorem Task.Sound.of_waiting (h : t.Sound) (hwaiting : t.waiting = true) :
    ∃ mustCancel, t = ⟨false, false, [], true, mustCancel⟩ := by
  cases h with
  | inherited _ _ _ => cases hwaiting
  | outside waiting mustCancel =>
    obtain rfl : waiting = true := hwaiting
    exact ⟨mustCancel, rfl⟩
  | inside _ _ => cases hwaiting

/-- The names of a queue that somebody has left. -/
theorem LoopState.Agrees.leaves {bound : ℕ} {semaphore semaphore' : Semaphore ℕ}
    (h : s.Agrees bound semaphore) (hnames : semaphore'.names = semaphore.names.filter (· ≠ i)) (ht' : t'.waiting = false) (j : ℕ) :
    j ∈ semaphore'.names ↔ (j = i ∧ t'.waiting = true) ∨ (j ≠ i ∧ s.Waits j) := by
  rw [hnames, List.mem_filter, h.queue j, ht']
  simp [and_comm]

theorem not_waits (ht : s.tasks[i]? = some t) (hwaiting : t.waiting = false) : ¬ s.Waits i := by
  rintro ⟨u, hu, hwaits⟩
  obtain rfl := Option.some.inj (ht.symm.trans hu)
  exact absurd (hwaiting.symm.trans hwaits) Bool.false_ne_true

theorem waits_other (hout : ¬ s.Waits i) (ht' : t'.waiting = false) (j : ℕ) :
    s.Waits j ↔ (j = i ∧ t'.waiting = true) ∨ (j ≠ i ∧ s.Waits j) := by
  by_cases hj : j = i
  · simp [hj, hout, ht']
  · simp [hj]

theorem inv_call (h : Inv s) (hrunning : s.running i = some t) (limit : Option ℤ) :
    Inv (s.call cpuCount i limit t) := by
  obtain ⟨ht, hwaiting⟩ := running_eq_some.1 hrunning
  have hsound := h.sound t (List.mem_of_getElem? ht)
  unfold LoopState.call
  cases hsound with
  | inherited frames mustCancel hnested =>
    rw [if_pos rfl]
    refine h.setTask ht (.inherited _ _ fun f hf => ?_) rfl rfl
    rcases List.mem_cons.1 hf with rfl | hf
    · rfl
    · exact hnested f hf
  | inside k mustCancel =>
    rw [if_pos rfl]
    exact h.setTask ht (.inside (k + 1) mustCancel) rfl rfl
  | outside waiting mustCancel =>
    obtain rfl : waiting = false := hwaiting
    have hout : ¬ s.Waits i := not_waits ht rfl
    rw [if_neg Bool.false_ne_true]
    cases hget : s.getSemaphore cpuCount limit with
    | none => exact h
    | some found =>
      obtain ⟨bound, semaphore⟩ := found
      have hagrees := h.getSemaphore hget
      dsimp only
      cases hacquire : semaphore.acquire i with
      | mk free semaphore' =>
        cases free with
        | true =>
          obtain ⟨hnames, hpermits, hready⟩ := Semaphore.acquire_true hacquire
          have hsum := hagrees.permits
          refine h.setBoth ht (.inside 0 mustCancel) hagrees.positive hready ?_
            (hnames ▸ hagrees.distinct) fun j => ?_
          · show semaphore'.permits + s.outermost + 1 = bound + 0
            omega
          · rw [hnames, hagrees.queue]
            exact waits_other hout rfl j
        | false =>
          obtain ⟨hwaiters, hpermits, hready⟩ := Semaphore.acquire_false hacquire hagrees.ready
          have hnames : semaphore'.names = semaphore.names ++ [i] := by
            rw [Semaphore.names, hwaiters, List.map_append]
            rfl
          refine h.setBoth ht (.outside true mustCancel) hagrees.positive hready ?_ ?_ fun j => ?_
          · rw [hpermits, hagrees.permits]
          · rw [hnames]
            refine hagrees.distinct.append (List.nodup_singleton i) (List.disjoint_singleton.2 ?_)
            exact fun hi => hout ((hagrees.queue i).1 hi)
          · rw [hnames, List.mem_append, hagrees.queue, List.mem_singleton]
            by_cases hj : j = i
            · simp [hj]
            · simp [hj]

theorem inv_cancel (h : Inv s) (ht : s.tasks[i]? = some t) : Inv (s.cancel i t) := by
  unfold LoopState.cancel
  split
  · rename_i bound semaphore hwaiting hsem
    split
    · have hagrees := h.agrees bound semaphore hsem
      obtain ⟨hnames, hpermits, hready⟩ := Semaphore.cancel_spec i hagrees.ready
      refine ⟨h.sound, nofun, fun bound' semaphore' hsem' => ?_⟩
      obtain ⟨rfl, rfl⟩ := Prod.mk.inj (Option.some.inj hsem')
      refine ⟨hagrees.positive, ?_, hready, hnames ▸ hagrees.distinct, fun j => ?_⟩
      · rw [hpermits]
        exact hagrees.permits
      · rw [hnames]
        exact hagrees.queue j
    · obtain ⟨mustCancel, rfl⟩ := (h.sound t (List.mem_of_getElem? ht)).of_waiting hwaiting
      exact h.setTask ht (.outside true true) rfl rfl
  · exact h

theorem inv_resume (h : Inv s) (ht : s.tasks[i]? = some t) (hstep : s.resume i t = some s') :
    Inv s' := by
  unfold LoopState.resume at hstep
  split at hstep
  · rename_i bound semaphore hwaiting hsem
    obtain ⟨mustCancel, rfl⟩ := (h.sound t (List.mem_of_getElem? ht)).of_waiting hwaiting
    have hagrees := h.agrees bound semaphore hsem
    have hsum := hagrees.permits
    have hgiveUp : ∀ f, semaphore.futureOf i = some f →
        Inv ⟨s.tasks.set i (Task.giveUp ⟨false, false, [], true, mustCancel⟩),
          some (bound, semaphore.giveUp i)⟩ := by
      intro f hf
      obtain ⟨hnames, hpermits, hready⟩ := Semaphore.giveUp_spec hagrees.distinct hf
      refine h.setBoth ht (.outside false false) hagrees.positive hready ?_ ?_
        (hagrees.leaves hnames rfl)
      · rw [hpermits, hsum]
        rfl
      · rw [hnames]
        exact hagrees.distinct.filter _
    split at hstep
    · rename_i hwoken
      split at hstep
      · exact Option.some.inj hstep ▸ hgiveUp _ hwoken
      · obtain ⟨hnames, hpermits, hready⟩ := Semaphore.goOn_spec hagrees.distinct hwoken
        obtain rfl := Option.some.inj hstep
        refine h.setBoth ht (.inside 0 mustCancel) hagrees.positive hready ?_ ?_
          (hagrees.leaves hnames rfl)
        · show (semaphore.goOn i).permits + s.outermost + 1 = bound + 0
          omega
        · rw [hnames]
          exact hagrees.distinct.filter _
    · rename_i hcancelled
      exact Option.some.inj hstep ▸ hgiveUp _ hcancelled
    · cases hstep
  · cases hstep

theorem inv_leave (h : Inv s) (hrunning : s.running i = some t) (hstep : s.leave i t = some s') :
    Inv s' := by
  obtain ⟨ht, hwaiting⟩ := running_eq_some.1 hrunning
  have hsound := h.sound t (List.mem_of_getElem? ht)
  unfold LoopState.leave at hstep
  cases hsound with
  | outside waiting mustCancel => cases hstep
  | inherited frames mustCancel hnested =>
    cases frames with
    | nil => cases hstep
    | cons f frames =>
      obtain rfl := hnested f List.mem_cons_self
      obtain rfl := Option.some.inj hstep
      exact h.setTask ht (.inherited _ _ fun f hf => hnested f (List.mem_cons_of_mem _ hf)) rfl rfl
  | inside k mustCancel =>
    cases k with
    | succ k =>
      obtain rfl := Option.some.inj hstep
      exact h.setTask ht (.inside k mustCancel) rfl rfl
    | zero =>
      obtain rfl := Option.some.inj hstep
      have hone : 0 < s.outermost := by
        have hmem : Frame.outermost false ∈ s.tasks.flatMap Task.frames :=
          List.mem_flatMap.2 ⟨_, List.mem_of_getElem? ht, List.mem_cons_self⟩
        exact List.countP_pos_iff.2 ⟨.outermost false, hmem, rfl⟩
      cases hsem : s.semaphore with
      | none => exact absurd (h.fresh hsem).1 (Nat.ne_of_gt hone)
      | some found =>
        obtain ⟨bound, semaphore⟩ := found
        have hagrees := h.agrees bound semaphore hsem
        obtain ⟨hnames, hpermits, hready⟩ := Semaphore.release_spec semaphore
        have hsum := hagrees.permits
        refine h.setBoth ht (.outside false mustCancel) hagrees.positive hready ?_
          (hnames ▸ hagrees.distinct) fun j => ?_
        · show semaphore.release.permits + s.outermost + 0 = bound + 1
          omega
        · rw [hnames, hagrees.queue]
          exact waits_other (not_waits ht rfl) rfl j

variable (cpuCount) in
/-- **What a step keeps.** -/
theorem inv_step {e : GateEvent} (h : Inv s) (hstep : gateStep cpuCount s e = some s') : Inv s' := by
  cases e with
  | start => exact Option.some.inj hstep ▸ h.addTask false
  | spawn i =>
    obtain ⟨t, -, rfl⟩ := Option.map_eq_some_iff.1 hstep
    exact h.addTask t.admitted
  | call i limit =>
    obtain ⟨t, ht, rfl⟩ := Option.map_eq_some_iff.1 hstep
    exact inv_call h ht limit
  | cancel i =>
    obtain ⟨t, ht, rfl⟩ := Option.map_eq_some_iff.1 hstep
    exact inv_cancel h ht
  | resume i =>
    obtain ⟨t, ht, hresume⟩ := Option.bind_eq_some_iff.1 hstep
    exact inv_resume h ht hresume
  | leave i =>
    obtain ⟨t, ht, hleave⟩ := Option.bind_eq_some_iff.1 hstep
    exact inv_leave h ht hleave

/-! ## What is promised -/

/-- A call that has been admitted, or has been handed a permit. -/
def LoopState.HasPermit (s : LoopState) (i : ℕ) : Prop :=
  (∃ t, s.tasks[i]? = some t ∧ ∃ f ∈ t.frames, f.isOutermost = true) ∨
    ∃ bound semaphore, s.semaphore = some (bound, semaphore) ∧ (i, .woken) ∈ semaphore.waiters

/-- The limit that the semaphore was created with. -/
def LoopState.limit (s : LoopState) : Option ℕ := s.semaphore.map Prod.fst

variable (cpuCount s) in
/-- A task can go on from `acquire`, or return from the call that it is inside of. -/
def CanGoOn (i : ℕ) : Prop :=
  (gateStep cpuCount s (.resume i)).isSome ∨ (gateStep cpuCount s (.leave i)).isSome

variable (cpuCount s) in
/-- The promises of the gate. -/
structure Gated : Prop where
  /-- The limit is that of the first call. -/
  first : ∀ e s', gateStep cpuCount s e = some s' → s'.limit = s.limit ∨
    s.limit = none ∧ ∃ i limit, e = .call i limit ∧ s'.limit = semaphoreLimit cpuCount limit
  /-- No more calls have permits than it says. -/
  capped : ∀ bound semaphore, s.semaphore = some (bound, semaphore) →
    s.outermost + semaphore.count .woken ≤ bound
  /-- Each permit is with a call, or there. -/
  returned : ∀ bound semaphore, s.semaphore = some (bound, semaphore) →
    semaphore.value + (s.outermost + semaphore.count .woken) = bound
  /-- No permit is out when no call is in progress. -/
  idle : ∀ bound semaphore, s.semaphore = some (bound, semaphore) →
    (∀ t ∈ s.tasks, t.frames = [] ∧ t.waiting = false) → semaphore.value = bound
  /-- A task that is created inside has inherited that. -/
  spawned : ∀ i t, s.tasks[i]? = some t → t.frames ≠ [] ∨ t.inherited = true →
    gateStep cpuCount s (.spawn i) = some { s with tasks := s.tasks ++ [Task.new true] }
  /-- A call further in, or of a task that was created inside, goes straight through. -/
  nested : ∀ i t limit, s.tasks[i]? = some t → t.frames ≠ [] ∨ t.inherited = true →
    t.waiting = false ∧ gateStep cpuCount s (.call i limit) =
      some (s.setTask i { t with frames := .nested :: t.frames })
  /-- While a call waits, it can go on, or one that has a permit can. -/
  progress : ∀ i, s.Waits i → ∃ j, (j = i ∨ s.HasPermit j) ∧ CanGoOn cpuCount s j

variable (cpuCount s i t) in
theorem limit_call (limit : Option ℤ) : (s.call cpuCount i limit t).limit = s.limit ∨
    s.limit = none ∧ (s.call cpuCount i limit t).limit = semaphoreLimit cpuCount limit := by
  unfold LoopState.call
  split
  · exact Or.inl rfl
  · cases hsem : s.semaphore with
    | some found =>
      have hget : s.getSemaphore cpuCount limit = some found := by rw [LoopState.getSemaphore, hsem]
      have hlimit : s.limit = some found.1 := by rw [LoopState.limit, hsem]; rfl
      rw [hget]
      dsimp only
      refine Or.inl ?_
      rw [hlimit]
      split <;> rfl
    | none =>
      have hnone : s.limit = none := by rw [LoopState.limit, hsem]; rfl
      rw [LoopState.getSemaphore, hsem]
      dsimp only
      cases hlimit : semaphoreLimit cpuCount limit with
      | none => exact Or.inl rfl
      | some n =>
        refine Or.inr ⟨hnone, ?_⟩
        dsimp only [Option.map_some]
        split <;> rfl

theorem first_limit {e : GateEvent} (hstep : gateStep cpuCount s e = some s') : s'.limit = s.limit ∨
    s.limit = none ∧ ∃ i limit, e = .call i limit ∧ s'.limit = semaphoreLimit cpuCount limit := by
  cases e with
  | start => exact Or.inl (Option.some.inj hstep ▸ rfl)
  | spawn i =>
    obtain ⟨t, -, rfl⟩ := Option.map_eq_some_iff.1 hstep
    exact Or.inl rfl
  | call i limit =>
    obtain ⟨t, -, rfl⟩ := Option.map_eq_some_iff.1 hstep
    rcases limit_call cpuCount s i t limit with hsame | ⟨hnone, hnew⟩
    · exact Or.inl hsame
    · exact Or.inr ⟨hnone, i, limit, rfl, hnew⟩
  | cancel i =>
    obtain ⟨t, -, rfl⟩ := Option.map_eq_some_iff.1 hstep
    refine Or.inl ?_
    unfold LoopState.cancel
    split
    · rename_i hsem
      split
      · rw [LoopState.limit, LoopState.limit, hsem]
        rfl
      · rfl
    · rfl
  | resume i =>
    obtain ⟨t, -, hresume⟩ := Option.bind_eq_some_iff.1 hstep
    refine Or.inl ?_
    unfold LoopState.resume at hresume
    split at hresume
    · rename_i hsem
      rw [LoopState.limit, LoopState.limit, hsem]
      split at hresume
      · split at hresume
        · exact Option.some.inj hresume ▸ rfl
        · exact Option.some.inj hresume ▸ rfl
      · exact Option.some.inj hresume ▸ rfl
      · cases hresume
    · cases hresume
  | leave i =>
    obtain ⟨t, -, hleave⟩ := Option.bind_eq_some_iff.1 hstep
    refine Or.inl ?_
    unfold LoopState.leave at hleave
    split at hleave
    · cases hleave
    · exact Option.some.inj hleave ▸ rfl
    · obtain rfl := Option.some.inj hleave
      rw [LoopState.limit, LoopState.limit, Option.map_map]
      rfl

/-- Who is inside of a call, or was created there, is admitted. -/
theorem Task.Sound.admitted (h : t.Sound) (hinside : t.frames ≠ [] ∨ t.inherited = true) :
    t.waiting = false ∧ t.admitted = true := by
  cases h with
  | inherited frames mustCancel hnested => exact ⟨rfl, rfl⟩
  | inside k mustCancel => exact ⟨rfl, rfl⟩
  | outside waiting mustCancel => exact hinside.elim (absurd rfl) fun h => absurd h Bool.false_ne_true

theorem nested_call (h : Inv s) (ht : s.tasks[i]? = some t)
    (hinside : t.frames ≠ [] ∨ t.inherited = true) (limit : Option ℤ) : t.waiting = false ∧ gateStep cpuCount s (.call i limit) =
      some (s.setTask i { t with frames := .nested :: t.frames }) := by
  obtain ⟨hwaiting, hadmitted⟩ := (h.sound t (List.mem_of_getElem? ht)).admitted hinside
  refine ⟨hwaiting, ?_⟩
  rw [gateStep, running_eq_some.2 ⟨ht, hwaiting⟩, Option.map_some, LoopState.call, if_pos hadmitted]

theorem spawned_inside (h : Inv s) (ht : s.tasks[i]? = some t)
    (hinside : t.frames ≠ [] ∨ t.inherited = true) :
    gateStep cpuCount s (.spawn i) = some { s with tasks := s.tasks ++ [Task.new true] } := by
  obtain ⟨hwaiting, hadmitted⟩ := (h.sound t (List.mem_of_getElem? ht)).admitted hinside
  rw [gateStep, running_eq_some.2 ⟨ht, hwaiting⟩, Option.map_some, hadmitted]

/-- One who is in the queue and whose future is done can go on. -/
theorem canGoOn_of_future {bound : ℕ} {semaphore : Semaphore ℕ} {f : Future}
    (hsem : s.semaphore = some (bound, semaphore)) (hwaits : s.Waits i)
    (hfuture : semaphore.futureOf i = some f) (hdone : f ≠ .pending) : CanGoOn cpuCount s i := by
  obtain ⟨t, ht, hwaiting⟩ := hwaits
  refine Or.inl ?_
  rw [gateStep, ht, Option.bind_some, LoopState.resume, hwaiting, hsem]
  dsimp only
  rw [hfuture]
  cases f with
  | pending => exact absurd rfl hdone
  | woken =>
    dsimp only
    split <;> rfl
  | cancelled => rfl

/-- A call that has been admitted can return. -/
theorem canGoOn_of_frame (h : Inv s) (ht : s.tasks[i]? = some t) (hframes : t.frames ≠ []) :
    CanGoOn cpuCount s i := by
  obtain ⟨hwaiting, -⟩ := (h.sound t (List.mem_of_getElem? ht)).admitted (Or.inl hframes)
  refine Or.inr ?_
  rw [gateStep, running_eq_some.2 ⟨ht, hwaiting⟩, Option.bind_some, LoopState.leave]
  split
  · rename_i hnil
    exact absurd hnil hframes
  · rfl
  · rfl

theorem inv_progress (h : Inv s) (hwaits : s.Waits i) :
    ∃ j, (j = i ∨ s.HasPermit j) ∧ CanGoOn cpuCount s j := by
  cases hsem : s.semaphore with
  | none => exact absurd hwaits ((h.fresh hsem).2 i)
  | some found =>
    obtain ⟨bound, semaphore⟩ := found
    have hagrees := h.agrees bound semaphore hsem
    obtain ⟨⟨i', f⟩, hmem, rfl⟩ := List.mem_map.1 ((hagrees.queue i).2 hwaits)
    have hfuture := Semaphore.futureOf_of_mem hagrees.distinct hmem
    by_cases hf : f = .pending
    · subst hf
      by_cases hwoken : 0 < semaphore.count .woken
      · -- Somebody has been handed a permit.
        obtain ⟨⟨j, g⟩, hj, hg⟩ := List.countP_pos_iff.1 hwoken
        obtain rfl : g = .woken := of_decide_eq_true hg
        have hwaits' := (hagrees.queue j).1 (List.mem_map_of_mem hj)
        exact ⟨j, Or.inr (Or.inr ⟨bound, semaphore, hsem, hj⟩),
          canGoOn_of_future hsem hwaits' (Semaphore.futureOf_of_mem hagrees.distinct hj) (by decide)⟩
      · -- All permits are with calls that have been admitted.
        have hvalue : semaphore.value = 0 :=
          (hagrees.ready (List.countP_pos_iff.2 ⟨_, hmem, rfl⟩)).resolve_right hwoken
        have hsum := hagrees.permits
        have hpositive := hagrees.positive
        have hout : 0 < s.outermost := by
          unfold Semaphore.permits at hsum
          omega
        obtain ⟨frame, hframe, houtermost⟩ := List.countP_pos_iff.1 hout
        obtain ⟨t, ht, hin⟩ := List.mem_flatMap.1 hframe
        obtain ⟨j, hj⟩ := List.mem_iff_getElem?.1 ht
        exact ⟨j, Or.inr (Or.inl ⟨t, hj, frame, hin, houtermost⟩),
          canGoOn_of_frame h hj (List.ne_nil_of_mem hin)⟩
    · exact ⟨i', Or.inl rfl, canGoOn_of_future hsem hwaits hfuture hf⟩

/-- When no call is in progress, all permits are there. -/
theorem inv_idle (h : Inv s) (hidle : ∀ t ∈ s.tasks, t.frames = [] ∧ t.waiting = false) {bound : ℕ}
    {semaphore : Semaphore ℕ} (hsem : s.semaphore = some (bound, semaphore)) :
    semaphore.value = bound := by
  have hagrees := h.agrees bound semaphore hsem
  have houtermost : s.outermost = 0 := by
    refine List.countP_eq_zero.2 fun f hf => ?_
    obtain ⟨t, ht, hft⟩ := List.mem_flatMap.1 hf
    rw [(hidle t ht).1] at hft
    exact absurd hft List.not_mem_nil
  have hnames : semaphore.names = [] := by
    refine List.eq_nil_iff_forall_not_mem.2 fun i hi => ?_
    obtain ⟨t, ht, hwaiting⟩ := (hagrees.queue i).1 hi
    have hnot := (hidle t (List.mem_of_getElem? ht)).2
    exact absurd (hnot.symm.trans hwaiting) Bool.false_ne_true
  have hwoken : semaphore.count .woken = 0 := by
    rw [Semaphore.count, List.map_eq_nil_iff.1 hnames]
    rfl
  have hpermits := hagrees.permits
  unfold Semaphore.permits at hpermits
  omega

/-- **The gate after every run** keeps its promises. -/
theorem gate_run {cpuCount : Option ℕ} {s : LoopState} (h : Run (gate cpuCount) (fun _ _ => True) s) :
    Gated cpuCount s := by
  have hstart : Inv ⟨[], none⟩ :=
    ⟨nofun, fun _ => ⟨rfl, fun i hi => by simp [LoopState.Waits] at hi⟩, nofun⟩
  have hinv : Inv s := h.invariant (P := Inv) hstart fun s e s' hs _ hstep => inv_step cpuCount hs hstep
  have hsum : ∀ bound semaphore, s.semaphore = some (bound, semaphore) →
      semaphore.value + (s.outermost + semaphore.count .woken) = bound := by
    intro bound semaphore hsem
    have hpermits := (hinv.agrees bound semaphore hsem).permits
    unfold Semaphore.permits at hpermits
    omega
  refine ⟨fun e s' => first_limit, fun bound semaphore hsem => ?_, hsum,
    fun bound semaphore hsem hidle => inv_idle hinv hidle hsem,
    fun i t => spawned_inside hinv, fun i t limit ht hinside => nested_call hinv ht hinside limit,
    fun i => inv_progress hinv⟩
  have hsum := hsum bound semaphore hsem
  omega

/-- Two tasks at a gate with one permit: the first is a call further in, the second waits. -/
theorem gate_run_two : ∃ s, (gate none).after (fun _ _ => True)
      [.start, .start, .call 0 (some 1), .call 1 (some 1), .call 0 (some 1)] = some s ∧
    s.tasks = [⟨false, true, [.nested, .outermost false], false, false⟩,
      ⟨false, false, [], true, false⟩] ∧
    Gated none s := by
  have hafter : (gate none).after (fun _ _ => True)
      [.start, .start, .call 0 (some 1), .call 1 (some 1), .call 0 (some 1)] = some _ := rfl
  exact ⟨_, hafter, rfl, gate_run (run_after hafter)⟩

end PartCAD.Checks
