import PartCAD.Package.GitClone

/-!
# What runs of a git import leave behind

Every run trusts what it finds in the cache directory, and any run may be stopped between two calls.

* `Holds`, `Kept`, `settled`, `Sound` : what is in the directory, and what runs may find there;
* `Serves` : the fates that a run is prepared for, of a remote that answers as well as of any other;
* `ensures_cloneRepo`, `ensures_refresh`, `ensures_attempts` : what the parts of a run leave;
* `recovers_run` : runs recover, if no run is stopped in the middle of a clone or a checkout;
* `not_recovers_of_unguarded` : and not otherwise.
-/

namespace PartCAD.GitClone

open PartCAD.Lib PartCAD.Lib.Program

section

variable {Commit : Type}

/-! ## The cache directory -/

/-- There is a whole checkout of a commit of the revision. -/
def Holds (named : Commit → Prop) (disk : Disk Commit) : Prop :=
  ∃ copy commit, disk = some copy ∧ copy.tree = some commit ∧ named commit

/-- What the guard file records is there. -/
def Kept (named : Commit → Prop) (disk : Disk Commit) : Prop :=
  ∀ copy, disk = some copy → copy.guard.isSome →
    copy.opens = true ∧ copy.head.isSome ∧ ∀ commit, copy.tree = some commit → named commit

/-- There is no cache directory, or there is the guard file and no work tree that is written in
part. -/
def settled (disk : Disk Commit) : Bool := disk.all fun copy => copy.guard.isSome && copy.tree.isSome

def Unguarded (disk : Disk Commit) : Prop := ∀ copy, disk = some copy → copy.guard = none

/-- **What runs may find.** -/
def Sound (named : Commit → Prop) (disk : Disk Commit) : Prop := Kept named disk ∧ settled disk

variable {named : Commit → Prop} {disk : Disk Commit} {copy : Copy Commit}

theorem kept_none : Kept named (none : Disk Commit) := fun _ h => by cases h

theorem sound_none : Sound named (none : Disk Commit) := ⟨kept_none, rfl⟩

theorem Unguarded.kept (h : Unguarded disk) : Kept named disk := by
  intro copy hcopy hguard
  rw [h copy hcopy] at hguard
  exact absurd hguard (by simp)

theorem unguarded_some {opens : Bool} {head tree : Option Commit} :
    Unguarded (some ⟨opens, head, tree, none⟩ : Disk Commit) := by
  intro copy hcopy
  rw [← Option.some.inj hcopy]

theorem kept_some : Kept named (some copy) ↔ (copy.guard.isSome →
    copy.opens = true ∧ copy.head.isSome ∧ ∀ commit, copy.tree = some commit → named commit) := by
  constructor
  · intro h
    exact h copy rfl
  · intro h copy' hcopy
    rw [← Option.some.inj hcopy]
    exact h

theorem Sound.holds (h : Sound named disk) (hdisk : disk.isSome) : Holds named disk := by
  obtain ⟨copy, rfl⟩ := Option.isSome_iff_exists.1 hdisk
  have hsettled : copy.guard.isSome ∧ copy.tree.isSome := by simpa [settled] using h.2
  obtain ⟨commit, htree⟩ := Option.isSome_iff_exists.1 hsettled.2
  exact ⟨copy, commit, rfl, htree, (kept_some.1 h.1 hsettled.1).2.2 commit htree⟩

/-! ## What the calls may meet -/

/-- A request that a server may refuse although it has the revision. -/
def Request.refusable (request : Request) : Bool :=
  0 < request.depth ∨ request.revision.any looksLikeCommitId

variable (i : Import Commit)

/-- **The fates that a run is prepared for**: `Err` says which errors a clone may be left with. -/
structure Serves (ok : Call Commit → Disk Commit → Fate Commit → Prop)
    (inv : Call Commit → Disk Commit → Prop) (named : Commit → Prop) (Err : Bool → Str → Prop) :
    Prop where
  inv : ∀ c disk, Kept named disk → inv c disk
  connected : ∀ disk, ok .isConnected disk .no → disk.isSome
  peel : ∀ oid disk commit, ok (.peel oid) disk (.commit commit) → named commit
  revparse : ∀ name disk commit, ok (.revparse name) disk (.commit commit) → named commit
  cloned : ∀ request disk head, ok (.cloneRepository request) disk (.cloned head) →
    i.revision = none → ∃ commit, head = some commit ∧ named commit
  fetchFails : ∀ request disk message, ok (.fetch request) disk (.fails message) →
    i.isRetryable message ∨ request.refusable = false → Err request.ambient message
  cloneFails : ∀ request disk message, ok (.cloneRepository request) disk (.fails message) →
    i.isRetryable message ∨ request.refusable = false → Err request.ambient message
  /-- What has just been fetched is found. -/
  found : ∀ disk, Unguarded disk → ∀ c fate, ok c disk fate →
    (match c, fate with
      | .readFetchHead, .entries entries => entries.find? forMerge = none
      | .peel _, .fails _ => True
      | .revparse _, .fails _ => True
      | .revparse _, .name _ => True
      | .get _, .no => True
      | _, _ => False) → ∀ ambient message, Err ambient message

section

variable {i} {ok : Call Commit → Disk Commit → Fate Commit → Prop}
  {inv : Call Commit → Disk Commit → Prop} {Err : Bool → Str → Prop} (hs : Serves i ok inv named Err)
  {X : Exn → Disk Commit → Prop}

include hs

/-- **One call.** -/
theorem ensures_ask {c : Call Commit} {Q : c.Answer → Disk Commit → Prop} (hdisk : Kept named disk)
    (h : ∀ f r s', ok c disk f → effect c disk f = some (r, s') → Reply Q X r s') :
    (ask c).Ensures effect ok inv Q X disk :=
  ensures_perform (hs.inv c disk hdisk) h

/-- A call that can do one thing only. -/
theorem ensures_ask_one {c : Call Commit} {Q : c.Answer → Disk Commit → Prop} {a : c.Answer}
    {disk' : Disk Commit} (hdisk : Kept named disk) (hdoes : Does c disk a disk') (hQ : Q a disk') :
    (ask c).Ensures effect ok inv Q X disk := by
  refine ensures_ask hs hdisk fun f r s' _ hr => ?_
  obtain ⟨rfl, rfl⟩ := hdoes f r s' hr
  exact hQ

theorem ensures_rmtree {Q : Unit → Disk Commit → Prop} (hdisk : Unguarded disk) (hQ : Q () none) :
    (rmtree : Git Commit Unit).Ensures effect ok inv Q X disk := by
  refine ensures_bind.2 (ensures_ask hs hdisk.kept fun f r s' _ hr => ?_)
  cases f with
  | leaves opens head tree =>
    obtain ⟨rfl, rfl⟩ := Prod.mk.inj (Option.some.inj hr)
    have hleft : Unguarded (disk.map fun copy => ⟨opens, head, tree, copy.guard⟩) := by
      intro copy hcopy
      obtain ⟨copy', hcopy', rfl⟩ := Option.map_eq_some_iff.1 hcopy
      exact hdisk copy' hcopy'
    exact ensures_ask_one hs hleft.kept does_rmtree hQ
  | _ => cases hr

/-- **A checkout leaves a whole work tree**, whatever was there. -/
theorem ensures_checkoutCommit {Q : Unit → Disk Commit → Prop} {commit : Commit}
    (hcopy : Kept named (some copy)) (hnamed : named commit)
    (hQ : Q () (some { copy with head := some commit, tree := some commit })) :
    (checkoutCommit commit).Ensures effect ok inv Q X (some copy) := by
  have hkept : ∀ tree : Option Commit, (∀ c, tree = some c → named c) →
      Kept named (some { copy with tree := tree }) := fun tree htree =>
    kept_some.2 fun hguard => ⟨(kept_some.1 hcopy hguard).1, (kept_some.1 hcopy hguard).2.1, htree⟩
  have hpart := hkept none fun _ h => by cases h
  have hwhole := hkept (some commit) fun c h => Option.some.inj h ▸ hnamed
  refine ensures_bind.2 (ensures_ask_one hs hcopy does_checkoutStart (ensures_bind.2 ?_))
  refine ensures_ask_one hs hpart (does_checkoutTree commit) ?_
  exact ensures_ask_one hs hwhole (does_setHead commit) hQ

theorem ensures_initRepository {Q : Unit → Disk Commit → Prop}
    (hQ : Q () (some ⟨true, none, none, none⟩)) :
    (initRepository : Git Commit Unit).Ensures effect ok inv Q X none := by
  refine ensures_bind.2 (ensures_ask_one hs kept_none does_initStart ?_)
  exact ensures_ask_one hs unguarded_some.kept does_initRepository hQ

/-! ## What is fetched -/

/-- A failure of the git library that leaves the directory as it was; what is allowed is told where
there is no guard file. -/
def FailsAt (disk : Disk Commit) (P : Str → Prop) (e : Exn) (disk' : Disk Commit) : Prop :=
  ∃ message, e = .git message ∧ disk' = disk ∧ (Unguarded disk → P message)

theorem ensures_firstCommit (hdisk : Kept named disk) (candidates : List Str) :
    (firstCommit candidates).Ensures effect ok inv
      (fun commit disk' => disk' = disk ∧ ∀ c, commit = some c → named c)
      (FailsAt disk fun _ => ∀ ambient message, Err ambient message) disk := by
  induction candidates with
  | nil => exact ⟨rfl, fun _ h => by cases h⟩
  | cons candidate candidates ih =>
    refine ensures_bind.2 (ensures_ask hs hdisk fun f r s' hf hr => ?_)
    cases f with
    | commit commit =>
      obtain ⟨rfl, rfl⟩ := Prod.mk.inj (Option.some.inj hr)
      refine ⟨rfl, fun c hc => ?_⟩
      rw [← Option.some.inj hc]
      exact hs.revparse _ _ _ hf
    | name message =>
      obtain ⟨rfl, rfl⟩ := Prod.mk.inj (Option.some.inj hr)
      exact ih
    | fails message =>
      obtain ⟨rfl, rfl⟩ := Prod.mk.inj (Option.some.inj hr)
      exact ⟨message, rfl, rfl, fun hunguarded => hs.found disk hunguarded _ _ hf trivial⟩
    | _ => cases hr

/-- **What has been fetched is a commit of the revision.** -/
theorem ensures_fetchedCommit (hdisk : Kept named disk) (revision : Str) :
    (fetchedCommit revision).Ensures effect ok inv
      (fun commit disk' => disk' = disk ∧ named commit)
      (FailsAt disk fun _ => ∀ ambient message, Err ambient message) disk := by
  refine ensures_bind.2 (ensures_ask hs hdisk fun f r s' hf hr => ?_)
  cases f with
  | entries entries =>
    obtain ⟨rfl, rfl⟩ := Prod.mk.inj (Option.some.inj hr)
    change Ensures effect ok inv _ _ _ disk
    cases hfind : entries.find? forMerge with
    | some fields =>
      refine ensures_ask hs hdisk fun f r s' hf hr => ?_
      cases f with
      | commit commit =>
        obtain ⟨rfl, rfl⟩ := Prod.mk.inj (Option.some.inj hr)
        exact ⟨rfl, hs.peel _ _ _ hf⟩
      | fails message =>
        obtain ⟨rfl, rfl⟩ := Prod.mk.inj (Option.some.inj hr)
        exact ⟨message, rfl, rfl, fun hunguarded => hs.found disk hunguarded _ _ hf trivial⟩
      | _ => cases hr
    | none =>
      refine ensures_bind.2 (Ensures.mono (fun commit disk' h => ?_) (fun _ _ h => h)
        (ensures_firstCommit hs hdisk _))
      obtain ⟨rfl, hnamed⟩ := h
      cases commit with
      | some commit => exact ⟨rfl, hnamed commit rfl⟩
      | none => exact ⟨_, rfl, rfl, fun hunguarded => hs.found disk' hunguarded _ _ hf hfind⟩
  | _ => cases hr

/-- An error that a request may fail with, if the clone may be left with it. -/
def Tolerated (i : Import Commit) (Err : Bool → Str → Prop) (request : Request) (message : Str) :
    Prop :=
  i.isRetryable message ∨ request.refusable = false → Err request.ambient message

theorem ensures_fetch (hdisk : Kept named disk) (revision : Str) (depth : ℕ) (ambient : Bool) :
    (fetch i revision depth ambient).Ensures effect ok inv
      (fun commit disk' => disk' = disk ∧ named commit)
      (FailsAt disk (Tolerated i Err ⟨some revision, shallowDepth i depth, false, ambient⟩)) disk := by
  refine ensures_bind.2 (ensures_ask hs hdisk fun f r s' hf hr => ?_)
  cases f with
  | yes =>
    obtain ⟨rfl, rfl⟩ := Prod.mk.inj (Option.some.inj hr)
    refine Ensures.mono (fun _ _ h => h) (fun e disk' h => ?_)
      (ensures_fetchedCommit hs hdisk revision)
    obtain ⟨message, rfl, rfl, h⟩ := h
    exact ⟨message, rfl, rfl, fun hunguarded _ => h hunguarded _ _⟩
  | fails message =>
    obtain ⟨rfl, rfl⟩ := Prod.mk.inj (Option.some.inj hr)
    exact ⟨message, rfl, rfl, fun _ => hs.fetchFails _ _ _ hf⟩
  | _ => cases hr

/-! ## Clones -/

/-- What a clone leaves, before its guard file is written. -/
def Cloned (named : Commit → Prop) (disk : Disk Commit) : Prop :=
  ∃ commit, disk = some ⟨true, some commit, some commit, none⟩ ∧ named commit

/-- A failure of the git library that leaves no guard file. -/
def FailsBare (P : Str → Prop) (e : Exn) (disk : Disk Commit) : Prop :=
  ∃ message, e = .git message ∧ Unguarded disk ∧ P message

theorem ensures_initFetch (revision : Str) (depth : ℕ) (ambient : Bool) {head tree : Option Commit} :
    (initFetch i revision depth ambient).Ensures effect ok inv (fun _ => Cloned named)
      (FailsBare (Tolerated i Err ⟨some revision, shallowDepth i depth, false, ambient⟩))
      (some ⟨true, head, tree, none⟩) := by
  have hkept : Kept named (some ⟨true, head, tree, none⟩) := unguarded_some.kept
  refine ensures_bind.2 (Ensures.mono (fun commit disk' h => ?_) (fun e disk' h => ?_)
    (ensures_fetch hs hkept revision depth ambient))
  · obtain ⟨rfl, hnamed⟩ := h
    refine ensures_bind.2 (ensures_ask hs hkept fun f r s' hf hr => ?_)
    cases f with
    | yes =>
      obtain ⟨rfl, rfl⟩ := Prod.mk.inj (Option.some.inj hr)
      exact ensures_checkoutCommit hs hkept hnamed ⟨commit, rfl, hnamed⟩
    | no =>
      obtain ⟨rfl, rfl⟩ := Prod.mk.inj (Option.some.inj hr)
      exact ⟨_, rfl, unguarded_some, fun _ => hs.found _ unguarded_some _ _ hf trivial _ _⟩
    | _ => cases hr
  · obtain ⟨message, rfl, rfl, h⟩ := h
    exact ⟨message, rfl, unguarded_some, h unguarded_some⟩

theorem ensures_clone (options : CloneOptions) (ambient : Bool) :
    (clone i options ambient).Ensures effect ok inv
      (fun _ disk => ∃ head, disk = some ⟨true, head, head, none⟩ ∧
        (i.revision = none → ∃ commit, head = some commit ∧ named commit))
      (FailsBare (Tolerated i Err
        ⟨none, shallowDepth i options.depth, options.allBranches, ambient⟩)) none := by
  refine ensures_bind.2 (ensures_ask hs kept_none fun f r s' _ hr => ?_)
  cases f with
  | leaves opens head tree =>
    obtain ⟨rfl, rfl⟩ := Prod.mk.inj (Option.some.inj hr)
    refine ensures_ask hs unguarded_some.kept fun f r s' hf hr => ?_
    cases f with
    | cloned head =>
      obtain ⟨rfl, rfl⟩ := Prod.mk.inj (Option.some.inj hr)
      exact ⟨head, rfl, hs.cloned _ _ head hf⟩
    | fails message =>
      obtain ⟨rfl, rfl⟩ := Prod.mk.inj (Option.some.inj hr)
      exact ⟨message, rfl, unguarded_some, hs.cloneFails _ _ message hf⟩
    | _ => cases hr
  | _ => cases hr

theorem ensures_checkoutRevision (revision : Str) (ambient : Bool) {head tree : Option Commit} :
    (checkoutRevision revision).Ensures effect ok inv (fun _ => Cloned named)
      (FailsBare (Err ambient)) (some ⟨true, head, tree, none⟩) := by
  have hkept : Kept named (some ⟨true, head, tree, none⟩) := unguarded_some.kept
  refine ensures_bind.2 (ensures_ask hs hkept fun f r s' hf hr => ?_)
  cases f with
  | commit commit =>
    obtain ⟨rfl, rfl⟩ := Prod.mk.inj (Option.some.inj hr)
    have hnamed := hs.revparse _ _ _ hf
    exact ensures_checkoutCommit hs hkept hnamed ⟨commit, rfl, hnamed⟩
  | name message =>
    obtain ⟨rfl, rfl⟩ := Prod.mk.inj (Option.some.inj hr)
    exact ⟨message, rfl, unguarded_some, hs.found _ unguarded_some _ _ hf trivial _ _⟩
  | fails message =>
    obtain ⟨rfl, rfl⟩ := Prod.mk.inj (Option.some.inj hr)
    exact ⟨message, rfl, unguarded_some, hs.found _ unguarded_some _ _ hf trivial _ _⟩
  | _ => cases hr

omit hs in
theorem shallowDepth_zero : shallowDepth i 0 = 0 := by
  unfold shallowDepth
  split
  · rfl
  · rfl

/-- The last resort is a request that no server refuses. -/
theorem ensures_cloneSingleCommit {revision : Str} (hid : looksLikeCommitId revision = true)
    (ambient : Bool) :
    (cloneSingleCommit i revision ambient).Ensures effect ok inv (fun _ => Cloned named)
      (FailsBare (Err ambient)) none := by
  refine ensures_bind.2 (ensures_initRepository hs (ensures_tryCatch.2 ?_))
  refine Ensures.mono (fun _ _ h => h) (fun e disk' h => ?_) (ensures_initFetch hs revision _ ambient)
  obtain ⟨message, rfl, hunguarded, herr⟩ := h
  change Ensures effect ok inv _ _ (if i.isRetryable message then _ else _) disk'
  split
  · next hretry => exact ⟨message, rfl, hunguarded, herr (Or.inl hretry)⟩
  refine ensures_bind.2 (ensures_rmtree hs hunguarded (ensures_bind.2 ?_))
  refine Ensures.mono (fun _ disk' h => ?_) (fun e disk' h => ?_)
    (ensures_clone hs (getFallbackCloneOptions (some revision)) ambient)
  · obtain ⟨head, rfl, -⟩ := h
    exact ensures_checkoutRevision hs revision ambient
  · obtain ⟨message, rfl, hbare, h⟩ := h
    refine ⟨message, rfl, hbare, h (Or.inr ?_)⟩
    simp [getFallbackCloneOptions, hid, shallowDepth_zero, Request.refusable]

/-- A failed attempt leaves nothing behind. -/
theorem ensures_attempt {body : Git Commit Unit} {P : Str → Prop}
    (h : body.Ensures effect ok inv (fun _ => Cloned named) (FailsBare P) none) :
    (attempt body).Ensures effect ok inv (fun _ => Cloned named)
      (fun e disk => ∃ message, e = .git message ∧ disk = none ∧ P message) none := by
  refine ensures_tryCatch.2 (Ensures.mono (fun _ _ h => h) (fun e disk h => ?_) h)
  obtain ⟨message, rfl, hunguarded, hP⟩ := h
  exact ensures_bind.2 (ensures_rmtree hs hunguarded ⟨message, rfl, rfl, hP⟩)

/-- The request of a download. -/
def requestOf (i : Import Commit) (options : CloneOptions) (ambient : Bool) : Request :=
  ⟨options.revision, shallowDepth i options.depth,
    if options.revision.isSome then false else options.allBranches, ambient⟩

theorem ensures_download {options : CloneOptions} (hrevision : options.revision = i.revision)
    (ambient : Bool) :
    (download i options ambient).Ensures effect ok inv (fun _ => Cloned named)
      (FailsBare (Tolerated i Err (requestOf i options ambient))) none := by
  unfold download requestOf
  cases hoption : options.revision with
  | none =>
    refine Ensures.mono (fun _ disk' h => ?_) (fun _ _ h => h) (ensures_clone hs options ambient)
    obtain ⟨head, rfl, h⟩ := h
    obtain ⟨commit, rfl, hnamed⟩ := h (hrevision.symm.trans hoption)
    exact ⟨commit, rfl, hnamed⟩
  | some revision =>
    exact ensures_bind.2 (ensures_initRepository hs (ensures_initFetch hs revision _ ambient))

/-- **A clone is whole, or leaves nothing behind.** -/
theorem ensures_cloneRepo (ambient : Bool) :
    (cloneRepo i (getCloneOptions i.revision) ambient).Ensures effect ok inv
      (fun _ => Cloned named)
      (fun e disk => ∃ message, e = .git message ∧ disk = none ∧ Err ambient message) none := by
  have hplain : (getCloneOptions i.revision).singleCommit = false →
      (exceptGit (attempt (download i (getCloneOptions i.revision) ambient)) fun message =>
        if i.isRetryable message then raised (.git message)
        else attempt (download i (getFallbackCloneOptions (getCloneOptions i.revision).revision)
          ambient)).Ensures effect ok inv (fun _ => Cloned named)
        (fun e disk => ∃ message, e = .git message ∧ disk = none ∧ Err ambient message) none := by
    intro hsingle
    have hany : i.revision.any looksLikeCommitId = false := hsingle
    have hfallback : getFallbackCloneOptions i.revision = ⟨i.revision, 0, false⟩ := by
      simp [getFallbackCloneOptions, hany]
    refine ensures_tryCatch.2 (Ensures.mono (fun _ _ h => h) (fun e disk h => ?_)
      (ensures_attempt hs (ensures_download hs rfl ambient)))
    obtain ⟨message, rfl, rfl, herr⟩ := h
    change Ensures effect ok inv _ _ (if i.isRetryable message then _ else _) none
    split
    · next hretry => exact ⟨message, rfl, rfl, herr (Or.inl hretry)⟩
    have hrevision : (getFallbackCloneOptions i.revision).revision = i.revision := by
      rw [hfallback]
    refine Ensures.mono (fun _ _ h => h) (fun e disk h => ?_)
      (ensures_attempt hs (ensures_download hs hrevision ambient))
    obtain ⟨message, rfl, rfl, herr⟩ := h
    refine ⟨message, rfl, rfl, herr (Or.inr ?_)⟩
    simp [requestOf, hfallback, shallowDepth_zero, Request.refusable, hany]
  unfold cloneRepo
  split
  · next revision hrevision hsingle =>
    have hid : looksLikeCommitId revision = true := by
      simpa [CloneOptions.singleCommit, hrevision] using hsingle
    exact ensures_attempt hs (ensures_cloneSingleCommit hs hid ambient)
  · next hnot =>
    refine hplain ?_
    cases hi : i.revision with
    | none => rfl
    | some revision =>
      rw [hi] at hnot
      exact Bool.eq_false_iff.2 fun hid => hnot revision rfl hid

/-! ## The guard file -/

omit hs in
theorem sound_guarded {guard : Guard} {head commit : Commit} (hnamed : named commit) :
    Sound named (some ⟨true, some head, some commit, some guard⟩) :=
  ⟨kept_some.2 fun _ => ⟨rfl, rfl, fun _ h => Option.some.inj h ▸ hnamed⟩, rfl⟩

/-- What a run leaves that has come to the end of the loop. -/
def Done (named : Commit → Prop) (disk : Disk Commit) : Prop := Sound named disk ∧ disk.isSome

/-- Writing the guard file over a whole work tree. -/
theorem ensures_writeGuard (text : Str) {head commit : Commit} {guard : Option Guard}
    (hnamed : named commit) :
    (writeGuard text).Ensures effect ok inv (fun _ => Done named) X
      (some ⟨true, some head, some commit, guard⟩) := by
  have hkept : Kept named (some ⟨true, some head, some commit, guard⟩) :=
    kept_some.2 fun _ => ⟨rfl, rfl, fun _ h => Option.some.inj h ▸ hnamed⟩
  refine ensures_bind.2 (ensures_ask hs hkept fun f r s' _ hr => ?_)
  cases f with
  | «at» now =>
    obtain ⟨rfl, rfl⟩ := Prod.mk.inj (Option.some.inj hr)
    refine ensures_ask hs (sound_guarded hnamed).1 fun f r s' _ hr => ?_
    cases f with
    | «at» now =>
      obtain ⟨rfl, rfl⟩ := Prod.mk.inj (Option.some.inj hr)
      exact ⟨sound_guarded hnamed, rfl⟩
    | _ => cases hr
  | _ => cases hr

theorem ensures_recordClone (h : Cloned named disk) :
    (recordClone i).Ensures effect ok inv (fun _ => Done named) X disk := by
  obtain ⟨commit, rfl, hnamed⟩ := h
  unfold recordClone
  cases i.revision with
  | some revision => exact ensures_writeGuard hs revision hnamed
  | none =>
    exact ensures_bind.2 (ensures_ask_one hs unguarded_some.kept (does_headTarget rfl)
      (ensures_writeGuard hs _ hnamed))

theorem ensures_firstClone :
    (firstClone i).Ensures effect ok inv (fun _ => Done named)
      (fun e disk => ∃ message, e = .git message ∧ disk = none ∧ Err true message) none :=
  ensures_bind.2 (Ensures.mono (fun _ _ h => ensures_recordClone hs h) (fun _ _ h => h)
    (ensures_cloneRepo hs true))

theorem ensures_cloneIgnoringAmbientConfig :
    (cloneIgnoringAmbientConfig i).Ensures effect ok inv
      (fun filled disk => (filled = true ∧ Done named disk) ∨
        (filled = false ∧ disk = none ∧ ∃ message, Err false message)) X none := by
  refine ensures_bind.2 (ensures_tryCatch.2 (ensures_bind.2 ?_))
  refine Ensures.mono (fun _ disk h => ?_) (fun e disk h => ?_) (ensures_cloneRepo hs false)
  · refine ensures_bind.2 (Ensures.mono (fun _ disk h => ?_) (fun _ _ h => h)
      (ensures_recordClone hs h))
    exact Or.inl ⟨rfl, h⟩
  · obtain ⟨message, rfl, rfl, herr⟩ := h
    exact Or.inr ⟨rfl, rfl, message, herr⟩

/-! ## The update -/

/-- A copy with its guard file. -/
def Guarded (named : Commit → Prop) (disk : Disk Commit) : Prop :=
  ∃ head commit guard, disk = some ⟨true, some head, some commit, some guard⟩ ∧ named commit

omit hs in
theorem Done.guarded (h : Done named disk) : Guarded named disk := by
  obtain ⟨⟨opens, head, tree, guard⟩, rfl⟩ := Option.isSome_iff_exists.1 h.2
  have hsettled : guard.isSome ∧ tree.isSome := by simpa [settled] using h.1.2
  obtain ⟨guard, rfl⟩ := Option.isSome_iff_exists.1 hsettled.1
  obtain ⟨commit, rfl⟩ := Option.isSome_iff_exists.1 hsettled.2
  obtain ⟨hopens, hhead, hnamed⟩ := kept_some.1 h.1.1 rfl
  obtain ⟨head, rfl⟩ := Option.isSome_iff_exists.1 hhead
  obtain rfl : opens = true := hopens
  exact ⟨head, commit, guard, rfl, hnamed commit rfl⟩

omit hs in
theorem Guarded.done (h : Guarded named disk) : Done named disk := by
  obtain ⟨head, commit, guard, rfl, hnamed⟩ := h
  exact ⟨sound_guarded hnamed, rfl⟩

/-- How an update may end: the copy is whole, whatever the error is. -/
abbrev StaysDone (named : Commit → Prop) (e : Exn) (disk : Disk Commit) : Prop :=
  ∃ message, e = .git message ∧ Done named disk

omit hs in
theorem FailsAt.staysDone {P : Str → Prop} {e : Exn} {disk' : Disk Commit} (hdisk : Done named disk)
    (h : FailsAt disk P e disk') : StaysDone named e disk' := by
  obtain ⟨message, rfl, rfl, -⟩ := h
  exact ⟨message, rfl, hdisk⟩

theorem ensures_defaultBranch (hdisk : Done named disk) :
    (defaultBranch : Git Commit Str).Ensures effect ok inv (fun _ disk' => disk' = disk)
      (StaysDone named) disk := by
  refine ensures_bind.2 (ensures_ask hs hdisk.1.1 fun f r s' _ hr => ?_)
  cases f with
  | name target =>
    obtain ⟨rfl, rfl⟩ := Prod.mk.inj (Option.some.inj hr)
    exact rfl
  | no =>
    obtain ⟨rfl, rfl⟩ := Prod.mk.inj (Option.some.inj hr)
    refine ensures_bind.2 (ensures_ask hs hdisk.1.1 fun f r s' _ hr => ?_)
    cases f with
    | yes =>
      obtain ⟨rfl, rfl⟩ := Prod.mk.inj (Option.some.inj hr)
      exact ⟨_, rfl, hdisk⟩
    | no =>
      obtain ⟨rfl, rfl⟩ := Prod.mk.inj (Option.some.inj hr)
      refine ensures_ask hs hdisk.1.1 fun f r s' _ hr => ?_
      cases f with
      | name branch =>
        obtain ⟨rfl, rfl⟩ := Prod.mk.inj (Option.some.inj hr)
        exact rfl
      | _ => cases hr
    | _ => cases hr
  | _ => cases hr

variable [DecidableEq Commit] (settings : Settings)

/-- The part of an update that follows the fetch. -/
theorem ensures_takeFetched (hdisk : Done named disk) (now : ℤ) (before : Commit) {fetched : Commit}
    (hnamed : named fetched) :
    (takeFetched i settings now before fetched).Ensures effect ok inv (fun _ => Done named)
      (StaysDone named) disk := by
  obtain ⟨head, commit, guard, rfl, -⟩ := hdisk.guarded
  refine ensures_bind.2 (ensures_checkoutCommit hs hdisk.1.1 hnamed (ensures_bind.2 ?_))
  refine ensures_ask_one hs (sound_guarded hnamed).1 (does_utime rfl now) (ensures_bind.2 ?_)
  refine ensures_ask_one hs (sound_guarded hnamed).1 (does_headTarget rfl) ?_
  split
  · exact ensures_writeGuard hs _ hnamed
  · exact ⟨sound_guarded hnamed, rfl⟩

/-- A question to the guard file, or to the repository of a copy that is whole. -/
theorem ensures_refreshCopy (hdisk : Done named disk) (now : ℤ) {branch : Git Commit Str}
    (hbranch : branch.Ensures effect ok inv (fun _ disk' => disk' = disk) (StaysDone named) disk) :
    (do
      ask .openRepository
      let before ← ask .headTarget
      let branch ← branch
      let fetched ← fetch i branch 1 true
      takeFetched i settings now before fetched : Git Commit Unit).Ensures effect ok inv
        (fun _ => Done named) (StaysDone named) disk := by
  obtain ⟨head, commit, guard, rfl, hcommit⟩ := hdisk.guarded
  refine ensures_bind.2 (ensures_ask_one hs hdisk.1.1 (does_openRepository rfl) (ensures_bind.2 ?_))
  refine ensures_ask_one hs hdisk.1.1 (does_headTarget rfl) (ensures_bind.2 ?_)
  refine Ensures.mono (fun branch disk' h => ?_) (fun _ _ h => h) hbranch
  subst h
  refine ensures_bind.2 (Ensures.mono (fun fetched disk' h => ?_)
    (fun _ _ h => h.staysDone hdisk) (ensures_fetch hs hdisk.1.1 branch 1 true))
  obtain ⟨rfl, hnamed⟩ := h
  exact ensures_takeFetched hs settings hdisk now head hnamed

omit [DecidableEq Commit] in
theorem ensures_getmtime {Q : ℤ → Disk Commit → Prop} (hdisk : Done named disk)
    (hQ : ∀ time, Q time disk) :
    (ask .getmtime : Git Commit ℤ).Ensures effect ok inv Q X disk := by
  obtain ⟨head, commit, guard, rfl, -⟩ := hdisk.guarded
  exact ensures_ask_one hs hdisk.1.1 (does_getmtime rfl) (hQ _)

omit [DecidableEq Commit] in
theorem ensures_isDue {Q : Bool → Disk Commit → Prop} (hdisk : Done named disk) (now : ℤ)
    (hQ : ∀ due, Q due disk) :
    (isDue settings now : Git Commit Bool).Ensures effect ok inv Q X disk := by
  unfold isDue
  split
  · exact hQ true
  · exact ensures_bind.2 (ensures_getmtime hs hdisk fun time => hQ _)

omit [DecidableEq Commit] in
theorem ensures_readGuard {Q : Str → Disk Commit → Prop} (hdisk : Done named disk)
    (hQ : ∀ text, Q text disk) :
    (readGuard settings : Git Commit Str).Ensures effect ok inv Q X disk := by
  unfold readGuard
  split
  · exact hQ []
  · obtain ⟨head, commit, guard, rfl, -⟩ := hdisk.guarded
    exact ensures_ask_one hs hdisk.1.1 (does_readGuard rfl) (hQ _)

/-- **An update leaves a whole copy**, whether it succeeds or fails. -/
theorem ensures_refresh (hdisk : Done named disk) :
    (refresh i settings).Ensures effect ok inv (fun _ => Done named) (StaysDone named) disk := by
  refine ensures_bind.2 (ensures_ask hs hdisk.1.1 fun f r s' _ hr => ?_)
  cases f with
  | «at» now =>
    obtain ⟨rfl, rfl⟩ := Prod.mk.inj (Option.some.inj hr)
    dsimp only
    cases i.revision with
    | none =>
      refine ensures_bind.2 (ensures_isDue hs settings hdisk now fun due => ?_)
      split
      · exact ensures_refreshCopy hs settings hdisk now (ensures_defaultBranch hs hdisk)
      · exact hdisk
    | some revision =>
      refine ensures_bind.2 (ensures_readGuard hs settings hdisk fun guard => ensures_bind.2 ?_)
      refine ensures_getmtime hs hdisk fun time => ?_
      split
      · have hbranch : (pure revision : Git Commit Str).Ensures effect ok inv
            (fun _ disk' => disk' = disk) (StaysDone named) disk := rfl
        exact ensures_refreshCopy hs settings hdisk now hbranch
      · exact hdisk
  | _ => cases hr

/-! ## The loop -/

/-- How a run may be left without a copy. -/
def GivesUp (i : Import Commit) (Err : Bool → Str → Prop) : Prop :=
  ∃ message, Err true message ∧ (i.isAuthFailure message → ∃ message', Err false message')

omit [DecidableEq Commit] in
/-- A clone that failed is followed by another attempt only while there is one left. -/
theorem ensures_cloneFailed {attempt : ℤ} {message : Str} (herr : Err true message) :
    (cloneFailed i settings attempt message).Ensures effect ok inv
      (fun stop disk => (stop = true ∧ Done named disk) ∨
        (stop = false ∧ disk = none ∧ attempt < settings.maxRetries))
      (fun _ disk => disk = none ∧ GivesUp i Err) none := by
  unfold cloneFailed
  split
  · next hretry => exact Or.inr ⟨rfl, rfl, hretry.2⟩
  split
  · refine ensures_bind.2 (Ensures.mono (fun filled disk h => ?_) (fun _ _ h => h)
      (ensures_cloneIgnoringAmbientConfig hs))
    rcases h with ⟨rfl, hdone⟩ | ⟨rfl, rfl, hfalse⟩
    · exact Or.inl ⟨rfl, hdone⟩
    · exact ⟨rfl, message, herr, fun _ => hfalse⟩
  · next hauth => exact ⟨rfl, message, herr, fun h => absurd h hauth⟩

/-- **The loop**: from a sound directory, it leaves a whole copy, unless it gives up. -/
theorem ensures_attempts (left : ℕ) (hdisk : Sound named disk) (hleft : disk.isSome ∨ 0 < left) :
    (attempts i settings left).Ensures effect ok inv (fun _ => Done named)
      (fun _ disk' => disk' = none ∧ disk = none ∧ GivesUp i Err) disk := by
  induction left generalizing disk with
  | zero => exact ⟨hdisk, hleft.resolve_right (lt_irrefl 0)⟩
  | succ left ih =>
    refine ensures_bind.2 (ensures_ask hs hdisk.1 fun f r s' hf hr => ?_)
    cases f with
    | yes =>
      obtain ⟨rfl, rfl⟩ := Prod.mk.inj (Option.some.inj hr)
      refine ensures_bind.2 (ensures_ask_one hs hdisk.1 does_pathExists ?_)
      cases hsome : disk with
      | some copy =>
        rw [hsome] at hdisk
        have hdone : Done named (some copy) := ⟨hdisk, rfl⟩
        refine ensures_bind.2 (ensures_tryCatch.2 (ensures_bind.2 ?_))
        refine Ensures.mono (fun _ disk' h => h) (fun e disk' h => ?_)
          (ensures_refresh hs settings hdone)
        obtain ⟨message, rfl, h⟩ := h
        have hagain := ih h.1 (Or.inl h.2)
        have hnever : ∀ (_ : Exn) (t : Disk Commit), t = none ∧ disk' = none ∧ GivesUp i Err →
            t = none ∧ some copy = none ∧ GivesUp i Err := by
          rintro e t ⟨-, rfl, -⟩
          exact absurd h.2 (by simp)
        change Ensures effect ok inv _ _ (attempts i settings left) disk'
        exact Ensures.mono (fun _ _ h => h) hnever hagain
      | none =>
        refine ensures_bind.2 (ensures_tryCatch.2 (ensures_bind.2 ?_))
        refine Ensures.mono (fun _ disk' h => h) (fun e disk' h => ?_) (ensures_firstClone hs)
        obtain ⟨message, rfl, rfl, herr⟩ := h
        refine Ensures.mono (fun stop disk' h => ?_) (fun _ _ h => ⟨h.1, rfl, h.2⟩)
          (ensures_cloneFailed hs settings herr)
        rcases h with ⟨rfl, hdone⟩ | ⟨rfl, rfl, hlt⟩
        · exact hdone
        · exact ih sound_none (Or.inr (by omega))
    | no =>
      obtain ⟨rfl, rfl⟩ := Prod.mk.inj (Option.some.inj hr)
      exact ⟨hdisk, hs.connected disk hf⟩
    | _ => cases hr

/-- **A run** from a sound directory leaves a whole copy, or gives up and leaves nothing. -/
theorem ensures_cloneOrUpdateRepo (hdisk : Sound named disk)
    (hretries : disk.isSome ∨ 0 ≤ settings.maxRetries) :
    (cloneOrUpdateRepo i settings).Ensures effect ok inv
      (fun path disk => path = i.path ∧ Done named disk)
      (fun _ disk' => disk' = none ∧ disk = none ∧ GivesUp i Err) disk :=
  ensures_bind.2 (Ensures.mono (fun _ _ h => ⟨rfl, h⟩) (fun _ _ h => h)
    (ensures_attempts hs settings _ hdisk (hretries.imp_right fun h => by omega)))

end

/-! ## Histories -/

variable (i : Import Commit) (named : Commit → Prop)

/-- The commit that a call is told the revision is. -/
def answered : Call Commit → Fate Commit → Option Commit
  | .peel _, .commit commit => some commit
  | .revparse _, .commit commit => some commit
  | .cloneRepository _, .cloned head => if i.revision.isNone then head else none
  | _, _ => none

/-- What git answers for the revision is a commit that the revision names at the remote. -/
def Answers (c : Call Commit) (fate : Fate Commit) : Prop :=
  ∀ commit ∈ answered i c fate, named commit

/-- A run goes offline only where there is a copy, and the remote of a default branch has commits. -/
def careful (c : Call Commit) (disk : Disk Commit) (fate : Fate Commit) : Bool :=
  match c, fate with
  | .isConnected, .no => disk.isSome
  | .cloneRepository _, .cloned none => i.revision.isSome
  | _, _ => true

/-- The steps of any history. -/
def Possible (s : State Commit) : Event Commit → Prop
  | .next fate => ∀ c ∈ s.pending, Answers i named c fate
  | _ => True

/-- **The condition on the steps of a history.** -/
def Careful (s : State Commit) : Event Commit → Prop
  | .start settings => s.disk.isSome ∨ 0 ≤ settings.maxRetries
  | .next fate => ∀ c ∈ s.pending, careful i c s.disk fate
  | .stop => settled s.disk

instance [DecidablePred named] (s : State Commit) : (e : Event Commit) →
    Decidable (Possible i named s e)
  | .next fate => inferInstanceAs (Decidable (∀ c ∈ s.pending, ∀ commit ∈ answered i c fate, named commit))
  | .start _ => inferInstanceAs (Decidable True)
  | .stop => inferInstanceAs (Decidable True)

instance (s : State Commit) : (e : Event Commit) → Decidable (Careful i s e)
  | .start settings => inferInstanceAs (Decidable (s.disk.isSome ∨ 0 ≤ settings.maxRetries))
  | .next fate => inferInstanceAs (Decidable (∀ c ∈ s.pending, careful i c s.disk fate))
  | .stop => inferInstanceAs (Decidable (settled s.disk))

/-- The fates of a run that is not stopped, with a remote that is reached and has the revision.  It
may refuse what is asked in a short way, and the ambient config may be one that it does not
authenticate with. -/
def Clean (c : Call Commit) (disk : Disk Commit) (fate : Fate Commit) : Prop :=
  Answers i named c fate ∧
    match c, fate with
    | .isConnected, .no => False
    | .fetch request, .fails message => Refuses request message
    | .cloneRepository request, .fails message => Refuses request message
    | .cloneRepository _, .cloned none => i.revision.isSome
    | .readFetchHead, .entries entries => Unguarded disk → (entries.find? forMerge).isSome
    | .peel _, .fails _ => ¬ Unguarded disk
    | .revparse _, .fails _ => ¬ Unguarded disk
    | .revparse _, .name _ => ¬ Unguarded disk
    | .get _, .no => ¬ Unguarded disk
    | _, _ => True
where
  Refuses (request : Request) (message : Str) : Prop :=
    i.isRetryable message = false ∧
      (request.refusable ∨ request.ambient ∧ i.isAuthFailure message)

variable {i named}

theorem serves_careful :
    Serves i (fun c disk fate => Answers i named c fate ∧ careful i c disk fate)
      (fun _ => Kept named) named (fun _ _ => True) where
  inv := fun _ _ h => h
  connected := fun _ h => h.2
  peel := fun _ _ commit h => h.1 commit rfl
  revparse := fun _ _ commit h => h.1 commit rfl
  cloned := by
    intro request disk head h hrevision
    cases head with
    | some commit => exact ⟨commit, rfl, h.1 commit (by simp [answered, hrevision])⟩
    | none => exact absurd h.2 (by simp [careful, hrevision])
  fetchFails := fun _ _ _ _ _ => trivial
  cloneFails := fun _ _ _ _ _ => trivial
  found := fun _ _ _ _ _ _ _ _ => trivial

theorem clean_yes (c : Call Commit) (disk : Disk Commit) : Clean i named c disk .yes := by
  cases c <;> exact ⟨nofun, trivial⟩

theorem clean_at (c : Call Commit) (disk : Disk Commit) (now : ℤ) :
    Clean i named c disk (.at now) := by
  cases c <;> exact ⟨nofun, trivial⟩

/-- A run can go on. -/
def CanGoOn (i : Import Commit) (named : Commit → Prop) (c : Call Commit) (disk : Disk Commit) : Prop :=
  ∃ fate, Clean i named c disk fate ∧ (effect c disk fate).isSome

/-- With a remote that has the revision, every call has a fate. -/
theorem canGoOn {commit : Commit} (hnamed : named commit) (c : Call Commit) (disk : Disk Commit) :
    CanGoOn i named c disk := by
  cases c with
  | isConnected | pathExists | getmtime | readGuard | utime | rmtree | initStart | initRepository
  | headIsDetached | fetch | get | checkoutStart | checkoutTree | setHead =>
    exact ⟨.yes, clean_yes _ disk, rfl⟩
  | time | writeGuard => exact ⟨.at 0, clean_at _ disk 0, rfl⟩
  | openGuard =>
    cases disk with
    | none => exact ⟨.at 0, clean_at _ none 0, rfl⟩
    | some copy => exact ⟨.at 0, clean_at _ (some copy) 0, rfl⟩
  | rmtreeStart | cloneStart => exact ⟨.leaves false none none, ⟨nofun, trivial⟩, rfl⟩
  | openRepository =>
    cases disk with
    | none => exact ⟨.fails [], ⟨nofun, trivial⟩, rfl⟩
    | some copy =>
      cases hopens : copy.opens with
      | true =>
        refine ⟨.yes, clean_yes _ _, ?_⟩
        rw [effect, if_pos hopens]
        rfl
      | false =>
        refine ⟨.fails [], ⟨nofun, trivial⟩, ?_⟩
        rw [effect, if_neg (by simp [hopens])]
        rfl
  | headTarget =>
    cases hhead : disk.bind (·.head) with
    | some head =>
      refine ⟨.yes, clean_yes _ disk, ?_⟩
      rw [effect, hhead]
      rfl
    | none =>
      refine ⟨.fails [], ⟨nofun, trivial⟩, ?_⟩
      rw [effect, hhead]
      rfl
  | originHead => exact ⟨.no, ⟨nofun, trivial⟩, rfl⟩
  | headShorthand => exact ⟨.name [], ⟨nofun, trivial⟩, rfl⟩
  | readFetchHead => exact ⟨.entries [[]], ⟨nofun, fun _ => rfl⟩, rfl⟩
  | peel | revparse =>
    refine ⟨.commit commit, ⟨fun c hc => ?_, trivial⟩, rfl⟩
    rw [← Option.some.inj hc]
    exact hnamed
  | cloneRepository =>
    refine ⟨.cloned (some commit), ⟨fun c hc => ?_, trivial⟩, rfl⟩
    obtain ⟨-, hc⟩ : _ ∧ commit = c := by simpa [answered] using hc
    exact hc ▸ hnamed

theorem serves_clean {commit : Commit} (hnamed : named commit) :
    Serves i (Clean i named) (CanGoOn i named) named
      (fun ambient message => ambient = true ∧ i.isAuthFailure message) where
  inv := fun c disk _ => canGoOn hnamed c disk
  connected := fun _ h => absurd h.2 id
  peel := fun _ _ commit h => h.1 commit rfl
  revparse := fun _ _ commit h => h.1 commit rfl
  cloned := by
    intro request disk head h hrevision
    cases head with
    | some commit => exact ⟨commit, rfl, h.1 commit (by simp [answered, hrevision])⟩
    | none =>
      have hsome : i.revision.isSome := h.2
      exact absurd hsome (by simp [hrevision])
  fetchFails := by
    intro request disk message h hor
    obtain ⟨hretry, hrefuses⟩ : Clean.Refuses i request message := h.2
    rcases hor with hor | hor
    · exact absurd hor (by simp [hretry])
    · exact hrefuses.resolve_left (by simp [hor])
  cloneFails := by
    intro request disk message h hor
    obtain ⟨hretry, hrefuses⟩ : Clean.Refuses i request message := h.2
    rcases hor with hor | hor
    · exact absurd hor (by simp [hretry])
    · exact hrefuses.resolve_left (by simp [hor])
  found := by
    intro disk hunguarded c fate h hcase
    cases c with
    | readFetchHead =>
      cases fate with
      | entries entries =>
        have hfind : (entries.find? forMerge).isSome := h.2 hunguarded
        rw [hcase] at hfind
        exact absurd hfind (by simp)
      | _ => exact absurd hcase id
    | peel oid =>
      cases fate with
      | fails message => exact absurd hunguarded h.2
      | _ => exact absurd hcase id
    | revparse name =>
      cases fate with
      | fails message => exact absurd hunguarded h.2
      | name message => exact absurd hunguarded h.2
      | _ => exact absurd hcase id
    | get commit =>
      cases fate with
      | no => exact absurd hunguarded h.2
      | _ => exact absurd hcase id
    | _ => exact absurd hcase (by cases fate <;> exact id)

/-- **What the claim asks of a state of a history.** -/
structure Recovers [DecidableEq Commit] (i : Import Commit) (named : Commit → Prop) (s : State Commit) :
    Prop where
  returned : ∀ path, s.run = some (.done path) → path = i.path ∧ Holds named s.disk
  /-- Every run that is not stopped, with a remote that is reached and has the revision, goes on
  until it returns. -/
  next : s.idle → (∃ commit, named commit) → ∀ settings : Settings, 0 ≤ settings.maxRetries →
    (cloneOrUpdateRepo i settings).Ensures effect (Clean i named) (CanGoOn i named)
      (fun path disk => path = i.path ∧ Holds named disk) (fun _ _ => False) s.disk

/-- What is so in every state of a careful history. -/
def Inv (i : Import Commit) (named : Commit → Prop) (s : State Commit) : Prop :=
  match s.run with
  | none => Sound named s.disk
  | some run =>
    run.Ensures effect (fun c disk fate => Answers i named c fate ∧ careful i c disk fate)
      (fun _ => Kept named) (fun path disk => path = i.path ∧ Done named disk)
      (fun _ => Sound named) s.disk

theorem Inv.sound {s : State Commit} (h : Inv i named s) (hidle : s.idle) : Sound named s.disk := by
  obtain ⟨run, disk⟩ := s
  cases run with
  | none => exact h
  | some run =>
    cases run with
    | done path => exact h.2.1
    | raised e => exact h
    | call c k => exact absurd hidle (by simp [State.idle, State.pending, pending])

variable [DecidableEq Commit]

/-- **One step.** -/
theorem inv_step {s s' : State Commit} {e : Event Commit} (h : Inv i named s)
    (hpossible : Possible i named s e) (hcareful : Careful i s e) (hstep : step i s e = some s') :
    Inv i named s' := by
  obtain ⟨run, disk⟩ := s
  cases e with
  | start settings =>
    obtain ⟨hidle, rfl⟩ : State.idle ⟨run, disk⟩ = true ∧ _ = s' := by
      simpa [step] using hstep
    refine Ensures.mono (fun _ _ h => h) (fun e disk h => ?_)
      (ensures_cloneOrUpdateRepo serves_careful settings (h.sound hidle) hcareful)
    rw [h.1]
    exact sound_none
  | next fate =>
    cases run with
    | none => exact absurd hstep (by simp [step])
    | some run =>
      obtain ⟨⟨run', disk'⟩, hadvance, rfl⟩ := Option.map_eq_some_iff.1 hstep
      exact Ensures.advance h (fun c hcall => ⟨hpossible c hcall, hcareful c hcall⟩) hadvance
  | stop =>
    obtain ⟨hidle, rfl⟩ : State.idle ⟨run, disk⟩ = false ∧ _ = s' := by
      simpa [step] using hstep
    cases run with
    | none => exact absurd hidle (by simp [State.idle, State.pending])
    | some run =>
      cases run with
      | call c k =>
        dsimp only [Inv] at h
        exact ⟨h.invariant, hcareful⟩
      | done path => exact absurd hidle (by simp [State.idle, State.pending, pending])
      | raised e => exact absurd hidle (by simp [State.idle, State.pending, pending])

theorem inv_run {s : State Commit}
    (h : Run (history i) (fun s e => Possible i named s e ∧ Careful i s e) s) : Inv i named s := by
  refine Run.invariant (P := Inv i named) ?_ (fun _ _ _ hinv hok hstep => ?_) h
  · have hnone : Sound named (none : Disk Commit) := sound_none
    exact hnone
  · exact inv_step hinv hok.1 hok.2 hstep

end

/-! ## Runs that do not recover -/

/-- **A directory without its guard file is never recovered**: the next run that is not forced
raises `FileNotFoundError`. -/
theorem not_recovers_of_unguarded {Commit : Type} [DecidableEq Commit] {i : Import Commit}
    {named : Commit → Prop} {commit : Commit} (hnamed : named commit) {s : State Commit}
    {copy : Copy Commit} (hidle : s.idle) (hdisk : s.disk = some copy) (hguard : copy.guard = none) :
    ¬ Recovers i named s := by
  intro h
  obtain ⟨opens, head, tree, guard⟩ := copy
  obtain rfl : guard = none := hguard
  have hrun := h.next hidle ⟨commit, hnamed⟩ ⟨false, 0⟩ le_rfl
  rw [hdisk] at hrun
  have hconnected := hrun.advance (f := .yes) (fun c _ => clean_yes c _) rfl
  have hexists := hconnected.advance (f := .yes) (fun c _ => clean_yes c _) rfl
  have htime := hexists.advance (f := .at 0) (fun c _ => clean_at c _ 0) rfl
  cases hrevision : i.revision with
  | none =>
    rw [hrevision] at htime
    exact htime.advance (f := .yes) (fun c _ => clean_yes c _) rfl
  | some revision =>
    rw [hrevision] at htime
    exact htime.advance (f := .yes) (fun c _ => clean_yes c _) rfl

/-- An import of a default branch. -/
def plainImport : Import Bool :=
  ⟨"git".toList, "0123456789abcdef".toList, none, none, true, fun _ => false, fun _ => false,
    fun _ => "c".toList⟩

/-- The one commit of its remote. -/
abbrev Tip (commit : Bool) : Prop := commit = true

/-- A run that is offline returns the path of a directory that is not there. -/
theorem not_recovers_offline :
    ¬ ∀ s, Run (history plainImport) (Possible plainImport Tip) s →
      ∀ path, s.run = some (.done path) → Holds Tip s.disk := by
  intro h
  have hs : (history plainImport).after (Possible plainImport Tip) [.start ⟨false, 0⟩, .next .no] =
      some ⟨some (.done plainImport.path), none⟩ := rfl
  obtain ⟨copy, commit, hdisk, -, -⟩ := h _ (run_after hs) _ rfl
  exact absurd hdisk (by simp)

end PartCAD.GitClone
