import PartCAD.Lib.Dict
import PartCAD.Lib.Run

/-!
# The contexts of a session

A daemon keeps the context of each workspace that a client has asked for, with the user configuration it
was built from, and the context that was asked for last is the default.  A context is dropped when it is
asked for with another configuration, when its root package did not load, and after some of the operations
that change a package.

* `step` : what a request does to the registry;
* `Served` : whose context a request is served from, and how old it may be;
* `servedContext_run` : **what keeps it so**;
* `served_step_iff` : each step that does not keep it so goes wrong, at once or at the next request.
-/

namespace PartCAD.Contexts

open PartCAD.Lib

/-- A context: the workspace that it reads, the user configuration it was built with, and how many changes
of the workspace were made before it was read.  The number tells it from others. -/
structure Context (W C : Type) where
  serial : ℕ
  workspace : W
  userConfig : C
  read : ℕ
  deriving DecidableEq

/-- A session, with what the disk holds: how often each workspace has been changed.  What the client sent
as its configuration is kept with a context.  The last fields are for what is asked of the session: how
many contexts have been built, and for each workspace the configuration that `context.create` last
returned with, and how many changes had been made by then. -/
structure Session (W D C : Type) [DecidableEq W] where
  contexts : Dict W (Context W C)
  contextUserConfigs : Dict W (Option D)
  partcadCtx : Option (Context W C)
  disk : W → ℕ
  built : ℕ
  created : W → Option (C × ℕ)

/-- The operations that change a package. -/
inductive Operation where
  | addObject | importObject | addPart | addAssembly | addScene
  deriving DecidableEq

/-- The operations that end in `_invalidate_context`, whether they raise or not. -/
def Operation.invalidates : Operation → Bool
  | .addObject => true
  | .importObject => true
  | _ => false

/-- A request, with what it meets. -/
inductive Request (W D : Type) where
  /-- `context.create`, with what `_root_loaded` says when it is asked, and whether a context can be
  built; `none` is that it raises. -/
  | create (workspace : W) (userConfig : Option D) (rootLoaded : Option Bool) (builds : Bool)
  /-- An operation that changes the files of workspaces, before it returns or raises; what raises before
  it comes to work is no such operation. -/
  | change (operation : Operation) (context : Option W) (changed : List W)

section

variable {W D C : Type} [DecidableEq W] [DecidableEq D] [DecidableEq C]

/-- `_ctx`; `none` is that the context is unknown, or that there is no default. -/
def ctxOf (s : Session W D C) : Option W → Option (Context W C)
  | some context => s.contexts.get? context
  | none => s.partcadCtx

variable (own : C) (fromDict : D → Option C)

/-- `_caller_user_config`, of the daemon's own configuration when nothing is sent; `none` is that
`from_dict` raises. -/
def callerUserConfig : Option D → Option C
  | none => some own
  | some data => fromDict data

/-- The contexts of a session without the one of a workspace, if it was built from another
configuration. -/
def evictMismatch (s : Session W D C) (w : W) (fingerprint : Option D) : Session W D C :=
  if (s.contexts.get? w).isSome ∧ (s.contextUserConfigs.get? w).join ≠ fingerprint then
    { s with contexts := s.contexts.erase w }
  else s

/-- The same, if its root package did not load; `none` is that asking raises. -/
def evictBroken (s : Session W D C) (w : W) (rootLoaded : Option Bool) : Option (Session W D C) :=
  if (s.contexts.get? w).isSome then
    match rootLoaded with
    | none => none
    | some true => some s
    | some false => some { s with contexts := s.contexts.erase w }
  else some s

/-- The context that is built. -/
def newContext (s : Session W D C) (w : W) (userConfig : C) : Context W C :=
  ⟨s.built, w, userConfig, s.disk w⟩

/-- Building the context of a workspace, unless there is one; `none` is that it raises. -/
def build (s : Session W D C) (w : W) (fingerprint : Option D) (userConfig : C) (builds : Bool) :
    Option (Session W D C) :=
  if (s.contexts.get? w).isSome then some s
  else if builds then
    some
      { s with
        contexts := s.contexts.set w (newContext s w userConfig)
        contextUserConfigs := s.contextUserConfigs.set w fingerprint
        built := s.built + 1 }
  else none

/-- The end of `context_create`. -/
def returned (s : Session W D C) (w : W) (userConfig : C) : Session W D C :=
  { s with
    partcadCtx := s.contexts.get? w
    created := fun v => if v = w then some (userConfig, s.disk w) else s.created v }

/-- `context_create`.  What raises leaves the session as it is by then. -/
def contextCreate (s : Session W D C) (w : W) (fingerprint : Option D) (rootLoaded : Option Bool)
    (builds : Bool) : Session W D C :=
  match callerUserConfig own fromDict fingerprint with
  | none => s
  | some userConfig =>
    let s₁ := evictMismatch s w fingerprint
    match evictBroken s₁ w rootLoaded with
    | none => s₁
    | some s₂ =>
      match build s₂ w fingerprint userConfig builds with
      | none => s₂
      | some s₃ => returned s₃ w userConfig

/-- `_invalidate_context` -/
def invalidateContext (s : Session W D C) : Option W → Session W D C
  | none => s
  | some context =>
    let evicted := s.contexts.get? context
    { s with
      contexts := s.contexts.erase context
      contextUserConfigs := s.contextUserConfigs.erase context
      partcadCtx :=
        if evicted.isSome ∧ s.partcadCtx = evicted then none else s.partcadCtx }

/-- Files of workspaces are changed. -/
def changeDisk (s : Session W D C) (changed : List W) : Session W D C :=
  { s with disk := fun v => if v ∈ changed then s.disk v + 1 else s.disk v }

/-- An operation that changes a package.  Without a context there is nothing to work on. -/
def changePackage (s : Session W D C) (operation : Operation) (context : Option W) (changed : List W) :
    Session W D C :=
  if (ctxOf s context).isSome then
    let s := changeDisk s changed
    if operation.invalidates then invalidateContext s context else s
  else s

/-- A request. -/
def step (s : Session W D C) : Request W D → Session W D C
  | .create w fingerprint rootLoaded builds => contextCreate own fromDict s w fingerprint rootLoaded builds
  | .change operation context changed => changePackage s operation context changed

def Session.initial : Session W D C :=
  ⟨Dict.empty, Dict.empty, none, fun _ => 0, 0, fun _ => none⟩

def daemon : System (Session W D C) (Request W D) where
  init := Session.initial
  step s r := some (step own fromDict s r)

/-! ## What is promised -/

/-- A request that names a context is served from one with the configuration of the last
`context.create`, that has read the changes that were made before; a request that names none is not
served from a context that was dropped. -/
structure Served (s : Session W D C) : Prop where
  named : ∀ w ctx, ctxOf s (some w) = some ctx →
    ∃ n, s.created w = some (ctx.userConfig, n) ∧ n ≤ ctx.read
  default : ∀ ctx, ctxOf s none = some ctx → s.contexts.get? ctx.workspace = some ctx

/-- The context of a workspace has to be built again. -/
def Rebuilt (s : Session W D C) (w : W) (fingerprint : Option D) (rootLoaded : Option Bool) : Prop :=
  (callerUserConfig own fromDict fingerprint).isSome ∧ (s.contexts.get? w).isSome ∧
    ((s.contextUserConfigs.get? w).join ≠ fingerprint ∨ rootLoaded = some false)

/-- Building the default context again does not raise; and where files of a workspace are changed whose
context is kept, the context is named, and the operation is one that drops it. -/
def Manageable (s : Session W D C) : Request W D → Prop
  | .create w fingerprint rootLoaded builds =>
    Rebuilt own fromDict s w fingerprint rootLoaded → s.partcadCtx = s.contexts.get? w → builds = true
  | .change operation context changed =>
    (ctxOf s context).isSome → ∀ w ∈ changed, (s.contexts.get? w).isSome →
      operation.invalidates = true ∧ context = some w

instance (s : Session W D C) (r : Request W D) : Decidable (Manageable own fromDict s r) := by
  cases r with
  | create w fingerprint rootLoaded builds =>
    unfold Manageable Rebuilt
    infer_instance
  | change operation context changed =>
    unfold Manageable
    infer_instance

/-! ## What `context.create` can do -/

variable {own fromDict}

/-- The ways in which `context.create` ends. -/
inductive Created (own : C) (fromDict : D → Option C) (s : Session W D C) (w : W)
    (fingerprint : Option D) (rootLoaded : Option Bool) (builds : Bool) : Session W D C → Prop
  /-- It raises, and nothing has been dropped. -/
  | refused : Created own fromDict s w fingerprint rootLoaded builds s
  /-- The context is dropped, and another one is not built. -/
  | dropped : Rebuilt own fromDict s w fingerprint rootLoaded → builds = false →
    Created own fromDict s w fingerprint rootLoaded builds { s with contexts := s.contexts.erase w }
  /-- The context that is there is the right one. -/
  | kept {userConfig : C} {ctx : Context W C} :
    callerUserConfig own fromDict fingerprint = some userConfig → s.contexts.get? w = some ctx → (s.contextUserConfigs.get? w).join = fingerprint →
      Created own fromDict s w fingerprint rootLoaded builds (returned s w userConfig)
  /-- A context is built. -/
  | built {userConfig : C} {contexts : Dict W (Context W C)} :
    callerUserConfig own fromDict fingerprint = some userConfig →
      (∀ v, contexts.get? v =
        if w = v then some (newContext s w userConfig) else s.contexts.get? v) →
        Created own fromDict s w fingerprint rootLoaded builds
          (returned
            { s with
              contexts := contexts
              contextUserConfigs := s.contextUserConfigs.set w fingerprint
              built := s.built + 1 } w userConfig)

omit [DecidableEq C] in
theorem get?_erase_set (contexts : Dict W (Context W C)) (w v : W) (ctx : Context W C) :
    ((contexts.erase w).set w ctx).get? v = if w = v then some ctx else contexts.get? v := by
  rw [Dict.get?_set, Dict.get?_erase]
  by_cases hv : w = v
  · rw [if_pos hv, if_pos hv]
  · rw [if_neg hv, if_neg hv, if_neg fun h => hv h.symm]

omit [DecidableEq C] in
/-- **What `context.create` can do.** -/
theorem contextCreate_cases (s : Session W D C) (w : W) (fingerprint : Option D)
    (rootLoaded : Option Bool) (builds : Bool) :
    Created own fromDict s w fingerprint rootLoaded builds
      (contextCreate own fromDict s w fingerprint rootLoaded builds) := by
  unfold contextCreate
  cases hconfig : callerUserConfig own fromDict fingerprint with
  | none => exact .refused
  | some userConfig =>
    -- a context that has been dropped is built, or not
    have hbuild : Rebuilt own fromDict s w fingerprint rootLoaded →
        Created own fromDict s w fingerprint rootLoaded builds
          (match build { s with contexts := s.contexts.erase w } w fingerprint userConfig builds with
            | none => { s with contexts := s.contexts.erase w }
            | some s₃ => returned s₃ w userConfig) := by
      intro hrebuilt
      have hnone : (s.contexts.erase w).get? w = none := by rw [Dict.get?_erase, if_pos rfl]
      cases builds with
      | false =>
        rw [build, hnone]
        exact .dropped hrebuilt rfl
      | true =>
        rw [build, hnone]
        exact .built hconfig fun v => get?_erase_set s.contexts w v _
    cases hctx : s.contexts.get? w with
    | none =>
      have hfirst : evictMismatch s w fingerprint = s := by simp [evictMismatch, hctx]
      have hsecond : evictBroken s w rootLoaded = some s := by simp [evictBroken, hctx]
      simp only [hfirst, hsecond]
      cases builds with
      | false =>
        rw [build, hctx]
        exact .refused
      | true =>
        rw [build, hctx]
        exact .built hconfig fun v => Dict.get?_set s.contexts w v _
    | some ctx =>
      have hsome : (callerUserConfig own fromDict fingerprint).isSome ∧ (s.contexts.get? w).isSome := by
        rw [hconfig, hctx]
        exact ⟨rfl, rfl⟩
      by_cases hsame : (s.contextUserConfigs.get? w).join = fingerprint
      · have hfirst : evictMismatch s w fingerprint = s := by simp [evictMismatch, hsame]
        simp only [hfirst]
        cases rootLoaded with
        | none =>
          simp only [evictBroken, hctx, Option.isSome_some, if_true]
          exact .refused
        | some loaded =>
          cases loaded with
          | true =>
            simp only [evictBroken, build, hctx, Option.isSome_some, if_true]
            exact .kept hconfig hctx hsame
          | false =>
            simp only [evictBroken, hctx, Option.isSome_some, if_true]
            exact hbuild ⟨hsome.1, hsome.2, Or.inr rfl⟩
      · have hfirst : evictMismatch s w fingerprint = { s with contexts := s.contexts.erase w } := by
          simp [evictMismatch, hctx, hsame]
        have hsecond : evictBroken { s with contexts := s.contexts.erase w } w rootLoaded =
            some { s with contexts := s.contexts.erase w } := by
          simp [evictBroken, Dict.get?_erase]
        simp only [hfirst, hsecond]
        exact hbuild ⟨hsome.1, hsome.2, Or.inl hsame⟩

/-! ## What is kept -/

/-- A context that is kept has read all changes, and is the one that was asked for last; the default is
one of them. -/
structure Kept (own : C) (fromDict : D → Option C) (s : Session W D C) : Prop where
  workspace : ∀ w ctx, s.contexts.get? w = some ctx → ctx.workspace = w
  read : ∀ w ctx, s.contexts.get? w = some ctx → ctx.read = s.disk w
  created : ∀ w ctx, s.contexts.get? w = some ctx →
    ∃ n, s.created w = some (ctx.userConfig, n) ∧ n ≤ s.disk w
  configured : ∀ w ctx, s.contexts.get? w = some ctx → ∃ fingerprint,
    s.contextUserConfigs.get? w = some fingerprint ∧
      callerUserConfig own fromDict fingerprint = some ctx.userConfig
  default : ∀ ctx, s.partcadCtx = some ctx → s.contexts.get? ctx.workspace = some ctx

omit [DecidableEq D] [DecidableEq C] in
theorem Kept.served {s : Session W D C} (h : Kept own fromDict s) : Served s where
  named w ctx hctx := by
    obtain ⟨n, hcreated, hn⟩ := h.created w ctx hctx
    exact ⟨n, hcreated, (h.read w ctx hctx).symm ▸ hn⟩
  default := h.default

omit [DecidableEq D] [DecidableEq C] in
theorem kept_initial : Kept own fromDict (Session.initial : Session W D C) where
  workspace w ctx h := absurd h (by simp [Session.initial])
  read w ctx h := absurd h (by simp [Session.initial])
  created w ctx h := absurd h (by simp [Session.initial])
  configured w ctx h := absurd h (by simp [Session.initial])
  default ctx h := absurd h (by simp [Session.initial])

omit [DecidableEq D] [DecidableEq C] in
/-- Dropping a context that is not the default. -/
theorem Kept.erase {s : Session W D C} (h : Kept own fromDict s) {w : W}
    (hdefault : s.partcadCtx ≠ s.contexts.get? w) :
    Kept own fromDict { s with contexts := s.contexts.erase w } := by
  have hold : ∀ {v ctx}, (s.contexts.erase w).get? v = some ctx → s.contexts.get? v = some ctx := by
    intro v ctx hctx
    rw [Dict.get?_erase] at hctx
    split at hctx
    · exact absurd hctx (by simp)
    · exact hctx
  refine ⟨fun v ctx hctx => h.workspace v ctx (hold hctx), fun v ctx hctx => h.read v ctx (hold hctx),
    fun v ctx hctx => h.created v ctx (hold hctx), fun v ctx hctx => h.configured v ctx (hold hctx), ?_⟩
  intro ctx hctx
  have hregistered := h.default ctx hctx
  have hne : ctx.workspace ≠ w := by
    rintro rfl
    exact hdefault (hctx.trans hregistered.symm)
  show (s.contexts.erase w).get? ctx.workspace = some ctx
  rw [Dict.get?_erase, if_neg hne]
  exact hregistered

omit [DecidableEq C] in
/-- **`context.create`.** -/
theorem Kept.create {s : Session W D C} (h : Kept own fromDict s) {w : W} {fingerprint : Option D}
    {rootLoaded : Option Bool} {builds : Bool}
    (hok : Manageable own fromDict s (.create w fingerprint rootLoaded builds)) :
    Kept own fromDict (contextCreate own fromDict s w fingerprint rootLoaded builds) := by
  have hcases : Created own fromDict s w fingerprint rootLoaded builds _ :=
    contextCreate_cases s w fingerprint rootLoaded builds
  generalize contextCreate own fromDict s w fingerprint rootLoaded builds = s' at hcases
  cases hcases with
  | refused => exact h
  | dropped hrebuilt hbuilds =>
    refine h.erase fun hdefault => ?_
    rw [hok hrebuilt hdefault] at hbuilds
    exact absurd hbuilds (by simp)
  | @kept userConfig ctx hconfig hctx hsame =>
    -- what was sent is what the context was built from
    have hown : ctx.userConfig = userConfig := by
      obtain ⟨sent, hsent, hbuilt⟩ := h.configured w ctx hctx
      rw [hsent, Option.join_some] at hsame
      rw [hsame, hconfig] at hbuilt
      exact (Option.some.inj hbuilt).symm
    refine ⟨h.workspace, h.read, fun v ctx' hctx' => ?_, h.configured, fun ctx' hctx' => ?_⟩
    · show ∃ n, (if v = w then some (userConfig, s.disk w) else s.created v) =
        some (ctx'.userConfig, n) ∧ n ≤ s.disk v
      split <;> rename_i hv
      · subst hv
        have hsame' : some ctx = some ctx' := hctx.symm.trans hctx'
        rw [← Option.some.inj hsame', hown]
        exact ⟨_, rfl, Nat.le_refl _⟩
      · exact h.created v ctx' hctx'
    · have hctx' : s.contexts.get? w = some ctx' := hctx'
      rw [← h.workspace w ctx' hctx'] at hctx'
      exact hctx'
  | @built userConfig contexts hconfig hcontexts =>
    have hcases : ∀ {v ctx}, contexts.get? v = some ctx →
        w = v ∧ ctx = newContext s w userConfig ∨ w ≠ v ∧ s.contexts.get? v = some ctx := by
      intro v ctx hctx
      rw [hcontexts] at hctx
      split at hctx <;> rename_i hv
      · exact Or.inl ⟨hv, (Option.some.inj hctx).symm⟩
      · exact Or.inr ⟨hv, hctx⟩
    refine ⟨fun v ctx hctx => ?_, fun v ctx hctx => ?_, fun v ctx hctx => ?_, fun v ctx hctx => ?_,
      fun ctx hctx => ?_⟩
    · rcases hcases hctx with ⟨rfl, rfl⟩ | ⟨-, hctx⟩
      · rfl
      · exact h.workspace v ctx hctx
    · rcases hcases hctx with ⟨rfl, rfl⟩ | ⟨-, hctx⟩
      · rfl
      · exact h.read v ctx hctx
    · show ∃ n, (if v = w then some (userConfig, s.disk w) else s.created v) =
        some (ctx.userConfig, n) ∧ n ≤ s.disk v
      rcases hcases hctx with ⟨rfl, rfl⟩ | ⟨hv, hctx⟩
      · exact ⟨_, if_pos rfl, Nat.le_refl _⟩
      · rw [if_neg (Ne.symm hv)]
        exact h.created v ctx hctx
    · show ∃ sent, (s.contextUserConfigs.set w fingerprint).get? v = some sent ∧
        callerUserConfig own fromDict sent = some ctx.userConfig
      rcases hcases hctx with ⟨rfl, rfl⟩ | ⟨hv, hctx⟩
      · exact ⟨fingerprint, Dict.get?_set_self _ _ _, hconfig⟩
      · rw [Dict.get?_set_of_ne _ _ hv]
        exact h.configured v ctx hctx
    · have hctx : contexts.get? w = some ctx := hctx
      rcases hcases hctx with ⟨-, rfl⟩ | ⟨hv, -⟩
      · exact hctx
      · exact absurd rfl hv

omit [DecidableEq D] in
/-- What is kept after a package was changed. -/
theorem get?_changePackage {s : Session W D C} {operation : Operation} {context : Option W}
    {changed : List W} (hctx : (ctxOf s context).isSome) (v : W) :
    (changePackage s operation context changed).contexts.get? v =
      if operation.invalidates = true ∧ context = some v then none else s.contexts.get? v := by
  rw [changePackage, if_pos hctx]
  cases operation.invalidates with
  | false => simp [changeDisk]
  | true =>
    cases context with
    | none => simp [invalidateContext, changeDisk]
    | some w =>
      show (s.contexts.erase w).get? v = _
      rw [Dict.get?_erase]
      simp only [true_and, Option.some.injEq, eq_comm]

omit [DecidableEq D] in
/-- A context that is kept keeps its configuration. -/
theorem contextUserConfigs_changePackage {s : Session W D C} {operation : Operation}
    {context : Option W} {changed : List W} (hctx : (ctxOf s context).isSome) {v : W}
    (hv : ¬ (operation.invalidates = true ∧ context = some v)) :
    (changePackage s operation context changed).contextUserConfigs.get? v =
      s.contextUserConfigs.get? v := by
  rw [changePackage, if_pos hctx]
  cases hinvalidates : operation.invalidates with
  | false => rfl
  | true =>
    cases context with
    | none => rfl
    | some w =>
      show (s.contextUserConfigs.erase w).get? v = _
      rw [Dict.get?_erase, if_neg]
      rintro rfl
      exact hv ⟨hinvalidates, rfl⟩

omit [DecidableEq D] in
theorem created_changePackage (s : Session W D C) (operation : Operation) (context : Option W)
    (changed : List W) : (changePackage s operation context changed).created = s.created := by
  unfold changePackage
  split
  · cases operation.invalidates with
    | false => rfl
    | true =>
      cases context with
      | none => rfl
      | some w => rfl
  · rfl

omit [DecidableEq D] in
theorem disk_changePackage {s : Session W D C} {operation : Operation} {context : Option W}
    {changed : List W} (hctx : (ctxOf s context).isSome) (v : W) :
    (changePackage s operation context changed).disk v =
      if v ∈ changed then s.disk v + 1 else s.disk v := by
  rw [changePackage, if_pos hctx]
  cases operation.invalidates with
  | false => rfl
  | true =>
    cases context with
    | none => rfl
    | some w => rfl

omit [DecidableEq D] in
/-- **An operation that changes a package.** -/
theorem Kept.change {s : Session W D C} (h : Kept own fromDict s) {operation : Operation}
    {context : Option W} {changed : List W}
    (hok : Manageable own fromDict s (.change operation context changed)) :
    Kept own fromDict (changePackage s operation context changed) := by
  cases hctx : (ctxOf s context).isSome with
  | false =>
    rw [changePackage, if_neg (by simp [hctx])]
    exact h
  | true =>
    -- what is still there was there, and has not been changed
    have hold : ∀ {v ctx}, (changePackage s operation context changed).contexts.get? v = some ctx →
        ¬ (operation.invalidates = true ∧ context = some v) ∧ s.contexts.get? v = some ctx ∧
          (changePackage s operation context changed).disk v = s.disk v := by
      intro v ctx hget
      rw [get?_changePackage hctx] at hget
      split at hget <;> rename_i hdropped
      · exact absurd hget (by simp)
      · refine ⟨hdropped, hget, ?_⟩
        rw [disk_changePackage hctx, if_neg]
        intro hmem
        exact hdropped (hok hctx v hmem (by rw [hget]; rfl))
    refine ⟨fun v ctx hget => ?_, fun v ctx hget => ?_, fun v ctx hget => ?_, fun v ctx hget => ?_,
      fun ctx hget => ?_⟩
    · exact h.workspace v ctx (hold hget).2.1
    · rw [(hold hget).2.2]
      exact h.read v ctx (hold hget).2.1
    · rw [created_changePackage, (hold hget).2.2]
      exact h.created v ctx (hold hget).2.1
    · rw [contextUserConfigs_changePackage hctx (hold hget).1]
      exact h.configured v ctx (hold hget).2.1
    · have hdefault : s.partcadCtx = some ctx ∧
          ¬ (operation.invalidates = true ∧ context = some ctx.workspace) := by
        rw [changePackage, if_pos hctx] at hget
        cases hinvalidates : operation.invalidates with
        | false =>
          rw [hinvalidates, if_neg Bool.false_ne_true] at hget
          exact ⟨hget, by simp⟩
        | true =>
          rw [hinvalidates, if_pos rfl] at hget
          cases context with
          | none => exact ⟨hget, by simp⟩
          | some w =>
            have hif : (if (s.contexts.get? w).isSome ∧ s.partcadCtx = s.contexts.get? w then none
                else s.partcadCtx) = some ctx := hget
            split at hif <;> rename_i hevicted
            · exact absurd hif (by simp)
            · refine ⟨hif, ?_⟩
              rintro ⟨-, hw⟩
              obtain rfl := Option.some.inj hw
              have hregistered := h.default ctx hif
              exact hevicted ⟨by rw [hregistered]; rfl, by rw [hregistered]; exact hif⟩
      rw [get?_changePackage hctx, if_neg hdefault.2]
      exact h.default ctx hdefault.1

/-- **One request.** -/
theorem Kept.step {s : Session W D C} (h : Kept own fromDict s) {r : Request W D}
    (hok : Manageable own fromDict s r) : Kept own fromDict (step own fromDict s r) := by
  cases r with
  | create w fingerprint rootLoaded builds => exact h.create hok
  | change operation context changed => exact h.change hok

theorem kept_run {s : Session W D C} (h : Run (daemon own fromDict) (Manageable own fromDict) s) :
    Kept own fromDict s := by
  refine h.invariant kept_initial fun s r s' hs hok hstep => ?_
  obtain rfl : step own fromDict s r = s' := Option.some.inj hstep
  exact hs.step hok

/-- **What every run keeps**, of requests that can be managed: a context that is named is the right one,
and the default is not one that was dropped. -/
theorem servedContext_run {s : Session W D C} (h : Run (daemon own fromDict) (Manageable own fromDict) s) :
    Served s :=
  (kept_run h).served

end

/-! A daemon whose configuration is `0`, and that takes any number as another one. -/

section

/-- Two workspaces are asked for, a part is added to the first one, and it is asked for again. -/
def addedObject : List (Request ℕ ℕ) :=
  [.create 1 none (some true) true, .create 2 (some 5) (some true) true,
    .change .addObject (some 1) [1], .create 1 (some 6) (some true) true]

/-- The same, by the operation that leaves the context. -/
def addedPart : List (Request ℕ ℕ) :=
  [.create 1 none (some true) true, .change .addPart (some 1) [1], .create 1 none (some true) true]

/-- A context is asked for with another configuration, and cannot be built. -/
def notRebuilt : List (Request ℕ ℕ) :=
  [.create 1 (some 5) (some true) true, .create 1 (some 6) (some true) false]

/-- What two requests are served from, and what a workspace was last asked for with. -/
def servedView (s : Session ℕ ℕ ℕ) :
    Option (Context ℕ ℕ) × Option (Context ℕ ℕ) × Option (ℕ × ℕ) :=
  (ctxOf s (some 1), ctxOf s none, s.created 1)

theorem servedContext_run_addedObject :
    ∃ s, servedView s = (some ⟨2, 1, 6, 1⟩, some ⟨2, 1, 6, 1⟩, some (6, 1)) ∧ Served s := by
  let after := (daemon 0 some).after (Manageable 0 some) addedObject
  have hview : after.map servedView = some (some ⟨2, 1, 6, 1⟩, some ⟨2, 1, 6, 1⟩, some (6, 1)) := by
    decide
  obtain ⟨s, hs, hserved⟩ := Option.map_eq_some_iff.mp hview
  exact ⟨s, hserved, servedContext_run (run_after hs)⟩

/-- Not in every run: a context outlives what changes its workspace, and the default what is dropped. -/
theorem not_servedContext_run :
    (¬ ∀ s : Session ℕ ℕ ℕ, Run (daemon 0 some) (fun _ _ => True) s →
      ∀ w ctx, ctxOf s (some w) = some ctx →
        ∃ n, s.created w = some (ctx.userConfig, n) ∧ n ≤ ctx.read) ∧
    ¬ ∀ s : Session ℕ ℕ ℕ, Run (daemon 0 some) (fun _ _ => True) s →
      ∀ ctx, ctxOf s none = some ctx → s.contexts.get? ctx.workspace = some ctx := by
  constructor
  · intro h
    let after := (daemon 0 some).after (fun _ _ => True) addedPart
    have hview : after.map servedView = some (some ⟨0, 1, 0, 0⟩, some ⟨0, 1, 0, 0⟩, some (0, 1)) := by
      decide
    obtain ⟨s, hs, hserved⟩ := Option.map_eq_some_iff.mp hview
    obtain ⟨hnamed, hrest⟩ := Prod.mk.inj hserved
    obtain ⟨n, hcreated, hn⟩ := h s (run_after hs) 1 ⟨0, 1, 0, 0⟩ hnamed
    rw [(Prod.mk.inj hrest).2] at hcreated
    obtain rfl := (Prod.mk.inj (Option.some.inj hcreated)).2
    exact absurd hn (by decide)
  · intro h
    let after := (daemon 0 some).after (fun _ _ => True) notRebuilt
    have hview : after.map servedView = some (none, some ⟨0, 1, 5, 0⟩, some (5, 0)) := by
      decide
    obtain ⟨s, hs, hserved⟩ := Option.map_eq_some_iff.mp hview
    obtain ⟨hnamed, hrest⟩ := Prod.mk.inj hserved
    have hregistered := h s (run_after hs) ⟨0, 1, 5, 0⟩ (Prod.mk.inj hrest).1
    exact absurd (hnamed.symm.trans hregistered) (by simp)

end

/-! ## Nothing else does -/

section

variable {W D C : Type} [DecidableEq W] [DecidableEq D] [DecidableEq C] {own : C}
  {fromDict : D → Option C}

omit [DecidableEq C] in
/-- A context that has to be built again, and is not, is dropped. -/
theorem contextCreate_rebuilt {s : Session W D C} {w : W} {fingerprint : Option D}
    {rootLoaded : Option Bool} (h : Rebuilt own fromDict s w fingerprint rootLoaded) :
    contextCreate own fromDict s w fingerprint rootLoaded false =
      { s with contexts := s.contexts.erase w } := by
  obtain ⟨hconfig, hctx, hcause⟩ := h
  obtain ⟨userConfig, hconfig⟩ := Option.isSome_iff_exists.mp hconfig
  have hbuild : build { s with contexts := s.contexts.erase w } w fingerprint userConfig false = none := by
    simp [build, Dict.get?_erase]
  by_cases hsame : (s.contextUserConfigs.get? w).join = fingerprint
  · obtain hloaded := hcause.resolve_left fun hne => hne hsame
    have hfirst : evictMismatch s w fingerprint = s := by simp [evictMismatch, hsame]
    have hsecond : evictBroken s w rootLoaded = some { s with contexts := s.contexts.erase w } := by
      simp [evictBroken, hctx, hloaded]
    simp only [contextCreate, hconfig, hfirst, hsecond, hbuild]
  · have hfirst : evictMismatch s w fingerprint = { s with contexts := s.contexts.erase w } := by
      simp [evictMismatch, hctx, hsame]
    have hsecond : evictBroken { s with contexts := s.contexts.erase w } w rootLoaded =
        some { s with contexts := s.contexts.erase w } := by
      simp [evictBroken, Dict.get?_erase]
    simp only [contextCreate, hconfig, hfirst, hsecond, hbuild]

omit [DecidableEq C] in
/-- A context that is there is used again. -/
theorem contextCreate_same {s : Session W D C} {w : W} {fingerprint : Option D} {userConfig : C}
    (builds : Bool) (hconfig : callerUserConfig own fromDict fingerprint = some userConfig)
    (hctx : (s.contexts.get? w).isSome) (hsame : (s.contextUserConfigs.get? w).join = fingerprint) :
    contextCreate own fromDict s w fingerprint (some true) builds = returned s w userConfig := by
  have hfirst : evictMismatch s w fingerprint = s := by simp [evictMismatch, hsame]
  have hsecond : evictBroken s w (some true) = some s := by simp [evictBroken, hctx]
  have hthird : build s w fingerprint userConfig builds = some s := by simp [build, hctx]
  simp only [contextCreate, hconfig, hfirst, hsecond, hthird]

/-- **The condition is exact**: a request that cannot be managed leaves the default dropped, or the next
`context.create` returns a context from before the change. -/
theorem served_step_iff {s : Session W D C} (h : Kept own fromDict s) (r : Request W D) :
    Manageable own fromDict s r ↔
      Served (step own fromDict s r) ∧ ∀ w fingerprint,
        Served (step own fromDict (step own fromDict s r) (.create w fingerprint (some true) true)) := by
  constructor
  · intro hok
    exact ⟨(h.step hok).served, fun w fingerprint => ((h.step hok).create fun _ _ => rfl).served⟩
  · rintro ⟨hnow, hnext⟩
    cases r with
    | create w fingerprint rootLoaded builds =>
      intro hrebuilt hdefault
      cases builds with
      | true => rfl
      | false =>
        obtain ⟨ctx, hctx⟩ := Option.isSome_iff_exists.mp hrebuilt.2.1
        rw [step, contextCreate_rebuilt hrebuilt] at hnow
        have hserved : (s.contexts.erase w).get? ctx.workspace = some ctx :=
          hnow.default ctx (hdefault.trans hctx)
        rw [h.workspace w ctx hctx, Dict.get?_erase, if_pos rfl] at hserved
        exact absurd hserved (by simp)
    | change operation context changed =>
      intro hcontext w hmem hkept
      by_contra hdropped
      obtain ⟨ctx, hctx⟩ := Option.isSome_iff_exists.mp hkept
      -- the context stays, and so does what it was asked for with
      have hctx' : (changePackage s operation context changed).contexts.get? w = some ctx := by
        rw [get?_changePackage hcontext, if_neg hdropped]
        exact hctx
      obtain ⟨sent, hsent, hconfig⟩ := h.configured w ctx hctx
      have hsent' :
          ((changePackage s operation context changed).contextUserConfigs.get? w).join = sent := by
        rw [contextUserConfigs_changePackage hcontext hdropped, hsent, Option.join_some]
      have hserved := hnext w sent
      rw [step, step, contextCreate_same true hconfig (by rw [hctx']; rfl) hsent'] at hserved
      obtain ⟨n, hcreated, hn⟩ := hserved.named w ctx hctx'
      have hreturned : some (ctx.userConfig, (changePackage s operation context changed).disk w) =
          some (ctx.userConfig, n) := by
        rw [← hcreated]
        exact (if_pos rfl).symm
      rw [disk_changePackage hcontext, if_pos hmem] at hreturned
      obtain rfl := (Prod.mk.inj (Option.some.inj hreturned)).2
      rw [h.read w ctx hctx] at hn
      exact absurd hn (by omega)

end

end PartCAD.Contexts
