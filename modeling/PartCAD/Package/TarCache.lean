import PartCAD.Lib.Concurrent
import PartCAD.Lib.Text

/-!
# Packages in tarballs

An import of a tarball looks for a directory named after the URL, and otherwise unpacks the archive
beside it and moves it there.  Of an archive it unpacks what is under the path that is asked for.

* `extract`, `download`, `extractAll` : an import;
* `Inv` : every directory in the cache is all that one of the imports asked for;
* `extract_guarantees` : what an import does, whatever the others do meanwhile;
* `imports_run` : what an import returns, after any others and beside any others, where the directories
  that are found were unpacked for what is asked for;
* `not_imports_run` : what it returns where another one had been asked for.
-/

namespace PartCAD.Tar

open PartCAD.Lib PartCAD.Lib.Text

/-! ## Archives -/

structure Member where
  name : Str
  data : Bytes

/-- `_is_under` -/
def isUnder (name relPath : Str) : Bool :=
  let front := rstrip '/' relPath
  if front = [] then true else name = front || startswith name (front ++ ['/'])

/-- The members that are under the path that is asked for. -/
def selects (relPath : Option Str) (m : Member) : Bool :=
  match relPath with
  | some relPath => isUnder m.name relPath
  | none => true

/-- Where a path with `/` leads from a directory, as long as that is inside. -/
def components (path : Str) : Option (List Str) :=
  (split '/' path).foldlM
    (fun cs c =>
      if c = [] ∨ c = ['.'] then some cs
      else if c = ['.', '.'] then if cs = [] then none else some cs.dropLast
      else some (cs ++ [c]))
    []

/-- Where `os.path.join` leads from a directory. -/
def leads (relPath : Str) : Option (List Str) :=
  if relPath.head? = some '/' then none else components relPath

/-- A member is unpacked to a place in the directory at the path. -/
def isBelow (relPath : Str) (m : Member) : Bool :=
  match leads relPath, components m.name with
  | some directory, some place => directory.isPrefixOf place
  | _, _ => false

/-! ## Imports -/

structure Import where
  url : Str
  relPath : Option Str
  /-- the process and `uuid4` -/
  token : Str

inductive Path where
  | cached (urlHash : Str)
  | staging (urlHash token : Str)
  deriving DecidableEq

/-- A directory with what has been unpacked into it, and the import that this was done for. -/
structure Dir where
  members : List Member
  url : Str
  relPath : Option Str

structure World where
  dirs : Path → Option Dir

def World.set (w : World) (path : Path) (dir : Option Dir) : World :=
  ⟨Function.update w.dirs path dir⟩

inductive Error where
  | osError
  | runtimeError
  | exception
  /-- what is no `Exception` -/
  | interrupt
  deriving DecidableEq

inductive Call where
  | pathExists (path : Path)
  | isdir (path : Path)
  | makedirs (path : Path) (i : Import)
  /-- `requests.get` with `raise_for_status` and `tarfile.open` -/
  | get (url : Str)
  | extract (path : Path) (m : Member)
  | rename (source target : Path)
  /-- `shutil.rmtree` with `ignore_errors` -/
  | rmtree (path : Path)

abbrev Call.Answer : Call → Type
  | .pathExists _ | .isdir _ => Bool
  | .get _ => List Member
  | _ => Unit

/-- Looking does not raise, and neither does taking away, but for an interrupt. -/
def Call.mayRaise : Call → Error → Bool
  | .pathExists _, e | .isdir _, e | .rmtree _, e => e = .interrupt
  | _, _ => true

inductive Fate where
  | done
  | raises (e : Error)
  /-- `rmtree` leaves some members. -/
  | leaves (members : List Member)

section

variable (archive : Str → List Member) (nt hasFilter : Bool) (refuses : Member → Bool)
  (urlHash : Str → Str)

@[grind =]
def effect : (c : Call) → World → Fate → Option (Except Error c.Answer × World)
  | c, w, .raises e => if c.mayRaise e then some (.error e, w) else none
  | .pathExists path, w, .done => some (.ok (w.dirs path).isSome, w)
  | .isdir path, w, .done => some (.ok (w.dirs path).isSome, w)
  | .makedirs path i, w, .done =>
    match w.dirs path with
    | some _ => none
    | none => some (.ok (), w.set path (some ⟨[], i.url, i.relPath⟩))
  | .get url, w, .done => some (.ok (archive url), w)
  | .extract path m, w, .done =>
    (w.dirs path).map fun dir =>
      (.ok (), w.set path (some { dir with members := dir.members ++ [m] }))
  | .rename source target, w, .done =>
    match w.dirs source, w.dirs target with
    | some dir, none => some (.ok (), (w.set source none).set target (some dir))
    | some dir, some there =>
      -- an empty directory is replaced, but on Windows
      if there.members.isEmpty && ! nt then
        some (.ok (), (w.set source none).set target (some dir))
      else none
    | none, _ => none
  | .rmtree path, w, .done => some (.ok (), w.set path none)
  | .rmtree path, w, .leaves members =>
    some (.ok (), w.set path ((w.dirs path).map fun dir => { dir with members := members }))
  | _, _, .leaves _ => none

abbrev Task := Program Call Call.Answer Error

abbrev perform (c : Call) : Task c.Answer := Program.perform c

/-- `_extract_all` : with a filter the members under the path that is asked for, without one all. -/
def extractAll (i : Import) (staging : Path) : List Member → Task Unit
  | [] => pure ()
  | m :: ms =>
    if hasFilter && ! selects i.relPath m then extractAll i staging ms
    else if refuses m then .raised .exception
    else do
      perform (.extract staging m)
      extractAll i staging ms

/-- `_download` -/
def download (i : Import) (cachePath : Path) : Task Unit := do
  let staging := Path.staging (urlHash i.url) i.token
  Program.tryCatch
    (do
      perform (.makedirs staging i)
      let members ← perform (.get i.url)
      extractAll hasFilter refuses i staging members)
    fun e =>
      if e = .interrupt then .raised e
      else do
        perform (.rmtree staging)
        .raised .runtimeError
  Program.tryCatch (perform (.rename staging cachePath))
    fun e =>
      if e = .osError then do
        perform (.rmtree staging)
        let there ← perform (.isdir cachePath)
        if there then pure () else .raised e
      else .raised e

/-- `_extract` : the directory of the archive, and the path in it. -/
def extract (i : Import) : Task (Path × Option Str) := do
  let cachePath := Path.cached (urlHash i.url)
  let there ← perform (.pathExists cachePath)
  if there then pure (cachePath, i.relPath)
  else do
    download hasFilter refuses urlHash i cachePath
    pure (cachePath, i.relPath)

/-! ## What is asked for -/

/-- What an archive has under the path that is asked for. -/
def wanted (i : Import) : List Member := (archive i.url).filter (selects i.relPath)

/-- What is in a directory of the cache at the path. -/
def held (dir : Dir) (relPath : Option Str) : List Member :=
  match relPath with
  | some relPath => dir.members.filter (isBelow relPath)
  | none => dir.members

/-- The directory that an import returns is in the cache, and holds what its archive has under the
path. -/
def Holds (i : Import) (result : Path × Option Str) (w : World) : Prop :=
  (∀ relPath, result.2 = some relPath → (leads relPath).isSome = true) ∧
    ∃ dir, w.dirs result.1 = some dir ∧ held dir result.2 = wanted archive i

/-- The path leads to a directory inside, and what is under it by name is unpacked to places in that
directory.  Where an archive is unpacked as a whole, nothing else is. -/
def Direct (i : Import) : Prop :=
  ∀ relPath, i.relPath = some relPath → (leads relPath).isSome = true ∧
    ∀ m ∈ archive i.url, (selects i.relPath m = true → isBelow relPath m = true) ∧
      (hasFilter = false → isBelow relPath m = true → selects i.relPath m = true)

/-- A directory was unpacked for the URL of an import and for everything that the import asks for, and
has nothing else in the place that the import is about. -/
def Covers (i : Import) (dir : Dir) : Prop :=
  dir.url = i.url ∧
    (hasFilter = true →
      ∀ m ∈ archive i.url, selects i.relPath m = true → selects dir.relPath m = true) ∧
    ∀ relPath, i.relPath = some relPath →
      ∀ m ∈ dir.members, isBelow relPath m = true → selects i.relPath m = true

/-- A directory that an import finds was unpacked for everything that it asks for. -/
def CoveredCall (i : Import) : Call → World → Fate → Prop
  | .pathExists path, w, _ => ∀ dir, w.dirs path = some dir → Covers archive hasFilter i dir
  | .isdir path, w, _ => ∀ dir, w.dirs path = some dir → Covers archive hasFilter i dir
  | _, _, _ => True

/-! ## Directories in the cache -/

/-- What is unpacked for an import. -/
def unpacked (i : Import) (members : List Member) : List Member :=
  if hasFilter then members.filter (selects i.relPath) else members

/-- Every directory in the cache is all that one of the imports asked for. -/
def Inv (imports : List Import) (w : World) : Prop :=
  ∀ hash dir, w.dirs (.cached hash) = some dir →
    ∃ i ∈ imports, dir = ⟨unpacked hasFilter i (archive i.url), i.url, i.relPath⟩

variable {archive nt hasFilter refuses urlHash}

theorem mem_of_unpacked {i : Import} {members : List Member} {m : Member}
    (h : m ∈ unpacked hasFilter i members) : m ∈ members := by
  unfold unpacked at h
  split at h
  · exact (List.mem_filter.1 h).1
  · exact h

theorem held_of_covers {i j : Import} (hdirect : Direct archive hasFilter i) {dir : Dir}
    (hdir : dir = ⟨unpacked hasFilter j (archive j.url), j.url, j.relPath⟩)
    (hcovers : Covers archive hasFilter i dir) : held dir i.relPath = wanted archive i := by
  subst hdir
  obtain ⟨hurl, hselects, hplace⟩ := hcovers
  dsimp only at hurl hselects hplace
  have hunpacked : (unpacked hasFilter j (archive j.url)).filter (selects i.relPath) =
      wanted archive i := by
    rw [hurl, wanted, unpacked]
    split
    · rename_i hfilter
      rw [List.filter_filter]
      apply List.filter_congr
      intro m hm
      cases h : selects i.relPath m with
      | false => rfl
      | true => rw [hselects hfilter m hm h]; rfl
    · rfl
  cases hrel : i.relPath with
  | none =>
    rw [hrel] at hunpacked
    have hall : ∀ ms : List Member, ms.filter (selects none) = ms :=
      fun ms => List.filter_eq_self.2 fun _ _ => rfl
    rw [hall] at hunpacked
    exact hunpacked
  | some relPath =>
    rw [← hunpacked, held]
    apply List.filter_congr
    intro m hm
    have hmem : m ∈ archive i.url := hurl ▸ mem_of_unpacked hm
    exact Bool.eq_iff_iff.2 ⟨hplace relPath hrel m hm, ((hdirect relPath hrel).2 m hmem).1⟩

/-- What an import has unpacked itself is what it asks for. -/
theorem covers_self {i : Import} (hdirect : Direct archive hasFilter i) :
    Covers archive hasFilter i ⟨unpacked hasFilter i (archive i.url), i.url, i.relPath⟩ := by
  refine ⟨rfl, fun _ _ _ h => h, fun relPath hrel m hm hbelow => ?_⟩
  cases hfilter : hasFilter with
  | true =>
    rw [hfilter, unpacked, if_pos rfl] at hm
    exact (List.mem_filter.1 hm).2
  | false => exact ((hdirect relPath hrel).2 m (mem_of_unpacked hm)).2 hfilter hbelow

/-! ## What an import does -/

/-- The directory that an import unpacks into. -/
def stagingOf (urlHash : Str → Str) (i : Import) : Path := .staging (urlHash i.url) i.token

section

variable (archive hasFilter urlHash)

/-- What an import relies on: its own directory is left to it, and the cache is kept. -/
def Relies (imports : List Import) (i : Import) (w w' : World) : Prop :=
  w'.dirs (stagingOf urlHash i) = w.dirs (stagingOf urlHash i) ∧
    (Inv archive hasFilter imports w → Inv archive hasFilter imports w')

/-- What an import does: it leaves the directories of the others alone, and keeps the cache. -/
def Grants (imports : List Import) (i : Import) (w w' : World) : Prop :=
  (∀ hash token, token ≠ i.token → w'.dirs (.staging hash token) = w.dirs (.staging hash token)) ∧
    (Inv archive hasFilter imports w → Inv archive hasFilter imports w')

/-- What an import has unpacked so far, with the cache as it should be. -/
def Staged (imports : List Import) (i : Import) (dir : Option Dir) (w : World) : Prop :=
  Inv archive hasFilter imports w ∧ w.dirs (stagingOf urlHash i) = dir

end

section

variable {imports : List Import} {i : Import}

theorem inv_stable {w w' : World} (h : Inv archive hasFilter imports w)
    (hR : Relies archive hasFilter urlHash imports i w w') : Inv archive hasFilter imports w' :=
  hR.2 h

theorem staged_stable {dir : Option Dir} {w w' : World}
    (h : Staged archive hasFilter urlHash imports i dir w)
    (hR : Relies archive hasFilter urlHash imports i w w') :
    Staged archive hasFilter urlHash imports i dir w' :=
  ⟨hR.2 h.1, hR.1.trans h.2⟩

theorem grants_refl (w : World) : Grants archive hasFilter imports i w w :=
  ⟨fun _ _ _ => rfl, id⟩

theorem World.set_self (w : World) (path : Path) (dir : Option Dir) : (w.set path dir).dirs path = dir := by
  simp [World.set]

theorem World.set_of_ne (w : World) {path path' : Path} (dir : Option Dir) (h : path' ≠ path) :
    (w.set path dir).dirs path' = w.dirs path' := by
  simp [World.set, h]

theorem inv_set_staging (w : World) (dir : Option Dir) (h : Inv archive hasFilter imports w) :
    Inv archive hasFilter imports (w.set (stagingOf urlHash i) dir) := by
  intro hash there hthere
  rw [World.set_of_ne w dir (by simp [stagingOf])] at hthere
  exact h hash there hthere

/-- An import may do to its own directory what it likes. -/
theorem grants_set_staging (w : World) (dir : Option Dir) :
    Grants archive hasFilter imports i w (w.set (stagingOf urlHash i) dir) := by
  refine ⟨fun hash token htoken => ?_, inv_set_staging w dir⟩
  exact World.set_of_ne w dir fun h => htoken (Path.staging.inj h).2

/-- It puts what it has unpacked into the cache. -/
theorem inv_publish (hi : i ∈ imports) {w : World} (h : Inv archive hasFilter imports w) (hash : Str) :
    Inv archive hasFilter imports ((w.set (stagingOf urlHash i) none).set (.cached hash)
      (some ⟨unpacked hasFilter i (archive i.url), i.url, i.relPath⟩)) := by
  intro hash' there hthere
  by_cases heq : hash' = hash
  · subst heq
    rw [World.set_self] at hthere
    exact ⟨i, hi, (Option.some.inj hthere).symm⟩
  · rw [World.set_of_ne _ _ fun hc => heq (Path.cached.inj hc)] at hthere
    exact inv_set_staging w none h hash' there hthere

/-- A call that raises changes nothing. -/
theorem effect_raises {c : Call} {w u : World} {e : Error} {r : Except Error c.Answer}
    (h : effect archive nt c w (.raises e) = some (r, u)) : r = .error e ∧ w = u := by
  have heq : (if c.mayRaise e then some (.error e, w) else none) = some (r, u) := by
    cases c <;> exact h
  obtain ⟨-, heq⟩ := Option.ite_none_right_eq_some.1 heq
  exact ⟨(Prod.mk.inj (Option.some.inj heq)).1.symm, (Prod.mk.inj (Option.some.inj heq)).2⟩

theorem extractAll_guarantees (ms : List Member) : ∀ {members : List Member} {w : World},
    Staged archive hasFilter urlHash imports i (some ⟨members, i.url, i.relPath⟩) w →
      (extractAll hasFilter refuses i (stagingOf urlHash i) ms).Guarantees (effect archive nt)
        (CoveredCall archive hasFilter i) (Relies archive hasFilter urlHash imports i)
        (Grants archive hasFilter imports i)
        (fun _ => Staged archive hasFilter urlHash imports i
          (some ⟨members ++ unpacked hasFilter i ms, i.url, i.relPath⟩))
        (fun _ => Inv archive hasFilter imports) w := by
  induction ms with
  | nil =>
    intro members w h
    have hnil : unpacked hasFilter i [] = [] := by
      unfold unpacked
      split <;> rfl
    rw [hnil, List.append_nil]
    exact h
  | cons m ms ih =>
    intro members w h
    rw [extractAll]
    by_cases hskip : (hasFilter && ! selects i.relPath m) = true
    · rw [if_pos hskip]
      obtain ⟨rfl, hselects⟩ := Bool.and_eq_true_iff.1 hskip
      have hcons : unpacked true i (m :: ms) = unpacked true i ms := by
        unfold unpacked
        rw [if_pos rfl, if_pos rfl, List.filter_cons_of_neg]
        simpa using hselects
      rw [hcons]
      exact ih h
    · rw [if_neg hskip]
      split
      · exact h.1
      · have hcons : unpacked hasFilter i (m :: ms) = m :: unpacked hasFilter i ms := by
          unfold unpacked
          split
          · rename_i hfilter
            rw [List.filter_cons_of_pos]
            simpa [hfilter] using hskip
          · rfl
        rw [Program.guarantees_bind]
        refine Program.guarantees_perform (fun _ _ hs hR => staged_stable hs hR) h ?_
        rintro t f r u ⟨hinv, hstaging⟩ - heffect
        cases f with
        | done =>
          simp only [effect, hstaging, Option.map_some, Option.some.injEq, Prod.mk.injEq] at heffect
          obtain ⟨rfl, rfl⟩ := heffect
          refine ⟨grants_set_staging t _, ?_⟩
          rw [hcons, List.append_cons]
          exact ih ⟨inv_set_staging t _ hinv, World.set_self _ _ _⟩
        | raises e =>
          obtain ⟨rfl, rfl⟩ := effect_raises heffect
          exact ⟨grants_refl t, hinv⟩
        | leaves => cases heffect

/-- It takes what it has unpacked away. -/
theorem rmtree_guarantees {Q : Unit → World → Prop} {X : Error → World → Prop} {w : World}
    (h : Inv archive hasFilter imports w)
    (hQ : ∀ u, Inv archive hasFilter imports u → Q () u)
    (hX : ∀ e u, Inv archive hasFilter imports u → X e u) :
    (perform (.rmtree (stagingOf urlHash i))).Guarantees (effect archive nt)
      (CoveredCall archive hasFilter i) (Relies archive hasFilter urlHash imports i)
      (Grants archive hasFilter imports i) Q X w := by
  refine Program.guarantees_perform (fun _ _ hs hR => inv_stable hs hR) h ?_
  rintro t f r u hinv - heffect
  cases f with
  | done =>
    simp only [effect, Option.some.injEq, Prod.mk.injEq] at heffect
    obtain ⟨rfl, rfl⟩ := heffect
    exact ⟨grants_set_staging t _, hQ _ (inv_set_staging t _ hinv)⟩
  | leaves members =>
    simp only [effect, Option.some.injEq, Prod.mk.injEq] at heffect
    obtain ⟨rfl, rfl⟩ := heffect
    exact ⟨grants_set_staging t _, hQ _ (inv_set_staging t _ hinv)⟩
  | raises e =>
    obtain ⟨rfl, rfl⟩ := effect_raises heffect
    exact ⟨grants_refl t, hX _ _ hinv⟩

/-- It fills its directory with what it asks for, or leaves the cache as it should be. -/
theorem fill_guarantees {w : World} (h : Inv archive hasFilter imports w) :
    (Program.tryCatch
      (do
        perform (.makedirs (stagingOf urlHash i) i)
        let members ← perform (.get i.url)
        extractAll hasFilter refuses i (stagingOf urlHash i) members)
      fun e =>
        if e = .interrupt then .raised e
        else do
          perform (.rmtree (stagingOf urlHash i))
          .raised .runtimeError).Guarantees (effect archive nt)
      (CoveredCall archive hasFilter i) (Relies archive hasFilter urlHash imports i)
      (Grants archive hasFilter imports i)
      (fun _ => Staged archive hasFilter urlHash imports i
        (some ⟨unpacked hasFilter i (archive i.url), i.url, i.relPath⟩))
      (fun _ _ => True) w := by
  rw [Program.guarantees_tryCatch]
  -- whatever is raised, the cache is as it should be
  suffices hfill : (do
      perform (.makedirs (stagingOf urlHash i) i)
      let members ← perform (.get i.url)
      extractAll hasFilter refuses i (stagingOf urlHash i) members : Task Unit).Guarantees
        (effect archive nt) (CoveredCall archive hasFilter i)
        (Relies archive hasFilter urlHash imports i) (Grants archive hasFilter imports i)
        (fun _ => Staged archive hasFilter urlHash imports i
          (some ⟨unpacked hasFilter i (archive i.url), i.url, i.relPath⟩))
        (fun _ => Inv archive hasFilter imports) w by
    refine hfill.mono (fun _ _ => id) fun e u hinv => ?_
    split
    · trivial
    · rw [Program.guarantees_bind]
      exact rmtree_guarantees hinv (fun _ _ => trivial) fun _ _ _ => trivial
  rw [Program.guarantees_bind]
  refine Program.guarantees_perform (fun _ _ hs hR => inv_stable hs hR) h ?_
  rintro t f r u hinv - heffect
  cases f with
  | leaves => cases heffect
  | raises e =>
    obtain ⟨rfl, rfl⟩ := effect_raises heffect
    exact ⟨grants_refl t, hinv⟩
  | done =>
    rw [effect] at heffect
    split at heffect
    · cases heffect
    · simp only [Option.some.injEq, Prod.mk.injEq] at heffect
      obtain ⟨rfl, rfl⟩ := heffect
      refine ⟨grants_set_staging t _, ?_⟩
      have hstaged : Staged archive hasFilter urlHash imports i (some ⟨[], i.url, i.relPath⟩)
          (t.set (stagingOf urlHash i) (some ⟨[], i.url, i.relPath⟩)) :=
        ⟨inv_set_staging t _ hinv, World.set_self _ _ _⟩
      change Program.Guarantees _ _ _ _ _ _ _ _
      rw [Program.guarantees_bind]
      refine Program.guarantees_perform (fun _ _ hs hR => staged_stable hs hR) hstaged ?_
      rintro t' f' r' u' hstaged' - heffect'
      cases f' with
      | leaves => cases heffect'
      | raises e =>
        obtain ⟨rfl, rfl⟩ := effect_raises heffect'
        exact ⟨grants_refl t', hstaged'.1⟩
      | done =>
        simp only [effect, Option.some.injEq, Prod.mk.injEq] at heffect'
        obtain ⟨rfl, rfl⟩ := heffect'
        exact ⟨grants_refl t', extractAll_guarantees (archive i.url) hstaged'⟩

/-- What is asked for is in the cache. -/
def Ready (archive : Str → List Member) (urlHash : Str → Str) (i : Import) (w : World) : Prop :=
  ∃ dir, w.dirs (.cached (urlHash i.url)) = some dir ∧ held dir i.relPath = wanted archive i

/-- A directory that an import finds holds what is asked for. -/
theorem ready_of_covers (hdirect : Direct archive hasFilter i) {w : World}
    (h : Inv archive hasFilter imports w)
    (hcovers : ∀ dir, w.dirs (.cached (urlHash i.url)) = some dir → Covers archive hasFilter i dir)
    (hthere : (w.dirs (.cached (urlHash i.url))).isSome = true) : Ready archive urlHash i w := by
  obtain ⟨dir, hdir⟩ := Option.isSome_iff_exists.1 hthere
  obtain ⟨j, -, heq⟩ := h _ dir hdir
  exact ⟨dir, hdir, held_of_covers hdirect heq (hcovers dir hdir)⟩

/-- It moves its directory into the cache, or finds that there is one. -/
theorem publish_guarantees (hi : i ∈ imports) (hdirect : Direct archive hasFilter i) {w : World}
    (h : Staged archive hasFilter urlHash imports i
      (some ⟨unpacked hasFilter i (archive i.url), i.url, i.relPath⟩) w) :
    (Program.tryCatch (perform (.rename (stagingOf urlHash i) (.cached (urlHash i.url))))
      fun e =>
        if e = .osError then do
          perform (.rmtree (stagingOf urlHash i))
          let there ← perform (.isdir (.cached (urlHash i.url)))
          if there then pure () else .raised e
        else .raised e).Guarantees (effect archive nt)
      (CoveredCall archive hasFilter i) (Relies archive hasFilter urlHash imports i)
      (Grants archive hasFilter imports i) (fun _ => Ready archive urlHash i) (fun _ _ => True) w := by
  rw [Program.guarantees_tryCatch]
  refine Program.guarantees_perform (fun _ _ hs hR => staged_stable hs hR) h ?_
  rintro t f r u ⟨hinv, hstaging⟩ - heffect
  have hready : Ready archive urlHash i ((t.set (stagingOf urlHash i) none).set
      (.cached (urlHash i.url))
      (some ⟨unpacked hasFilter i (archive i.url), i.url, i.relPath⟩)) :=
    ⟨_, World.set_self _ _ _, held_of_covers hdirect rfl (covers_self hdirect)⟩
  have hgrants : Grants archive hasFilter imports i t ((t.set (stagingOf urlHash i) none).set
      (.cached (urlHash i.url))
      (some ⟨unpacked hasFilter i (archive i.url), i.url, i.relPath⟩)) := by
    refine ⟨fun hash token htoken => ?_, fun hinv => inv_publish hi hinv _⟩
    rw [World.set_of_ne _ _ (by simp)]
    exact World.set_of_ne _ _ fun hc => htoken (Path.staging.inj hc).2
  cases f with
  | leaves => cases heffect
  | raises e =>
    obtain ⟨rfl, rfl⟩ := effect_raises heffect
    refine ⟨grants_refl t, ?_⟩
    change Program.Guarantees _ _ _ _ _ _ _ _
    split
    · rw [Program.guarantees_bind]
      refine rmtree_guarantees hinv (fun u hinv => ?_) fun _ _ _ => trivial
      rw [Program.guarantees_bind]
      refine Program.guarantees_perform (fun _ _ hs hR => inv_stable hs hR) hinv ?_
      rintro t' f' r' u' hinv' hcovered heffect'
      cases f' with
      | leaves => cases heffect'
      | raises e =>
        obtain ⟨rfl, rfl⟩ := effect_raises heffect'
        exact ⟨grants_refl t', trivial⟩
      | done =>
        simp only [effect, Option.some.injEq, Prod.mk.injEq] at heffect'
        obtain ⟨rfl, rfl⟩ := heffect'
        refine ⟨grants_refl t', ?_⟩
        change Program.Guarantees _ _ _ _ _ _ _ _
        split
        · rename_i hthere
          exact ready_of_covers hdirect hinv' hcovered hthere
        · trivial
    · trivial
  | done =>
    simp only [effect, hstaging] at heffect
    split at heffect
    · rename_i hdir _
      obtain rfl := Option.some.inj hdir
      simp only [Option.some.injEq, Prod.mk.injEq] at heffect
      obtain ⟨rfl, rfl⟩ := heffect
      exact ⟨hgrants, hready⟩
    · rename_i hdir _
      obtain rfl := Option.some.inj hdir
      split at heffect
      · simp only [Option.some.injEq, Prod.mk.injEq] at heffect
        obtain ⟨rfl, rfl⟩ := heffect
        exact ⟨hgrants, hready⟩
      · cases heffect
    · cases heffect

theorem download_guarantees (hi : i ∈ imports) (hdirect : Direct archive hasFilter i) {w : World}
    (h : Inv archive hasFilter imports w) :
    (download hasFilter refuses urlHash i (.cached (urlHash i.url))).Guarantees (effect archive nt)
      (CoveredCall archive hasFilter i) (Relies archive hasFilter urlHash imports i)
      (Grants archive hasFilter imports i) (fun _ => Ready archive urlHash i) (fun _ _ => True) w := by
  rw [download, Program.guarantees_bind]
  exact (fill_guarantees h).mono (fun _ _ hstaged => publish_guarantees hi hdirect hstaged)
    fun _ _ _ => trivial

/-- **An import, whatever the others do meanwhile.** -/
theorem extract_guarantees (hi : i ∈ imports) (hdirect : Direct archive hasFilter i) {w : World}
    (h : Inv archive hasFilter imports w) :
    (extract hasFilter refuses urlHash i).Guarantees (effect archive nt)
      (CoveredCall archive hasFilter i) (Relies archive hasFilter urlHash imports i)
      (Grants archive hasFilter imports i) (fun result => Holds archive i result)
      (fun _ _ => True) w := by
  have hholds : ∀ u, Ready archive urlHash i u →
      Holds archive i (Path.cached (urlHash i.url), i.relPath) u :=
    fun u hready => ⟨fun relPath hrel => (hdirect relPath hrel).1, hready⟩
  rw [extract, Program.guarantees_bind]
  refine Program.guarantees_perform (fun _ _ hs hR => inv_stable hs hR) h ?_
  rintro t f r u hinv hcovered heffect
  cases f with
  | leaves => cases heffect
  | raises e =>
    obtain ⟨rfl, rfl⟩ := effect_raises heffect
    exact ⟨grants_refl t, trivial⟩
  | done =>
    simp only [effect, Option.some.injEq, Prod.mk.injEq] at heffect
    obtain ⟨rfl, rfl⟩ := heffect
    refine ⟨grants_refl t, ?_⟩
    change Program.Guarantees _ _ _ _ _ _ _ _
    split
    · rename_i hthere
      exact hholds t (ready_of_covers hdirect hinv hcovered hthere)
    · rw [Program.guarantees_bind]
      exact (download_guarantees hi hdirect hinv).mono (fun _ u hready => hholds u hready)
        fun _ _ _ => trivial

end

/-! ## Imports side by side -/

section

variable (archive nt hasFilter refuses urlHash)

def nothing : World := ⟨fun _ => none⟩

/-- The imports over an empty cache directory. -/
def importsPool (imports : List Import) :
    System (List (Task (Path × Option Str)) × World) (ℕ × Fate) :=
  pool (effect archive nt) (imports.map (extract hasFilter refuses urlHash)) nothing

/-- Every directory that an import finds was unpacked for what it asks for. -/
def Covered (imports : List Import) (n : ℕ) (c : Call) (w : World) (f : Fate) : Prop :=
  ∀ i, imports[n]? = some i → CoveredCall archive hasFilter i c w f

end

variable {imports : List Import}

/-- Imports leave each other's directories alone, as each has one of its own. -/
theorem relies_of_grants (htokens : (imports.map (·.token)).Nodup) {m n : ℕ} {i j : Import}
    (hi : imports[m]? = some i) (hj : imports[n]? = some j) (hne : m ≠ n) {w w' : World}
    (h : Grants archive hasFilter imports j w w') :
    Relies archive hasFilter urlHash imports i w w' := by
  refine ⟨h.1 _ _ fun htoken => hne ?_, h.2⟩
  have hm : (imports.map (·.token))[m]? = some i.token := by rw [List.getElem?_map, hi]; rfl
  have hn : (imports.map (·.token))[n]? = some j.token := by rw [List.getElem?_map, hj]; rfl
  exact (List.getElem?_inj (List.getElem?_eq_some_iff.1 hm).1 htokens).1
    (by rw [hm, hn, htoken])

theorem inv_nothing : Inv archive hasFilter imports nothing := fun _ _ h => nomatch h

/-- **The imports are kept to what they do**, each with a directory of its own. -/
theorem compatible (hdirect : ∀ i ∈ imports, Direct archive hasFilter i)
    (htokens : (imports.map (·.token)).Nodup) :
    Compatible (effect archive nt) (Covered archive hasFilter imports)
      (fun n w w' => ∀ i, imports[n]? = some i → Relies archive hasFilter urlHash imports i w w')
      (fun n w w' => ∃ i, imports[n]? = some i ∧ Grants archive hasFilter imports i w w')
      (fun n result w => ∀ i, imports[n]? = some i → Holds archive i result w) (fun _ _ _ => True)
      (imports.map (extract hasFilter refuses urlHash)) nothing := by
  constructor
  · intro n p hp
    rw [List.getElem?_map] at hp
    obtain ⟨i, hi, rfl⟩ := Option.map_eq_some_iff.1 hp
    have hmem := List.mem_of_getElem? hi
    have hextract : (extract hasFilter refuses urlHash i).Guarantees (effect archive nt)
        (CoveredCall archive hasFilter i) (Relies archive hasFilter urlHash imports i)
        (Grants archive hasFilter imports i) (fun result => Holds archive i result)
        (fun _ _ => True) nothing :=
      extract_guarantees hmem (hdirect i hmem) inv_nothing
    refine (hextract.mono (fun result w hholds j hj => ?_) fun _ _ => id).weaken
      (fun c w f hok => hok i hi) (fun w w' hR => hR i hi) fun w w' hG => ⟨i, hi, hG⟩
    rw [hi] at hj
    exact Option.some.inj hj ▸ hholds
  · rintro m n - - hne w w' ⟨j, hj, hG⟩ i hi
    exact relies_of_grants htokens hi hj hne hG

/-- **After any run of the imports**, each of them at any point of it, every directory in the cache is
all that one of them asked for, and an import that returns returns a directory with what it asks for. -/
theorem imports_run (hdirect : ∀ i ∈ imports, Direct archive hasFilter i)
    (htokens : (imports.map (·.token)).Nodup) {st : List (Task (Path × Option Str)) × World}
    (h : Run (importsPool archive nt hasFilter refuses urlHash imports)
      (Allowed (Covered archive hasFilter imports)) st) :
    Inv archive hasFilter imports st.2 ∧
      ∀ n f st', Allowed (Covered archive hasFilter imports) st (n, f) →
        (importsPool archive nt hasFilter refuses urlHash imports).step st (n, f) = some st' →
        ∀ i, imports[n]? = some i → ∀ result, st'.1[n]? = some (.done result) →
          Holds archive i result st'.2 := by
  have hcompatible := @compatible archive nt hasFilter refuses urlHash imports hdirect htokens
  constructor
  · refine pool_invariant hcompatible (I := Inv archive hasFilter imports) ?_ inv_nothing h
    rintro n w w' ⟨i, -, hG⟩
    exact hG.2
  · intro n f st' hok hstep i hi result hresult
    exact (step_guarantees hcompatible h hok hstep).2 _ hresult i hi

end

/-! ## Two imports of one archive -/

/-- An archive with two packages. -/
def twoPackages : List Member := [⟨"a/x".toList, [1]⟩, ⟨"b/y".toList, [2]⟩]

/-- Both packages, one each. -/
def bothPackages : List Import :=
  [⟨['u'], some ['a'], ['1']⟩, ⟨['u'], some ['b'], ['2']⟩]

theorem bothPackages_direct : ∀ i ∈ bothPackages, Direct (fun _ => twoPackages) true i := by
  intro i hi relPath hrel
  rcases List.mem_cons.1 hi with rfl | hi
  · obtain rfl := Option.some.inj hrel
    have hbelow : ∀ m ∈ twoPackages, selects (some ['a']) m = true → isBelow ['a'] m = true := by
      decide
    exact ⟨by decide, fun m hm => ⟨hbelow m hm, nofun⟩⟩
  · obtain rfl := List.mem_singleton.1 hi
    obtain rfl := Option.some.inj hrel
    have hbelow : ∀ m ∈ twoPackages, selects (some ['b']) m = true → isBelow ['b'] m = true := by
      decide
    exact ⟨by decide, fun m hm => ⟨hbelow m hm, nofun⟩⟩

/-- The import that gets on does not find a directory that it looks for. -/
def findsNothing (st : List (Task (Path × Option Str)) × World) (e : ℕ × Fate) : Bool :=
  match (st.1[e.1]?).bind Program.pending with
  | some (.pathExists path) => (st.2.dirs path).isNone
  | some (.isdir path) => (st.2.dirs path).isNone
  | _ => true

theorem allowed_of_findsNothing {archive : Str → List Member} {hasFilter : Bool}
    {imports : List Import} {st : List (Task (Path × Option Str)) × World} {e : ℕ × Fate}
    (h : findsNothing st e = true) : Allowed (Covered archive hasFilter imports) st e := by
  intro p c hp hc i _
  rw [findsNothing, hp, Option.bind_some, hc] at h
  cases c with
  | pathExists path =>
    intro dir hdir
    rw [Option.isNone_iff_eq_none.1 h] at hdir
    exact absurd hdir (by simp)
  | isdir path =>
    intro dir hdir
    rw [Option.isNone_iff_eq_none.1 h] at hdir
    exact absurd hdir (by simp)
  | _ => trivial

/-- An import from beginning to end: it looks, makes a directory, asks for the archive, unpacks its
package and moves it to the cache. -/
theorem imports_run_first :
    ∃ st st', Run (importsPool (fun _ => twoPackages) false true (fun _ => false) id bothPackages)
        (Allowed (Covered (fun _ => twoPackages) true bothPackages)) st ∧
      (importsPool (fun _ => twoPackages) false true (fun _ => false) id bothPackages).step st
        (0, .done) = some st' ∧
      Holds (fun _ => twoPackages) ⟨['u'], some ['a'], ['1']⟩ (.cached ['u'], some ['a']) st'.2 := by
  let sys := importsPool (fun _ => twoPackages) false true (fun _ => false) id bothPackages
  obtain ⟨st, st', hst, hlast, hstep, hresult⟩ : ∃ st st',
      sys.after (fun st e => findsNothing st e = true) (List.replicate 4 (0, .done)) = some st ∧
        findsNothing st (0, .done) = true ∧ sys.step st (0, .done) = some st' ∧
        st'.1[0]? = some (.done (.cached ['u'], some ['a'])) :=
    ⟨_, _, rfl, rfl, rfl, rfl⟩
  have hrun : Run sys (Allowed (Covered (fun _ => twoPackages) true bothPackages)) st :=
    (run_after hst).mono fun _ _ h => allowed_of_findsNothing h
  exact ⟨st, st', hrun, hstep, (imports_run bothPackages_direct (by decide) hrun).2 0 .done st'
    (allowed_of_findsNothing hlast) hstep ⟨['u'], some ['a'], ['1']⟩ rfl _ hresult⟩

/-- The second package is not in the directory that the first import has filled. -/
theorem not_imports_run :
    ¬ ∀ (archive : Str → List Member) (nt hasFilter : Bool) (refuses : Member → Bool)
      (urlHash : Str → Str) (imports : List Import),
      (∀ i ∈ imports, Direct archive hasFilter i) → (imports.map (·.token)).Nodup →
        ∀ st, Run (importsPool archive nt hasFilter refuses urlHash imports) (fun _ _ => True) st →
          ∀ n f st',
            (importsPool archive nt hasFilter refuses urlHash imports).step st (n, f) = some st' →
              ∀ i, imports[n]? = some i → ∀ result, st'.1[n]? = some (.done result) →
                Holds archive i result st'.2 := by
  intro h
  let sys := importsPool (fun _ => twoPackages) false true (fun _ => false) id bothPackages
  obtain ⟨st, st', hst, hstep, hresult, hdir⟩ : ∃ st st',
      sys.after (fun _ _ => True) (List.replicate 5 (0, .done)) = some st ∧ sys.step st (1, .done) = some st' ∧
        st'.1[1]? = some (.done (.cached ['u'], some ['b'])) ∧
        st'.2.dirs (.cached ['u']) = some ⟨[⟨"a/x".toList, [1]⟩], ['u'], some ['a']⟩ :=
    ⟨_, _, rfl, rfl, rfl, rfl⟩
  obtain ⟨-, dir, hthere, hheld⟩ := h (fun _ => twoPackages) false true (fun _ => false) id bothPackages
    bothPackages_direct (by decide) st (run_after hst) 1 .done st' hstep
    ⟨['u'], some ['b'], ['2']⟩ rfl _ hresult
  obtain rfl := Option.some.inj (hdir.symm.trans hthere)
  exact absurd (congrArg List.length hheld) (by decide)

end PartCAD.Tar
