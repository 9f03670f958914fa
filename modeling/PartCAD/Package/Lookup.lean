import PartCAD.Package.Relocate

/-!
# Looking up a package

`getProject` cuts the name of the root package off a path and descends from the root package
through what is left, one component at a time.

* `isWithin_pathOf` : the rule of `isWithin` is the prefix relation on components;
* `importList_eq_iff` : the cut leaves the components below the root, unless the name of the root
  ends in the middle of a component of the path;
* `descends_iff` : the descents that `getProject` starts.
-/

namespace PartCAD.Package

open PartCAD.Lib PartCAD.Lib.Text

/-! ## The functions -/

/-- `_is_within` -/
def isWithin (name : Str) : Option Str → Bool
  | none => true
  | some parentName =>
    decide (name = parentName) || startswith name (rstrip '/' parentName ++ ['/'])

/-- Where the configuration of a package is taken from. -/
inductive Source where
  | builtin (path : Str)
  | subfolder (path : Str)
  | dependency (name : Str)

/-- A package that another one declares. -/
structure Dependency where
  name : Str
  onlyInRoot : Bool

/-- The loaded packages and the loading of one, which happens outside of the lookup. -/
structure Loader (σ π : Type) where
  name : π → Str
  skipped : π → Bool
  subfolders : π → List Str
  /-- the subfolder has a package configuration in it -/
  hasConfig : π → Str → Bool
  dependencies : π → List Dependency
  projects : σ → Str → Option π
  importProject : Option π → Str → Source → σ → Option π × σ
  /-- the directory of the `partcad` installation that its own packages are in -/
  builtinRoot : Str

/-- What a lookup is relative to. -/
structure Context where
  name : Str
  currentProjectPath : Str

/-- `BUILTIN_PATHS` : the packages that ship with `partcad`, with their subdirectories. -/
def builtinPaths : List (Str × Str) :=
  [("//builtin".toList, []), ("//builtin/export".toList, "/export".toList),
    ("//builtin/render".toList, "/render".toList), ("//builtin/import".toList, "/import".toList),
    ("//builtin/open".toList, "/open".toList), ("//builtin/cam".toList, "/cam".toList),
    ("//builtin/scene".toList, "/scene".toList)]

def getProjectAbsPath (c : Context) (relProjectPath : Str) : Str :=
  if startswith relProjectPath ['/', '/'] then relProjectPath
  else if relProjectPath = ['.'] ∨ relProjectPath = [] then c.currentProjectPath
  else getChildProjectPath c.currentProjectPath relProjectPath

/-- How `getProject` goes on from a path. -/
inductive Route (π : Type) where
  | builtin (project : π)
  | unregistered
  | descend (project : π) (importList : List Str)

section

variable {σ π : Type} (E : Loader σ π)

def getBuiltinProject (projectPath : Str) (s : σ) : Option π × σ :=
  match builtinPaths.find? (·.1 = projectPath) with
  | none => (none, s)
  | some (_, dir) =>
    match E.projects s projectPath with
    | some project => (some project, s)
    | none => E.importProject none projectPath (.builtin (E.builtinRoot ++ dir)) s

/-- The components of a relative path: none for the empty one. -/
def components (projectPath : Str) : List Str :=
  if projectPath = [] then [] else split '/' projectPath

/-- The components left of a path when the name of the root package is cut off. -/
def importList (rootName projectPath : Str) : List Str :=
  let lenToSkip :=
    if rootName ≠ ['/', '/'] ∧ startswith projectPath rootName then rootName.length + 1 else 2
  components (projectPath.drop lenToSkip)

def route (c : Context) (relProjectPath : Str) (s : σ) : Route π × σ :=
  let projectPath := getProjectAbsPath c relProjectPath
  match getBuiltinProject E projectPath s with
  | (some project, s) => (.builtin project, s)
  | (none, s) =>
    match E.projects s c.name with
    | none => (.unregistered, s)
    | some project => (.descend project (importList c.name projectPath), s)

/-- One component of the way down in `getProjectRecursive`. -/
def getNextProject (project : π) (nextImport : Str) (s : σ) : Option π × σ :=
  if E.skipped project then (none, s)
  else
    let nextProjectPath := getChildProjectPath (E.name project) nextImport
    match E.projects s nextProjectPath with
    | some nextProject => (some nextProject, s)
    | none =>
      if nextImport ∈ E.subfolders project then
        if E.hasConfig project nextImport then
          E.importProject (some project) nextProjectPath (.subfolder nextImport) s
        else (none, s)
      else
        match (E.dependencies project).find? (·.name = nextImport) with
        | none => (none, s)
        | some dependency =>
          let nextProjectPath :=
            if dependency.onlyInRoot then '/' :: '/' :: nextImport else nextProjectPath
          E.importProject (some project) nextProjectPath (.dependency nextImport) s

def getProjectRecursive : π → List Str → σ → Option π × σ
  | project, [], s => (some project, s)
  | project, nextImport :: importList, s =>
    match getNextProject E project nextImport s with
    | (some nextProject, s) => getProjectRecursive nextProject importList s
    | (none, s) => (none, s)

def getProject (c : Context) (relProjectPath : Str) (s : σ) : Option π × σ :=
  match route E c relProjectPath s with
  | (.builtin project, s) => (some project, s)
  | (.unregistered, s) => (none, s)
  | (.descend project importList, s) => getProjectRecursive E project importList s

end

/-! ## Cutting the root off a path -/

/-- The components to descend through to the package `P` when the root package is `R`. -/
def below (R P : List Str) : List Str := if R.isPrefixOf P then P.drop R.length else P

section

variable {R P : List Str}

/-- The rule of `isWithin`, on components. -/
theorem isWithin_pathOf (hR : ∀ c ∈ R, IsComponent c) (hP : ∀ c ∈ P, IsComponent c) :
    isWithin (pathOf P) (some (pathOf R)) = true ↔ R <+: P := by
  by_cases hRe : R = []
  · subst hRe
    have hstart : startswith (pathOf P) ['/'] = true := startswith_append ['/'] _
    simp only [isWithin, show rstrip '/' (pathOf []) = [] from rfl, List.nil_append, hstart,
      Bool.or_true, List.nil_prefix]
  · simp only [isWithin, rstrip_of_getLast (getLast?_pathOf hR hRe), Bool.or_eq_true,
      decide_eq_true_eq]
    constructor
    · rintro (h | h)
      · obtain rfl := pathOf_injective hP hR h
        exact List.prefix_rfl
      · obtain ⟨-, S, -, rfl⟩ := startswith_pathOf hR hP h
        exact List.prefix_append R S
    · rintro ⟨S, rfl⟩
      by_cases hS : S = []
      · exact Or.inl (by simp [hS])
      · right
        rw [pathOf_append hRe hS, startswith_iff]
        exact ⟨join '/' S, by simp⟩

theorem components_join (hP : ∀ c ∈ P, IsComponent c) : components (join '/' P) = P := by
  unfold components
  split
  · rename_i h
    exact (join_eq_nil (fun c hc => (hP c hc).1) h).symm
  · rename_i h
    refine split_join (fun c hc => (hP c hc).2) ?_
    rintro rfl
    exact h rfl

theorem join_components (s : Str) : join '/' (components s) = s := by
  unfold components
  split
  · rename_i h
    rw [h]
    rfl
  · exact join_split '/' s

theorem importList_of_not_startswith (hP : ∀ c ∈ P, IsComponent c)
    (h : R = [] ∨ ¬ startswith (pathOf P) (pathOf R)) : importList (pathOf R) (pathOf P) = P := by
  have hskip : ¬ (pathOf R ≠ ['/', '/'] ∧ startswith (pathOf P) (pathOf R)) := by
    rintro ⟨hne, hstart⟩
    rcases h with rfl | h
    · exact hne rfl
    · exact h hstart
  simp only [importList, if_neg hskip]
  exact components_join hP

theorem importList_append {S : List Str} (hS : ∀ c ∈ S, IsComponent c) (hRe : R ≠ [])
    (hR : ∀ c ∈ R, IsComponent c) : importList (pathOf R) (pathOf (R ++ S)) = S := by
  have hpath : pathOf (R ++ S) = pathOf R ++ if S = [] then [] else '/' :: join '/' S := by
    split
    · rename_i h
      simp [h]
    · rename_i h
      exact pathOf_append hRe h
  have hne : pathOf R ≠ ['/', '/'] := fun h => hRe (pathOf_injective hR (by simp) h)
  have hdrop : (pathOf (R ++ S)).drop ((pathOf R).length + 1) = join '/' S := by
    rw [hpath, ← List.drop_drop, List.drop_left' rfl]
    split
    · rename_i h
      simp [h, join]
    · rfl
  have hstart : startswith (pathOf (R ++ S)) (pathOf R) = true := by
    rw [hpath]
    exact startswith_append _ _
  simp only [importList, ne_eq, hne, not_false_eq_true, hstart, and_self, if_true, hdrop]
  exact components_join hS

/-- What is cut off a path that goes on after the name of the root is too much for it. -/
theorem importList_ne (hR : ∀ c ∈ R, IsComponent c) (hRe : R ≠ [])
    (h : startswith (pathOf P) (pathOf R)) : importList (pathOf R) (pathOf P) ≠ P := by
  intro heq
  have hne : pathOf R ≠ ['/', '/'] := fun h => hRe (pathOf_injective hR (by simp) h)
  have hjoin := join_components ((pathOf P).drop ((pathOf R).length + 1))
  simp only [importList, if_pos (And.intro hne h)] at heq
  rw [heq] at hjoin
  have hlen := congrArg List.length hjoin
  have hle := (startswith_iff.1 h).length_le
  have hR2 : (pathOf R).length = (join '/' R).length + 2 := rfl
  have hP2 : (pathOf P).length = (join '/' P).length + 2 := rfl
  have hpos : 0 < (join '/' R).length := by
    rw [List.length_pos_iff]
    exact fun h => hRe (join_eq_nil (fun c hc => (hR c hc).1) h)
  rw [List.length_drop] at hlen
  omega

/-- The components that a path is cut into are those below the root, unless the name of the root
ends in the middle of one of them. -/
theorem importList_eq_iff (hR : ∀ c ∈ R, IsComponent c) (hP : ∀ c ∈ P, IsComponent c) :
    importList (pathOf R) (pathOf P) = below R P ↔
      R = [] ∨ R <+: P ∨ ¬ startswith (pathOf P) (pathOf R) := by
  unfold below
  by_cases hpre : R <+: P
  · obtain ⟨S, rfl⟩ := hpre
    have hS : ∀ c ∈ S, IsComponent c := fun c hc => hP c (List.mem_append_right _ hc)
    have himport : importList (pathOf R) (pathOf (R ++ S)) = S := by
      by_cases hRe : R = []
      · subst hRe
        exact importList_of_not_startswith hS (Or.inl rfl)
      · exact importList_append hS hRe hR
    simp [himport]
  · have hRe : R ≠ [] := by
      rintro rfl
      exact hpre List.nil_prefix
    rw [if_neg fun h => hpre (List.isPrefixOf_iff_prefix.1 h)]
    constructor
    · intro h
      exact Or.inr (Or.inr fun hstart => importList_ne hR hRe hstart h)
    · rintro (h | h | h)
      · exact absurd h hRe
      · exact absurd h hpre
      · exact importList_of_not_startswith hP (Or.inr h)

end

/-! ## Descending -/

section

variable {σ π : Type} (E : Loader σ π)

/-- `getProject` gets to descending from the root package `R` on its way to `P`. -/
def Starts (R P : List Str) (s : σ) : Prop :=
  (getBuiltinProject E (pathOf P) s).1 = none ∧
    ∃ q, E.projects (getBuiltinProject E (pathOf P) s).2 (pathOf R) = some q

/-- Every descent on the way to `P` goes from the root package through the components below it. -/
def Descends (R P : List Str) (current : Str) (s : σ) : Prop :=
  ∀ q l s', route E ⟨pathOf R, current⟩ (pathOf P) s = (.descend q l, s') →
    E.projects s' (pathOf R) = some q ∧ l = below R P

theorem getProjectAbsPath_pathOf (c : Context) (P : List Str) :
    getProjectAbsPath c (pathOf P) = pathOf P := by
  have hstart : startswith (pathOf P) ['/', '/'] = true := startswith_append ['/', '/'] _
  rw [getProjectAbsPath, if_pos hstart]

/-- **The descents to `P` go through the components below the root package `R`**, unless its name
ends in the middle of a component of `P`. -/
theorem descends_iff {R P : List Str} (hR : ∀ c ∈ R, IsComponent c) (hP : ∀ c ∈ P, IsComponent c)
    (current : Str) (s : σ) :
    Descends E R P current s ↔
      ¬ Starts E R P s ∨ R = [] ∨ R <+: P ∨ ¬ startswith (pathOf P) (pathOf R) := by
  rw [← importList_eq_iff hR hP]
  unfold Descends Starts route
  simp only [getProjectAbsPath_pathOf]
  rcases getBuiltinProject E (pathOf P) s with ⟨_ | b, s'⟩
  · dsimp only
    rcases hq : E.projects s' (pathOf R) with _ | q
    · simp
    · simp only [Prod.mk.injEq, Route.descend.injEq, true_and, Option.some.injEq,
        exists_eq', not_true_eq_false, false_or]
      constructor
      · intro h
        exact (h q _ s' ⟨⟨rfl, rfl⟩, rfl⟩).2
      · rintro h q' l s'' ⟨⟨rfl, rfl⟩, rfl⟩
        exact ⟨hq, h⟩
  · simp

end

/-- A loader with a package loaded under every path. -/
def allLoaded : Loader Unit Str where
  name := id
  skipped _ := false
  subfolders _ := []
  hasConfig _ _ := false
  dependencies _ := []
  projects _ path := some path
  importProject _ path _ s := (some path, s)
  builtinRoot := []

/-- From the root package `//foo` to `//foo/bar`. -/
theorem descends_foo_bar :
    Descends allLoaded ["foo".toList] ["foo".toList, "bar".toList] "//foo".toList () :=
  (descends_iff allLoaded (by decide) (by decide) "//foo".toList ()).2
    (Or.inr (Or.inr (Or.inl ⟨["bar".toList], rfl⟩)))

/-- From the root package `//foo` the package `//foobar/x` is looked up as `ar/x`. -/
theorem descends_foobar :
    ¬ ∀ R P : List Str, (∀ c ∈ R, IsComponent c) → (∀ c ∈ P, IsComponent c) →
      Descends allLoaded R P (pathOf R) () := by
  intro h
  have h := h ["foo".toList] ["foobar".toList, ['x']] (by decide) (by decide)
    "//foo".toList ["ar".toList, ['x']] () rfl
  exact absurd h.2 (by decide)

end PartCAD.Package
