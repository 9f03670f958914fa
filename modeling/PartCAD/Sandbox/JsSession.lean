import PartCAD.Lib.Repr

/-!
# What a JavaScript session depends on

Requirements are declared one after the other, by PartCAD itself (those are defaults) and by packages and
parts.  There is one for each package of npm, and a default yields to what anybody named.

* `jsPackageName` : the package that a requirement names;
* `declareDependency` : one declaration;
* `asked_declare` : **what one declaration does to the requirement of a package**;
* `session_settled` : **what a session ends with, wherever its defaults are declared**.
-/

namespace PartCAD.Sandbox.Js

open PartCAD.Lib PartCAD.Lib.Text

/-! ## Names -/

/-- `_NON_REGISTRY_JS_PREFIXES` -/
def nonRegistryFronts : List Str :=
  ["git+".toList, "git:".toList, "http:".toList, "https:".toList, "file:".toList, "./".toList, "../".toList,
    "/".toList, "~/".toList]

/-- `_NON_REGISTRY_JS_SUFFIXES` -/
def nonRegistrySuffixes : List Str := [".tgz".toList, ".tar.gz".toList, ".git".toList]

/-- `is_registry_js_requirement` -/
def isRegistryJsRequirement (requirement : Str) : Bool :=
  let requirement := strip requirement
  if requirement.tails.any (startswith · "://".toList) then false
  else if nonRegistryFronts.any fun front => startswith requirement front then false
  else ! nonRegistrySuffixes.any fun suffix => suffix.isSuffixOf requirement

/-- `js_package_name` -/
def jsPackageName (requirement : Str) : Str :=
  let requirement := strip requirement
  if ! isRegistryJsRequirement requirement then requirement
  else
    match requirement with
    | '@' :: rest => if '@' ∈ rest then '@' :: (partition '@' rest).1 else requirement
    | _ => if (partition '@' requirement).1 = [] then requirement else (partition '@' requirement).1

example : jsPackageName " @scope/pkg@^1.2 ".toList = "@scope/pkg".toList := by decide

/-! ## Sessions -/

/-- `CHILI3D` -/
def chili3d : Str := "chili3d@1.1.2".toList

/-- `HAPPY_DOM` -/
def happyDom : Str := "happy-dom@^20.11.2".toList

/-- `DEFAULT_JS_REQUIREMENTS` -/
def defaultJsRequirements : List Str := [chili3d, happyDom]

/-- What a session holds about its dependencies. -/
structure Session where
  dirty : Bool
  deps : List Str

/-- `get_session` -/
def getSession : Session := ⟨false, defaultJsRequirements⟩

/-- A requirement that is declared, as a default or not. -/
structure Ask where
  package : Str
  default : Bool

/-- The loop over the requirements that are there; `none` where it returns. -/
def settle (ask : Ask) : List Str → Option (List Str)
  | [] => some [ask.package]
  | declared :: deps =>
    if jsPackageName declared ≠ jsPackageName ask.package then (settle ask deps).map (declared :: ·)
    else if ask.default ∨ declared = ask.package then none
    else some (ask.package :: deps)

/-- `set(deps) != set(requirements)` -/
def setDiffers (deps requirements : List Str) : Bool :=
  ! (deps.all (· ∈ requirements) && requirements.all (· ∈ deps))

/-- `declare_dependency` -/
def declareDependency (session : Session) (ask : Ask) : Session :=
  match settle ask session.deps with
  | none => session
  | some deps => ⟨setDiffers deps defaultJsRequirements, deps⟩

/-- A session after a sequence of declarations. -/
def declared (asks : List Ask) : Session := asks.foldl declareDependency getSession

/-! ## One declaration -/

/-- The requirement of a package. -/
def asked (deps : List Str) (name : Str) : Option Str := deps.find? fun dep => jsPackageName dep = name

/-- What is left after one declaration. -/
def afterAsk (ask : Ask) (deps : List Str) : List Str := (settle ask deps).getD deps

theorem afterAsk_cons (ask : Ask) (dep : Str) (deps : List Str) :
    afterAsk ask (dep :: deps) =
      if jsPackageName dep ≠ jsPackageName ask.package then dep :: afterAsk ask deps
      else if ask.default then dep :: deps
      else ask.package :: deps := by
  unfold afterAsk
  rw [settle]
  split
  · cases settle ask deps with
    | none => rfl
    | some deps' => rfl
  · by_cases hdefault : ask.default = true
    · rw [if_pos (.inl hdefault), if_pos hdefault]
      rfl
    · rw [if_neg hdefault]
      split
      · rename_i h
        rw [h.resolve_left hdefault]
        rfl
      · rfl

/-- **What one declaration does to the requirement of a package.** -/
theorem asked_afterAsk (ask : Ask) (deps : List Str) (name : Str) :
    asked (afterAsk ask deps) name =
      if jsPackageName ask.package = name then
        if ask.default then (asked deps name).or (some ask.package) else some ask.package
      else asked deps name := by
  induction deps with
  | nil =>
    by_cases hname : jsPackageName ask.package = name
    · simp [afterAsk, settle, asked, hname]
    · simp [afterAsk, settle, asked, hname]
  | cons dep deps ih =>
    rw [afterAsk_cons]
    split
    · rename_i hne
      unfold asked at ih ⊢
      rw [List.find?_cons, List.find?_cons]
      by_cases hdep : jsPackageName dep = name
      · have hother : jsPackageName ask.package ≠ name := fun h => hne (hdep.trans h.symm)
        simp [hdep, hother]
      · simp only [hdep, decide_false, ih]
    · rename_i heq
      have heq := not_not.1 heq
      unfold asked
      split
      · rename_i hdefault
        by_cases hname : jsPackageName ask.package = name
        · simp [hname, heq]
        · simp [hname, heq]
      · rename_i hdefault
        by_cases hname : jsPackageName ask.package = name
        · simp [hname]
        · simp [hname, heq]

/-- No package has two requirements. -/
theorem nodup_afterAsk (ask : Ask) {deps : List Str} (h : (deps.map jsPackageName).Nodup) :
    ((afterAsk ask deps).map jsPackageName).Nodup := by
  have hmem : ∀ {deps : List Str} {dep : Str}, dep ∈ afterAsk ask deps → dep ∈ deps ∨ dep = ask.package := by
    intro deps
    induction deps with
    | nil =>
      intro dep hdep
      exact .inr (List.mem_singleton.1 hdep)
    | cons d deps ih =>
      intro dep hdep
      rw [afterAsk_cons] at hdep
      split at hdep
      · rcases List.mem_cons.1 hdep with rfl | hdep
        · exact .inl List.mem_cons_self
        · exact (ih hdep).imp_left (List.mem_cons_of_mem d)
      · split at hdep
        · exact .inl hdep
        · rcases List.mem_cons.1 hdep with rfl | hdep
          · exact .inr rfl
          · exact .inl (List.mem_cons_of_mem d hdep)
  induction deps with
  | nil => exact List.nodup_singleton _
  | cons dep deps ih =>
    rw [List.map_cons, List.nodup_cons] at h
    rw [afterAsk_cons]
    split
    · rename_i hne
      rw [List.map_cons, List.nodup_cons]
      refine ⟨fun hdep => ?_, ih h.2⟩
      obtain ⟨d, hd, hname⟩ := List.mem_map.1 hdep
      rcases hmem hd with hd | rfl
      · exact h.1 (List.mem_map.2 ⟨d, hd, hname⟩)
      · exact hne hname.symm
    · rename_i heq
      split
      · exact List.nodup_cons.2 h
      · rw [List.map_cons, ← not_not.1 heq]
        exact List.nodup_cons.2 h

theorem asked_eq_some_iff {deps : List Str} (h : (deps.map jsPackageName).Nodup) {name requirement : Str} :
    asked deps name = some requirement ↔ requirement ∈ deps ∧ jsPackageName requirement = name := by
  have hfound : ∀ {r}, asked deps name = some r → r ∈ deps ∧ jsPackageName r = name := by
    intro r hasked
    have hname := List.find?_some hasked
    exact ⟨List.mem_of_find?_eq_some hasked, of_decide_eq_true hname⟩
  constructor
  · exact hfound
  · rintro ⟨hmem, hname⟩
    have hsome : (asked deps name).isSome := List.find?_isSome.2 ⟨requirement, hmem, decide_eq_true hname⟩
    obtain ⟨found, hasked⟩ := Option.isSome_iff_exists.1 hsome
    obtain ⟨hfoundMem, hfoundName⟩ := hfound hasked
    rw [hasked, List.inj_on_of_nodup_map h hfoundMem hmem (hfoundName.trans hname.symm)]

/-! ## A sequence of declarations -/

/-- The last one that was not a default. -/
def lastExplicit (asks : List Ask) (name : Str) : Option Str :=
  ((asks.filter fun ask => ! ask.default).map Ask.package).reverse.find? fun r => jsPackageName r = name

/-- The first default: a session starts with some. -/
def firstDefault (asks : List Ask) (name : Str) : Option Str :=
  (defaultJsRequirements ++ (asks.filter Ask.default).map Ask.package).find? fun r => jsPackageName r = name

theorem declared_append (asks : List Ask) (ask : Ask) :
    declared (asks ++ [ask]) = declareDependency (declared asks) ask :=
  List.foldl_append

theorem deps_declareDependency (session : Session) (ask : Ask) :
    (declareDependency session ask).deps = afterAsk ask session.deps := by
  unfold declareDependency afterAsk
  cases settle ask session.deps with
  | none => rfl
  | some deps => rfl

theorem nodup_declared (asks : List Ask) : ((declared asks).deps.map jsPackageName).Nodup := by
  induction asks using List.reverseRecOn with
  | nil => decide
  | append_singleton asks ask ih =>
    rw [declared_append, deps_declareDependency]
    exact nodup_afterAsk ask ih

/-- The requirement of each package. -/
theorem asked_declared (asks : List Ask) (name : Str) :
    asked (declared asks).deps name = (lastExplicit asks name).or (firstDefault asks name) := by
  induction asks using List.reverseRecOn with
  | nil => rfl
  | append_singleton asks ask ih =>
    rw [declared_append, deps_declareDependency, asked_afterAsk, ih]
    by_cases hdefault : ask.default = true
    · have hlast : lastExplicit (asks ++ [ask]) name = lastExplicit asks name := by
        simp [lastExplicit, hdefault]
      have hfirst : firstDefault (asks ++ [ask]) name =
          (firstDefault asks name).or (if jsPackageName ask.package = name then some ask.package else none) := by
        unfold firstDefault
        rw [List.filter_append, List.map_append, ← List.append_assoc, List.find?_append]
        by_cases hname : jsPackageName ask.package = name
        · simp [hdefault, hname]
        · simp [hdefault, hname]
      rw [hlast, hfirst, if_pos hdefault, ← Option.or_assoc]
      split
      · rfl
      · rw [Option.or_none]
    · have hlast : lastExplicit (asks ++ [ask]) name =
          (if jsPackageName ask.package = name then some ask.package else none).or (lastExplicit asks name) := by
        unfold lastExplicit
        rw [List.filter_append, List.map_append, List.reverse_append, List.find?_append]
        by_cases hname : jsPackageName ask.package = name
        · simp [hdefault, hname]
        · simp [hdefault, hname]
      have hfirst : firstDefault (asks ++ [ask]) name = firstDefault asks name := by
        simp [firstDefault, hdefault]
      rw [hlast, hfirst, if_neg hdefault]
      split
      · rfl
      · rw [Option.none_or]

/-- The flag is derived from the requirements. -/
theorem dirty_declared (asks : List Ask) :
    (declared asks).dirty = setDiffers (declared asks).deps defaultJsRequirements := by
  induction asks using List.reverseRecOn with
  | nil => decide
  | append_singleton asks ask ih =>
    rw [declared_append]
    unfold declareDependency
    split
    · exact ih
    · rfl

theorem setDiffers_eq_true {deps requirements : List Str} :
    setDiffers deps requirements = true ↔ ¬ ∀ r, r ∈ deps ↔ r ∈ requirements := by
  rw [setDiffers, Bool.not_eq_true', ← Bool.not_eq_true, Bool.and_eq_true, List.all_eq_true, List.all_eq_true]
  simp only [decide_eq_true_eq]
  refine not_congr ⟨fun h r => ⟨h.1 r, h.2 r⟩, fun h => ⟨fun r => (h r).1, fun r => (h r).2⟩⟩

/-- What a session ends with. -/
structure Settled (asks : List Ask) (session : Session) : Prop where
  /-- No package has two requirements. -/
  one : (session.deps.map jsPackageName).Nodup
  /-- It has the last one that somebody named, and else the first default. -/
  requirement : ∀ name r, r ∈ session.deps ∧ jsPackageName r = name ↔
    (lastExplicit asks name).or (firstDefault asks name) = some r
  /-- A session is dirty when its requirements are not the default ones. -/
  dirty : session.dirty = true ↔ ¬ ∀ r, r ∈ session.deps ↔ r ∈ defaultJsRequirements
  /-- It makes no difference where the defaults are among the others. -/
  anywhere : ∀ asks', asks'.filter Ask.default = asks.filter Ask.default →
    (asks'.filter fun ask => ! ask.default) = (asks.filter fun ask => ! ask.default) →
    (∀ r, r ∈ (declared asks').deps ↔ r ∈ session.deps) ∧ (declared asks').dirty = session.dirty

theorem mem_declared (asks : List Ask) (name r : Str) :
    r ∈ (declared asks).deps ∧ jsPackageName r = name ↔
      (lastExplicit asks name).or (firstDefault asks name) = some r := by
  rw [← asked_declared, asked_eq_some_iff (nodup_declared asks)]

/-- **What a session ends with, wherever its defaults are declared.** -/
theorem session_settled (asks : List Ask) : Settled asks (declared asks) where
  one := nodup_declared asks
  requirement _ _ := mem_declared asks _ _
  dirty := by rw [dirty_declared, setDiffers_eq_true]
  anywhere asks' hdefault hexplicit := by
    have hsame : ∀ r, r ∈ (declared asks').deps ↔ r ∈ (declared asks).deps := by
      intro r
      have h := mem_declared asks' (jsPackageName r) r
      rw [lastExplicit, firstDefault, hdefault, hexplicit] at h
      have h' := mem_declared asks (jsPackageName r) r
      simpa using h.trans h'.symm
    refine ⟨hsame, ?_⟩
    rw [Bool.eq_iff_iff, dirty_declared, dirty_declared, setDiffers_eq_true, setDiffers_eq_true]
    simp only [hsame]

end PartCAD.Sandbox.Js
