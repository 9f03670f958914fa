import PartCAD.Lib.Dict
import PartCAD.Lib.Repr

/-!
# Requirements of a sandbox

What a package asks of its Python sandbox is text, and one version of the CAD stack is pinned.

* `reconcileRequirement` : the requirement that is installed for one that is asked for;
* `invalidates` : the requirements whose files an installed one overwrites, by their spelling;
* `Spelled`, `mem_invalidates` : where the spelling says what is overwritten.
-/

namespace PartCAD.Sandbox

open PartCAD.Lib PartCAD.Lib.Text

def cadqueryOcp : Str := "cadquery-ocp==7.9.3.1.1".toList
def ocpsvg : Str := "ocpsvg==0.6.0".toList
def build123d : Str := "build123d==0.11.1".toList
def cadquery : Str := "cadquery==2.8.0".toList
def ocpTessellate : Str := "ocp-tessellate==3.4.1".toList
def nlopt : Str := "nlopt>=2.9.1,<=2.11.0".toList

def pinnedRequirements : List Str := [cadqueryOcp, ocpsvg, build123d, cadquery, ocpTessellate, nlopt]

/-- `GUARD_INVALIDATED_BY` -/
def guardInvalidatedBy : List (Str × List Str) := [(build123d, [cadqueryOcp])]

/-! ## Distributions -/

/-- `re.sub(r"[-_.]+", "-", s)`; the flag says that the character before was one of them. -/
def collapse : Bool → Str → Str
  | _, [] => []
  | within, c :: s =>
    if c = '-' ∨ c = '_' ∨ c = '.' then
      if within then collapse true s else '-' :: collapse true s
    else c :: collapse false s

section

-- `str.lower`
variable (lower : Str → Str)

/-- `distribution_name` -/
def distributionName (requirement : Str) : Str :=
  let name := ['[', '=', '<', '>', '!', '~', ';', ' ', '@'].foldl
    (fun name separator => (partition separator name).1) (strip requirement)
  lower (collapse false (strip name))

/-- `_split_marker` -/
def splitMarker (requirement : Str) : Str × Option Str :=
  let (body, marker) := partition ';' requirement
  (strip body, if ';' ∈ requirement then some (strip marker) else none)

/-- `_PINNED_BY_DISTRIBUTION` -/
def pinnedByDistribution : Dict Str Str :=
  Dict.ofPairs
    (pinnedRequirements.map fun requirement => (distributionName lower requirement, requirement))

/-- `reconcile_requirement`: what to install, and what it replaces. -/
def reconcileRequirement (requirement : Str) : Str × Option Str :=
  let (body, marker) := splitMarker requirement
  match (pinnedByDistribution lower).get? (distributionName lower body) with
  | none => (requirement, none)
  | some pinned =>
    let reconciled :=
      match marker with
      | none => pinned
      | some marker => pinned ++ "; ".toList ++ marker
    if reconciled = strip requirement then (requirement, none) else (reconciled, some requirement)

/-- The package that a requirement is for. -/
def package (requirement : Str) : Str := distributionName lower (splitMarker requirement).1

/-! ## What an install overwrites -/

/-- `GUARD_INVALIDATED_BY.get(requirement, ())` -/
def invalidates (requirement : Str) : List Str :=
  (lookupItem requirement guardInvalidatedBy).getD []

/-- Installing the one package overwrites files of the other. -/
def overwrites (requirement other : Str) : Bool :=
  guardInvalidatedBy.any fun entry =>
    package lower entry.1 = package lower requirement &&
      entry.2.any fun clobbered => package lower clobbered = package lower other

/-- A requirement for one of the packages that overwrite files, or whose files are overwritten, has
the spelling under which these are known. -/
def Spelled (requirement : Str) : Prop :=
  ∀ entry ∈ guardInvalidatedBy,
    (package lower entry.1 = package lower requirement → requirement = entry.1) ∧
      ∀ clobbered ∈ entry.2,
        package lower clobbered = package lower requirement → requirement = clobbered

end

theorem nodup_guardInvalidatedBy : (guardInvalidatedBy.map Prod.fst).Nodup := by decide

/-- What is overwritten is known by its spelling. -/
theorem mem_invalidates {lower : Str → Str} {requirement other : Str}
    (h : Spelled lower requirement) (h' : Spelled lower other)
    (hover : overwrites lower requirement other = true) : other ∈ invalidates requirement := by
  obtain ⟨entry, hentry, hover⟩ := List.any_eq_true.1 hover
  rw [Bool.and_eq_true] at hover
  obtain ⟨hpackage, hover⟩ := hover
  obtain ⟨clobbered, hclobbered, hother⟩ := List.any_eq_true.1 hover
  have hrequirement := (h entry hentry).1 (of_decide_eq_true hpackage)
  have hspelled := (h' entry hentry).2 clobbered hclobbered (of_decide_eq_true hother)
  rw [invalidates, hrequirement, lookupItem_of_mem nodup_guardInvalidatedBy hentry, hspelled]
  exact hclobbered

end PartCAD.Sandbox
