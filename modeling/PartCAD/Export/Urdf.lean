import Mathlib.Data.List.Forall2
import PartCAD.Lib.Dict
import PartCAD.Lib.RootedTree
import PartCAD.Lib.Text

/-!
# The links and joints of a URDF file

An assembly is a tree of nodes with placements.  Each node becomes a link, and each child a joint with
the placement of the child as its origin.  Shapes named under their assembly become visuals of the one
link.  How placements are read and written is left open here.

* `process` : what the file holds;
* `take_fresh` : a name that is taken was free.
-/

namespace PartCAD.Urdf

open PartCAD.Lib PartCAD.Lib.Text

/-! ## Names -/

/-- What stands in a link name as it is. -/
def isSafe (c : Char) : Bool :=
  c.isAlphanum || c == '_' || c == '.' || c == '-'

/-- `_UNSAFE_NAME.sub("_", s)`; the flag says that the last character was unsafe. -/
def subUnsafe : Bool → Str → Str
  | _, [] => []
  | unsafeRun, c :: s =>
    if isSafe c then c :: subUnsafe false s
    else if unsafeRun then subUnsafe true s
    else '_' :: subUnsafe true s

/-- `sanitize_name` -/
def sanitizeName (name : Option Str) (fallback : Str) : Str :=
  let name := stripChar '_' (subUnsafe false (name.getD []))
  if name = [] then fallback else name

/-- `NameAllocator`, with the names in the order in which they were taken. -/
structure NameAllocator where
  used : List Str

/-- `"%s_%d" % (base, suffix)` -/
def numbered (base : Str) (suffix : ℕ) : Str := base ++ '_' :: Nat.toDigits 10 suffix

/-- The loop of `take`.  The first number bounds it. -/
def firstFree (used : List Str) (base : Str) : ℕ → ℕ → Str → Str
  | 0, _, candidate => candidate
  | n + 1, suffix, candidate =>
    if candidate ∈ used then firstFree used base n (suffix + 1) (numbered base suffix) else candidate

/-- `take` -/
def NameAllocator.take (a : NameAllocator) (name : Option Str) (fallback : Str) :
    Str × NameAllocator :=
  let base := sanitizeName name fallback
  let candidate := firstFree a.used base a.used.length 1 base
  (candidate, ⟨a.used ++ [candidate]⟩)

/-! ### Free names -/

/-- The names that are tried one after the other. -/
def nameAt (base : Str) : ℕ → Str
  | 0 => base
  | n + 1 => numbered base (n + 1)

theorem nameAt_injective (base : Str) : Function.Injective (nameAt base) := by
  have hne : ∀ n, base ≠ numbered base n := by
    intro n h
    have hlength := congrArg List.length h
    rw [numbered, List.length_append, List.length_cons] at hlength
    omega
  intro m n h
  match m, n with
  | 0, 0 => rfl
  | 0, n + 1 => exact absurd h (hne (n + 1))
  | m + 1, 0 => exact absurd h.symm (hne (m + 1))
  | m + 1, n + 1 =>
    have hdigits := List.append_cancel_left h
    exact toDigits_injective (List.cons.inj hdigits).2

/-- When the loop ends with a name that is taken, so are all that it tried. -/
theorem mem_of_firstFree {used : List Str} {base : Str} {n k : ℕ}
    (h : firstFree used base n (k + 1) (nameAt base k) ∈ used) : ∀ i ≤ n, nameAt base (k + i) ∈ used := by
  induction n generalizing k with
  | zero =>
    intro i hi
    obtain rfl : i = 0 := by omega
    exact h
  | succ n ih =>
    intro i hi
    by_cases hk : nameAt base k ∈ used
    · rw [firstFree, if_pos hk] at h
      cases i with
      | zero => exact hk
      | succ i =>
        have hnext := ih (k := k + 1) h i (by omega)
        rwa [show k + (i + 1) = k + 1 + i by omega]
    · rw [firstFree, if_neg hk] at h
      exact absurd h hk

/-- **A name that is taken was free**: more names are tried than are in use. -/
theorem take_fresh (a : NameAllocator) (name : Option Str) (fallback : Str) :
    (a.take name fallback).1 ∉ a.used := by
  intro hmem
  set base := sanitizeName name fallback
  have hall : ∀ i ≤ a.used.length, nameAt base (0 + i) ∈ a.used := mem_of_firstFree (k := 0) hmem
  have hnodup : ((List.range (a.used.length + 1)).map (nameAt base)).Nodup :=
    List.nodup_range.map (nameAt_injective base)
  have hsub : (List.range (a.used.length + 1)).map (nameAt base) ⊆ a.used := by
    intro s hs
    obtain ⟨i, hi, rfl⟩ := List.mem_map.1 hs
    have h := hall i (by have := List.mem_range.1 hi; omega)
    rwa [Nat.zero_add] at h
  have hlength := (List.subperm_of_subset hnodup hsub).length_le
  rw [List.length_map, List.length_range] at hlength
  omega

@[simp]
theorem take_used (a : NameAllocator) (name : Option Str) (fallback : Str) :
    (a.take name fallback).2.used = a.used ++ [(a.take name fallback).1] := rfl

theorem nodup_take {a : NameAllocator} (h : a.used.Nodup) (name : Option Str) (fallback : Str) :
    (a.take name fallback).2.used.Nodup := by
  refine h.append (List.nodup_singleton _) ?_
  rw [List.disjoint_singleton]
  exact take_fresh a name fallback

/-! ## The tree of nodes -/

/-- A shape object: its `brep`, and what the node carries. -/
structure Shape (G P : Type) where
  label : Option Str
  name : Option Str
  location : Option P
  brep : G

/-- A node of the assembly tree. -/
inductive Node (G P : Type) where
  | shape (shape : Shape G P)
  | assembly (label name : Option Str) (location : Option P) (children : List (Node G P))

namespace Node

variable {G P : Type}

def label : Node G P → Option Str
  | .shape s => s.label
  | .assembly label _ _ _ => label

def name : Node G P → Option Str
  | .shape s => s.name
  | .assembly _ name _ _ => name

def location : Node G P → Option P
  | .shape s => s.location
  | .assembly _ _ location _ => location

def children : Node G P → List (Node G P)
  | .shape _ => []
  | .assembly _ _ _ children => children

/-- `node.get("label") or node.get("name")` -/
def title (node : Node G P) : Option Str :=
  if node.label.getD [] = [] then node.name else node.label

/-- `(node.get("label") or "") + "/"` -/
def memberPrefix (node : Node G P) : Str := node.label.getD [] ++ ['/']

/-- `belongs`: the child is a shape that is named under the node. -/
def belongs (node child : Node G P) : Option (Shape G P) :=
  match child with
  | .shape s =>
    if stripChar '/' node.memberPrefix ≠ [] ∧ startswith (s.label.getD []) node.memberPrefix then some s
    else none
  | .assembly .. => none

/-- `shape_elements` -/
def shapeElements (node : Node G P) : List (Shape G P × Option P) × List (Node G P) :=
  match node with
  | .shape s => ([(s, none)], [])
  | .assembly _ _ _ children =>
    ((children.filterMap node.belongs).map fun s => (s, s.location),
      children.filter fun child => (node.belongs child).isNone)

end Node

/-! ## The file -/

/-- How placements are read from nodes and written as origins. -/
structure Convention (P Pose Origin : Type) where
  fromPacked : Option P → Pose
  toUrdfOrigin : Pose → Origin
  isIdentity : Pose → Bool

/-- `<visual>`, the mesh it shows and where, and what it was made from. -/
structure Visual (G P Origin : Type) where
  shape : Shape G P
  placement : Option P
  filename : Str
  origin : Option Origin

structure Link (G P Origin : Type) where
  name : Str
  visuals : List (Visual G P Origin)

structure Joint (Origin : Type) where
  name : Str
  parent : Str
  child : Str
  origin : Origin

/-- `mesh_dir_name` and `mesh_prefix` -/
structure Options where
  meshDirName : Str
  meshPrefix : Str

/-- `state` -/
structure State (G P Origin : Type) [DecidableEq G] where
  names : NameAllocator
  jointNames : NameAllocator
  meshNames : NameAllocator
  meshes : Dict G Str
  links : List (Link G P Origin)
  joints : List (Joint Origin)

section

variable {G P Pose Origin : Type} [DecidableEq G]

def State.empty : State G P Origin := ⟨⟨[]⟩, ⟨[]⟩, ⟨[]⟩, Dict.empty, [], []⟩

variable (c : Convention P Pose Origin) (options : Options)

/-- `mesh_reference`, without writing the mesh. -/
def meshReference (shape : Shape G P) (linkName : Str) (s : State G P Origin) : Str × State G P Origin :=
  match s.meshes.get? shape.brep with
  | some meshFile => (options.meshPrefix ++ meshFile, s)
  | none =>
    let (meshName, meshNames) :=
      s.meshNames.take (some (if shape.label.getD [] = [] then linkName else shape.label.getD []))
        "mesh".toList
    let meshFile := options.meshDirName ++ '/' :: meshName ++ ".stl".toList
    (options.meshPrefix ++ meshFile,
      { s with meshNames := meshNames, meshes := s.meshes.set shape.brep meshFile })

/-- The loop of `build_link` over the elements. -/
def buildVisuals (linkName : Str) :
    List (Shape G P × Option P) → State G P Origin → List (Visual G P Origin) × State G P Origin
  | [], s => ([], s)
  | (shape, placement) :: elements, s =>
    let (reference, s) := meshReference options shape linkName s
    let origin := placement.map fun p => c.toUrdfOrigin (c.fromPacked (some p))
    let (visuals, s) := buildVisuals linkName elements s
    (⟨shape, placement, reference, origin⟩ :: visuals, s)

/-- `build_link` and `add_link` -/
def addLink (linkName : Str) (elements : List (Shape G P × Option P)) (s : State G P Origin) :
    State G P Origin :=
  let (visuals, s) := buildVisuals c options linkName elements s
  { s with links := s.links ++ [⟨linkName, visuals⟩] }

/-- `add_joint` -/
def addJoint (parentLink linkName : Str) (pose : Pose) (s : State G P Origin) : State G P Origin :=
  let (name, jointNames) :=
    s.jointNames.take (some (parentLink ++ "_to_".toList ++ linkName)) "joint".toList
  { s with
    jointNames := jointNames
    joints := s.joints ++ [⟨name, parentLink, linkName, c.toUrdfOrigin pose⟩] }

/-- `emit` up to the loop over the children. -/
def emitLink (node : Node G P) (parentLink : Option Str) (pose : Pose) (s : State G P Origin) :
    Str × State G P Origin :=
  let (linkName, names) := s.names.take node.title "link".toList
  let s := addLink c options linkName node.shapeElements.1 { s with names := names }
  match parentLink with
  | none => (linkName, s)
  | some parentLink => (linkName, addJoint c parentLink linkName pose s)

mutual

/-- `emit` -/
def emit (node : Node G P) (parentLink : Option Str) (pose : Pose) (s : State G P Origin) :
    State G P Origin :=
  match node with
  | .shape shape => (emitLink c options (.shape shape) parentLink pose s).2
  | .assembly label name location children =>
    let (linkName, s) := emitLink c options (.assembly label name location children) parentLink pose s
    emitAll (.assembly label name location children) children linkName s

/-- The loop of `emit` over the children; those that belong to the node were dealt with. -/
def emitAll (node : Node G P) (children : List (Node G P)) (linkName : Str) (s : State G P Origin) :
    State G P Origin :=
  match children with
  | [] => s
  | child :: children =>
    emitAll node children linkName
      (if (node.belongs child).isNone then emit child (some linkName) (c.fromPacked child.location) s
      else s)

end

/-- `process`, up to the writing of the file. -/
def process (root : Node G P) : State G P Origin :=
  let state : State G P Origin := State.empty
  let rootPose := c.fromPacked root.location
  if c.isIdentity rootPose then emit c options root none rootPose state
  else
    let (world, names) := state.names.take (some "world".toList) "world".toList
    emit c options root (some world) rootPose { state with names := names, links := [⟨world, []⟩] }

end

end PartCAD.Urdf
