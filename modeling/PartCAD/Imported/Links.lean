import PartCAD.Lib.Dict
import PartCAD.Lib.Text

/-!
# What a link is built from

A link of a URDF file has elements to look at and elements to touch.  One kind is chosen, and each
element of it that can be read becomes a node; each of the other kind becomes a part that nothing
places.

* `chooseGeometry` : which kind;
* `linkGeometry` : the nodes, with where they are in the frame of the link.
-/

namespace PartCAD.Imported

open PartCAD.Lib

/-- What `geometry_node` reads of an element: a file of some type, a scale, and how it looks. -/
structure Shape (R : Type) where
  partFile : Str
  partType : Str
  scale : R
  material : Option Str
  color : Option Str
  deriving DecidableEq

/-- A `<visual>` or a `<collision>`, with where its shape is in the frame of the link and what the shape
is.  One that cannot be read has none. -/
structure Element (P R : Type) where
  name : Option Str
  geometry : Option (P × Shape R)

structure Link (P R V : Type) where
  name : Str
  visuals : List (Element P R)
  collisions : List (Element P R)
  physics : Dict Str V

/-- The node of a part, without its place.  `physics` is empty where it says nothing. -/
structure PartNode (R V : Type) where
  name : Str
  link : Str
  shape : Shape R
  physics : Dict Str V

inductive Kind where
  | visual | collision
  deriving DecidableEq

def Kind.text : Kind → Str
  | visual => "visual".toList
  | collision => "collision".toList

def Kind.other : Kind → Kind
  | visual => collision
  | collision => visual

/-- `ignoreCollision`: for every link, or for the named ones. -/
inductive IgnoreCollision where
  | everywhere
  | links (names : List Str)

/-- `prefer_visual` -/
def IgnoreCollision.prefersVisual (linkName : Str) : IgnoreCollision → Bool
  | everywhere => true
  | links names => linkName ∈ names

section

variable {P R V : Type}

/-- `choose_geometry`: the elements that the shapes are built from, and the others. -/
def chooseGeometry (ignore : IgnoreCollision) (link : Link P R V) :
    List (Element P R) × List (Element P R) × Kind :=
  let (chosen, other, kind) :=
    if ignore.prefersVisual link.name then (link.visuals, link.collisions, Kind.visual)
    else (link.collisions, link.visuals, Kind.collision)
  -- A link that has the other kind only is built from it.
  if chosen.isEmpty ∧ ¬ other.isEmpty then (other, [], kind.other) else (chosen, other, kind)

/-- `getattr(element, "name", None) or (index + 1)` -/
def Element.label (element : Element P R) (index : ℕ) : Str :=
  match element.name with
  | some (c :: name) => c :: name
  | _ => Nat.toDigits 10 (index + 1)

/-- `element_node_name` -/
def elementNodeName (element : Element P R) (index count : ℕ) (linkName : Str) : Str :=
  if count = 1 then linkName else linkName ++ '/' :: element.label index

/-- What the part of an element of the other kind is called. -/
def otherNodeName (element : Element P R) (index count : ℕ) (linkName : Str) (kind : Kind) : Str :=
  let name := linkName ++ '/' :: kind.text
  if count > 1 then name ++ '/' :: element.label index else name

/-- `geometry_node` -/
def geometryNode (element : Element P R) (name linkName : Str) : Option (P × PartNode R V) :=
  element.geometry.map fun (location, shape) => (location, ⟨name, linkName, shape, Dict.empty⟩)

/-- `link_geometry`: the nodes of the chosen elements with their places, and those of the others. -/
def linkGeometry (ignore : IgnoreCollision) (link : Link P R V) :
    List (P × PartNode R V) × List (PartNode R V) :=
  let (chosen, other, kind) := chooseGeometry ignore link
  (chosen.zipIdx.filterMap fun (element, index) =>
      geometryNode element (elementNodeName element index chosen.length link.name) link.name,
    other.zipIdx.filterMap fun (element, index) =>
      (geometryNode element (otherNodeName element index other.length link.name kind.other)
        link.name).map Prod.snd)

theorem mem_linkGeometry {ignore : IgnoreCollision} {link : Link P R V} {p : P × PartNode R V} :
    p ∈ (linkGeometry ignore link).1 ↔ ∃ element index,
      (chooseGeometry ignore link).1[index]? = some element ∧
        geometryNode element
          (elementNodeName element index (chooseGeometry ignore link).1.length link.name)
          link.name = some p := by
  simp only [linkGeometry, List.mem_filterMap, Prod.exists, List.mem_zipIdx_iff_getElem?]

/-- Every node says which link it is of. -/
theorem link_of_mem {ignore : IgnoreCollision} {link : Link P R V} {p : P × PartNode R V}
    (h : p ∈ (linkGeometry ignore link).1) : p.2.link = link.name := by
  obtain ⟨element, index, -, hnode⟩ := mem_linkGeometry.1 h
  obtain ⟨q, -, rfl⟩ := Option.map_eq_some_iff.1 hnode
  rfl

end

end PartCAD.Imported
