import PartCAD.Convert.JointTree
import PartCAD.Imported.Links

/-!
# The walk of a URDF file's links

`walk_link` makes the nodes of the links, and notes in a table how they hang from each other.  What it
hands on through the recursion stands in a context that all calls share, the chain of joints among it.

* `Urdf` : the file;
* `walk` : the walk from the root;
* `erase_walk` : the places and the table are those of the walk of a joint tree.
-/

namespace PartCAD.Imported

open PartCAD.Lib PartCAD.Geometry PartCAD.Convert

/-- A URDF file: its links, and its joints, which are a tree. -/
structure Urdf (L P R V : Type) where
  links : List (Link P R V)
  joints : List (Joint L R V)
  root : Str
  linkNames : (links.map Link.name).Nodup
  names : (joints.map Joint.name).Nodup
  one_parent : (joints.map Joint.child).Nodup
  root_free : root ∉ joints.map Joint.child

/-- A node below the root of the assembly: a part, or a group of parts. -/
inductive LinkNode (P R V : Type) where
  | part (location : P) (node : PartNode R V)
  | assembly (name link : Str) (location : P) (links : List (P × PartNode R V)) (physics : Dict Str V)

namespace LinkNode

variable {P R V : Type}

def link : LinkNode P R V → Str
  | part _ node => node.link
  | assembly _ link _ _ _ => link

def location : LinkNode P R V → P
  | part location _ => location
  | assembly _ _ location _ _ => location

end LinkNode

/-- An entry of the link table, with what is said about the link itself. -/
structure LinkEntry (P V : Type) extends LinkRecord P where
  physics : Dict Str V
  material : Option Str
  color : Option Str

/-- What the calls share. -/
structure WalkContext (P R V : Type) where
  nodes : List (LinkNode P R V)
  unplaced : List (PartNode R V)
  links : Dict Str (LinkEntry P V)
  reached : List Str
  jointChain : List Str

section

variable {L P R V : Type} [Group L] (packing : Packing L P)

/-- `robot.link_map.get` -/
def Urdf.linkMap (urdf : Urdf L P R V) (linkName : Str) : Option (Link P R V) :=
  urdf.links.find? fun link => link.name = linkName

/-- `robot.child_map.get` -/
def Urdf.childMap (urdf : Urdf L P R V) (linkName : Str) : List (Joint L R V) :=
  urdf.joints.filter fun joint => joint.parent = linkName

/-- The node of a link.  One shape takes the place of the link and keeps its own within it, and carries
what the link says about itself; several are grouped. -/
def addLinkNode (linkName : Str) (absolute : L) (geometry : List (P × PartNode R V))
    (physics : Dict Str V) (c : WalkContext P R V) : WalkContext P R V :=
  match geometry with
  | [] => c
  | [(shapeOrigin, node)] =>
    { c with
      nodes := c.nodes ++
        [.part (packing.asPacked (absolute * packing.unpack shapeOrigin))
          { node with physics := physics }] }
  | _ =>
    { c with
      nodes := c.nodes ++
        [.assembly linkName linkName (packing.asPacked absolute) geometry physics] }

/-- The `material` or the `color` of a link of one shape. -/
def appearance (key : Shape R → Option Str) : List (P × PartNode R V) → Option Str
  | [(_, node)] => key node.shape
  | _ => none

/-- `record_link`, with the chain of joints as it stands. -/
def recordLinkEntry (linkName : Str) (ancestor : Option Str) (relative : L)
    (geometry : List (P × PartNode R V)) (physics : Dict Str V) (c : WalkContext P R V) :
    WalkContext P R V :=
  if geometry.isEmpty then c
  else
    { c with
      links := c.links.set linkName
        { parent := ancestor
          origin := packing.asPacked relative
          shapeOrigin := shapeOrigin packing (geometry.map Prod.fst)
          joints := c.jointChain
          physics := physics
          material := appearance Shape.material geometry
          color := appearance Shape.color geometry } }

/-- A call with a chain of joints of its own; the chain that was there is put back. -/
def withJointChain (chain : List Str) (call : WalkContext P R V → Option (WalkContext P R V))
    (c : WalkContext P R V) : Option (WalkContext P R V) :=
  let saved := c.jointChain
  (call { c with jointChain := chain }).map fun c => { c with jointChain := saved }

variable (ignore : IgnoreCollision)

/-- What the walk adds for a link itself. -/
def noteLink (link : Link P R V) (linkName : Str) (relative absolute : L) (ancestor : Option Str)
    (c : WalkContext P R V) : WalkContext P R V :=
  let (geometry, unplaced) := linkGeometry ignore link
  let c := { c with reached := linkName :: c.reached, unplaced := c.unplaced ++ unplaced }
  let c := addLinkNode packing linkName absolute geometry link.physics c
  recordLinkEntry packing linkName ancestor relative geometry link.physics c

/-- `child_ancestor`, `child_relative`, `chain`: what is below a link with geometry is stated relative
to it. -/
def childStart (link : Link P R V) (linkName : Str) (relative : L) (ancestor : Option Str)
    (jointChain : List Str) : Option Str × L × List Str :=
  if (linkGeometry ignore link).1.isEmpty then (ancestor, relative, jointChain)
  else (some linkName, 1, [])

variable (urdf : Urdf L P R V)

/-- `walk_link`.  The number bounds the depth. -/
def walkUrdfLink : ℕ → Str → L → L → List Str → Option Str → WalkContext P R V →
    Option (WalkContext P R V)
  | 0, _, _, _, _, _, _ => none
  | n + 1, linkName, relative, absolute, visited, ancestor, c =>
    if linkName ∈ visited then some c
    else
      match urdf.linkMap linkName with
      | none => some c
      | some link =>
        let c := noteLink packing ignore link linkName relative absolute ancestor c
        let start := childStart ignore link linkName relative ancestor c.jointChain
        (urdf.childMap linkName).foldlM
          (fun c joint =>
            withJointChain (start.2.2 ++ [joint.name])
              (walkUrdfLink n joint.child (start.2.1 * joint.origin) (absolute * joint.origin)
                (linkName :: visited) start.1)
              c)
          c

/-- The walk from the root, as `process` starts it.  No way has more links than the file. -/
def walkUrdf : Option (WalkContext P R V) :=
  walkUrdfLink packing ignore urdf (urdf.links.length + 1) urdf.root 1 1 [] none
    ⟨[], [], Dict.empty, [], []⟩

/-! ## The joint tree of a file -/

/-- The places of the shapes of a link. -/
def shapePlaces (link : Link P R V) : List P := (linkGeometry ignore link).1.map Prod.fst

/-- The joint tree, with the places of the shapes of each link. -/
def Urdf.robot : Robot L P R V where
  links :=
    { items := urdf.links.map fun link => (link.name, shapePlaces ignore link)
      nodup := by
        rw [List.map_map]
        exact urdf.linkNames }
  joints := urdf.joints
  root := urdf.root
  names := urdf.names
  one_parent := urdf.one_parent
  root_free := urdf.root_free

omit [Group L] in
theorem get?_robot (linkName : Str) :
    (urdf.robot ignore).links.get? linkName =
      (urdf.linkMap linkName).map (shapePlaces ignore) := by
  show lookupItem linkName (urdf.links.map _) = (urdf.links.find? _).map _
  generalize urdf.links = links
  induction links with
  | nil => rfl
  | cons link links ih =>
    rw [List.map_cons, lookupItem, List.find?_cons, ih]
    by_cases h : link.name = linkName <;> simp [h]

/-- What is left of the context: the places of the nodes, and the table. -/
def WalkContext.erase (c : WalkContext P R V) : Context P where
  nodes := c.nodes.map fun node => (node.link, node.location)
  links := c.links.mapValues LinkEntry.toLinkRecord

theorem erase_addLinkNode (link : Link P R V) (absolute : L) (c : WalkContext P R V) :
    (addLinkNode packing link.name absolute (linkGeometry ignore link).1 link.physics c).erase =
      addNode packing link.name absolute (shapePlaces ignore link) c.erase := by
  have hlink : ∀ p ∈ (linkGeometry ignore link).1, p.2.link = link.name := fun p hp => link_of_mem hp
  rw [shapePlaces]
  generalize (linkGeometry ignore link).1 = geometry at hlink
  match geometry with
  | [] => rfl
  | [(shapeOrigin, node)] =>
    have hnode : node.link = link.name := hlink _ List.mem_cons_self
    simp [addLinkNode, addNode, WalkContext.erase, LinkNode.link, LinkNode.location, hnode]
  | _ :: _ :: _ => simp [addLinkNode, addNode, WalkContext.erase, LinkNode.link, LinkNode.location]

theorem jointChain_addLinkNode (linkName : Str) (absolute : L)
    (geometry : List (P × PartNode R V)) (physics : Dict Str V) (c : WalkContext P R V) :
    (addLinkNode packing linkName absolute geometry physics c).jointChain = c.jointChain := by
  unfold addLinkNode
  split <;> rfl

theorem jointChain_recordLinkEntry (linkName : Str) (ancestor : Option Str) (relative : L)
    (geometry : List (P × PartNode R V)) (physics : Dict Str V) (c : WalkContext P R V) :
    (recordLinkEntry packing linkName ancestor relative geometry physics c).jointChain =
      c.jointChain := by
  unfold recordLinkEntry
  split <;> rfl

theorem jointChain_noteLink (link : Link P R V) (linkName : Str) (relative absolute : L)
    (ancestor : Option Str) (c : WalkContext P R V) :
    (noteLink packing ignore link linkName relative absolute ancestor c).jointChain = c.jointChain :=
  (jointChain_recordLinkEntry packing ..).trans (jointChain_addLinkNode packing ..)

theorem erase_recordLinkEntry (linkName : Str) (place : Place L) (geometry : List (P × PartNode R V))
    (physics : Dict Str V) {c : WalkContext P R V} (hchain : c.jointChain = place.jointChain) :
    (recordLinkEntry packing linkName place.ancestor place.relative geometry physics c).erase =
      recordLink packing linkName place (geometry.map Prod.fst) c.erase := by
  cases geometry with
  | nil => rfl
  | cons p geometry =>
    simp [recordLinkEntry, recordLink, WalkContext.erase, Dict.mapValues_set, linkRecord, hchain]

theorem erase_noteLink (link : Link P R V) (place : Place L) {c : WalkContext P R V}
    (hchain : c.jointChain = place.jointChain) :
    (noteLink packing ignore link link.name place.relative place.absolute place.ancestor c).erase =
      recordLink packing link.name place (shapePlaces ignore link)
        (addNode packing link.name place.absolute (shapePlaces ignore link) c.erase) := by
  set found : WalkContext P R V :=
    { c with
      reached := link.name :: c.reached
      unplaced := c.unplaced ++ (linkGeometry ignore link).2 }
  have hadded : (addLinkNode packing link.name place.absolute (linkGeometry ignore link).1
      link.physics found).jointChain = place.jointChain :=
    (jointChain_addLinkNode packing ..).trans hchain
  have hrecord := erase_recordLinkEntry packing link.name place (linkGeometry ignore link).1
    link.physics hadded
  rw [erase_addLinkNode] at hrecord
  exact hrecord

/-- What a child starts from. -/
theorem childStart_eq (link : Link P R V) (place : Place L) (joint : Joint L R V) :
    let start := childStart ignore link link.name place.relative place.ancestor place.jointChain
    place.below link.name (shapePlaces ignore link) joint =
      ⟨start.2.1 * joint.origin, place.absolute * joint.origin, start.2.2 ++ [joint.name], start.1⟩ := by
  rw [childStart, Place.below, shapePlaces, List.isEmpty_map]

omit [Group L] in
variable {urdf} in
theorem name_of_linkMap {linkName : Str} {link : Link P R V} (h : urdf.linkMap linkName = some link) :
    link.name = linkName ∧ link ∈ urdf.links := by
  have hname := List.find?_some h
  exact ⟨of_decide_eq_true hname, List.mem_of_find?_eq_some h⟩

/-- **The places and the table** are those of the walk of the joint tree. -/
theorem erase_walkUrdfLink (n : ℕ) (linkName : Str) (place : Place L) (visited : List Str)
    (c : WalkContext P R V) (hchain : c.jointChain = place.jointChain) :
    (walkUrdfLink packing ignore urdf n linkName place.relative place.absolute visited place.ancestor
      c).map WalkContext.erase =
      walkLink packing (urdf.robot ignore) n linkName place visited c.erase := by
  induction n generalizing linkName place visited c with
  | zero => rfl
  | succ n ih =>
    by_cases hnew : linkName ∈ visited
    · rw [walkUrdfLink, walkLink, if_pos hnew, if_pos hnew]
      rfl
    · rw [walkUrdfLink, walkLink, if_neg hnew, if_neg hnew, get?_robot]
      cases hlink : urdf.linkMap linkName with
      | none => rfl
      | some link =>
        obtain ⟨rfl, -⟩ := name_of_linkMap hlink
        simp only [Option.map_some]
        rw [← erase_noteLink packing ignore link place hchain]
        refine foldlM_map (fun joint _ c' => ?_) _
        rw [jointChain_noteLink, hchain, childStart_eq, withJointChain, Option.map_map]
        exact ih joint.child ⟨_, _, _, _⟩ (link.name :: visited) { c' with jointChain := _ } rfl

/-- The walk of a file is that of its joint tree. -/
theorem erase_walkUrdf :
    (walkUrdf packing ignore urdf).map WalkContext.erase = walk packing (urdf.robot ignore) := by
  have hkeys : (urdf.robot ignore).links.keys.length = urdf.links.length := by
    rw [Dict.keys, List.length_map]
    exact List.length_map _
  rw [walk, hkeys]
  exact erase_walkUrdfLink packing ignore urdf _ urdf.root Place.root [] ⟨[], [], Dict.empty, [], []⟩ rfl

end

end PartCAD.Imported
