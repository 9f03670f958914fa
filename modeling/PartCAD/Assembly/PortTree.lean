import PartCAD.Assembly.Connect
import PartCAD.Geometry.Packed
import PartCAD.Lib.Text
import PartCAD.Ports.Instances

/-!
# Ports in the tree of an assembly

An assembly is drawn as a tree of nodes with packed placements (`getWrapped`), each composed onto
what the node carries already (`placed`).  The ports of what is inside it are found by another walk,
which keeps a running placement (`collect`).

* `nodes_getWrapped` : the nodes of the tree, with their labels and where they come to be;
* `collect_eq` : the ports found on the way;
* `portsAsync_nodes` : every port is where its node is, under the names of the nodes on the way but
  those of embedded assemblies and those without a name.
-/

namespace PartCAD.Assembly

open PartCAD.Lib PartCAD.Lib.Text PartCAD.Geometry PartCAD.Ports

/-! ## Shapes and nodes -/

/-- A placement as it was declared. -/
inductive Placement (L P : Type) where
  | location (a : L)
  | packed (p : P)

/-- What is read of a part or an assembly, with the ports of its `map:` among its own. -/
structure ShapeInfo (L B : Type) where
  projectName : Str
  name : Str
  /-- `config.get("label", name)`, read for a part -/
  label : Option Str
  /-- `config.get("child")` -/
  embedded : Bool
  ports : Dict Str (InterfacePort L B)
  interfaces : Table

structure AssemblyChild (L P : Type) where
  name : Option Str
  location : Option (Placement L P)

inductive Shape (L P B : Type) where
  | part (info : ShapeInfo L B)
  | assembly (info : ShapeInfo L B) (location : Option (Placement L P))
      (children : List (AssemblyChild L P × Shape L P B))

def Shape.info {L P B : Type} : Shape L P B → ShapeInfo L B
  | .part info => info
  | .assembly info _ _ => info

/-- A port as somebody outside the object sees it. -/
structure PortRecord (L B : Type) where
  name : Str
  port : InterfacePort L B
  location : L
  interface : Option (Str × Str)
  owner : Str

/-- A port as a node carries it. -/
structure NodePort (P : Type) where
  name : Str
  location : P
  interface : Option (Str × Str)

structure NodeData (P : Type) where
  name : Str
  label : Option Str
  location : Option P
  ports : List (NodePort P)

/-- A node: the geometry of a part, or the nodes of an assembly. -/
inductive Node (P : Type) where
  | shape (data : NodeData P)
  | assembly (data : NodeData P) (children : List (Node P))

namespace Node

variable {P : Type}

def data : Node P → NodeData P
  | .shape data => data
  | .assembly data _ => data

def withData (data : NodeData P) : Node P → Node P
  | .shape _ => .shape data
  | .assembly _ children => .assembly data children

end Node

section

variable {L P B : Type} [Monoid L] (packing : Packing L P)

/-- `as_location` -/
def asLocation : Placement L P → L
  | .location a => a
  | .packed p => packing.unpack p

/-! ## The ports of one object -/

def qualify (owner name : Str) : Str := if owner ≠ [] then owner ++ ':' :: name else name

/-- `interface_of_port` -/
def interfaceOfPort (interfaces : Table) : Dict Str (Str × Str) :=
  interfaces.items.foldl
    (fun owner i => i.2.items.foldl
      (fun owner j => j.2.items.foldl
        (fun owner p => owner.setdefault p.2 (i.1, j.1)) owner) owner)
    Dict.empty

/-- `own_ports` -/
def ownPorts (shape : Shape L P B) (placement : Option L) (owner : Str) : List (PortRecord L B) :=
  let placement := placement.getD 1
  let interfaces := interfaceOfPort shape.info.interfaces
  shape.info.ports.items.map fun p =>
    { name := qualify owner p.1
      port := p.2
      location := placement * portLocation p.2
      interface := interfaces.get? p.1
      owner := owner }

/-- `port_record` -/
def portRecord (record : PortRecord L B) : NodePort P :=
  { name := record.name
    location := packing.asPacked record.location
    interface := record.interface }

/-- The ports of `connection_metadata`. -/
def connectionPorts (shape : Shape L P B) : List (NodePort P) :=
  (ownPorts shape none []).map (portRecord packing)

/-! ## The tree -/

/-- `placed` -/
def placed (node : Node P) (location : Option (Placement L P)) (name label : Option Str) : Node P :=
  let data := node.data
  node.withData {
    name := name.getD data.name
    label := label.or data.label
    location :=
      match location with
      | none => data.location
      | some location =>
        let location := asLocation packing location
        some <| packing.asPacked <|
          match data.location with
          | none => location
          | some own => location * packing.unpack own
    ports := data.ports }

/-- The package and the name, where there are both. -/
def ShapeInfo.fullName (info : ShapeInfo L B) : Str :=
  if info.projectName ≠ [] ∧ info.name ≠ [] then info.projectName ++ ':' :: info.name else info.name

/-- `_child_name_label` -/
def childNameLabel (child : AssemblyChild L P) (info : ShapeInfo L B) : Str × Str :=
  (info.fullName, child.name.getD info.name)

/-- The layer of a shape: `get_cache_metadata` -/
def cacheMetadata (shape : Shape L P B) : NodeData P :=
  let info := shape.info
  let ports := connectionPorts packing shape
  match shape with
  | .part _ => ⟨info.fullName, info.label, none, ports⟩
  | .assembly _ location _ =>
    let name := if info.name ≠ [] then info.projectName ++ ':' :: info.name else info.projectName
    ⟨name, some info.name, location.map fun a => packing.asPacked (asLocation packing a), ports⟩

mutual
/-- `get_wrapped` -/
def getWrapped : Shape L P B → Node P
  | .part info => .shape (cacheMetadata packing (.part info : Shape L P B))
  | .assembly info location children =>
    .assembly (cacheMetadata packing (.assembly info location children)) (getWrappedChildren children)
def getWrappedChildren : List (AssemblyChild L P × Shape L P B) → List (Node P)
  | [] => []
  | (child, item) :: rest =>
    let (name, label) := childNameLabel child item.info
    placed packing (getWrapped item) child.location (some name) (some label) ::
      getWrappedChildren rest
end

/-- A node by the labels on the way to it, with its place in the coordinates of the root. -/
structure NodeAt (L P : Type) where
  labels : List (Option Str)
  location : L
  ports : List (NodePort P)

/-- The placement that a node carries. -/
def NodeData.own (data : NodeData P) : L := (data.location.map packing.unpack).getD 1

mutual
/-- The nodes of a tree, with the placements composed on the way down. -/
def nodesFrom (labels : List (Option Str)) (placement : L) : Node P → List (NodeAt L P)
  | .shape data => [⟨labels, placement * data.own packing, data.ports⟩]
  | .assembly data children =>
    ⟨labels, placement * data.own packing, data.ports⟩ ::
      nodesFromChildren labels (placement * data.own packing) children
def nodesFromChildren (labels : List (Option Str)) (placement : L) :
    List (Node P) → List (NodeAt L P)
  | [] => []
  | node :: rest =>
    nodesFrom (labels ++ [node.data.label]) placement node ++
      nodesFromChildren labels placement rest
end

def nodes (node : Node P) : List (NodeAt L P) := nodesFrom packing [] 1 node

/-! ## The ports -/

def embeds (child : AssemblyChild L P × Shape L P B) : Bool := child.2.info.embedded

def childLabel (child : AssemblyChild L P × Shape L P B) : Str := child.1.name.getD child.2.info.name

def childOwner (owner : Str) (child : AssemblyChild L P × Shape L P B) : Str :=
  if embeds child then owner
  else if childLabel child ≠ [] then qualify owner (childLabel child) else owner

/-- `own_placement`, for an assembly with its own location. -/
def ownPlacement (location : Option (Placement L P)) (placement : Option L) : Option L :=
  match location with
  | none => placement
  | some root =>
    match placement with
    | none => some (asLocation packing root)
    | some placement => some (placement * asLocation packing root)

def childPlacement (placement : Option L) (child : AssemblyChild L P) : Option L :=
  match child.location with
  | none => placement
  | some location =>
    match placement with
    | none => some (asLocation packing location)
    | some placement => some (placement * asLocation packing location)

mutual
/-- `_collect` -/
def collect (deep : Bool) : Shape L P B → Str → Option L → List (PortRecord L B)
  | .part info, owner, placement => ownPorts (.part info : Shape L P B) placement owner
  | .assembly info location children, owner, placement =>
    let placement := ownPlacement packing location placement
    ownPorts (.assembly info location children) placement owner ++
      if ! deep then [] else collectChildren deep children owner placement
def collectChildren (deep : Bool) :
    List (AssemblyChild L P × Shape L P B) → Str → Option L → List (PortRecord L B)
  | [], _, _ => []
  | (child, item) :: rest, owner, placement =>
    collect deep item (childOwner owner (child, item)) (childPlacement packing placement child) ++
      collectChildren deep rest owner placement
end

def portsAsync (shape : Shape L P B) (deep : Bool) : List (PortRecord L B) :=
  collect packing deep shape [] (some 1)

/-! ## What is visited -/

/-- What is inside a shape, with the children on the way to it. -/
structure Visit (L P B : Type) where
  path : List (AssemblyChild L P × Shape L P B)
  item : Shape L P B

omit [Monoid L] in
mutual
def visitsFrom (path : List (AssemblyChild L P × Shape L P B)) : Shape L P B → List (Visit L P B)
  | .part info => [⟨path, .part info⟩]
  | .assembly info location children =>
    ⟨path, .assembly info location children⟩ :: visitsFromChildren path children
def visitsFromChildren (path : List (AssemblyChild L P × Shape L P B)) :
    List (AssemblyChild L P × Shape L P B) → List (Visit L P B)
  | [] => []
  | (child, item) :: rest =>
    visitsFrom (path ++ [(child, item)]) item ++ visitsFromChildren path rest
end

def visits (shape : Shape L P B) : List (Visit L P B) := visitsFrom [] shape

/-- A placement that is not there moves nothing. -/
def placementOf (location : Option (Placement L P)) : L :=
  (location.map (asLocation packing)).getD 1

/-- What a shape is moved by on its own account. -/
def Shape.own : Shape L P B → L
  | .part _ => 1
  | .assembly _ location _ => placementOf packing location

/-- The placements on a path, the outermost first. -/
def placeOf (root : Shape L P B) (path : List (AssemblyChild L P × Shape L P B)) : L :=
  root.own packing * (path.map fun c => placementOf packing c.1.location * c.2.own packing).prod

/-- The names of the nodes on a path, without embedded assemblies and nodes without a name. -/
def ownerOf (path : List (AssemblyChild L P × Shape L P B)) : Str :=
  join ':' ((path.filter fun c => ! embeds c && childLabel c != []).map childLabel)

/-- The node of a visit. -/
def nodeAt (root : Shape L P B) (v : Visit L P B) : NodeAt L P :=
  { labels := v.path.map fun c => some (childLabel c)
    location := placeOf packing root v.path
    ports := connectionPorts packing v.item }

/-- The ports of a visit. -/
def portsAt (root : Shape L P B) (v : Visit L P B) : List (PortRecord L B) :=
  ownPorts v.item (some (placeOf packing root v.path)) (ownerOf v.path)

theorem placeOf_append (root : Shape L P B) (path : List (AssemblyChild L P × Shape L P B))
    (c : AssemblyChild L P × Shape L P B) :
    placeOf packing root (path ++ [c]) =
      placeOf packing root path * placementOf packing c.1.location * c.2.own packing := by
  unfold placeOf
  rw [List.map_append, List.prod_append, List.map_singleton, List.prod_singleton, mul_assoc,
    mul_assoc]

omit [Monoid L] in
theorem ownerOf_append (path : List (AssemblyChild L P × Shape L P B))
    (c : AssemblyChild L P × Shape L P B) :
    ownerOf (path ++ [c]) = childOwner (ownerOf path) c := by
  by_cases hc : embeds c = true ∨ childLabel c = []
  · -- the child is passed over
    have hskip : (! embeds c && childLabel c != []) = false := by
      rcases hc with hc | hc
      · simp [hc]
      · simp [hc]
    have hsame : childOwner (ownerOf path) c = ownerOf path := by
      rcases hc with hc | hc
      · simp [childOwner, hc]
      · simp [childOwner, hc]
    rw [hsame, ownerOf, List.filter_append, List.filter_singleton, hskip]
    simp [ownerOf]
  · have hembeds : embeds c = false := by simpa using fun h => hc (Or.inl h)
    have hlabel : childLabel c ≠ [] := fun h => hc (Or.inr h)
    have hkeep : (! embeds c && childLabel c != []) = true := by simp [hembeds, hlabel]
    have howner : childOwner (ownerOf path) c = qualify (ownerOf path) (childLabel c) := by
      simp [childOwner, hembeds, hlabel]
    rw [howner, ownerOf, List.filter_append, List.filter_singleton, hkeep, List.map_append]
    have hpieces : ∀ name ∈ (path.filter fun c => ! embeds c && childLabel c != []).map childLabel,
        name ≠ [] := by
      intro name hname
      obtain ⟨child, hchild, rfl⟩ := List.mem_map.1 hname
      have hkept := (List.mem_filter.1 hchild).2
      simpa using (Bool.and_eq_true_iff.1 hkept).2
    by_cases hnil : (path.filter fun c => ! embeds c && childLabel c != []).map childLabel = []
    · have hempty : ownerOf path = [] := by rw [ownerOf, hnil, join]
      rw [hnil, hempty]
      rfl
    · have hne : ownerOf path ≠ [] := fun h => hnil (join_eq_nil hpieces h)
      rw [qualify, if_pos hne, ownerOf]
      exact join_append ':' hnil (List.cons_ne_nil _ _)

/-! ## The nodes -/

theorem own_cacheMetadata (shape : Shape L P B) :
    (cacheMetadata packing shape).own packing = shape.own packing := by
  cases shape with
  | part info => rfl
  | assembly info location children =>
    cases location with
    | none => rfl
    | some location => exact packing.unpack_asPacked _

theorem ports_cacheMetadata (shape : Shape L P B) :
    (cacheMetadata packing shape).ports = connectionPorts packing shape := by
  cases shape with
  | part info => rfl
  | assembly info location children => rfl

omit [Monoid L] in
@[simp]
theorem Node.data_withData (data : NodeData P) (node : Node P) : (node.withData data).data = data := by
  cases node with
  | shape old => rfl
  | assembly old children => rfl

/-- A node that is placed is moved by the placement first. -/
theorem own_placed (node : Node P) (location : Option (Placement L P)) (name label : Option Str) :
    (placed packing node location name label).data.own packing =
      placementOf packing location * node.data.own packing := by
  unfold placed
  rw [Node.data_withData]
  cases location with
  | none => exact (one_mul _).symm
  | some location =>
    cases hown : node.data.location with
    | none =>
      simp [NodeData.own, placementOf, hown, packing.unpack_asPacked]
    | some own =>
      simp [NodeData.own, placementOf, hown, packing.unpack_asPacked]

theorem label_placed (node : Node P) (location : Option (Placement L P)) (name : Option Str)
    (label : Str) : (placed packing node location name (some label)).data.label = some label := by
  unfold placed
  rw [Node.data_withData]
  rfl

theorem nodesFrom_placed (labels : List (Option Str)) (placement : L) (node : Node P)
    (location : Option (Placement L P)) (name label : Option Str) :
    nodesFrom packing labels placement (placed packing node location name label) =
      nodesFrom packing labels (placement * placementOf packing location) node := by
  have hown := own_placed packing node location name label
  cases node with
  | shape data =>
    simp only [placed, Node.withData, Node.data] at hown ⊢
    simp only [nodesFrom, hown, mul_assoc]
  | assembly data children =>
    simp only [placed, Node.withData, Node.data] at hown ⊢
    simp only [nodesFrom, hown, mul_assoc]

mutual
theorem nodesFrom_getWrapped (root : Shape L P B) :
    ∀ (shape : Shape L P B) (path : List (AssemblyChild L P × Shape L P B)) (placement : L),
      placement * shape.own packing = placeOf packing root path →
      nodesFrom packing (path.map fun c => some (childLabel c)) placement (getWrapped packing shape) =
        (visitsFrom path shape).map (nodeAt packing root)
  | .part info, path, placement, h => by
    rw [getWrapped, nodesFrom, own_cacheMetadata, ports_cacheMetadata, h]
    rfl
  | .assembly info location children, path, placement, h => by
    rw [getWrapped, nodesFrom, own_cacheMetadata, ports_cacheMetadata, h,
      nodesFromChildren_getWrapped root children path]
    rfl
theorem nodesFromChildren_getWrapped (root : Shape L P B) :
    ∀ (children : List (AssemblyChild L P × Shape L P B))
      (path : List (AssemblyChild L P × Shape L P B)),
      nodesFromChildren packing (path.map fun c => some (childLabel c)) (placeOf packing root path)
          (getWrappedChildren packing children) =
        (visitsFromChildren path children).map (nodeAt packing root)
  | [], path => rfl
  | (child, item) :: rest, path => by
    have hplace := placeOf_append packing root path (child, item)
    have hitem := nodesFrom_getWrapped root item (path ++ [(child, item)])
      (placeOf packing root path * placementOf packing child.location) hplace.symm
    rw [List.map_append] at hitem
    rw [getWrappedChildren, nodesFromChildren, nodesFrom_placed, label_placed,
      nodesFromChildren_getWrapped root rest path, visitsFromChildren, List.map_append, ← hitem]
    rfl
end

/-- **The nodes of the tree.** -/
theorem nodes_getWrapped (shape : Shape L P B) :
    nodes packing (getWrapped packing shape) = (visits shape).map (nodeAt packing shape) := by
  apply nodesFrom_getWrapped packing shape shape [] 1
  rw [placeOf, List.map_nil, List.prod_nil, one_mul, mul_one]

/-! ## The ports on the way -/

theorem getD_ownPlacement (location : Option (Placement L P)) (placement : Option L) :
    (ownPlacement packing location placement).getD 1 =
      placement.getD 1 * placementOf packing location := by
  cases location with
  | none => exact (mul_one _).symm
  | some location =>
    cases placement with
    | none => exact (one_mul _).symm
    | some placement => rfl

theorem getD_childPlacement (placement : Option L) (child : AssemblyChild L P) :
    (childPlacement packing placement child).getD 1 =
      placement.getD 1 * placementOf packing child.location :=
  getD_ownPlacement packing child.location placement

mutual
theorem collect_eq (root : Shape L P B) :
    ∀ (shape : Shape L P B) (path : List (AssemblyChild L P × Shape L P B)) (placement : Option L),
      placement.getD 1 * shape.own packing = placeOf packing root path →
      collect packing true shape (ownerOf path) placement =
        (visitsFrom path shape).flatMap (portsAt packing root)
  | .part info, path, placement, h => by
    have hplace : placement.getD 1 = placeOf packing root path := (mul_one _).symm.trans h
    rw [collect, visitsFrom, List.flatMap_singleton, portsAt, ← hplace]
    rfl
  | .assembly info location children, path, placement, h => by
    have hplace : (ownPlacement packing location placement).getD 1 = placeOf packing root path :=
      (getD_ownPlacement packing location placement).trans h
    rw [collect, visitsFrom, List.flatMap_cons, portsAt, ← hplace]
    exact congrArg _ (collectChildren_eq root children path _ hplace)
theorem collectChildren_eq (root : Shape L P B) :
    ∀ (children : List (AssemblyChild L P × Shape L P B))
      (path : List (AssemblyChild L P × Shape L P B)) (placement : Option L),
      placement.getD 1 = placeOf packing root path →
      collectChildren packing true children (ownerOf path) placement =
        (visitsFromChildren path children).flatMap (portsAt packing root)
  | [], path, placement, h => rfl
  | (child, item) :: rest, path, placement, h => by
    have hplace : (childPlacement packing placement child).getD 1 * item.own packing =
        placeOf packing root (path ++ [(child, item)]) := by
      rw [getD_childPlacement, h, placeOf_append]
    have hitem := collect_eq root item (path ++ [(child, item)]) _ hplace
    rw [ownerOf_append] at hitem
    rw [collectChildren, visitsFromChildren, List.flatMap_append, hitem,
      collectChildren_eq root rest path placement h]
end

theorem portsAsync_eq (shape : Shape L P B) :
    portsAsync packing shape true = (visits shape).flatMap (portsAt packing shape) := by
  apply collect_eq packing shape shape [] (some 1)
  rw [placeOf, List.map_nil, List.prod_nil, mul_one]
  exact one_mul _

/-- A port is where its node is, moved by what the port states. -/
theorem location_portsAt (root : Shape L P B) (v : Visit L P B) :
    (portsAt packing root v).map (·.location) =
      (nodeAt packing root v).ports.map fun p =>
        (nodeAt packing root v).location * packing.unpack p.location := by
  simp only [portsAt, nodeAt, connectionPorts, ownPorts, List.map_map]
  apply List.map_congr_left
  intro p _
  show _ = _ * packing.unpack (packing.asPacked (1 * portLocation p.2))
  rw [packing.unpack_asPacked, one_mul]
  rfl

/-- **Every port is where its node is.**  The nodes are visited in one order with the ports; a node's
place is the product of the placements on the way, and the owner of its ports leaves out the
embedded assemblies and the nodes without a name. -/
theorem portsAsync_nodes (shape : Shape L P B) :
    nodes packing (getWrapped packing shape) = (visits shape).map (nodeAt packing shape) ∧
      portsAsync packing shape true = (visits shape).flatMap (portsAt packing shape) ∧
      (portsAsync packing shape true).map (·.location) =
        (nodes packing (getWrapped packing shape)).flatMap fun n =>
          n.ports.map fun p => n.location * packing.unpack p.location := by
  refine ⟨nodes_getWrapped packing shape, portsAsync_eq packing shape, ?_⟩
  rw [portsAsync_eq, nodes_getWrapped, List.map_flatMap, List.flatMap_map]
  exact congrArg (List.flatMap · _) (funext (location_portsAt packing shape))

/-- The ports are reported at their nodes, under all the names on the way. -/
def ReportedAtNodes (shape : Shape L P B) : Prop :=
  (portsAsync packing shape true).map (fun r => (r.location, r.owner)) =
    (nodes packing (getWrapped packing shape)).flatMap fun n =>
      n.ports.map fun p =>
        (n.location * packing.unpack p.location, join ':' (n.labels.map (·.getD [])))

end

/-! ## An embedded assembly -/

/-- A part `p` with one port, in an embedded assembly `inner`. -/
def embeddedPart (L P : Type) : Shape L P Unit :=
  let port : Dict Str (InterfacePort L Unit) := Dict.empty.set "port".toList ⟨none, ()⟩
  let part : Shape L P Unit := .part ⟨"pkg".toList, "p".toList, none, false, port, Dict.empty⟩
  let inner : Shape L P Unit :=
    .assembly ⟨"pkg".toList, "inner".toList, none, true, Dict.empty, Dict.empty⟩ none
      [(⟨some "p".toList, none⟩, part)]
  .assembly ⟨"pkg".toList, "outer".toList, none, false, Dict.empty, Dict.empty⟩ none
    [(⟨some "inner".toList, none⟩, inner)]

/-- The port is reported under `p`, and its node is `inner:p`. -/
theorem not_reportedAtNodes_embeddedPart :
    ¬ ReportedAtNodes rigidPacking (embeddedPart RigidTransform Packed) := by
  intro h
  have howners := congrArg (List.map Prod.snd) h
  exact absurd howners (by decide)

end PartCAD.Assembly
