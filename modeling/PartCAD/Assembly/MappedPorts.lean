import PartCAD.Assembly.PortTree
import PartCAD.Ports.Frames

/-!
# Ports that are ports of something inside

An assembly may give out the ports and the instances of interfaces of its nodes under names of its own
(`map:`).  Where such a port is comes from a walk through the containers of its file (`nodeIndex`), where
the ports of the whole tree are comes from another walk (`portsAsync`), and an object that is connected to
such a port takes its frame from the target's location (`targetFrame`).

* `get?_nodeIndex` : the walk finds the nodes at the products of the placements on the way;
* `reported_iff` : where the traversal reports a port of a node;
* `mapped_agree_iff` : **when the three agree**.
-/

namespace PartCAD.Mapped

open PartCAD.Lib PartCAD.Lib.Text PartCAD.Geometry PartCAD.Ports PartCAD.Assembly

/-! ## Objects and nodes -/

/-- What is read of an object that answers for its ports. -/
structure ItemInfo (L B Q : Type) where
  projectName : Str
  name : Str
  label : Option Str
  declaration : Declaration L B Q

/-- What an assembly is made of: parts, assemblies that a package declares, and the containers of its
file.  An assembly has its `map:`, the location that it states, and the one that the root node of its file
states; its children are where the file puts them. -/
inductive Item (L P B Q : Type) where
  | part (info : ItemInfo L B Q)
  | assembly (info : ItemInfo L B Q) (map : Dict Str (List Str)) (location : Option (Placement L P))
      (rootLocation : Option P) (children : List (AssemblyChild L P × Item L P B Q))
  | container (projectName name : Str) (children : List (AssemblyChild L P × Item L P B Q))

/-- A node of the tree. -/
abbrev Child (L P B Q : Type) := AssemblyChild L P × Item L P B Q

/-- `with_ports`; a container has none. -/
def Item.withPorts {L P B Q : Type} : Item L P B Q → Option (ItemInfo L B Q)
  | .part info => some info
  | .assembly info _ _ _ _ => some info
  | .container _ _ _ => none

/-- What a `map:` comes out to. -/
structure MappedPorts (L B : Type) where
  ports : Dict Str (InterfacePort L B)
  inherits : Dict Str (InterfaceInherits L)

section

variable {L P B Q : Type} [Group L] (packing : Packing L P) (drawn : Str → B) (h : Hierarchy L B Q)

/-! ## What an object answers -/

def portsOf (info : ItemInfo L B Q) : Dict Str (InterfacePort L B) := getPorts drawn h info.declaration

def interfacesOf (info : ItemInfo L B Q) : Except KeyError Table :=
  instantiateInterfaces drawn h info.declaration

/-- `get_parents()` -/
def parentsOf (info : ItemInfo L B Q) : Dict Str (InterfaceInherits L) :=
  (instantiate (resolve drawn h.interfaces) drawn info.declaration).inherits

/-- The ports of an interface. -/
def interfacePorts (interfaceName : Str) : Dict Str (InterfacePort L B) :=
  (resolve drawn h.interfaces interfaceName).ports

/-! ## The nodes -/

/-- What the location of the root node does to a child. -/
def placedChild {α : Type} (rootLocation : Option P) (child : AssemblyChild L P × α) :
    AssemblyChild L P × α :=
  match rootLocation with
  | none => child
  | some p =>
    let placement := packing.unpack p
    ({ child.1 with
        location := some <| .location <|
          match child.1.location with
          | none => placement
          | some location => placement * asLocation packing location }, child.2)

def applyRootPlacement {α : Type} (rootLocation : Option P) (children : List (AssemblyChild L P × α)) :
    List (AssemblyChild L P × α) :=
  children.map (placedChild packing rootLocation)

/-- The node path of a child. -/
def nodePath (within : Str) (child : AssemblyChild L P) : Str :=
  join '/' ([within, child.name.getD []].filter (· ≠ []))

mutual
/-- The nodes of a container; one of another kind is not gone into. -/
def containerIndex (within : Str) (placement : L) (index : Dict Str (Item L P B Q × L)) :
    Item L P B Q → Dict Str (Item L P B Q × L)
  | .part _ => index
  | .assembly _ _ _ _ _ => index
  | .container _ _ children => nodeIndex within placement index children
/-- `node_index(assembly, prefix, placement, index)` -/
def nodeIndex (within : Str) (placement : L) (index : Dict Str (Item L P B Q × L)) :
    List (Child L P B Q) → Dict Str (Item L P B Q × L)
  | [] => index
  | (child, item) :: rest =>
    let childPlacement :=
      match child.location with
      | none => placement
      | some location => placement * asLocation packing location
    let path := nodePath within child
    let index :=
      if path ≠ [] ∧ path ≠ within then index.setdefault path (item, childPlacement) else index
    nodeIndex within placement (containerIndex path childPlacement index item) rest
end

/-- `_item_placement` -/
def itemPlacement (placement : L) : Item L P B Q → L
  | .assembly _ _ (some root) _ _ => placement * asLocation packing root
  | _ => placement

/-! ## What a `map:` comes out to -/

/-- `name.rsplit(":", 1)[-1]` -/
def shortInterfaceName (name : Str) : Str := (split ':' name).getLastD []

/-- `_match_interface` -/
def matchInterface (available : List Str) (interfaceName projectName : Str) : Option Str :=
  if interfaceName ∈ available then some interfaceName
  else if projectName ++ ':' :: interfaceName ∈ available then
    some (projectName ++ ':' :: interfaceName)
  else
    match available.filter (shortInterfaceName · = shortInterfaceName interfaceName) with
    | [name] => some name
    | _ => none

/-- `_instance_location`, of an object with the listing of its instances. -/
def instanceLocation (info : ItemInfo L B Q) (table : Table) (interfaceName instanceName : Str) : L :=
  match recorded (parentsOf drawn h info) interfaceName instanceName with
  | some location => location
  | none =>
    let ports := ((table.instances interfaceName).get? instanceName).getD Dict.empty
    let frames := (ports.keys.mergeSort (· ≤ ·)).filterMap fun portName => do
      let own ← (portsOf drawn h info).get? (← ports.get? portName)
      let port ← (interfacePorts drawn h interfaceName).get? portName
      return portLocation own * (portLocation port)⁻¹
    frames.headD 1

/-- `_resolve_port` -/
def resolvePort (mapped : MappedPorts L B) (name : Str) (info : ItemInfo L B Q) (placement : L)
    (portName : Str) : MappedPorts L B :=
  match (portsOf drawn h info).get? portName with
  | none => mapped
  | some port =>
    { mapped with
      ports := mapped.ports.set name ⟨some (placement * portLocation port), port.boundary⟩ }

/-- `_resolve_instance` -/
def resolveInstance (mapped : MappedPorts L B) (name : Str) (info : ItemInfo L B Q) (placement : L)
    (interfaceName instanceName : Str) : MappedPorts L B :=
  match interfacesOf drawn h info with
  | .error _ => mapped
  | .ok table =>
    match matchInterface table.keys interfaceName info.projectName with
    | none => mapped
    | some matched =>
      if ((table.instances matched).get? instanceName).isSome then
        let location := placement * instanceLocation drawn h info table matched instanceName
        let located := packing.unpack (packing.asPacked location)
        { mapped with
          inherits := mergeInherit mapped.inherits
            ⟨matched, Dict.empty.set name located, Dict.empty⟩ }
      else mapped

/-- `_resolve_entry` -/
def resolveEntry (nodes : Dict Str (Item L P B Q × L)) (mapped : MappedPorts L B)
    (entry : Str × List Str) : MappedPorts L B :=
  match entry.2 with
  | [node, portName] =>
    match nodes.get? node with
    | none => mapped
    | some (item, placement) =>
      match item.withPorts with
      | none => mapped
      | some info =>
        resolvePort drawn h mapped entry.1 info (itemPlacement packing placement item) portName
  | [node, interfaceName, instanceName] =>
    match nodes.get? node with
    | none => mapped
    | some (item, placement) =>
      match item.withPorts with
      | none => mapped
      | some info =>
        resolveInstance packing drawn h mapped entry.1 info (itemPlacement packing placement item)
          interfaceName instanceName
  | _ => mapped

/-- `resolve_async`, with the nodes of the assembly. -/
def resolveMap (map : Dict Str (List Str)) (nodes : Dict Str (Item L P B Q × L)) : MappedPorts L B :=
  map.items.foldl (resolveEntry packing drawn h nodes) ⟨Dict.empty, Dict.empty⟩

/-- `set_mapped`: what is mapped comes before what is declared. -/
def setMapped (info : ItemInfo L B Q) (mapped : MappedPorts L B) : ItemInfo L B Q :=
  { info with
    declaration :=
      { info.declaration with
        ports := mapped.ports.update info.declaration.ports
        mapped := mapped.inherits.items.map Prod.snd } }

/-- What the `map:` of an assembly comes out to, when those inside it are resolved. -/
def mappedOf (map : Dict Str (List Str)) (rootLocation : Option P) (children : List (Child L P B Q)) :
    MappedPorts L B :=
  resolveMap packing drawn h map
    (nodeIndex packing [] 1 Dict.empty (applyRootPlacement packing rootLocation children))

mutual
/-- `prepare_async`, of an object and of what is inside it. -/
def prepare : Item L P B Q → Item L P B Q
  | .part info => .part info
  | .assembly info map location rootLocation children =>
    let children := prepareChildren children
    .assembly (setMapped info (mappedOf packing drawn h map rootLocation children)) map location
      rootLocation children
  | .container projectName name children => .container projectName name (prepareChildren children)
def prepareChildren : List (Child L P B Q) → List (Child L P B Q)
  | [] => []
  | (child, item) :: rest => (child, prepare item) :: prepareChildren rest
end

/-! ## Connecting to a node -/

/-- The node that a `connect:` names, among those that are there. -/
def targetOf (done : List (Child L P B Q)) (connectToName : Option Str) : Option (Child L P B Q) :=
  done.find? fun c => c.1.name = connectToName

/-- The target's location times its port, which the object that is connected is put onto. -/
def targetFrame (target : Child L P B Q) (portName : Str) : Option L := do
  let location ← target.1.location
  let info ← target.2.withPorts
  let port ← (portsOf drawn h info).get? portName
  return asLocation packing location * portLocation port

/-! ## The tree that is traversed -/

/-- The listing of the instances only tells which of them a port belongs to. -/
def shapeInfo (info : ItemInfo L B Q) : ShapeInfo L B where
  projectName := info.projectName
  name := info.name
  label := info.label
  embedded := false
  ports := portsOf drawn h info
  interfaces := (interfacesOf drawn h info).toOption.getD Dict.empty

mutual
def shapeOf : Item L P B Q → Shape L P B
  | .part info => .part (shapeInfo drawn h info)
  | .assembly info _ location rootLocation children =>
    .assembly (shapeInfo drawn h info) location (applyRootPlacement packing rootLocation (shapes children))
  | .container projectName name children =>
    .assembly ⟨projectName, name, none, true, Dict.empty, Dict.empty⟩ none (shapes children)
def shapes : List (Child L P B Q) → List (AssemblyChild L P × Shape L P B)
  | [] => []
  | (child, item) :: rest => (child, shapeOf item) :: shapes rest
end

/-- What an object is moved by on its own account. -/
def Item.own : Item L P B Q → L
  | .assembly _ _ location _ _ => placementOf packing location
  | _ => 1

/-! ## The ways to the nodes -/

/-- A node, with the containers around it, the outermost first. -/
structure Way (L P B Q : Type) where
  around : List (Child L P B Q)
  node : Child L P B Q

def Way.path (w : Way L P B Q) : List (Child L P B Q) := w.around ++ [w.node]

/-- A way that leads through one more container. -/
def Way.through (container : Child L P B Q) (w : Way L P B Q) : Way L P B Q :=
  ⟨container :: w.around, w.node⟩

mutual
def waysIn : Item L P B Q → List (Way L P B Q)
  | .part _ => []
  | .assembly _ _ _ _ _ => []
  | .container _ _ children => ways children
/-- The nodes of an assembly: its children, and what is in its containers. -/
def ways : List (Child L P B Q) → List (Way L P B Q)
  | [] => []
  | (child, item) :: rest =>
    ⟨[], (child, item)⟩ :: (waysIn item).map (Way.through (child, item)) ++ ways rest
end

/-- The name of a node, when it is reached from inside something. -/
def Way.nameFrom (within : Str) (w : Way L P B Q) : Str :=
  w.path.foldl (fun within c => nodePath within c.1) within

/-- Whether a node is called so: it has a name of its own, and it comes to be this one. -/
def Way.isNamed (within node : Str) (w : Way L P B Q) : Bool :=
  decide (w.node.1.name.getD [] ≠ [] ∧ w.nameFrom within = node)

/-- The node that is called so: the first one. -/
def named (children : List (Child L P B Q)) (node : Str) : Option (Way L P B Q) :=
  (ways children).find? (Way.isNamed [] node)

/-- The placements on a way, one after the other. -/
def placements (path : List (Child L P B Q)) : L :=
  (path.map fun c => placementOf packing c.1.location).prod

/-- What carries a frame from where a node is placed to the assembly's own frame: what the file says of
the whole, and the containers around the node. -/
def carry (rootLocation : Option P) (w : Way L P B Q) : L :=
  (rootLocation.map packing.unpack).getD 1 * placements packing w.around

/-! ## The nodes by their names -/

omit [Group L] in
theorem nodePath_ne {within : Str} {child : AssemblyChild L P} :
    nodePath within child ≠ [] ∧ nodePath within child ≠ within ↔ child.name.getD [] ≠ [] := by
  unfold nodePath
  by_cases hname : child.name.getD [] = []
  · by_cases hwithin : within = []
    · simp [hname, hwithin, join]
    · simp [hname, hwithin, join]
  · by_cases hwithin : within = []
    · simp [hname, hwithin, join]
    · have hne : within ++ '/' :: child.name.getD [] ≠ within := by simp
      simp [hname, hwithin, join]

omit [Group L] in
theorem isNamed_through (within node : Str) (c : Child L P B Q) :
    Way.isNamed within node ∘ Way.through c = Way.isNamed (nodePath within c.1) node := rfl

theorem placements_through (c : Child L P B Q) (w : Way L P B Q) :
    placements packing (w.through c).path =
      placementOf packing c.1.location * placements packing w.path := by
  show placements packing (c :: w.path) = _
  rw [placements, List.map_cons, List.prod_cons]
  rfl

theorem childPlacement_eq (placement : L) (child : AssemblyChild L P) :
    (match child.location with
      | none => placement
      | some location => placement * asLocation packing location) =
      placement * placementOf packing child.location := by
  cases child.location with
  | none => exact (mul_one placement).symm
  | some location => rfl

mutual
theorem get?_containerIndex (node : Str) :
    ∀ (item : Item L P B Q) (within : Str) (placement : L) (index : Dict Str (Item L P B Q × L)),
      (containerIndex packing within placement index item).get? node =
        (index.get? node).or (((waysIn item).find? (Way.isNamed within node)).map fun w =>
          (w.node.2, placement * placements packing w.path))
  | .part _, _, _, _ => (Option.or_none).symm
  | .assembly _ _ _ _ _, _, _, _ => (Option.or_none).symm
  | .container _ _ children, within, placement, index =>
    get?_nodeIndex node children within placement index
/-- **The walk finds the first node of a name**, at the product of the placements on the way. -/
theorem get?_nodeIndex (node : Str) :
    ∀ (children : List (Child L P B Q)) (within : Str) (placement : L)
      (index : Dict Str (Item L P B Q × L)),
      (nodeIndex packing within placement index children).get? node =
        (index.get? node).or (((ways children).find? (Way.isNamed within node)).map fun w =>
          (w.node.2, placement * placements packing w.path))
  | [], _, _, _ => (Option.or_none).symm
  | (child, item) :: rest, within, placement, index => by
    -- the child itself
    have hself : (if nodePath within child ≠ [] ∧ nodePath within child ≠ within then
          index.setdefault (nodePath within child)
            (item, placement * placementOf packing child.location)
        else index).get? node =
        (index.get? node).or
          (if Way.isNamed within node ⟨[], (child, item)⟩ then
            some (item, placement * placementOf packing child.location) else none) := by
      by_cases hname : child.name.getD [] = []
      · have hnot : Way.isNamed within node ⟨[], (child, item)⟩ = false := by
          simp [Way.isNamed, hname]
        rw [if_neg fun h => nodePath_ne.1 h hname, hnot]
        exact (Option.or_none).symm
      · have hnamed : Way.isNamed within node ⟨[], (child, item)⟩ =
            decide (nodePath within child = node) := by
          simp [Way.isNamed, hname, Way.nameFrom, Way.path]
        rw [if_pos (nodePath_ne.2 hname), Dict.get?_setdefault, hnamed]
        simp only [decide_eq_true_eq]
    have hwithin := get?_containerIndex node item (nodePath within child)
      (placement * placementOf packing child.location)
      (if nodePath within child ≠ [] ∧ nodePath within child ≠ within then
        index.setdefault (nodePath within child) (item, placement * placementOf packing child.location)
      else index)
    rw [nodeIndex, childPlacement_eq, get?_nodeIndex node rest within placement, hwithin, hself, ways,
      List.cons_append, List.find?_cons, List.find?_append, List.find?_map, isNamed_through]
    cases hnamed : Way.isNamed within node ⟨[], (child, item)⟩ with
    | true =>
      have hplace : placements packing (Way.path ⟨[], (child, item)⟩) =
          placementOf packing child.location := by
        simp [placements, Way.path]
      simp only [if_true, Option.map_some, hplace, Option.or_assoc, Option.some_or]
    | false =>
      rw [if_neg Bool.false_ne_true, Option.or_none, Option.or_assoc, Option.map_or]
      congr 2
      cases (waysIn item).find? (Way.isNamed (nodePath within child) node) with
      | none => rfl
      | some w =>
        simp only [Option.map_some, placements_through, mul_assoc]
        rfl
end

/-! ## What the file says of the whole -/

/-- A way in the tree that is moved as a whole. -/
def Way.placed (rootLocation : Option P) (w : Way L P B Q) : Way L P B Q :=
  match w.around with
  | [] => ⟨[], placedChild packing rootLocation w.node⟩
  | c :: around => ⟨placedChild packing rootLocation c :: around, w.node⟩

theorem placedChild_snd {α : Type} (rootLocation : Option P) (child : AssemblyChild L P × α) :
    (placedChild packing rootLocation child).2 = child.2 := by
  cases rootLocation with
  | none => rfl
  | some p => rfl

theorem placedChild_name {α : Type} (rootLocation : Option P) (child : AssemblyChild L P × α) :
    (placedChild packing rootLocation child).1.name = child.1.name := by
  cases rootLocation with
  | none => rfl
  | some p => rfl

theorem placementOf_placedChild {α : Type} (rootLocation : Option P)
    (child : AssemblyChild L P × α) :
    placementOf packing (placedChild packing rootLocation child).1.location =
      (rootLocation.map packing.unpack).getD 1 * placementOf packing child.1.location := by
  cases rootLocation with
  | none => exact (one_mul _).symm
  | some p =>
    obtain ⟨⟨name, location⟩, item⟩ := child
    cases location with
    | none => exact (mul_one _).symm
    | some location => rfl

theorem ways_applyRootPlacement (rootLocation : Option P) (children : List (Child L P B Q)) :
    ways (applyRootPlacement packing rootLocation children) =
      (ways children).map (Way.placed packing rootLocation) := by
  induction children with
  | nil => rfl
  | cons c rest ih =>
    obtain ⟨child, item⟩ := c
    have hpair : placedChild packing rootLocation (child, item) =
        ((placedChild packing rootLocation (child, item)).1, item) :=
      Prod.ext rfl (placedChild_snd packing rootLocation (child, item))
    have hhead : applyRootPlacement packing rootLocation ((child, item) :: rest) =
        ((placedChild packing rootLocation (child, item)).1, item) ::
          applyRootPlacement packing rootLocation rest :=
      congrArg (· :: applyRootPlacement packing rootLocation rest) hpair
    have hfirst : (⟨[], ((placedChild packing rootLocation (child, item)).1, item)⟩ : Way L P B Q) =
        Way.placed packing rootLocation ⟨[], (child, item)⟩ := congrArg (Way.mk []) hpair.symm
    have hthrough : Way.through ((placedChild packing rootLocation (child, item)).1, item) =
        Way.placed packing rootLocation ∘ Way.through (child, item) := by
      funext w
      exact congrArg (fun c => Way.mk (c :: w.around) w.node) hpair.symm
    rw [hhead, ways, ih, ways, List.map_append, List.map_cons, List.map_map]
    rw [hfirst, hthrough]

theorem nameFrom_placed (rootLocation : Option P) (within : Str) (w : Way L P B Q) :
    (w.placed packing rootLocation).nameFrom within = w.nameFrom within := by
  obtain ⟨around, node⟩ := w
  cases around with
  | nil => simp [Way.placed, Way.nameFrom, Way.path, nodePath, placedChild_name]
  | cons c around => simp [Way.placed, Way.nameFrom, Way.path, nodePath, placedChild_name]

theorem node_placed (rootLocation : Option P) (w : Way L P B Q) :
    (w.placed packing rootLocation).node.2 = w.node.2 ∧
      (w.placed packing rootLocation).node.1.name = w.node.1.name := by
  obtain ⟨around, node⟩ := w
  cases around with
  | nil => exact ⟨placedChild_snd packing rootLocation node, placedChild_name packing rootLocation node⟩
  | cons c around => exact ⟨rfl, rfl⟩

theorem placements_path (w : Way L P B Q) :
    placements packing w.path =
      placements packing w.around * placementOf packing w.node.1.location := by
  rw [placements, Way.path, List.map_append, List.prod_append, List.map_singleton,
    List.prod_singleton]
  rfl

theorem placements_placed (rootLocation : Option P) (w : Way L P B Q) :
    placements packing (w.placed packing rootLocation).path =
      carry packing rootLocation w * placementOf packing w.node.1.location := by
  obtain ⟨around, node⟩ := w
  cases around with
  | nil => simp [Way.placed, Way.path, placements, carry, placementOf_placedChild]
  | cons c around =>
    simp [Way.placed, Way.path, placements, carry, placementOf_placedChild, mul_assoc]

/-- **The nodes of an assembly by their names.** -/
theorem get?_nodeIndex_root (rootLocation : Option P) (children : List (Child L P B Q)) (node : Str) :
    (nodeIndex packing [] 1 Dict.empty (applyRootPlacement packing rootLocation children)).get? node =
      (named children node).map fun w =>
        (w.node.2, carry packing rootLocation w * placementOf packing w.node.1.location) := by
  have hnamed : Way.isNamed [] node ∘ Way.placed packing rootLocation =
      (Way.isNamed [] node : Way L P B Q → Bool) := by
    funext w
    simp only [Function.comp_apply, Way.isNamed, nameFrom_placed, (node_placed packing rootLocation w).2]
  rw [get?_nodeIndex, Dict.get?_empty, Option.none_or, ways_applyRootPlacement, List.find?_map, hnamed,
    Option.map_map, named]
  congr 1
  funext w
  rw [Function.comp_apply, (node_placed packing rootLocation w).1, placements_placed, one_mul]

/-! ## Where the traversal reports a port -/

/-- A node among what the traversal visits. -/
def visitOf (rootLocation : Option P) (w : Way L P B Q) : Visit L P B where
  path := (w.placed packing rootLocation).path.map fun c => (c.1, shapeOf packing drawn h c.2)
  item := shapeOf packing drawn h w.node.2

/-- The deep traversal reports a port of what is visited, at a frame in the object's own frame. -/
def Reported (root : Shape L P B) (v : Visit L P B) (portName : Str) (frame : L) : Prop :=
  ∃ r ∈ portsAsync packing root true, r ∈ portsAt packing root v ∧ r.name = qualify r.owner portName ∧
    r.location = root.own packing * frame

theorem shapes_eq_map (children : List (Child L P B Q)) :
    shapes packing drawn h children = children.map fun c => (c.1, shapeOf packing drawn h c.2) := by
  induction children with
  | nil => rfl
  | cons c rest ih => rw [shapes, ih, List.map_cons]

theorem applyRootPlacement_shapes (rootLocation : Option P) (children : List (Child L P B Q)) :
    applyRootPlacement packing rootLocation (shapes packing drawn h children) =
      shapes packing drawn h (applyRootPlacement packing rootLocation children) := by
  rw [shapes_eq_map, shapes_eq_map, applyRootPlacement, applyRootPlacement, List.map_map, List.map_map]
  congr 1
  funext c
  cases rootLocation with
  | none => rfl
  | some p => rfl

omit [Group L] in
theorem mem_visitsFrom (path : List (AssemblyChild L P × Shape L P B)) (shape : Shape L P B) :
    ⟨path, shape⟩ ∈ visitsFrom path shape := by
  cases shape with
  | part info => rw [visitsFrom]; exact List.mem_singleton_self _
  | assembly info location children => rw [visitsFrom]; exact List.mem_cons_self

mutual
theorem mem_visits_of_waysIn :
    ∀ (item : Item L P B Q) (path : List (AssemblyChild L P × Shape L P B)) (w : Way L P B Q),
      w ∈ waysIn item →
        ⟨path ++ w.path.map fun c => (c.1, shapeOf packing drawn h c.2),
          shapeOf packing drawn h w.node.2⟩ ∈ visitsFrom path (shapeOf packing drawn h item)
  | .part _, _, _, hw => absurd hw (by simp [waysIn])
  | .assembly _ _ _ _ _, _, _, hw => absurd hw (by simp [waysIn])
  | .container _ _ children, path, w, hw => by
    rw [shapeOf, visitsFrom]
    exact List.mem_cons_of_mem _ (mem_visits_of_ways children path w hw)
theorem mem_visits_of_ways :
    ∀ (children : List (Child L P B Q)) (path : List (AssemblyChild L P × Shape L P B))
      (w : Way L P B Q), w ∈ ways children →
        ⟨path ++ w.path.map fun c => (c.1, shapeOf packing drawn h c.2),
          shapeOf packing drawn h w.node.2⟩ ∈
            visitsFromChildren path (shapes packing drawn h children)
  | [], _, _, hw => absurd hw (by simp [ways])
  | (child, item) :: rest, path, w, hw => by
    rw [shapes, visitsFromChildren, List.mem_append]
    rw [ways, List.mem_append, List.mem_cons, List.mem_map] at hw
    rcases hw with (rfl | ⟨inner, hinner, rfl⟩) | hw
    · exact Or.inl (mem_visitsFrom _ _)
    · left
      have hmem := mem_visits_of_waysIn item (path ++ [(child, shapeOf packing drawn h item)]) inner
        hinner
      rw [List.append_assoc] at hmem
      exact hmem
    · exact Or.inr (mem_visits_of_ways rest path w hw)
end

mutual
theorem own_of_waysIn :
    ∀ (item : Item L P B Q) (w : Way L P B Q), w ∈ waysIn item → item.own packing = 1 ∧
      ∀ c ∈ w.around, c.2.own packing = 1
  | .part _, _, hw => absurd hw (by simp [waysIn])
  | .assembly _ _ _ _ _, _, hw => absurd hw (by simp [waysIn])
  | .container _ _ children, w, hw => ⟨rfl, own_of_ways children w hw⟩
/-- What is gone through states no location of its own. -/
theorem own_of_ways :
    ∀ (children : List (Child L P B Q)) (w : Way L P B Q), w ∈ ways children →
      ∀ c ∈ w.around, c.2.own packing = 1
  | [], _, hw => absurd hw (by simp [ways])
  | (child, item) :: rest, w, hw => by
    rw [ways, List.mem_append, List.mem_cons, List.mem_map] at hw
    rcases hw with (rfl | ⟨inner, hinner, rfl⟩) | hw
    · intro c hc
      exact absurd hc (by simp)
    · obtain ⟨hitem, hrest⟩ := own_of_waysIn item inner hinner
      intro c hc
      rcases List.mem_cons.1 hc with rfl | hc
      · exact hitem
      · exact hrest c hc
    · exact own_of_ways rest w hw
end

theorem own_shapeOf (item : Item L P B Q) :
    (shapeOf packing drawn h item).own packing = item.own packing := by
  cases item with
  | part info => rfl
  | assembly info map location rootLocation children => rfl
  | container projectName name children => rfl

/-- Where a node is visited. -/
theorem placeOf_visitOf (root : Shape L P B) {rootLocation : Option P} {children : List (Child L P B Q)}
    {w : Way L P B Q} (hw : w ∈ ways children) :
    placeOf packing root (visitOf packing drawn h rootLocation w).path =
      root.own packing * (carry packing rootLocation w * placementOf packing w.node.1.location *
        w.node.2.own packing) := by
  have hplaced : w.placed packing rootLocation ∈
      ways (applyRootPlacement packing rootLocation children) := by
    rw [ways_applyRootPlacement]
    exact List.mem_map_of_mem hw
  have haround := own_of_ways packing _ _ hplaced
  have hprod : ((w.placed packing rootLocation).around.map fun c =>
      placementOf packing c.1.location * (shapeOf packing drawn h c.2).own packing).prod =
        placements packing (w.placed packing rootLocation).around := by
    refine congrArg List.prod (List.map_congr_left fun c hc => ?_)
    rw [own_shapeOf, haround c hc, mul_one]
  rw [← placements_placed, placements_path, placeOf, visitOf, Way.path, List.map_map, List.map_append,
    List.prod_append, List.map_singleton, List.prod_singleton,
    ← (node_placed packing rootLocation w).1, ← own_shapeOf packing drawn h]
  refine congrArg (root.own packing * ·) ?_
  rw [mul_assoc]
  exact congrArg (· * _) hprod

theorem qualify_injective {owner a b : Str} (hab : qualify owner a = qualify owner b) : a = b := by
  unfold qualify at hab
  split at hab
  · exact List.cons_injective (List.append_cancel_left hab)
  · exact hab

theorem ports_shapeOf (item : Item L P B Q) :
    (shapeOf packing drawn h item).info.ports =
      (item.withPorts.map (portsOf drawn h)).getD Dict.empty := by
  cases item with
  | part info => rfl
  | assembly info map location rootLocation children => rfl
  | container projectName name children => rfl

theorem mem_visits_visitOf {info : ItemInfo L B Q} {map : Dict Str (List Str)}
    {location : Option (Placement L P)} {rootLocation : Option P} {children : List (Child L P B Q)}
    {w : Way L P B Q} (hw : w ∈ ways children) :
    visitOf packing drawn h rootLocation w ∈
      visits (shapeOf packing drawn h (.assembly info map location rootLocation children)) := by
  have hplaced : w.placed packing rootLocation ∈
      ways (applyRootPlacement packing rootLocation children) := by
    rw [ways_applyRootPlacement]
    exact List.mem_map_of_mem hw
  have hmem := mem_visits_of_ways packing drawn h _ [] _ hplaced
  rw [(node_placed packing rootLocation w).1, ← applyRootPlacement_shapes] at hmem
  rw [visits, shapeOf, visitsFrom]
  exact List.mem_cons_of_mem _ hmem

/-- **Where the traversal reports a port of a node.** -/
theorem reported_iff {info : ItemInfo L B Q} {map : Dict Str (List Str)}
    {location : Option (Placement L P)} {rootLocation : Option P} {children : List (Child L P B Q)}
    {w : Way L P B Q} (hw : w ∈ ways children) (portName : Str) (frame : L) :
    Reported packing (shapeOf packing drawn h (.assembly info map location rootLocation children))
        (visitOf packing drawn h rootLocation w) portName frame ↔
      ∃ inner port, w.node.2.withPorts = some inner ∧
        (portsOf drawn h inner).get? portName = some port ∧
          frame = carry packing rootLocation w * placementOf packing w.node.1.location *
            w.node.2.own packing * portLocation port := by
  generalize hroot : shapeOf packing drawn h (.assembly info map location rootLocation children) = root
  have hplace : placeOf packing root (visitOf packing drawn h rootLocation w).path =
      root.own packing * (carry packing rootLocation w * placementOf packing w.node.1.location *
        w.node.2.own packing) := placeOf_visitOf packing drawn h root hw
  constructor
  · rintro ⟨r, -, hat, hname, hlocation⟩
    obtain ⟨p, hp, rfl⟩ := List.mem_map.1 hat
    obtain rfl := qualify_injective hname
    have hports : p ∈ ((w.node.2.withPorts.map (portsOf drawn h)).getD Dict.empty).items := by
      rw [← ports_shapeOf packing drawn h]
      exact hp
    cases hinner : w.node.2.withPorts with
    | none =>
      rw [hinner] at hports
      exact absurd hports (by simp [Dict.empty])
    | some inner =>
      rw [hinner] at hports
      refine ⟨inner, p.2, rfl, Dict.get?_eq_some.2 hports, ?_⟩
      have heq := hlocation
      simp only [Option.getD_some] at heq
      rw [hplace, mul_assoc] at heq
      exact (mul_left_cancel heq).symm
  · rintro ⟨inner, port, hinner, hport, rfl⟩
    have hports : (portName, port) ∈ (visitOf packing drawn h rootLocation w).item.info.ports.items := by
      show _ ∈ (shapeOf packing drawn h w.node.2).info.ports.items
      rw [ports_shapeOf, hinner]
      exact Dict.get?_eq_some.1 hport
    have hat := List.mem_map_of_mem (f := fun p : Str × InterfacePort L B =>
      ({ name := qualify (ownerOf (visitOf packing drawn h rootLocation w).path) p.1
         port := p.2
         location := placeOf packing root (visitOf packing drawn h rootLocation w).path *
            portLocation p.2
         interface := (interfaceOfPort
            (visitOf packing drawn h rootLocation w).item.info.interfaces).get? p.1
         owner := ownerOf (visitOf packing drawn h rootLocation w).path } : PortRecord L B)) hports
    refine ⟨_, ?_, hat, rfl, ?_⟩
    · rw [portsAsync_eq, ← hroot]
      rw [← hroot] at hat
      exact List.mem_flatMap.2 ⟨_, mem_visits_visitOf packing drawn h hw, hat⟩
    · show _ * portLocation port = _
      rw [hplace, mul_assoc]

/-! ## What an entry of a `map:` gives -/

theorem itemPlacement_eq (placement : L) (item : Item L P B Q) :
    itemPlacement packing placement item = placement * item.own packing := by
  cases item with
  | part info => exact (mul_one placement).symm
  | container projectName name children => exact (mul_one placement).symm
  | assembly info map location rootLocation children =>
    cases location with
    | none => exact (mul_one placement).symm
    | some location => rfl

/-- What is given under one name: a port, and instances of interfaces. -/
def MappedPorts.under (mapped : MappedPorts L B) (name : Str) :
    Option (InterfacePort L B) × (Str → Option L) :=
  (mapped.ports.get? name, fun interfaceName => recorded mapped.inherits interfaceName name)

omit [Group L] in
theorem under_empty (name : Str) :
    (⟨Dict.empty, Dict.empty⟩ : MappedPorts L B).under name = (none, fun _ => none) := rfl

omit [Group L] in
/-- An instance that is mapped. -/
theorem recorded_mergeInherit_one (inherits : Dict Str (InterfaceInherits L)) (matched name : Str)
    (location : L) (interfaceName instanceName : Str) :
    recorded (mergeInherit inherits ⟨matched, Dict.empty.set name location, Dict.empty⟩) interfaceName
        instanceName =
      (recorded inherits interfaceName instanceName).or
        (if matched = interfaceName ∧ name = instanceName then some location else none) := by
  rw [recorded_mergeInherit, recorded_recordInherit]
  by_cases hmatched : matched = interfaceName
  · rw [if_pos hmatched, Dict.get?_set, Dict.get?_empty]
    by_cases hname : name = instanceName
    · rw [if_pos hname, if_pos ⟨hmatched, hname⟩]
    · rw [if_neg hname, if_neg fun h => hname h.2]
  · rw [if_neg hmatched, if_neg fun h => hmatched h.1, Option.or_none]

/-- An entry gives nothing under another name. -/
theorem under_resolveEntry_of_ne (nodes : Dict Str (Item L P B Q × L)) (mapped : MappedPorts L B)
    {entry : Str × List Str} {name : Str} (hne : entry.1 ≠ name) :
    (resolveEntry packing drawn h nodes mapped entry).under name = mapped.under name := by
  have hport : ∀ info placement portName,
      (resolvePort drawn h mapped entry.1 info placement portName).under name = mapped.under name := by
    intro info placement portName
    unfold resolvePort
    split
    · rfl
    · rw [MappedPorts.under, Dict.get?_set_of_ne _ _ hne]
      rfl
  have hinstance : ∀ info placement interfaceName instanceName,
      (resolveInstance packing drawn h mapped entry.1 info placement interfaceName
        instanceName).under name = mapped.under name := by
    intro info placement interfaceName instanceName
    unfold resolveInstance
    split
    · rfl
    · split
      · rfl
      · split
        · refine Prod.ext rfl (funext fun other => ?_)
          show recorded (mergeInherit _ _) other name = _
          rw [recorded_mergeInherit_one, if_neg fun h => hne h.2, Option.or_none]
          rfl
        · rfl
  unfold resolveEntry
  split
  · split
    · rfl
    · split
      · rfl
      · exact hport _ _ _
  · split
    · rfl
    · split
      · rfl
      · exact hinstance _ _ _ _
  · rfl

theorem under_foldl_resolveEntry (nodes : Dict Str (Item L P B Q × L)) {name : Str} :
    ∀ (entries : List (Str × List Str)) (mapped : MappedPorts L B), (∀ e ∈ entries, e.1 ≠ name) →
      (entries.foldl (resolveEntry packing drawn h nodes) mapped).under name = mapped.under name
  | [], _, _ => rfl
  | e :: entries, mapped, hne => by
    rw [List.foldl_cons, under_foldl_resolveEntry nodes entries _ fun e he => hne e (by simp [he]),
      under_resolveEntry_of_ne packing drawn h nodes mapped (hne e (by simp))]

/-- **Each name is given by its own entry**, whatever the others are. -/
theorem under_resolveMap {map : Dict Str (List Str)} {name : Str} {spec : List Str}
    (hspec : map.get? name = some spec) (nodes : Dict Str (Item L P B Q × L)) :
    ∃ before : MappedPorts L B, before.under name = (none, fun _ => none) ∧
      (resolveMap packing drawn h map nodes).under name =
        (resolveEntry packing drawn h nodes before (name, spec)).under name := by
  obtain ⟨pre, post, hitems⟩ := List.append_of_mem (Dict.get?_eq_some.1 hspec)
  have hnodup : ((pre ++ (name, spec) :: post).map Prod.fst).Nodup := hitems ▸ map.nodup
  rw [List.map_append, List.map_cons, List.nodup_append] at hnodup
  obtain ⟨-, hpost, hdisjoint⟩ := hnodup
  have hpre : ∀ e ∈ pre, e.1 ≠ name := fun e he =>
    hdisjoint e.1 (List.mem_map_of_mem he) name (by simp)
  have hpost : ∀ e ∈ post, e.1 ≠ name := by
    rintro e he rfl
    exact (List.nodup_cons.1 hpost).1 (List.mem_map.2 ⟨e, he, rfl⟩)
  refine ⟨pre.foldl (resolveEntry packing drawn h nodes) ⟨Dict.empty, Dict.empty⟩, ?_, ?_⟩
  · rw [under_foldl_resolveEntry packing drawn h nodes pre _ hpre, under_empty]
  · rw [resolveMap, hitems, List.foldl_append, List.foldl_cons,
      under_foldl_resolveEntry packing drawn h nodes post _ hpost]

/-! ## The ports of the assembly -/

/-- No other declaration of an assembly makes a port of this name. -/
structure Alone (info : ItemInfo L B Q) (mapped : MappedPorts L B) (name : Str)
    (given : InterfacePort L B) : Prop where
  declared : name ∉ info.declaration.ports.keys
  mappedPort : ∀ port, mapped.ports.get? name = some port → port = given
  mappedInstance : ∀ x ∈ mapped.inherits.items.map Prod.snd, ∀ port,
    (name, port) ∈ inheritedPorts (resolve drawn h.interfaces) drawn x → port = given
  implemented : ∀ c ∈ info.declaration.inherits, ∀ n ∈ c.2.normalized.keys,
    ∀ p ∈ (interfacePorts drawn h c.1).keys, inheritedPortName n p ≠ name

/-- A port that is mapped is one of the assembly's, unless another declaration makes one of its name. -/
def Given (info : ItemInfo L B Q) (mapped : MappedPorts L B) (name : Str)
    (given : InterfacePort L B) : Prop :=
  Alone drawn h info mapped name given →
    (portsOf drawn h (setMapped info mapped)).get? name = some given

theorem get?_ports_adopted {interfaces : Str → Interface L B Q} {names : List Str} {name : Str}
    {given : InterfacePort L B} :
    ∀ (calls : List (InterfaceInherits L)) (obj : Interface L B Q),
      (∀ x ∈ calls, ∀ port, (name, port) ∈ inheritedPorts interfaces drawn x → port = given) →
      (obj.ports.get? name = some given ∨
        ∃ x ∈ calls, (name, given) ∈ inheritedPorts interfaces drawn x) →
      (calls.foldl (adoptInherit interfaces drawn names) obj).ports.get? name = some given
  | [], obj, _, hgiven => by
    rcases hgiven with hgiven | ⟨x, hx, -⟩
    · exact hgiven
    · exact absurd hx (by simp)
  | x :: calls, obj, honly, hgiven => by
    rw [List.foldl_cons]
    apply get?_ports_adopted calls _ fun y hy => honly y (List.mem_cons_of_mem _ hy)
    have hagree := honly x List.mem_cons_self
    rcases hgiven with hgiven | ⟨y, hy, hmade⟩
    · exact Or.inl (Dict.get?_setAll_of_agree hagree (Or.inr hgiven))
    · rcases List.mem_cons.1 hy with rfl | hy
      · exact Or.inl (Dict.get?_setAll_of_agree hagree (Or.inl hmade))
      · exact Or.inr ⟨y, hy, hmade⟩

theorem get?_ports_implemented {interfaces : Str → Interface L B Q} {names : List Str} {name : Str} :
    ∀ (configs : List (Str × InheritConfig L)) (obj : Interface L B Q),
      (∀ c ∈ configs, ∀ n ∈ c.2.normalized.keys, ∀ p ∈ (interfaces c.1).ports.keys,
        inheritedPortName n p ≠ name) →
      (configs.foldl (fun obj c => adoptInherit interfaces drawn names obj
        (makeInherits c.1 c.2 obj.ports)) obj).ports.get? name = obj.ports.get? name
  | [], _, _ => rfl
  | c :: configs, obj, hne => by
    rw [List.foldl_cons,
      get?_ports_implemented configs _ fun c' hc' => hne c' (List.mem_cons_of_mem _ hc')]
    apply Dict.get?_setAll_of_notMem
    intro hmem
    obtain ⟨⟨q, port⟩, hmade, rfl⟩ := List.mem_map.1 hmem
    obtain ⟨n, location, p, own, hn, hown, hq, -⟩ := (mem_inheritedPorts interfaces drawn).1 hmade
    refine hne c List.mem_cons_self n ?_ p ?_ hq.symm
    · have hconfig : (c.2.normalized.get? n).isSome := by
        rw [makeInherits, Dict.get?_mapValues] at hn
        obtain ⟨config, hconfig, -⟩ := Option.map_eq_some_iff.1 hn
        exact Option.isSome_iff_exists.2 ⟨config, hconfig⟩
      obtain ⟨config, hconfig⟩ := Option.isSome_iff_exists.1 hconfig
      exact Dict.mem_keys.2 ⟨config, Dict.get?_eq_some.1 hconfig⟩
    · exact Dict.mem_keys.2 ⟨own, Dict.get?_eq_some.1 hown⟩

/-- **What is mapped is the assembly's**, as a port or by an instance. -/
theorem given_of_mapped {info : ItemInfo L B Q} {mapped : MappedPorts L B} {name : Str}
    {given : InterfacePort L B}
    (hgiven : mapped.ports.get? name = some given ∨ ∃ x ∈ mapped.inherits.items.map Prod.snd,
      (name, given) ∈ inheritedPorts (resolve drawn h.interfaces) drawn x) :
    Given drawn h info mapped name given := by
  intro halone
  rw [portsOf, getPorts, instantiate]
  refine (get?_ports_implemented drawn _ _ fun c hc n hn p hp =>
    halone.implemented c hc n hn p hp).trans ?_
  apply get?_ports_adopted drawn _ _ fun x hx port hport => halone.mappedInstance x hx port hport
  rcases hgiven with hport | hinstance
  · left
    have hdeclared : info.declaration.ports.get? name = none := by
      cases hget : info.declaration.ports.get? name with
      | none => rfl
      | some port => exact absurd (Dict.mem_keys.2 ⟨port, Dict.get?_eq_some.1 hget⟩) halone.declared
    show (mapped.ports.update info.declaration.ports).get? name = some given
    rw [Dict.get?_update, hdeclared, Option.none_or]
    exact hport
  · exact Or.inr hinstance

/-! ## When the three agree -/

/-- The ports of an instance are those of the interface, all moved by one frame; of an instance that the
object declares, by the location that it declares. -/
def MovedTogether (info : ItemInfo L B Q) (interfaceName instanceName : Str) (ports : Dict Str Str) : Prop :=
  ∃ frame : L,
    (∀ location, recorded (parentsOf drawn h info) interfaceName instanceName = some location →
      location = frame) ∧
    ∀ portName fullName own port, ports.get? portName = some fullName →
      (portsOf drawn h info).get? fullName = some own →
        (interfacePorts drawn h interfaceName).get? portName = some port →
          portLocation own = frame * portLocation port

/-- The deep traversal of an assembly reports a port of a node at a frame, in the assembly's own frame. -/
def IsAt (info : ItemInfo L B Q) (map : Dict Str (List Str)) (location : Option (Placement L P))
    (rootLocation : Option P) (children : List (Child L P B Q)) (w : Way L P B Q) (portName : Str)
    (frame : L) : Prop :=
  Reported packing (shapeOf packing drawn h (.assembly info map location rootLocation children))
    (visitOf packing drawn h rootLocation w) portName frame

/-- What an assembly gives out, and what is connected to, is where the deep traversal reports it. -/
structure Agree (info : ItemInfo L B Q) (map : Dict Str (List Str)) (location : Option (Placement L P))
    (rootLocation : Option P) (children : List (Child L P B Q)) : Prop where
  /-- A node and one of its ports. -/
  port : ∀ name node portName, map.get? name = some [node, portName] →
    ∀ w, named children node = some w → ∀ inner, w.node.2.withPorts = some inner →
      ((portsOf drawn h inner).get? portName).isSome →
        let mapped := mappedOf packing drawn h map rootLocation children
        ∃ given, mapped.ports.get? name = some given ∧ Given drawn h info mapped name given ∧
          IsAt packing drawn h info map location rootLocation children w portName (portLocation given)
  /-- A node, an interface and an instance of it. -/
  instance' : ∀ name node interfaceName instanceName,
    map.get? name = some [node, interfaceName, instanceName] →
    ∀ w, named children node = some w → ∀ inner, w.node.2.withPorts = some inner →
    ∀ table, interfacesOf drawn h inner = .ok table →
    ∀ matched, matchInterface table.keys interfaceName inner.projectName = some matched →
    ∀ ports, (table.instances matched).get? instanceName = some ports →
      let mapped := mappedOf packing drawn h map rootLocation children
      ∃ inherit ∈ mapped.inherits.items.map Prod.snd, inherit.name = matched ∧
        ∃ frame, inherit.instances.get? name = some frame ∧
          ∀ portName port, (interfacePorts drawn h matched).get? portName = some port →
          ∀ fullName, ports.get? portName = some fullName →
          ((portsOf drawn h inner).get? fullName).isSome →
            let given := inheritedPort drawn inherit name frame port
            Given drawn h info mapped (inheritedPortName name portName) given ∧
              IsAt packing drawn h info map location rootLocation children w fullName
                (portLocation given)
  /-- The target of a connection. -/
  target : ∀ w ∈ ways children, ∀ done connectToName, targetOf done connectToName = some w.node →
    ∀ portName frame, targetFrame packing drawn h w.node portName = some frame →
      IsAt packing drawn h info map location rootLocation children w portName
        (carry packing rootLocation w * frame)

/-- No node with a port that can be connected to is moved by a location of its own, and the ports of an
instance that is mapped are moved together. -/
structure Plain (map : Dict Str (List Str)) (children : List (Child L P B Q)) : Prop where
  target : ∀ w ∈ ways children, w.node.1.location.isSome →
    ∀ inner, w.node.2.withPorts = some inner → (portsOf drawn h inner).items ≠ [] →
      w.node.2.own packing = 1
  instance' : ∀ name node interfaceName instanceName,
    map.get? name = some [node, interfaceName, instanceName] →
    ∀ w, named children node = some w → ∀ inner, w.node.2.withPorts = some inner →
      ∀ table, interfacesOf drawn h inner = .ok table →
        ∀ matched, matchInterface table.keys interfaceName inner.projectName = some matched →
          ∀ ports, (table.instances matched).get? instanceName = some ports →
            MovedTogether drawn h inner matched instanceName ports

/-- Where a node of a name is, with what it is moved by on its own account. -/
def placeOfNode (rootLocation : Option P) (w : Way L P B Q) : L :=
  carry packing rootLocation w * placementOf packing w.node.1.location * w.node.2.own packing

section

variable {map : Dict Str (List Str)} {rootLocation : Option P} {children : List (Child L P B Q)}
  {name node : Str} {w : Way L P B Q} {inner : ItemInfo L B Q}

/-- **A port that is mapped.** -/
theorem port_mapped {portName : Str} {port : InterfacePort L B}
    (hspec : map.get? name = some [node, portName]) (hw : named children node = some w)
    (hinner : w.node.2.withPorts = some inner)
    (hport : (portsOf drawn h inner).get? portName = some port) :
    (mappedOf packing drawn h map rootLocation children).ports.get? name =
      some ⟨some (placeOfNode packing rootLocation w * portLocation port), port.boundary⟩ := by
  obtain ⟨before, -, hunder⟩ := under_resolveMap packing drawn h hspec
    (nodeIndex packing [] 1 Dict.empty (applyRootPlacement packing rootLocation children))
  have hnode := get?_nodeIndex_root packing rootLocation children node
  rw [hw, Option.map_some] at hnode
  rw [resolveEntry] at hunder
  simp only [hnode, hinner, itemPlacement_eq] at hunder
  have hports := congrArg Prod.fst hunder
  rw [resolvePort, hport] at hports
  exact hports.trans (Dict.get?_set_self _ _ _)

/-- **An instance that is mapped.** -/
theorem instance_mapped {interfaceName instanceName matched : Str} {table : Table}
    {ports : Dict Str Str} (hspec : map.get? name = some [node, interfaceName, instanceName])
    (hw : named children node = some w) (hinner : w.node.2.withPorts = some inner)
    (htable : interfacesOf drawn h inner = .ok table)
    (hmatched : matchInterface table.keys interfaceName inner.projectName = some matched)
    (hports : (table.instances matched).get? instanceName = some ports) :
    recorded (mappedOf packing drawn h map rootLocation children).inherits matched name =
      some (placeOfNode packing rootLocation w *
        instanceLocation drawn h inner table matched instanceName) := by
  obtain ⟨before, hbefore, hunder⟩ := under_resolveMap packing drawn h hspec
    (nodeIndex packing [] 1 Dict.empty (applyRootPlacement packing rootLocation children))
  have hnode := get?_nodeIndex_root packing rootLocation children node
  rw [hw, Option.map_some] at hnode
  rw [resolveEntry] at hunder
  simp only [hnode, hinner, itemPlacement_eq] at hunder
  have hrecorded := congrFun (congrArg Prod.snd hunder) matched
  have hnone : recorded before.inherits matched name = none :=
    congrFun (congrArg Prod.snd hbefore) matched
  simp only [resolveInstance, htable, hmatched, hports, Option.isSome_some, if_true,
    packing.unpack_asPacked] at hrecorded
  refine hrecorded.trans ?_
  show recorded (mergeInherit before.inherits _) matched name = _
  rw [recorded_mergeInherit_one, hnone, Option.none_or, if_pos ⟨rfl, rfl⟩]
  rfl

end

/-- The instances that are mapped are kept under the name of their interface. -/
def Keyed (inherits : Dict Str (InterfaceInherits L)) : Prop :=
  ∀ key x, inherits.get? key = some x → x.name = key

omit [Group L] in
theorem Keyed.merge {inherits : Dict Str (InterfaceInherits L)} (hkeyed : Keyed inherits)
    (inherit : InterfaceInherits L) : Keyed (mergeInherit inherits inherit) := by
  intro key x hx
  unfold mergeInherit at hx
  cases hexisting : inherits.get? inherit.name with
  | none =>
    rw [hexisting, Dict.get?_set] at hx
    split at hx
    · rename_i hname
      rw [← Option.some.inj hx, hname]
    · exact hkeyed key x hx
  | some existing =>
    rw [hexisting, Dict.get?_set] at hx
    split at hx
    · rename_i hname
      have hkept : existing.name = inherit.name := hkeyed _ _ hexisting
      rw [← Option.some.inj hx, ← hname]
      exact hkept
    · exact hkeyed key x hx

theorem keyed_resolveEntry (nodes : Dict Str (Item L P B Q × L)) {mapped : MappedPorts L B}
    (hkeyed : Keyed mapped.inherits) (entry : Str × List Str) :
    Keyed (resolveEntry packing drawn h nodes mapped entry).inherits := by
  unfold resolveEntry
  split
  · split
    · exact hkeyed
    · split
      · exact hkeyed
      · unfold resolvePort
        split
        · exact hkeyed
        · exact hkeyed
  · split
    · exact hkeyed
    · split
      · exact hkeyed
      · unfold resolveInstance
        split
        · exact hkeyed
        · split
          · exact hkeyed
          · split
            · exact hkeyed.merge _
            · exact hkeyed
  · exact hkeyed

theorem keyed_mappedOf (map : Dict Str (List Str)) (rootLocation : Option P)
    (children : List (Child L P B Q)) :
    Keyed (mappedOf packing drawn h map rootLocation children).inherits := by
  unfold mappedOf resolveMap
  have hstart : Keyed (⟨Dict.empty, Dict.empty⟩ : MappedPorts L B).inherits := by
    intro key x hx
    exact absurd hx (by simp)
  generalize (⟨Dict.empty, Dict.empty⟩ : MappedPorts L B) = mapped at hstart
  induction map.items generalizing mapped with
  | nil => exact hstart
  | cons entry entries ih =>
    rw [List.foldl_cons]
    exact ih _ (keyed_resolveEntry packing drawn h _ hstart entry)

/-- **Which instances are moved together**: those of which every port is where `_instance_location` has
the interface. -/
theorem movedTogether_iff {info : ItemInfo L B Q} {table : Table} {interfaceName instanceName : Str}
    {ports : Dict Str Str} (hports : (table.instances interfaceName).get? instanceName = some ports) :
    MovedTogether drawn h info interfaceName instanceName ports ↔
      ∀ portName fullName own port, ports.get? portName = some fullName →
        (portsOf drawn h info).get? fullName = some own →
          (interfacePorts drawn h interfaceName).get? portName = some port →
            portLocation own =
              instanceLocation drawn h info table interfaceName instanceName * portLocation port := by
  constructor
  · rintro ⟨frame, hdeclared, hmoved⟩ portName fullName own port hfull hown hport
    suffices hframe : instanceLocation drawn h info table interfaceName instanceName = frame by
      rw [hframe]
      exact hmoved portName fullName own port hfull hown hport
    cases hrecorded : recorded (parentsOf drawn h info) interfaceName instanceName with
    | some location =>
      rw [instanceLocation, hrecorded]
      exact hdeclared location hrecorded
    | none =>
      rw [instanceLocation, hrecorded, hports, Option.getD_some]
      dsimp only
      -- the frame of any port of the instance is this one
      generalize hframes : ((ports.keys.mergeSort (· ≤ ·)).filterMap fun portName => do
        let own ← (portsOf drawn h info).get? (← ports.get? portName)
        let port ← (interfacePorts drawn h interfaceName).get? portName
        return portLocation own * (portLocation port)⁻¹) = frames
      have hall : ∀ f ∈ frames, f = frame := by
        intro f hf
        rw [← hframes, List.mem_filterMap] at hf
        obtain ⟨q, -, hq⟩ := hf
        obtain ⟨full, hfull, hq⟩ := Option.bind_eq_some_iff.1 hq
        obtain ⟨own, hown, hq⟩ := Option.bind_eq_some_iff.1 hq
        obtain ⟨port, hport, hq⟩ := Option.bind_eq_some_iff.1 hq
        rw [← Option.some.inj hq, hmoved q full own port hfull hown hport, mul_inv_cancel_right]
      have hne : frames ≠ [] := by
        rw [← hframes]
        intro hnil
        have hmem : portName ∈ ports.keys.mergeSort (· ≤ ·) :=
          List.mem_mergeSort.2 (Dict.mem_keys.2 ⟨fullName, Dict.get?_eq_some.1 hfull⟩)
        have hno := List.filterMap_eq_nil_iff.1 hnil portName hmem
        simp only [hfull, hown, hport, Option.bind_eq_bind, Option.bind_some] at hno
        exact absurd hno (by simp)
      obtain ⟨f, rest, rfl⟩ := List.exists_cons_of_ne_nil hne
      exact hall f List.mem_cons_self
  · intro hmoved
    refine ⟨instanceLocation drawn h info table interfaceName instanceName, ?_, hmoved⟩
    intro location hlocation
    rw [instanceLocation, hlocation]

theorem isAt_iff {info : ItemInfo L B Q} {map : Dict Str (List Str)}
    {location : Option (Placement L P)} {rootLocation : Option P} {children : List (Child L P B Q)}
    {w : Way L P B Q} {inner : ItemInfo L B Q} (hw : w ∈ ways children)
    (hinner : w.node.2.withPorts = some inner) {portName : Str} {port : InterfacePort L B}
    (hport : (portsOf drawn h inner).get? portName = some port) (frame : L) :
    IsAt packing drawn h info map location rootLocation children w portName frame ↔
      frame = placeOfNode packing rootLocation w * portLocation port := by
  rw [IsAt, reported_iff packing drawn h hw]
  constructor
  · rintro ⟨inner', port', hinner', hport', hframe⟩
    obtain rfl := Option.some.inj (hinner.symm.trans hinner')
    obtain rfl := Option.some.inj (hport.symm.trans hport')
    exact hframe
  · intro hframe
    exact ⟨inner, port, hinner, hport, hframe⟩

theorem portLocation_inheritedPort (inherit : InterfaceInherits L) (name : Str) (frame : L)
    (port : InterfacePort L B) :
    portLocation (inheritedPort drawn inherit name frame port) = frame * portLocation port := by
  unfold inheritedPort portLocation
  cases port.location with
  | none => exact (mul_one frame).symm
  | some location => rfl

section

variable {info : ItemInfo L B Q} {map : Dict Str (List Str)} {location : Option (Placement L P)}
  {rootLocation : Option P} {children : List (Child L P B Q)} {w : Way L P B Q} {inner : ItemInfo L B Q}

/-- Where a connection finds a port of its target: the target's own location must move nothing. -/
theorem isAt_target_iff (hw : w ∈ ways children) {at' : Placement L P}
    (hat : w.node.1.location = some at') (hinner : w.node.2.withPorts = some inner) {portName : Str}
    {port : InterfacePort L B} (hport : (portsOf drawn h inner).get? portName = some port) :
    IsAt packing drawn h info map location rootLocation children w portName
        (carry packing rootLocation w * (asLocation packing at' * portLocation port)) ↔
      w.node.2.own packing = 1 := by
  have hplacement : placementOf packing w.node.1.location = asLocation packing at' := by
    rw [hat]
    rfl
  rw [isAt_iff packing drawn h hw hinner hport, placeOfNode, hplacement, ← mul_assoc]
  constructor
  · intro hisAt
    exact (mul_left_cancel ((mul_one _).trans (mul_right_cancel hisAt))).symm
  · intro hown
    rw [hown, mul_one]

/-- Where an instance that is mapped has a port of its interface. -/
theorem isAt_inheritedPort_iff (hw : w ∈ ways children) (hinner : w.node.2.withPorts = some inner)
    {fullName : Str} {own : InterfacePort L B}
    (hown : (portsOf drawn h inner).get? fullName = some own) (inherit : InterfaceInherits L)
    (name : Str) (frame : L) (port : InterfacePort L B) :
    IsAt packing drawn h info map location rootLocation children w fullName
        (portLocation (inheritedPort drawn inherit name
          (placeOfNode packing rootLocation w * frame) port)) ↔
      portLocation own = frame * portLocation port := by
  rw [isAt_iff packing drawn h hw hinner hown, portLocation_inheritedPort, mul_assoc]
  constructor
  · intro hisAt
    exact (mul_left_cancel hisAt).symm
  · intro hmoved
    rw [hmoved]

end

/-- **When the three agree.** -/
theorem agree_iff_plain (info : ItemInfo L B Q) (map : Dict Str (List Str))
    (location : Option (Placement L P)) (rootLocation : Option P) (children : List (Child L P B Q)) :
    Agree packing drawn h info map location rootLocation children ↔
      Plain packing drawn h map children := by
  constructor
  · intro hagree
    refine ⟨fun w hw hlocation inner hinner hports => ?_, ?_⟩
    · -- a sibling that is connected to one of the ports
      obtain ⟨at', hat⟩ := Option.isSome_iff_exists.1 hlocation
      obtain ⟨⟨portName, port⟩, hmem⟩ := List.exists_mem_of_ne_nil _ hports
      have hport := Dict.get?_eq_some.2 hmem
      have hframe : targetFrame packing drawn h w.node portName =
          some (asLocation packing at' * portLocation port) := by
        simp [targetFrame, hat, hinner, hport]
      exact (isAt_target_iff packing drawn h hw hat hinner hport).1
        (hagree.target w hw [w.node] w.node.1.name (by simp [targetOf]) portName _ hframe)
    · intro name node interfaceName instanceName hspec w hw inner hinner table htable matched hmatched
        ports hports
      obtain ⟨inherit, hinherit, hname, frame, hframe, hinstance⟩ := hagree.instance' name node
        interfaceName instanceName hspec w hw inner hinner table htable matched hmatched ports hports
      -- the frame is the one that was mapped
      have hmapped : recorded (mappedOf packing drawn h map rootLocation children).inherits matched name =
          _ := instance_mapped packing drawn h hspec hw hinner htable hmatched hports
      obtain ⟨⟨key, x⟩, hitem, rfl⟩ := List.mem_map.1 hinherit
      have hget := Dict.get?_eq_some.2 hitem
      have hkey : x.name = key := keyed_mappedOf packing drawn h map rootLocation children key x hget
      have hkey : key = matched := hkey.symm.trans hname
      subst hkey
      rw [recorded, hget, Option.bind_some, hframe] at hmapped
      obtain rfl := Option.some.inj hmapped
      rw [movedTogether_iff drawn h hports]
      intro portName fullName own port hfull hown hport
      exact (isAt_inheritedPort_iff packing drawn h (List.mem_of_find?_eq_some hw) hinner hown _ _ _ _).1
        (hinstance portName port hport fullName hfull (by rw [hown]; rfl)).2
  · intro hplain
    refine ⟨fun name node portName hspec w hw inner hinner hport => ?_, ?_,
      fun w hw done connectToName hdone portName frame hframe => ?_⟩
    · obtain ⟨port, hport⟩ := Option.isSome_iff_exists.1 hport
      have hmapped : (mappedOf packing drawn h map rootLocation children).ports.get? name = _ :=
        port_mapped packing drawn h hspec hw hinner hport
      refine ⟨_, hmapped, given_of_mapped drawn h (Or.inl hmapped), ?_⟩
      rw [isAt_iff packing drawn h (List.mem_of_find?_eq_some hw) hinner hport]
      rfl
    · intro name node interfaceName instanceName hspec w hw inner hinner table htable matched hmatched
        ports hports
      have hmapped : recorded (mappedOf packing drawn h map rootLocation children).inherits matched name =
          _ := instance_mapped packing drawn h hspec hw hinner htable hmatched hports
      obtain ⟨inherit, hinherit, hframe⟩ := Option.bind_eq_some_iff.1 hmapped
      have hmem : inherit ∈
          (mappedOf packing drawn h map rootLocation children).inherits.items.map Prod.snd :=
        List.mem_map.2 ⟨(matched, inherit), Dict.get?_eq_some.1 hinherit, rfl⟩
      have hname : inherit.name = matched :=
        keyed_mappedOf packing drawn h map rootLocation children matched inherit hinherit
      refine ⟨inherit, hmem, hname, _, hframe, fun portName port hport fullName hfull hown => ⟨?_, ?_⟩⟩
      · apply given_of_mapped drawn h
        refine Or.inr ⟨inherit, hmem, (mem_inheritedPorts _ drawn).2
          ⟨name, _, portName, port, hframe, ?_, rfl, rfl⟩⟩
        rw [hname]
        exact hport
      · obtain ⟨own, hown⟩ := Option.isSome_iff_exists.1 hown
        have hmoved := (movedTogether_iff drawn h hports).1 (hplain.instance' name node interfaceName
          instanceName hspec w hw inner hinner table htable matched hmatched ports hports)
        exact (isAt_inheritedPort_iff packing drawn h (List.mem_of_find?_eq_some hw) hinner hown
          _ _ _ _).2 (hmoved portName fullName own port hfull hown hport)
    · -- the target's own location moves nothing
      unfold targetFrame at hframe
      obtain ⟨at', hat, hframe⟩ := Option.bind_eq_some_iff.1 hframe
      obtain ⟨inner, hinner, hframe⟩ := Option.bind_eq_some_iff.1 hframe
      obtain ⟨port, hport, hframe⟩ := Option.bind_eq_some_iff.1 hframe
      obtain rfl := Option.some.inj hframe
      refine (isAt_target_iff packing drawn h hw hat hinner hport).2 ?_
      refine hplain.target w hw (by rw [hat]; rfl) inner hinner fun hnil => ?_
      have hmem := Dict.get?_eq_some.1 hport
      rw [hnil] at hmem
      exact absurd hmem (by simp)

/-- **When the three agree**, in a tree in which every `map:` has been resolved: if and only if no node that
can be connected to is moved by a location of its own, and the ports of every instance that is mapped are
moved together. -/
theorem mapped_agree_iff (info : ItemInfo L B Q) (map : Dict Str (List Str)) (location : Option (Placement L P))
    (rootLocation : Option P) (children : List (Child L P B Q)) :
    Agree packing drawn h info map location rootLocation (prepareChildren packing drawn h children) ↔
      Plain packing drawn h map (prepareChildren packing drawn h children) :=
  agree_iff_plain packing drawn h info map location rootLocation _

/-- The ports of an instance are moved together, whether it is declared or inherited, as long as the tables
of the interfaces and of the object agree and no port without a name comes with a named instance. -/
theorem movedTogether_of_sits {info : ItemInfo L B Q} (hall : AllSit drawn h.interfaces)
    (hsits : Sits (resolve drawn h.interfaces)
      (instantiate (resolve drawn h.interfaces) drawn info.declaration))
    (hnamed : PortsNamed (levels drawn h info.declaration)) {table : Table}
    (htable : interfacesOf drawn h info = .ok table) {interfaceName instanceName : Str}
    {ports : Dict Str Str} (hports : (table.instances interfaceName).get? instanceName = some ports) :
    MovedTogether drawn h info interfaceName instanceName ports :=
  moved_listed drawn hall hsits hnamed htable hports

end

/-! ## A stand with a location of its own -/

/-- Translations along one axis. -/
def alongOneAxis : Packing (Multiplicative ℤ) (Multiplicative ℤ) := ⟨id, id, fun _ => rfl⟩

def noInterfaces : Hierarchy (Multiplicative ℤ) Unit Unit := ⟨[], trivial⟩

/-- An object with a port `top` at its origin. -/
def withTop (name : Str) : ItemInfo (Multiplicative ℤ) Unit Unit where
  projectName := "pkg".toList
  name := name
  label := none
  declaration := ⟨Dict.empty.set "top".toList ⟨none, ()⟩, Dict.empty, [], [], false⟩

/-- An assembly that states that it is 10 mm away, in the origin of another one. -/
def stand : Child (Multiplicative ℤ) (Multiplicative ℤ) Unit Unit :=
  (⟨some "stand".toList, some (.location 1)⟩,
    .assembly (withTop "stand".toList) Dict.empty (some (.location (.ofAdd 10))) none [])

/-- What is connected to the stand is put where it would be without its location. -/
theorem not_agree_stand :
    ¬ Agree alongOneAxis (fun _ => ()) noInterfaces (withTop "desk".toList) Dict.empty none none
      (prepareChildren alongOneAxis (fun _ => ()) noInterfaces [stand]) := by
  intro hagree
  have hplain := (agree_iff_plain _ _ _ _ _ _ _ _).1 hagree
  have hown := hplain.target ⟨[], (⟨some "stand".toList, some (.location 1)⟩,
    prepare alongOneAxis (fun _ => ()) noInterfaces stand.2)⟩ List.mem_cons_self rfl _ rfl
    (by decide)
  exact absurd hown (by decide)

end PartCAD.Mapped
