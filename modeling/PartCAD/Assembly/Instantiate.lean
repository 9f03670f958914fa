import PartCAD.Assembly.Connect
import PartCAD.Assembly.Endpoints

/-!
# Reading an assembly

The nodes of a file are read one after the other, where a connected item is put onto an item that is
there already, and with it is recorded where its joint is and which way it is pushed.  A placement of
the root node is composed onto every item afterwards.

* `settled_handleNodeList` : what reading records of the joints agrees with where it puts the items;
* `joints_agree_iff` : and still does at the end exactly where the root placement leaves every joint of the
  file where it was;
* `resolveStepGeometry_of_joint` : an exploded step shows the gap where the record says.
-/

namespace PartCAD.Instantiate

open PartCAD.Lib PartCAD.Geometry PartCAD.Ports PartCAD.Assembly PartCAD.Endpoints

variable {B P ι F V : Type}

/-! ## Files and assemblies -/

abbrev PlacedPort (B : Type) := InterfacePort (Location ℝ) B

/-- A `connect` or a `connectPorts` section. -/
structure Section (V : Type) where
  name : Option Str
  ends : Declaration
  withParams : Dict Str V
  toParams : Dict Str V

inductive Placement (V : Type) where
  | located (location : Location ℝ)
  | connected (s : Section V)
  | unplaced

/-- A node with `links`, or one that names a part or an assembly, if it does. -/
inductive Node (B V : Type) where
  | container (name : Option Str) (placement : Placement V) (links : List (Node B V))
  | item (name : Option Str) (placement : Placement V) (item : Option (Item (PlacedPort B)))

/-- The root node, with `links` or of one item. -/
inductive File (B V : Type) where
  | links (location : Option (Location ℝ)) (links : List (Node B V))
  | item (name : Option Str) (placement : Placement V) (item : Option (Item (PlacedPort B)))

structure Connection where
  target : Option Str
  withPort : Option Str
  toPort : Option Str
  withInterface : Option Str
  toInterface : Option Str
  point : Option (Vec ℝ)
  direction : Option (Vec ℝ)

/-- What an `AssemblyChild` says of where it is. -/
structure Placed where
  name : Option Str
  location : Option (Location ℝ)
  /-- `how.push_direction` -/
  pushDirection : Option (Vec ℝ)
  connection : Option Connection

inductive Child (B : Type) where
  | item (placed : Placed) (item : Item (PlacedPort B))
  | container (placed : Placed) (children : List (Child B))

namespace Child

def placed : Child B → Placed
  | .item placed _ => placed
  | .container placed _ => placed

/-- What has ports: a container has none. -/
def item? : Child B → Option (Item (PlacedPort B))
  | .item _ a => some a
  | .container _ _ => none

def children : Child B → List (Child B)
  | .item _ _ => []
  | .container _ children => children

def withPlaced (placed : Placed) : Child B → Child B
  | .item _ a => .item placed a
  | .container _ children => .container placed children

end Child

/-- A list of children of the assembly, or of a container in it. -/
inductive Within : List (Child B) → List (Child B) → Prop
  | here (children : List (Child B)) : Within children children
  | inside {children l : List (Child B)} {c : Child B} (hc : c ∈ children)
      (h : Within c.children l) : Within children l

/-! ## The functions -/

noncomputable section

/-- `_push_direction`.  Rounding only takes away what the floating point numbers leave. -/
def pushDirection (matedFrame : Option (Location ℝ)) : Option (Vec ℝ) :=
  matedFrame.bind fun matedFrame =>
    let axis := matedFrame.rotateVector (0, 0, -1)
    let length := axisNorm axis
    if length = 0 then none
    else some (axis.1 / length, axis.2.1 / length, axis.2.2 / length)

/-- The offsets for the parameters that a section gives to one end. -/
def paramOffsets (ctx : Context (Location ℝ) B P ι F)
    (offsets : Str → Str → V → List (Location ℝ)) (interface : Option Str) (params : Dict Str V) :
    List (Location ℝ) :=
  match interface with
  | some name =>
    if (ctx.interface name).isSome then params.items.flatMap fun p => offsets name p.1 p.2 else []
  | none => []

/-- `_connection_info` -/
def connectionInfo (target : Option Str) (source peer : Selected (PlacedPort B))
    (targetLocation : Location ℝ) : Connection :=
  let frame := peer.found.map fun port => targetLocation * portLocation port
  { target := target
    withPort := source.port
    toPort := peer.port
    withInterface := source.interface
    toInterface := peer.interface
    point := frame.map Location.t
    direction := frame.map (Location.rotateVector · (0, 0, 1)) }

variable (ctx : Context (Location ℝ) B P ι F) (offsets : Str → Str → V → List (Location ℝ))

/-- A connected item.  A target that is not there is only reported; one that has no ports or no
location raises, and so does the selection. -/
def connectItem (children : List (Child B)) (name : Option Str)
    (item : Option (Item (PlacedPort B))) (s : Section V) : Option Placed :=
  match children.find? fun c => c.placed.name = s.name with
  | none => some ⟨name, none, pushDirection none, none⟩
  | some target => do
    let item ← item
    let targetItem ← target.item?
    let (source, peer) ← select ctx item targetItem s.ends
    let turn ← turnAround
    let targetLocation ← target.placed.location
    let location := connectionLocation turn targetLocation source.found peer.found
      (paramOffsets ctx offsets peer.interface s.toParams)
      (paramOffsets ctx offsets source.interface s.withParams)
    let matedFrame :=
      match source.found with
      | none => location
      | some port => location * portLocation port
    return {
      name := name
      location := some location
      pushDirection := pushDirection (some matedFrame)
      connection := some (connectionInfo s.name source peer targetLocation) }

def placeItem (children : List (Child B)) (name : Option Str) (placement : Placement V)
    (item : Option (Item (PlacedPort B))) : Option Placed :=
  match placement with
  | .located location => some ⟨name, some location, none, none⟩
  | .connected s => connectItem ctx offsets children name item s
  | .unplaced => some ⟨name, some 1, none, none⟩

/-- A container is not connected to anything, whatever it says. -/
def placeContainer (name : Option Str) (placement : Placement V) : Placed :=
  match placement with
  | .located location => ⟨name, some location, none, none⟩
  | .connected _ => ⟨name, none, none, none⟩
  | .unplaced => ⟨name, some 1, none, none⟩

def handleItem (children : List (Child B)) (name : Option Str) (placement : Placement V)
    (item : Option (Item (PlacedPort B))) : Option (Option (Child B)) :=
  (placeItem ctx offsets children name placement item).map fun placed => item.map (Child.item placed)

mutual

/-- `handle_node`, with the children that there are. -/
def handleNode (children : List (Child B)) : Node B V → Option (Option (Child B))
  | .container name placement links =>
    (handleNodeList [] links).map fun inner =>
      some (.container (placeContainer name placement) inner)
  | .item name placement item => handleItem ctx offsets children name placement item

/-- `handle_node_list`.  A connected node waits for those before it, and the others do not look. -/
def handleNodeList (children : List (Child B)) : List (Node B V) → Option (List (Child B))
  | [] => some children
  | node :: nodes =>
    (handleNode children node).bind fun child => handleNodeList (children ++ child.toList) nodes

end

/-- `placement if child.location is None else placement * child.location` -/
def move (placement : Location ℝ) (child : Child B) : Child B :=
  child.withPlaced {
    child.placed with
      location := some (child.placed.location.elim placement fun location => placement * location) }

/-- `apply_root_placement` -/
def applyRootPlacement (location : Option (Location ℝ)) (children : List (Child B)) :
    List (Child B) :=
  match location with
  | none => children
  | some placement => children.map (move placement)

/-- `instantiate_async` -/
def instantiate : File B V → Option (List (Child B))
  | .links location links =>
    (handleNodeList ctx offsets [] links).map (applyRootPlacement location)
  | .item name placement item => (handleItem ctx offsets [] name placement item).map Option.toList

end

/-! ## What a record says -/

theorem pushDirection_some (frame : Location ℝ) :
    pushDirection (some frame) = some (frame.rotateVector (0, 0, -1)) := by
  have hlength : axisNorm (frame.rotateVector (0, 0, -1)) = 1 := by
    rw [axisNorm_rotateVector, axisNorm]
    norm_num
  simp only [pushDirection, Option.bind_some, hlength, one_ne_zero, if_false, div_one]

/-- The frame of a port that an item has under a name. -/
def portFrame (item : Item (PlacedPort B)) (name : Option Str) : Option (Location ℝ) :=
  (name.bind item.ports.get?).map portLocation

/-- A connected child and its target, where they are among `children`, and what is recorded of the
joint: its point and its direction are the origin and the Z axis of the target's port, and the push
goes against the Z axis of the child's own port. -/
structure Joint (children : List (Child B)) (c : Child B) (connection : Connection)
    (target : Child B) (item targetItem : Item (PlacedPort B)) (location targetLocation : Location ℝ) :
    Prop where
  found : children.find? (fun d => d.placed.name = connection.target) = some target
  item_eq : c.item? = some item
  targetItem_eq : target.item? = some targetItem
  location_eq : c.placed.location = some location
  targetLocation_eq : target.placed.location = some targetLocation
  point : connection.point =
    (portFrame targetItem connection.toPort).map fun port => (targetLocation * port).t
  direction : connection.direction =
    (portFrame targetItem connection.toPort).map fun port =>
      (targetLocation * port).rotateVector (0, 0, 1)
  push : c.placed.pushDirection =
    some ((location * (portFrame item connection.withPort).getD 1).rotateVector (0, 0, -1))

/-- What a child records about its joint agrees with the placements. -/
def Agrees (children : List (Child B)) (c : Child B) : Prop :=
  ∀ connection, c.placed.connection = some connection →
    ∃ target item targetItem location targetLocation,
      Joint children c connection target item targetItem location targetLocation

/-- Every child of an assembly, and of the containers in it, agrees. -/
def Settled (children : List (Child B)) : Prop :=
  ∀ l, Within children l → ∀ c ∈ l, Agrees l c

theorem settled_iff_forall {children : List (Child B)} :
    Settled children ↔
      (∀ c ∈ children, Agrees children c) ∧ ∀ c ∈ children, Settled c.children := by
  constructor
  · intro h
    exact ⟨h children (.here children), fun c hc l hl => h l (.inside hc hl)⟩
  · rintro ⟨hhere, hinside⟩ l hl
    cases hl with
    | here => exact hhere
    | inside hc hl => exact hinside _ hc l hl

theorem settled_nil : Settled ([] : List (Child B)) := by
  refine settled_iff_forall.2 ⟨fun c hc => ?_, fun c hc => ?_⟩
  · cases hc
  · cases hc

theorem agrees_of_not_connected {children : List (Child B)} {c : Child B}
    (h : c.placed.connection = none) : Agrees children c := by
  intro connection hconnection
  rw [h] at hconnection
  cases hconnection

/-- Children that come later leave the target the first of its name. -/
theorem Agrees.append {children : List (Child B)} {c : Child B} (h : Agrees children c)
    (later : List (Child B)) : Agrees (children ++ later) c := by
  intro connection hconnection
  obtain ⟨target, item, targetItem, location, targetLocation, joint⟩ := h connection hconnection
  refine ⟨target, item, targetItem, location, targetLocation, { joint with found := ?_ }⟩
  rw [List.find?_append, joint.found]
  rfl

/-! ## Reading -/

variable {ctx : Context (Location ℝ) B P ι F} {offsets : Str → Str → V → List (Location ℝ)}

/-- **A connected item records the joint that it is put at.** -/
theorem agrees_connectItem {children : List (Child B)} {name : Option Str}
    {item : Item (PlacedPort B)} {s : Section V} {placed : Placed}
    (h : connectItem ctx offsets children name (some item) s = some placed) :
    Agrees children (.item placed item) := by
  unfold connectItem at h
  cases hfound : children.find? fun c => c.placed.name = s.name with
  | none =>
    rw [hfound] at h
    cases h
    exact agrees_of_not_connected rfl
  | some target =>
    rw [hfound] at h
    simp only [Option.bind_eq_bind, Option.bind_some] at h
    obtain ⟨targetItem, htargetItem, h⟩ := Option.bind_eq_some_iff.1 h
    obtain ⟨⟨source, peer⟩, hselect, h⟩ := Option.bind_eq_some_iff.1 h
    obtain ⟨turn, -, h⟩ := Option.bind_eq_some_iff.1 h
    obtain ⟨targetLocation, htargetLocation, h⟩ := Option.bind_eq_some_iff.1 h
    cases h
    obtain ⟨hsource, hpeer⟩ := cascade_found hselect
    rintro connection ⟨⟩
    refine ⟨target, item, targetItem, _, targetLocation, hfound, rfl, htargetItem, rfl,
      htargetLocation, ?_, ?_, ?_⟩
    · simp only [connectionInfo, portFrame, hpeer, query, Option.map_map, Function.comp_def]
    · simp only [connectionInfo, portFrame, hpeer, query, Option.map_map, Function.comp_def]
    · rw [show portFrame item (connectionInfo s.name source peer targetLocation).withPort =
        source.found.map portLocation from congrArg (Option.map portLocation) hsource.symm]
      simp only [Child.placed, pushDirection_some]
      cases source.found with
      | none => rw [Option.map_none, Option.getD_none, mul_one]
      | some port => rw [Option.map_some, Option.getD_some]

theorem agrees_handleItem {children : List (Child B)} {name : Option Str}
    {placement : Placement V} {item : Option (Item (PlacedPort B))} {c : Child B}
    (h : handleItem ctx offsets children name placement item = some (some c)) :
    Agrees children c ∧ c.children = [] := by
  obtain ⟨placed, hplaced, hc⟩ := Option.map_eq_some_iff.1 h
  obtain ⟨item, rfl, rfl⟩ := Option.map_eq_some_iff.1 hc
  refine ⟨?_, rfl⟩
  cases placement with
  | located location =>
    cases hplaced
    exact agrees_of_not_connected rfl
  | unplaced =>
    cases hplaced
    exact agrees_of_not_connected rfl
  | connected s => exact agrees_connectItem hplaced

theorem connection_placeContainer (name : Option Str) (placement : Placement V) :
    (placeContainer name placement).connection = none := by
  cases placement <;> rfl

theorem settled_append {children : List (Child B)} {c : Child B} (h : Settled children)
    (hc : Agrees children c) (hinside : Settled c.children) : Settled (children ++ [c]) := by
  obtain ⟨hhere, hothers⟩ := settled_iff_forall.1 h
  refine settled_iff_forall.2 ⟨fun d hd => ?_, fun d hd => ?_⟩
  · rcases List.mem_append.1 hd with hd | hd
    · exact (hhere d hd).append [c]
    · rw [List.mem_singleton.1 hd]
      exact hc.append [c]
  · rcases List.mem_append.1 hd with hd | hd
    · exact hothers d hd
    · rw [List.mem_singleton.1 hd]
      exact hinside

mutual

theorem settled_handleNode {children : List (Child B)} (node : Node B V) {c : Child B}
    (h : handleNode ctx offsets children node = some (some c)) :
    Agrees children c ∧ Settled c.children := by
  cases node with
  | container name placement links =>
    obtain ⟨inner, hinner, hc⟩ := Option.map_eq_some_iff.1 h
    cases hc
    exact ⟨agrees_of_not_connected (connection_placeContainer name placement),
      settled_handleNodeList links hinner settled_nil⟩
  | item name placement item =>
    obtain ⟨hagrees, hchildren⟩ := agrees_handleItem h
    refine ⟨hagrees, ?_⟩
    rw [hchildren]
    exact settled_nil

/-- **While a file is read**, what is recorded of the joints agrees with the placements. -/
theorem settled_handleNodeList {children after : List (Child B)} (nodes : List (Node B V))
    (h : handleNodeList ctx offsets children nodes = some after) (hsettled : Settled children) :
    Settled after := by
  cases nodes with
  | nil =>
    cases h
    exact hsettled
  | cons node nodes =>
    obtain ⟨child, hchild, hrest⟩ := Option.bind_eq_some_iff.1 h
    refine settled_handleNodeList nodes hrest ?_
    cases child with
    | none => rwa [Option.toList_none, List.append_nil]
    | some c =>
      obtain ⟨hagrees, hinside⟩ := settled_handleNode node hchild
      exact settled_append hsettled hagrees hinside

end

/-! ## The root placement -/

theorem t_mul (a b : Location ℝ) : (a * b).t = a.transformPoint b.t := by
  rw [Location.mul_t, Location.transformPoint, a.rotateVec_q]

@[simp]
theorem placed_move (placement : Location ℝ) (c : Child B) :
    (move placement c).placed = {
      c.placed with
        location := some (c.placed.location.elim placement fun location => placement * location) } := by
  cases c <;> rfl

@[simp]
theorem item?_move (placement : Location ℝ) (c : Child B) : (move placement c).item? = c.item? := by
  cases c <;> rfl

@[simp]
theorem children_move (placement : Location ℝ) (c : Child B) :
    (move placement c).children = c.children := by
  cases c <;> rfl

theorem find?_move (placement : Location ℝ) (children : List (Child B)) (name : Option Str) :
    (children.map (move placement)).find? (fun d => d.placed.name = name) =
      (children.find? fun d => d.placed.name = name).map (move placement) := by
  rw [List.find?_map]
  congr 2
  funext d
  simp only [Function.comp_apply, placed_move]

/-- A placement leaves the joint of a child where it is recorded: the point, and the two directions. -/
structure Keeps (placement : Location ℝ) (placed : Placed) (connection : Connection) : Prop where
  point : ∀ p, connection.point = some p → placement.transformPoint p = p
  direction : ∀ v, connection.direction = some v → placement.rotateVector v = v
  push : ∀ v, placed.pushDirection = some v → placement.rotateVector v = v

/-- **After a placement of everything** a child agrees where the placement leaves its joint. -/
theorem agrees_move_iff {children : List (Child B)} {c : Child B} (placement : Location ℝ)
    (h : Agrees children c) :
    Agrees (children.map (move placement)) (move placement c) ↔
      ∀ connection, c.placed.connection = some connection → Keeps placement c.placed connection := by
  constructor
  · intro hmoved connection hconnection
    obtain ⟨target, item, targetItem, location, targetLocation, before⟩ := h connection hconnection
    obtain ⟨target', item', targetItem', location', targetLocation', after⟩ :=
      hmoved connection (by rw [placed_move]; exact hconnection)
    have htarget : target' = move placement target := by
      have hfound := after.found
      rw [find?_move, before.found] at hfound
      exact (Option.some.inj hfound).symm
    have hitem : item' = item := by
      have hitem := after.item_eq
      rw [item?_move, before.item_eq] at hitem
      exact (Option.some.inj hitem).symm
    have htargetItem : targetItem' = targetItem := by
      have hitem := after.targetItem_eq
      rw [htarget, item?_move, before.targetItem_eq] at hitem
      exact (Option.some.inj hitem).symm
    have hlocation : location' = placement * location := by
      have hlocation := after.location_eq
      rw [placed_move, before.location_eq] at hlocation
      exact (Option.some.inj hlocation).symm
    have htargetLocation : targetLocation' = placement * targetLocation := by
      have hlocation := after.targetLocation_eq
      rw [htarget, placed_move, before.targetLocation_eq] at hlocation
      exact (Option.some.inj hlocation).symm
    have hpoint := after.point
    have hdirection := after.direction
    have hpush := after.push
    rw [htargetItem, htargetLocation] at hpoint hdirection
    rw [hitem, hlocation, placed_move] at hpush
    refine ⟨fun p hp => ?_, fun v hv => ?_, fun v hv => ?_⟩
    · rw [before.point] at hp
      obtain ⟨port, hport, rfl⟩ := Option.map_eq_some_iff.1 hp
      rw [before.point, hport] at hpoint
      rw [← t_mul, ← mul_assoc]
      exact (Option.some.inj hpoint).symm
    · rw [before.direction] at hv
      obtain ⟨port, hport, rfl⟩ := Option.map_eq_some_iff.1 hv
      rw [before.direction, hport] at hdirection
      rw [← Location.rotateVector_mul, ← mul_assoc]
      exact (Option.some.inj hdirection).symm
    · rw [hv] at hpush
      rw [before.push] at hv
      obtain rfl := Option.some.inj hv
      rw [← Location.rotateVector_mul, ← mul_assoc]
      exact (Option.some.inj hpush).symm
  · intro hkeeps connection hconnection
    rw [placed_move] at hconnection
    obtain ⟨target, item, targetItem, location, targetLocation, before⟩ := h connection hconnection
    obtain ⟨hpoint, hdirection, hpush⟩ := hkeeps connection hconnection
    refine ⟨move placement target, item, targetItem, placement * location,
      placement * targetLocation, ?_, ?_, ?_, ?_, ?_, ?_, ?_, ?_⟩
    · rw [find?_move, before.found]
      rfl
    · rw [item?_move, before.item_eq]
    · rw [item?_move, before.targetItem_eq]
    · rw [placed_move, before.location_eq]
      rfl
    · rw [placed_move, before.targetLocation_eq]
      rfl
    · rw [before.point]
      cases hport : portFrame targetItem connection.toPort with
      | none => rfl
      | some port =>
        have hkept := hpoint (targetLocation * port).t (by rw [before.point, hport]; rfl)
        rw [Option.map_some, Option.map_some, mul_assoc, t_mul placement, hkept]
    · rw [before.direction]
      cases hport : portFrame targetItem connection.toPort with
      | none => rfl
      | some port =>
        have hkept := hdirection ((targetLocation * port).rotateVector (0, 0, 1))
          (by rw [before.direction, hport]; rfl)
        rw [Option.map_some, Option.map_some, mul_assoc, Location.rotateVector_mul placement, hkept]
    · have hkept := hpush _ before.push
      rw [placed_move, before.push, mul_assoc, Location.rotateVector_mul placement, hkept]

/-- The root node is not placed, or where it is leaves every joint of its items where it has been
read to be. -/
def Undisturbed (ctx : Context (Location ℝ) B P ι F)
    (offsets : Str → Str → V → List (Location ℝ)) : File B V → Prop
  | .links (some placement) links =>
    ∀ before, handleNodeList ctx offsets [] links = some before →
      ∀ c ∈ before, ∀ connection, c.placed.connection = some connection →
        Keeps placement c.placed connection
  | .links none _ => True
  | .item _ _ _ => True

theorem settled_move_iff {children : List (Child B)} (placement : Location ℝ)
    (h : Settled children) :
    Settled (children.map (move placement)) ↔
      ∀ c ∈ children, ∀ connection, c.placed.connection = some connection →
        Keeps placement c.placed connection := by
  obtain ⟨hhere, hinside⟩ := settled_iff_forall.1 h
  constructor
  · intro hmoved c hc
    exact (agrees_move_iff placement (hhere c hc)).1
      ((settled_iff_forall.1 hmoved).1 _ (List.mem_map_of_mem hc))
  · intro hkeeps
    refine settled_iff_forall.2 ⟨fun d hd => ?_, fun d hd => ?_⟩
    · obtain ⟨c, hc, rfl⟩ := List.mem_map.1 hd
      exact (agrees_move_iff placement (hhere c hc)).2 (hkeeps c hc)
    · obtain ⟨c, hc, rfl⟩ := List.mem_map.1 hd
      rw [children_move]
      exact hinside c hc

/-- **What the children of a file record about their joints agrees with where they are in the end**
exactly where the root placement does not disturb it. -/
theorem joints_agree_iff (ctx : Context (Location ℝ) B P ι F)
    (offsets : Str → Str → V → List (Location ℝ)) (file : File B V) :
    (∀ children, instantiate ctx offsets file = some children → Settled children) ↔
      Undisturbed ctx offsets file := by
  cases file with
  | item name placement item =>
    refine iff_of_true (fun children h => ?_) trivial
    obtain ⟨child, hchild, rfl⟩ := Option.map_eq_some_iff.1 h
    cases child with
    | none => exact settled_nil
    | some c =>
      obtain ⟨hagrees, hchildren⟩ := agrees_handleItem hchild
      exact settled_append settled_nil hagrees (by rw [hchildren]; exact settled_nil)
  | links location links =>
    have hread : ∀ before, handleNodeList ctx offsets [] links = some before → Settled before :=
      fun before hbefore => settled_handleNodeList links hbefore settled_nil
    cases location with
    | none =>
      refine iff_of_true (fun children h => ?_) trivial
      obtain ⟨before, hbefore, rfl⟩ := Option.map_eq_some_iff.1 h
      exact hread before hbefore
    | some placement =>
      constructor
      · intro h before hbefore
        refine (settled_move_iff placement (hread before hbefore)).1 (h _ ?_)
        rw [instantiate, hbefore]
        rfl
      · intro h children hchildren
        obtain ⟨before, hbefore, rfl⟩ := Option.map_eq_some_iff.1 hchildren
        exact (settled_move_iff placement (hread before hbefore)).2 (h before hbefore)

/-! ## A pin in a plate -/

def standContext : Context (Location ℝ) Unit Unit Str Unit :=
  ⟨"//stand".toList, ⟨[], trivial⟩, Dict.empty, fun _ => none⟩

def plate : Item (PlacedPort Unit) :=
  ⟨Dict.ofPairs [("hole".toList, ⟨none, ()⟩)], Dict.empty, true⟩

def pin : Item (PlacedPort Unit) :=
  ⟨Dict.ofPairs [("tip".toList, ⟨none, ()⟩)], Dict.empty, true⟩

/-- `connect: {name: plate}` -/
def ontoPlate : Section Unit :=
  ⟨some "plate".toList, .connect ⟨none, none, none, none, none, none⟩, Dict.empty, Dict.empty⟩

/-- `location: [[0, 0, 10], [0, 0, 1], 0]` -/
def lifted : Location ℝ := ⟨1, (0, 0, 10), normSq_unturned⟩

def stand : File Unit Unit :=
  .links (some lifted)
    [.item (some "plate".toList) .unplaced (some plate),
      .item (some "pin".toList) (.connected ontoPlate) (some pin)]

/-- The pin comes to be at a height of ten, and its joint is recorded at zero. -/
theorem not_settled_stand :
    ¬ ∀ children, instantiate standContext (fun _ _ _ => []) stand = some children →
      Settled children := by
  obtain ⟨turn, hturn, -⟩ := turnAround_halfTurn
  let port : PlacedPort Unit := ⟨none, ()⟩
  let source : Selected (PlacedPort Unit) := ⟨none, some "tip".toList, some port⟩
  let peer : Selected (PlacedPort Unit) := ⟨none, some "hole".toList, some port⟩
  let location := connectionLocation turn 1 (some port) (some port) [] []
  let connection := connectionInfo (some "plate".toList) source peer 1
  let placed : Placed :=
    ⟨some "pin".toList, some location, pushDirection (some (location * portLocation port)),
      some connection⟩
  have hplaced : connectItem standContext (fun _ _ _ => [])
      [.item ⟨some "plate".toList, some 1, none, none⟩ plate] (some "pin".toList) (some pin)
        ontoPlate = some placed := by
    simp only [connectItem]
    rw [hturn]
    rfl
  have hpoint : connection.point = some 0 := by
    show some ((1 : Location ℝ) * 1).t = some 0
    rw [one_mul, Location.one_t]
  have hbefore : handleNodeList standContext (fun _ _ _ => []) []
      [.item (some "plate".toList) .unplaced (some plate),
        .item (some "pin".toList) (.connected ontoPlate) (some pin)] =
      some [.item ⟨some "plate".toList, some 1, none, none⟩ plate, .item placed pin] := by
    simp only [handleNodeList, handleNode, handleItem, placeItem, Option.map_some, Option.bind_some,
      Option.toList_some, List.nil_append]
    rw [hplaced]
    rfl
  intro hall
  have hsettled := (settled_move_iff lifted
    (settled_handleNodeList _ hbefore settled_nil)).1 (hall _ (by
      rw [stand, instantiate, hbefore]
      rfl))
  have hkept := (hsettled (.item placed pin) (by simp) connection rfl).point 0 hpoint
  have hheight : (lifted.transformPoint 0).2.2 = 10 := by
    rw [Location.transformPoint, lifted.rotateVec_q, rotate_zero, zero_add]
    rfl
  rw [hkept] at hheight
  norm_num at hheight

/-! ## Exploded steps -/

section

/-- `_normalized` -/
noncomputable def normalized (vector : Option (Vec ℝ)) : Option (Vec ℝ) :=
  vector.bind fun vector =>
    let length := axisNorm vector
    if length < 1e-9 then none
    else some (vector.1 / length, vector.2.1 / length, vector.2.2 / length)

/-- `_resolve_step_geometry`, for the centers of the two items and the distance: the direction in
which they are pulled apart, and the ends of the line that shows the gap. -/
noncomputable def resolveStepGeometry (connection : Option Connection)
    (itemCenter counterpartCenter : Vec ℝ) (distance : ℝ) : Vec ℝ × Vec ℝ × Vec ℝ :=
  let away := itemCenter - counterpartCenter
  let direction :=
    ((normalized (connection.bind Connection.direction)).or (normalized (some away))).getD (0, 0, 1)
  let direction := if dot direction away < 0 then -direction else direction
  let start := (connection.bind Connection.point).getD itemCenter
  (direction, start, start + distance • direction)

theorem normalized_of_length {v : Vec ℝ} (h : axisNorm v = 1) : normalized (some v) = some v := by
  have hshort : ¬ (1 : ℝ) < 1e-9 := by norm_num
  simp only [normalized, Option.bind_some, h, hshort, if_false, div_one]

/-- **The gap of an exploded step** starts where the joint is, and runs along its axis. -/
theorem resolveStepGeometry_of_joint {children : List (Child B)} {c target : Child B}
    {connection : Connection} {item targetItem : Item (PlacedPort B)}
    {location targetLocation port : Location ℝ}
    (joint : Joint children c connection target item targetItem location targetLocation)
    (hport : portFrame targetItem connection.toPort = some port)
    (itemCenter counterpartCenter : Vec ℝ) (distance : ℝ) :
    let step := resolveStepGeometry (some connection) itemCenter counterpartCenter distance
    step.2.1 = (targetLocation * port).t ∧
      (step.1 = (targetLocation * port).rotateVector (0, 0, 1) ∨
        step.1 = -(targetLocation * port).rotateVector (0, 0, 1)) := by
  have hlength : axisNorm ((targetLocation * port).rotateVector (0, 0, 1)) = 1 := by
    rw [axisNorm_rotateVector, axisNorm]
    norm_num
  have hpoint : connection.point = some (targetLocation * port).t := by
    rw [joint.point, hport]
    rfl
  have hdirection : connection.direction =
      some ((targetLocation * port).rotateVector (0, 0, 1)) := by
    rw [joint.direction, hport]
    rfl
  simp only [resolveStepGeometry, Option.bind_some, hpoint, hdirection,
    normalized_of_length hlength, Option.some_or, Option.getD_some, true_and]
  split
  · exact Or.inr rfl
  · exact Or.inl rfl

end

end PartCAD.Instantiate
