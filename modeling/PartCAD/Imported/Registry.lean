import Mathlib.Algebra.Order.Group.Abs
import Mathlib.Algebra.Order.Ring.Rat
import Mathlib.Tactic.NormNum
import PartCAD.Imported.Links
import PartCAD.Lib.Firsts

/-!
# The parts of an imported object

What a reader makes of a file is a tree, and each shape of it becomes a part of the package, under a
name that is made of the name of the object and that of the node.  The first node of a name is what the
part is made of.

* `TreeNode` : the tree;
* `partFor` : the part of a node;
* `assembleParts` : the parts of a tree;
* `assembleParts_eq` : which part each node gets.
-/

namespace PartCAD.Imported

open PartCAD.Lib

/-! ## What a reader gives -/

/-- The node of a shape.  `partFile` is an absolute path, `scale` and `physics` are there where the node
says something, and `F` is what a section of properties holds. -/
structure ShapeNode (F : Type) where
  name : Str
  partFile : Str
  partType : Str
  scale : Option ℚ
  material : Option Str
  color : Option Str
  physics : Option F
  deriving DecidableEq

/-- `links` of the tree. -/
inductive TreeNode (F : Type) where
  | part (node : ShapeNode F)
  | assembly (name : Str) (links : List (TreeNode F))

/-- `root`: what is placed, and what is not. -/
structure Tree (F : Type) where
  links : List (TreeNode F)
  parts : List (ShapeNode F)

structure Properties (F : Type) where
  physics : Option F
  material : Option Str
  color : Option Str
  deriving DecidableEq

section

variable {F : Type}

mutual

/-- The shapes of a node, in the order in which it is walked. -/
def TreeNode.shapes : TreeNode F → List (ShapeNode F)
  | .part node => [node]
  | .assembly _ links => shapesOf links

def shapesOf : List (TreeNode F) → List (ShapeNode F)
  | [] => []
  | node :: nodes => node.shapes ++ shapesOf nodes

end

def Tree.shapes (tree : Tree F) : List (ShapeNode F) := shapesOf tree.links ++ tree.parts

/-- A text that is there and says something. -/
def stated (text : Option Str) : Option Str := text.filter fun s => s ≠ []

/-- `node_properties` -/
def nodeProperties (node : ShapeNode F) : Properties F :=
  ⟨node.physics, stated node.material, stated node.color⟩

def Properties.none : Properties F := ⟨.none, .none, .none⟩

/-- `if properties`: a section that says nothing is left out. -/
def Properties.section (properties : Properties F) : Option (Properties F) :=
  if properties.physics.isNone ∧ properties.material.isNone ∧ properties.color.isNone then .none
  else some properties

theorem section_getD (properties : Properties F) : properties.section.getD .none = properties := by
  unfold Properties.section
  split
  · rename_i hnone
    obtain ⟨physics, material, color⟩ := properties
    simp only [Option.isNone_iff_eq_none] at hnone
    obtain ⟨rfl, rfl, rfl⟩ := hnone
    rfl
  · rfl

/-- `float(node.get("scale") or 1.0)` -/
def scaleOf (node : ShapeNode F) : ℚ :=
  match node.scale with
  | none => 1
  | some s => if s = 0 then 1 else s

/-- `1e-9` -/
def tolerance : ℚ := 1 / 10 ^ 9

theorem tolerance_pos : 0 < tolerance := by norm_num [tolerance]

/-- The scale as it is declared: one that is as good as 1 is left out. -/
def declaredScale (node : ShapeNode F) : Option ℚ :=
  if |scaleOf node - 1| > tolerance then some (scaleOf node) else none

/-- A scale that is read as it is stated. -/
def ProperScale (node : ShapeNode F) : Prop :=
  ∀ s, node.scale = some s → s = 1 ∨ s ≠ 0 ∧ |s - 1| > tolerance

theorem declaredScale_iff (node : ShapeNode F) :
    (declaredScale node).getD 1 = node.scale.getD 1 ↔ ProperScale node := by
  have hpos : ¬ tolerance < 0 := not_lt.2 tolerance_pos.le
  unfold declaredScale scaleOf ProperScale
  cases node.scale with
  | none => simp [hpos]
  | some s =>
    by_cases hzero : s = 0
    · simp [hzero, apply_ite (fun o : Option ℚ => o.getD 1)]
    · by_cases hone : s = 1
      · simp [hone, hpos]
      · by_cases hfar : |s - 1| > tolerance
        · simp [hzero, hfar]
        · simp [hzero, hfar, hone, Ne.symm hone]

/-! ## Registering the parts -/

/-- What a part is declared to be: a file of a type, a scale and properties, each where it is stated. -/
structure PartConfig (F : Type) where
  type : Str
  path : Str
  scale : Option ℚ
  properties : Option (Properties F)

/-- A part of the package. -/
structure Part (F : Type) where
  name : Str
  config : PartConfig F

/-- `self._parts` by the names of the nodes, and the parts of the package. -/
structure Registry (F : Type) where
  parts : Dict Str (Part F)
  project : Dict Str (PartConfig F)

variable (objectName : Str)

/-- `part_name` -/
def partName (nodeName : Str) : Str := objectName ++ '/' :: nodeName

/-- `config` in `part_for`. -/
def configFor (node : ShapeNode F) : PartConfig F where
  type := node.partType
  path := node.partFile
  scale := declaredScale node
  properties := (nodeProperties node).section

/-- `materialize_part_by_config`: a part that is there is handed back. -/
def materialize (name : Str) (config : PartConfig F) (project : Dict Str (PartConfig F)) :
    Part F × Dict Str (PartConfig F) :=
  match project.get? name with
  | some existing => (⟨name, existing⟩, project)
  | none => (⟨name, config⟩, project.set name config)

/-- `part_for` -/
def partFor (node : ShapeNode F) (r : Registry F) : Part F × Registry F :=
  match r.parts.get? node.name with
  | some part => (part, r)
  | none =>
    let (part, project) := materialize (partName objectName node.name) (configFor node) r.project
    (part, ⟨r.parts.set node.name part, project⟩)

/-- `AssemblyChild.item`: a part, or a group. -/
inductive Item (F : Type) where
  | part (part : Part F)
  | assembly (name : Str) (children : List (Item F))

mutual

/-- `handle_node`: a group without children is left out. -/
def handleNode : TreeNode F → Registry F → Option (Item F) × Registry F
  | .part node, r =>
    let (part, r) := partFor objectName node r
    (some (.part part), r)
  | .assembly name links, r =>
    let (children, r) := handleNodeList links r
    (if children.isEmpty then none else some (.assembly name children), r)

/-- `handle_node_list` -/
def handleNodeList : List (TreeNode F) → Registry F → List (Item F) × Registry F
  | [], r => ([], r)
  | node :: nodes, r =>
    let (child, r) := handleNode node r
    let (children, r) := handleNodeList nodes r
    (child.toList ++ children, r)

end

/-- The parts for nodes, one after the other. -/
def partsFor : List (ShapeNode F) → Registry F → List (Part F) × Registry F
  | [], r => ([], r)
  | node :: nodes, r =>
    let (part, r) := partFor objectName node r
    let (parts, r) := partsFor nodes r
    (part :: parts, r)

mutual

/-- The parts of an item, in order. -/
def Item.leaves : Item F → List (Part F)
  | .part part => [part]
  | .assembly _ children => leavesOf children

def leavesOf : List (Item F) → List (Part F)
  | [] => []
  | item :: items => item.leaves ++ leavesOf items

end

/-- `instantiate_async`: the children of the object, and the parts that are not placed. -/
def instantiate (tree : Tree F) (project : Dict Str (PartConfig F)) :
    List (Item F) × List (Part F) × Registry F :=
  let (children, r) := handleNodeList objectName tree.links ⟨Dict.empty, project⟩
  let (parts, r) := partsFor objectName tree.parts r
  (children, parts, r)

/-- The parts that the shapes of a tree become, in order. -/
def assembleParts (tree : Tree F) (project : Dict Str (PartConfig F)) : List (Part F) :=
  let (children, parts, _) := instantiate objectName tree project
  leavesOf children ++ parts

/-! ## Which part each node gets -/

theorem partsFor_append (nodes nodes' : List (ShapeNode F)) (r : Registry F) :
    partsFor objectName (nodes ++ nodes') r =
      ((partsFor objectName nodes r).1 ++ (partsFor objectName nodes' (partsFor objectName nodes r).2).1,
        (partsFor objectName nodes' (partsFor objectName nodes r).2).2) := by
  induction nodes generalizing r with
  | nil => rfl
  | cons node nodes ih => simp only [List.cons_append, partsFor, ih]

theorem leavesOf_append (items items' : List (Item F)) :
    leavesOf (items ++ items') = leavesOf items ++ leavesOf items' := by
  induction items with
  | nil => rfl
  | cons item items ih => rw [List.cons_append, leavesOf, leavesOf, ih, List.append_assoc]

mutual

/-- A tree is walked like the list of its shapes. -/
theorem handleNode_eq (node : TreeNode F) (r : Registry F) :
    (leavesOf (handleNode objectName node r).1.toList, (handleNode objectName node r).2) =
      partsFor objectName node.shapes r := by
  match node with
  | .part node => rfl
  | .assembly name links =>
    have hlinks := handleNodeList_eq links r
    rw [handleNode, TreeNode.shapes, ← hlinks]
    dsimp only
    split
    · rename_i hempty
      rw [List.isEmpty_iff.1 hempty]
      rfl
    · simp [leavesOf, Item.leaves]

theorem handleNodeList_eq (nodes : List (TreeNode F)) (r : Registry F) :
    (leavesOf (handleNodeList objectName nodes r).1, (handleNodeList objectName nodes r).2) =
      partsFor objectName (shapesOf nodes) r := by
  match nodes with
  | [] => rfl
  | node :: nodes =>
    have hnode := handleNode_eq node r
    have hnodes := handleNodeList_eq nodes (handleNode objectName node r).2
    rw [handleNodeList, shapesOf, partsFor_append, ← hnode, ← hnodes]
    dsimp only
    rw [leavesOf_append]

end

theorem assembleParts_eq_partsFor (tree : Tree F) (project : Dict Str (PartConfig F)) :
    assembleParts objectName tree project =
      (partsFor objectName tree.shapes ⟨Dict.empty, project⟩).1 := by
  rw [assembleParts, instantiate, Tree.shapes, partsFor_append, ← handleNodeList_eq]

/-- The part that nodes of one name share, when this is the first of them. -/
def partOfFirst (project : Dict Str (PartConfig F)) (first : ShapeNode F) : Part F where
  name := partName objectName first.name
  config := (project.get? (partName objectName first.name)).getD (configFor first)

/-- What the registry holds after some nodes. -/
structure Registered (project : Dict Str (PartConfig F)) (done : List (ShapeNode F))
    (r : Registry F) : Prop where
  parts : ∀ name, r.parts.get? name =
    (done.find? fun node => node.name = name).map (partOfFirst objectName project)
  project : ∀ name, r.project.get? (partName objectName name) =
    (project.get? (partName objectName name)).or
      ((done.find? fun node => node.name = name).map configFor)

variable {objectName}

theorem partName_injective {name name' : Str} (h : partName objectName name = partName objectName name') :
    name = name' :=
  (List.cons.inj (List.append_cancel_left h)).2

theorem Registered.step {project : Dict Str (PartConfig F)} {done : List (ShapeNode F)}
    {r : Registry F} (h : Registered objectName project done r) (node : ShapeNode F) :
    Registered objectName project (done ++ [node]) (partFor objectName node r).2 ∧
      some (partFor objectName node r).1 =
        ((done ++ [node]).find? fun n => n.name = node.name).map (partOfFirst objectName project) := by
  have hparts := h.parts node.name
  have hproject := h.project node.name
  unfold partFor
  cases hfirst : done.find? fun n => n.name = node.name with
  | some first =>
    have hfind := find?_concat_of_some ShapeNode.name hfirst
    rw [hfirst, Option.map_some] at hparts
    rw [hparts, hfind, hfirst]
    exact ⟨⟨fun name => by rw [hfind, h.parts], fun name => by rw [hfind, h.project]⟩, rfl⟩
  | none =>
    have hfind := find?_concat_of_none ShapeNode.name hfirst
    rw [hfirst, Option.map_none] at hparts
    rw [hfirst, Option.map_none, Option.or_none] at hproject
    rw [hparts, hfind, if_pos rfl]
    dsimp only [materialize]
    rw [hproject]
    cases hexisting : project.get? (partName objectName node.name) with
    | some existing =>
      have hpart : partOfFirst objectName project node = ⟨partName objectName node.name, existing⟩ := by
        rw [partOfFirst, hexisting]
        rfl
      dsimp only
      refine ⟨⟨fun name => ?_, fun name => ?_⟩, congrArg some hpart.symm⟩
      · rw [Dict.get?_set, hfind, h.parts, ← hpart]
        split <;> rfl
      · rw [hfind, h.project]
        split
        · rename_i hname
          rw [← hname, hexisting]
          rfl
        · rfl
    | none =>
      have hpart : partOfFirst objectName project node =
          ⟨partName objectName node.name, configFor node⟩ := by
        rw [partOfFirst, hexisting]
        rfl
      dsimp only
      refine ⟨⟨fun name => ?_, fun name => ?_⟩, congrArg some hpart.symm⟩
      · rw [Dict.get?_set, hfind, h.parts, ← hpart]
        split <;> rfl
      · rw [Dict.get?_set, hfind, h.project]
        by_cases hname : node.name = name
        · rw [if_pos (congrArg _ hname), if_pos hname, ← hname, hexisting]
          rfl
        · rw [if_neg fun heq => hname (partName_injective heq), if_neg hname]

theorem partsFor_eq {project : Dict Str (PartConfig F)} (nodes : List (ShapeNode F)) :
    ∀ {done : List (ShapeNode F)} {r : Registry F}, Registered objectName project done r →
      (partsFor objectName nodes r).1.map some = nodes.map fun node =>
        ((done ++ nodes).find? fun n => n.name = node.name).map (partOfFirst objectName project) := by
  induction nodes with
  | nil => exact fun _ => rfl
  | cons node nodes ih =>
    intro done r h
    obtain ⟨hnext, hpart⟩ := h.step node
    have hrest := ih hnext
    rw [List.append_assoc, List.singleton_append] at hrest
    have hsame : ((done ++ node :: nodes).find? fun n => n.name = node.name) =
        (done ++ [node]).find? fun n => n.name = node.name := by
      rw [← List.singleton_append, ← List.append_assoc]
      exact find?_append_of_mem ShapeNode.name
        (List.mem_append_right _ List.mem_cons_self) nodes
    rw [partsFor]
    dsimp only
    rw [List.map_cons, List.map_cons, hrest, hpart, hsame]

theorem registered_start (project : Dict Str (PartConfig F)) :
    Registered objectName project [] ⟨Dict.empty, project⟩ where
  parts _ := rfl
  project _ := (Option.or_none).symm

variable (objectName) in
/-- **Which part each node gets**: that of the first node of its name. -/
theorem assembleParts_eq (tree : Tree F) (project : Dict Str (PartConfig F)) :
    (assembleParts objectName tree project).map some = tree.shapes.map fun node =>
      (tree.shapes.find? fun n => n.name = node.name).map (partOfFirst objectName project) := by
  rw [assembleParts_eq_partsFor]
  exact partsFor_eq tree.shapes (registered_start project)

end

end PartCAD.Imported
