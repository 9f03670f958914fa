import PartCAD.Imported.SceneFiles

/-!
# The own part of each shape

A shape of an imported file should become a part that is read from its own file, at its own scale and
with its own properties, both when the object is built and when it is converted.

* `BuildsOwn`, `ConvertsOwn` : that each shape has its own part;
* `Distinguished` : what names may not be shared, and which files may not be written over;
* `own_iff` : **each shape has its own part** exactly then;
* `not_own_twice` : two elements of a link that have one name.
-/

namespace PartCAD.Imported

open PartCAD.Lib

section

variable {F P B : Type} [DecidableEq P] (objectName : Str) (disk : Disk P)

/-! ## Own parts -/

/-- A part is declared as a node says. -/
structure OwnConfig (node : ShapeNode F) (config : PartConfig F) : Prop where
  type : config.type = node.partType
  scale : config.scale.getD 1 = node.scale.getD 1
  properties : config.properties.getD .none = nodeProperties node

omit [DecidableEq P] in
/-- A part is read from the file of a node. -/
structure OwnPart (node : ShapeNode F) (config : PartConfig F) : Prop extends OwnConfig node config where
  file : disk.source config.path = disk.file node

/-- When the object is built, each shape becomes a part of its own.  Two shapes that differ have
different parts, as a part is as each of its shapes says. -/
def BuildsOwn (tree : Tree F) (project : Dict Str (PartConfig F)) : Prop :=
  List.Forall₂ (fun node part => OwnPart disk node part.config) tree.shapes
    (assembleParts objectName tree project)

/-- When the object is converted, each shape becomes a part of its own, whose file holds what the file of
the shape held. -/
structure ConvertsOwn (tree : Tree F) (contents : P → Option B) : Prop where
  own : ∀ node ∈ tree.shapes, ∃ c entry,
    fileToAssy objectName disk tree contents = some (arrangeAll objectName tree.links, c) ∧
      c.parts.get? (partName objectName node.name) = some entry ∧ OwnConfig node entry ∧
        c.contents (disk.target entry.path) = contents (disk.file node)
  unshared : ∀ node ∈ tree.shapes, ∀ node' ∈ tree.shapes,
    partName objectName node.name = partName objectName node'.name →
      disk.file node = disk.file node'
  kept : ∀ links c, fileToAssy objectName disk tree contents = some (links, c) →
    ∀ p p' relative relative', c.copied.get? p = some relative → c.copied.get? p' = some relative' →
      disk.target relative = disk.target relative' → p = p'

/-! ## When each shape has its own part -/

omit [DecidableEq P] in
/-- Two nodes say the same. -/
structure Alike (node node' : ShapeNode F) : Prop where
  file : disk.file node = disk.file node'
  type : node.partType = node'.partType
  scale : node.scale.getD 1 = node'.scale.getD 1
  properties : nodeProperties node = nodeProperties node'

/-- The nodes can be told apart by their names, and so can the files that are copied. -/
structure Distinguished (tree : Tree F) (project : Dict Str (PartConfig F)) (contents : P → Option B) :
    Prop where
  names : ∀ node ∈ tree.shapes, ∀ node' ∈ tree.shapes, node.name = node'.name → Alike disk node node'
  scales : ∀ node ∈ tree.shapes, ProperScale node
  taken : ∀ node ∈ tree.shapes, ∀ config,
    project.get? (partName objectName node.name) = some config → OwnPart disk node config
  targets : ((copies objectName disk tree.shapes).map Prod.snd).Nodup
  undisturbed : Undisturbed (copies objectName disk tree.shapes) contents

variable {objectName disk}

theorem declaredScale_congr {node node' : ShapeNode F} (h : node.scale.getD 1 = node'.scale.getD 1) :
    declaredScale node = declaredScale node' := by
  have hscale : ∀ n : ShapeNode F, scaleOf n = if n.scale.getD 1 = 0 then 1 else n.scale.getD 1 := by
    intro n
    unfold scaleOf
    cases n.scale with
    | none => simp
    | some s => rfl
  rw [declaredScale, declaredScale, hscale, hscale, h]

omit [DecidableEq P] in
theorem OwnPart.alike {node node' : ShapeNode F} {config : PartConfig F} (h : OwnPart disk node config)
    (h' : OwnPart disk node' config) : Alike disk node node' where
  file := h.file.symm.trans h'.file
  type := h.type.symm.trans h'.type
  scale := h.scale.symm.trans h'.scale
  properties := h.properties.symm.trans h'.properties

/-! ## The object that is built -/

/-- The first node of the name of a node. -/
def firstOf (nodes : List (ShapeNode F)) (node : ShapeNode F) : ShapeNode F :=
  (nodes.find? fun n => n.name = node.name).getD node

theorem find?_firstOf {nodes : List (ShapeNode F)} {node : ShapeNode F} (h : node ∈ nodes) :
    nodes.find? (fun n => n.name = node.name) = some (firstOf nodes node) := by
  obtain ⟨first, hfirst, -⟩ := find?_of_mem ShapeNode.name h
  rw [firstOf, hfirst]
  rfl

theorem firstOf_spec {nodes : List (ShapeNode F)} {node : ShapeNode F} (h : node ∈ nodes) :
    (firstOf nodes node).name = node.name ∧ firstOf nodes node ∈ nodes :=
  find?_key ShapeNode.name (find?_firstOf h)

theorem firstOf_congr {nodes : List (ShapeNode F)} {node node' : ShapeNode F} (h : node ∈ nodes)
    (h' : node' ∈ nodes) (hname : node.name = node'.name) : firstOf nodes node = firstOf nodes node' := by
  have hfirst := find?_firstOf h
  rw [hname, find?_firstOf h'] at hfirst
  exact (Option.some.inj hfirst).symm

omit [DecidableEq P] in
theorem buildsOwn_iff {tree : Tree F} {project : Dict Str (PartConfig F)} :
    BuildsOwn objectName disk tree project ↔ ∀ node ∈ tree.shapes,
      OwnPart disk node (partOfFirst objectName project (firstOf tree.shapes node)).config := by
  have hparts : assembleParts objectName tree project =
      tree.shapes.map fun node => partOfFirst objectName project (firstOf tree.shapes node) := by
    have hmap := assembleParts_eq objectName tree project
    refine List.map_injective_iff.2 (Option.some_injective _) ?_
    rw [hmap, List.map_map]
    refine List.map_congr_left fun node hnode => ?_
    rw [find?_firstOf hnode]
    rfl
  rw [BuildsOwn, hparts, List.forall₂_map_right_iff, List.forall₂_same]

omit [DecidableEq P] in
/-- Nodes of one name say the same, where each has its own part. -/
theorem alike_of_builds {tree : Tree F} {project : Dict Str (PartConfig F)}
    (h : BuildsOwn objectName disk tree project) {node node' : ShapeNode F}
    (hnode : node ∈ tree.shapes) (hnode' : node' ∈ tree.shapes) (hname : node.name = node'.name) :
    Alike disk node node' := by
  have hown := buildsOwn_iff.1 h node hnode
  rw [firstOf_congr hnode hnode' hname] at hown
  exact hown.alike (buildsOwn_iff.1 h node' hnode')

omit [DecidableEq P] in
/-- The part that a node makes is that of each node that says the same. -/
theorem ownConfig_of_alike {node first : ShapeNode F} {config : PartConfig F}
    (halike : Alike disk first node) (hscale : ProperScale first)
    (htype : config.type = first.partType) (hdeclared : config.scale = declaredScale first)
    (hproperties : config.properties = (nodeProperties first).section) : OwnConfig node config where
  type := htype.trans halike.type
  scale := by rw [hdeclared, (declaredScale_iff first).2 hscale, halike.scale]
  properties := by rw [hproperties, section_getD, halike.properties]

/-! ## The conversion -/

theorem mem_entered {nodes : List (ShapeNode F)} {node : ShapeNode F} (h : node ∈ nodes) :
    firstOf nodes node ∈ entered nodes := by
  have hfind := find?_firstOf h
  rw [← find?_entered] at hfind
  exact List.mem_of_find?_eq_some hfind

variable (objectName disk) in
/-- The node whose file stands for that of a node. -/
theorem exists_copier {nodes : List (ShapeNode F)} {node : ShapeNode F} (h : node ∈ entered nodes) :
    ∃ copier ∈ copiers disk nodes, disk.file copier = disk.file node ∧
      fileFor objectName disk nodes (disk.file node) = some (relativeFile objectName copier) := by
  obtain ⟨copier, hcopier, hfile⟩ := find?_of_mem disk.file h
  have hmem : copier ∈ copiers disk nodes := by
    rw [← find?_firstBy] at hcopier
    exact List.mem_of_find?_eq_some hcopier
  refine ⟨copier, hmem, hfile, ?_⟩
  rw [fileFor, hcopier]
  rfl

theorem copier_of_fileFor {nodes : List (ShapeNode F)} {p : P} {relative : Str}
    (h : fileFor objectName disk nodes p = some relative) :
    ∃ copier ∈ copiers disk nodes, disk.file copier = p ∧
      relativeFile objectName copier = relative := by
  obtain ⟨copier, hcopier, rfl⟩ := Option.map_eq_some_iff.1 h
  refine ⟨copier, ?_, (find?_key disk.file hcopier).1, rfl⟩
  rw [← find?_firstBy] at hcopier
  exact List.mem_of_find?_eq_some hcopier

/-- A node whose file is copied stands for its file. -/
theorem fileFor_copier {nodes : List (ShapeNode F)} {copier : ShapeNode F}
    (h : copier ∈ copiers disk nodes) :
    fileFor objectName disk nodes (disk.file copier) = some (relativeFile objectName copier) := by
  have hmem : copier ∈ entered nodes := mem_of_mem_firstBy disk.file h
  obtain ⟨other, hother, hfile, hfor⟩ := exists_copier objectName disk hmem
  obtain rfl : other = copier :=
    List.inj_on_of_nodup_map (nodup_firstBy disk.file (entered nodes)) hother h hfile
  exact hfor

/-- What is declared for a node. -/
theorem Converted.entry {contents : P → Option B} {nodes : List (ShapeNode F)} {c : Conversion F P B}
    (h : Converted objectName disk contents nodes c) {node copier : ShapeNode F} (hnode : node ∈ nodes)
    (hfile : fileFor objectName disk nodes (disk.file (firstOf nodes node)) =
      some (relativeFile objectName copier)) :
    c.parts.get? (partName objectName node.name) =
      some (entryFor (firstOf nodes node) (relativeFile objectName copier)) := by
  rw [h.parts, find?_firstOf hnode, Option.bind_some, hfile]
  rfl

/-- A conversion that gives each shape its own part. -/
theorem ConvertsOwn.converted {tree : Tree F} {contents : P → Option B}
    (h : ConvertsOwn objectName disk tree contents) (hne : tree.shapes ≠ []) :
    ∃ c, Converted objectName disk contents tree.shapes c ∧
      fileToAssy objectName disk tree contents = some (arrangeAll objectName tree.links, c) := by
  rcases fileToAssy_spec objectName disk tree contents hne with ⟨c, hc, hconverted⟩ | ⟨hnone, -⟩
  · exact ⟨c, hconverted, hc⟩
  · obtain ⟨node, hnode⟩ := List.exists_mem_of_ne_nil _ hne
    obtain ⟨c, entry, hsome, -⟩ := h.own node hnode
    rw [hnone] at hsome
    cases hsome

/-- The files are copied from and to where they may be. -/
theorem ConvertsOwn.targets {tree : Tree F} {contents : P → Option B}
    (h : ConvertsOwn objectName disk tree contents) (hne : tree.shapes ≠ []) :
    ((copies objectName disk tree.shapes).map Prod.snd).Nodup := by
  obtain ⟨c, hconverted, hc⟩ := h.converted hne
  rw [copies, List.map_map]
  have hfiles := nodup_firstBy disk.file (entered tree.shapes)
  refine List.Nodup.map_on (fun node hnode node' hnode' heq => ?_) (List.Nodup.of_map _ hfiles)
  have hcopied := (hconverted.copied (disk.file node)).trans (fileFor_copier hnode)
  have hcopied' := (hconverted.copied (disk.file node')).trans (fileFor_copier hnode')
  exact List.inj_on_of_nodup_map hfiles hnode hnode'
    (h.kept _ c hc _ _ _ _ hcopied hcopied' heq)

theorem mem_of_copier {nodes : List (ShapeNode F)} {copier : ShapeNode F}
    (h : copier ∈ copiers disk nodes) : copier ∈ nodes ∧ firstOf nodes copier = copier := by
  have hentered : copier ∈ entered nodes := mem_of_mem_firstBy disk.file h
  have hmem : copier ∈ nodes := mem_of_mem_firstBy ShapeNode.name hentered
  exact ⟨hmem, List.inj_on_of_nodup_map (nodup_firstBy ShapeNode.name nodes) (mem_entered hmem) hentered
    (firstOf_spec hmem).1⟩

theorem ConvertsOwn.undisturbed {tree : Tree F} {contents : P → Option B}
    (h : ConvertsOwn objectName disk tree contents) (hne : tree.shapes ≠ []) :
    Undisturbed (copies objectName disk tree.shapes) contents := by
  obtain ⟨c, hconverted, hc⟩ := h.converted hne
  refine (copyAll_iff (h.targets hne) contents).1 ⟨c.contents, hconverted.contents, fun p hp => ?_⟩
  obtain ⟨copier, hcopier, rfl⟩ := List.mem_map.1 hp
  obtain ⟨hmem, hfirst⟩ := mem_of_copier hcopier
  obtain ⟨c', entry, hc', hentry, -, hcontents⟩ := h.own copier hmem
  obtain ⟨-, rfl⟩ := Prod.mk.inj (Option.some.inj (hc.symm.trans hc'))
  rw [hconverted.entry hmem (by rw [hfirst]; exact fileFor_copier hcopier)] at hentry
  rw [← Option.some.inj hentry] at hcontents
  exact hcontents

/-- A scale that is declared for a node is as it is stated. -/
theorem ConvertsOwn.scale {tree : Tree F} {contents : P → Option B}
    (h : ConvertsOwn objectName disk tree contents) {node : ShapeNode F} (hnode : node ∈ tree.shapes)
    (hfirst : (firstOf tree.shapes node).scale.getD 1 = node.scale.getD 1) : ProperScale node := by
  obtain ⟨c, hconverted, hc⟩ := h.converted (List.ne_nil_of_mem hnode)
  obtain ⟨c', entry, hc', hentry, hown, -⟩ := h.own node hnode
  obtain ⟨-, rfl⟩ := Prod.mk.inj (Option.some.inj (hc.symm.trans hc'))
  obtain ⟨copier, -, -, hfile⟩ := exists_copier objectName disk (mem_entered hnode)
  rw [hconverted.entry hnode hfile] at hentry
  refine (declaredScale_iff node).1 ?_
  rw [← hown.scale, ← Option.some.inj hentry]
  exact congrArg (Option.getD · 1) (declaredScale_congr hfirst).symm

theorem distinguished_of_own {tree : Tree F} {project : Dict Str (PartConfig F)}
    {contents : P → Option B} (hbuilds : BuildsOwn objectName disk tree project)
    (hconverts : ConvertsOwn objectName disk tree contents) :
    Distinguished objectName disk tree project contents := by
  have hempty : tree.shapes = [] → copies objectName disk tree.shapes = [] := fun h => by rw [h]; rfl
  refine ⟨fun node hnode node' hnode' => alike_of_builds hbuilds hnode hnode', fun node hnode => ?_,
    fun node hnode config hconfig => ?_, ?_, ?_⟩
  · obtain ⟨hname, hmem⟩ := firstOf_spec hnode
    exact hconverts.scale hnode (alike_of_builds hbuilds hmem hnode hname).scale
  · have hown := buildsOwn_iff.1 hbuilds node hnode
    rwa [partOfFirst, (firstOf_spec hnode).1, hconfig] at hown
  · by_cases hne : tree.shapes = []
    · rw [hempty hne]
      exact List.nodup_nil
    · exact hconverts.targets hne
  · by_cases hne : tree.shapes = []
    · rw [hempty hne]
      exact ⟨fun _ h => absurd h List.not_mem_nil, .nil⟩
    · exact hconverts.undisturbed hne

theorem Distinguished.ownConfig {tree : Tree F} {project : Dict Str (PartConfig F)}
    {contents : P → Option B} (h : Distinguished objectName disk tree project contents)
    {node : ShapeNode F} (hnode : node ∈ tree.shapes) {config : PartConfig F}
    (htype : config.type = (firstOf tree.shapes node).partType)
    (hdeclared : config.scale = declaredScale (firstOf tree.shapes node))
    (hproperties : config.properties = (nodeProperties (firstOf tree.shapes node)).section) :
    OwnConfig node config := by
  obtain ⟨hname, hmem⟩ := firstOf_spec hnode
  exact ownConfig_of_alike (h.names _ hmem _ hnode hname) (h.scales _ hmem) htype hdeclared hproperties

theorem Distinguished.builds {tree : Tree F} {project : Dict Str (PartConfig F)}
    {contents : P → Option B} (h : Distinguished objectName disk tree project contents) :
    BuildsOwn objectName disk tree project := by
  refine buildsOwn_iff.2 fun node hnode => ?_
  obtain ⟨hname, hmem⟩ := firstOf_spec hnode
  rw [partOfFirst, hname]
  cases hconfig : project.get? (partName objectName node.name) with
  | some config => exact h.taken node hnode config hconfig
  | none =>
    exact ⟨h.ownConfig hnode rfl rfl rfl, (h.names _ hmem _ hnode hname).file⟩

theorem Distinguished.converts {tree : Tree F} {project : Dict Str (PartConfig F)}
    {contents : P → Option B} (h : Distinguished objectName disk tree project contents) :
    ConvertsOwn objectName disk tree contents := by
  obtain ⟨contents', hcopied, hcopies⟩ := (copyAll_iff h.targets contents).2 h.undisturbed
  have hconverted : tree.shapes ≠ [] → ∃ c, Converted objectName disk contents tree.shapes c ∧
      fileToAssy objectName disk tree contents = some (arrangeAll objectName tree.links, c) := by
    intro hne
    rcases fileToAssy_spec objectName disk tree contents hne with ⟨c, hc, hc'⟩ | ⟨-, hfail⟩
    · exact ⟨c, hc', hc⟩
    · rw [hcopied] at hfail
      cases hfail
  refine ⟨fun node hnode => ?_, fun node hnode node' hnode' hname => ?_, ?_⟩
  · obtain ⟨c, hspec, hc⟩ := hconverted (List.ne_nil_of_mem hnode)
    obtain ⟨hname, hmem⟩ := firstOf_spec hnode
    obtain ⟨copier, hcopier, hfile, hfor⟩ := exists_copier objectName disk (mem_entered hnode)
    refine ⟨c, _, hc, hspec.entry hnode hfor, h.ownConfig hnode rfl rfl rfl, ?_⟩
    obtain rfl := Option.some.inj (hcopied.symm.trans hspec.contents)
    have hcopy := hcopies _ (List.mem_map_of_mem (f := copyOf objectName disk) hcopier)
    refine hcopy.trans (congrArg contents ?_)
    exact hfile.trans (h.names _ hmem _ hnode hname).file
  · exact (h.names _ hnode _ hnode' (partName_injective hname)).file
  · intro links c hc p p' relative relative' hp hp' heq
    have hne : tree.shapes ≠ [] := by
      intro hnil
      rw [fileToAssy_of_nil hnil] at hc
      cases hc
    obtain ⟨c', hspec, hc'⟩ := hconverted hne
    obtain ⟨-, rfl⟩ := Prod.mk.inj (Option.some.inj (hc.symm.trans hc'))
    obtain ⟨copier, hcopier, rfl, rfl⟩ := copier_of_fileFor ((hspec.copied p).symm.trans hp)
    obtain ⟨copier', hcopier', rfl, rfl⟩ := copier_of_fileFor ((hspec.copied p').symm.trans hp')
    have htargets := h.targets
    rw [copies, List.map_map] at htargets
    exact congrArg disk.file (List.inj_on_of_nodup_map htargets hcopier hcopier' heq)

/-- **Each shape has its own part** if and only if the nodes of one name say the same, their scales can be
declared, no other part has their names, and the files are copied apart from each other. -/
theorem own_iff (objectName : Str) (disk : Disk P) (tree : Tree F) (project : Dict Str (PartConfig F))
    (contents : P → Option B) :
    BuildsOwn objectName disk tree project ∧ ConvertsOwn objectName disk tree contents ↔
      Distinguished objectName disk tree project contents :=
  ⟨fun h => distinguished_of_own h.1 h.2, fun h => ⟨h.builds, h.converts⟩⟩

end

/-! ## Names that are shared -/

/-- The node of a part of a URDF file. -/
def PartNode.shapeNode {V : Type} (node : PartNode ℚ V) : ShapeNode (Dict Str V) where
  name := node.name
  partFile := node.shape.partFile
  partType := node.shape.partType
  scale := some node.shape.scale
  material := node.shape.material
  color := node.shape.color
  physics := if node.physics.items.isEmpty then none else some node.physics

/-- What is placed for a link. -/
def linkTree (link : Link Unit ℚ Unit) : TreeNode (Dict Str Unit) :=
  .assembly link.name
    ((linkGeometry (.links []) link).1.map fun p => .part p.2.shapeNode)

def mesh (name : Option Str) (file : Str) : Element Unit ℚ :=
  ⟨name, some ((), ⟨file, "stl".toList, 1, none, none⟩)⟩

/-- A link with two elements of one name. -/
def shells : Link Unit ℚ Unit where
  name := "arm".toList
  visuals :=
    [mesh (some "shell".toList) "/left.stl".toList, mesh (some "shell".toList) "/right.stl".toList]
  collisions := []
  physics := Dict.empty

/-- Two links: the name of an element of the one is like that of the other, but for the slash. -/
def arms : List (Link Unit ℚ Unit) :=
  [⟨"arm".toList, [mesh (some "left".toList) "/left.stl".toList, mesh none "/right.stl".toList], [],
      Dict.empty⟩,
    ⟨"arm_left".toList, [mesh none "/other.stl".toList], [], Dict.empty⟩]

/-- Files in the root, and a package next to them. -/
def besidePackage : Disk Str := ⟨id, fun relative => "/package/".toList ++ relative⟩

/-- **Two elements of one name** become one part, and two files are copied to one place. -/
theorem not_own_twice :
    ¬ (BuildsOwn "robot".toList besidePackage ⟨[linkTree shells], []⟩ Dict.empty ∧
      ConvertsOwn "robot".toList besidePackage ⟨[linkTree shells], []⟩ fun _ => some ()) ∧
    ¬ (BuildsOwn "robot".toList besidePackage ⟨arms.map linkTree, []⟩ Dict.empty ∧
      ConvertsOwn "robot".toList besidePackage ⟨arms.map linkTree, []⟩ fun _ => some ()) := by
  constructor
  · rintro ⟨hbuilds, -⟩
    obtain ⟨left, right, hshapes, hname, hfile⟩ : ∃ left right,
        (⟨[linkTree shells], []⟩ : Tree _).shapes = [left, right] ∧ left.name = right.name ∧
          left.partFile ≠ right.partFile := ⟨_, _, rfl, rfl, by decide⟩
    have hleft : left ∈ (⟨[linkTree shells], []⟩ : Tree _).shapes := by simp [hshapes]
    have hright : right ∈ (⟨[linkTree shells], []⟩ : Tree _).shapes := by simp [hshapes]
    exact hfile (alike_of_builds hbuilds hleft hright hname).file
  · rintro ⟨-, hconverts⟩
    have htargets := hconverts.targets (List.cons_ne_nil _ _)
    exact absurd htargets (by decide)

end PartCAD.Imported
