import Mathlib.Data.List.Perm.Basic
import PartCAD.Export.Urdf

/-!
# The tree of links

The joints hang every link from one root.  From the root to a visual the origins are composed, and
this is what the placements from the root node to the shape are when they are written exactly.

* `Built` : what every state of the export keeps;
* `carries_emitAll` : the visuals below a link are the shapes below its node;
* `process_spec` : what the file holds of every assembly.
-/

namespace PartCAD.Urdf

open PartCAD.Lib PartCAD.Lib.Text

/-! ## The shapes of a tree -/

section

variable {G P : Type}

mutual

/-- The shapes below a node, with the placements on the way from the node to them. -/
def below : Node G P → List (Shape G P × List (Option P))
  | .shape s => [(s, [])]
  | .assembly _ _ _ children => belowAll children

def belowAll : List (Node G P) → List (Shape G P × List (Option P))
  | [] => []
  | child :: children =>
    (below child).map (fun leaf => (leaf.1, child.location :: leaf.2)) ++ belowAll children

end

/-- The shapes of a tree, with the placements from the root node down to them. -/
def leaves (root : Node G P) : List (Shape G P × List (Option P)) :=
  (below root).map fun leaf => (leaf.1, root.location :: leaf.2)

theorem belowAll_cons (child : Node G P) (children : List (Node G P)) :
    belowAll (child :: children) =
      (below child).map (fun leaf => (leaf.1, child.location :: leaf.2)) ++ belowAll children := by
  rw [belowAll]

mutual

/-- The placement of a shape is on the way to it. -/
theorem location_mem_below (node : Node G P) {leaf : Shape G P × List (Option P)}
    (h : leaf ∈ below node) : leaf.1.location ∈ node.location :: leaf.2 := by
  match node with
  | .shape s =>
    rw [below] at h
    obtain rfl := List.mem_singleton.1 h
    exact List.mem_singleton_self _
  | .assembly label name location children =>
    rw [below] at h
    exact List.mem_cons_of_mem _ (location_mem_belowAll children h)

theorem location_mem_belowAll (children : List (Node G P)) {leaf : Shape G P × List (Option P)}
    (h : leaf ∈ belowAll children) : leaf.1.location ∈ leaf.2 := by
  match children with
  | [] =>
    rw [belowAll] at h
    exact absurd h List.not_mem_nil
  | child :: children =>
    rw [belowAll] at h
    rcases List.mem_append.1 h with h | h
    · obtain ⟨leaf', hleaf', rfl⟩ := List.mem_map.1 h
      exact location_mem_below child hleaf'
    · exact location_mem_belowAll children h

end

theorem location_mem {node : Node G P} {leaf : Shape G P × List (Option P)} (h : leaf ∈ leaves node) :
    leaf.1.location ∈ leaf.2 := by
  obtain ⟨leaf', hleaf', rfl⟩ := List.mem_map.1 h
  exact location_mem_below node hleaf'

theorem eq_shape_of_belongs {node child : Node G P} {s : Shape G P}
    (h : node.belongs child = some s) : child = .shape s := by
  cases child with
  | shape t =>
    unfold Node.belongs at h
    dsimp only at h
    split at h
    · exact congrArg Node.shape (Option.some.inj h)
    · cases h
  | assembly => cases h

/-- The shapes that belong to the node come first, and the other children after them. -/
theorem belowAll_perm (node : Node G P) (children : List (Node G P)) :
    (belowAll children).Perm
      (((children.filterMap node.belongs).map fun s => (s, [s.location])) ++
        belowAll (children.filter fun child => (node.belongs child).isNone)) := by
  induction children with
  | nil => exact List.Perm.refl _
  | cons child children ih =>
    cases hbelongs : node.belongs child with
    | some s =>
      obtain rfl := eq_shape_of_belongs hbelongs
      rw [belowAll_cons, List.filterMap_cons_some hbelongs, List.filter_cons_of_neg (by simp [hbelongs])]
      exact ih.cons (s, [s.location])
    | none =>
      rw [belowAll_cons, List.filterMap_cons_none hbelongs, List.filter_cons_of_pos (by simp [hbelongs]),
        belowAll_cons]
      refine (ih.append_left _).trans ?_
      rw [← List.append_assoc, ← List.append_assoc]
      exact List.perm_append_comm.append_right _

end

/-! ## What a state holds -/

section

variable {G P Pose Origin M : Type} [DecidableEq G] [Monoid M]
  (c : Convention P Pose Origin) (options : Options) (move : Origin → M)

/-- The motion that a placement is written as. -/
def written (p : Option P) : M := move (c.toUrdfOrigin (c.fromPacked p))

/-- A visual without an origin stays where the link is. -/
def Visual.motion (v : Visual G P Origin) : M :=
  match v.origin with
  | none => 1
  | some origin => move origin

def Joint.edge (j : Joint Origin) : Edge Str M := ⟨j.parent, j.child, move j.origin⟩

namespace State

/-- The joints as the edges of a tree. -/
def edges (s : State G P Origin) : List (Edge Str M) := s.joints.map (Joint.edge move)

/-- The visuals, with the names of their links. -/
def placed (s : State G P Origin) : List (Str × Visual G P Origin) :=
  s.links.flatMap fun link => link.visuals.map fun v => (link.name, v)

end State

/-- The mesh files: no two shapes share one. -/
structure Meshes (s : State G P Origin) : Prop where
  files : ∀ brep file, s.meshes.get? brep = some file →
    ∃ name ∈ s.meshNames.used, file = options.meshDirName ++ '/' :: name ++ ".stl".toList
  distinct : ∀ brep brep' file, s.meshes.get? brep = some file → s.meshes.get? brep' = some file →
    brep = brep'

/-- What every state of the export keeps. -/
structure Built (root : Str) (s : State G P Origin) : Prop where
  links : s.links.map Link.name = s.names.used
  joints : s.joints.map Joint.name = s.jointNames.used
  jointNames : s.jointNames.used.Nodup
  tree : Grown root s.names.used (s.edges move)
  meshes : Meshes options s

/-- Nothing is taken away from a state. -/
structure Extends (s s' : State G P Origin) : Prop where
  edges : ∀ e ∈ s.edges move, e ∈ s'.edges move
  meshes : ∀ brep file, s.meshes.get? brep = some file → s'.meshes.get? brep = some file

/-- A visual shows the mesh of a shape, in the place of the shape. -/
structure Shown (root : Str) (s : State G P Origin) (leaf : Shape G P × M)
    (v : Str × Visual G P Origin) : Prop where
  shape : v.2.shape = leaf.1
  placement : v.2.placement = none ∨ v.2.placement = v.2.shape.location
  origin : v.2.origin = v.2.placement.map fun p => c.toUrdfOrigin (c.fromPacked (some p))
  file : ∃ file, s.meshes.get? leaf.1.brep = some file ∧ v.2.filename = options.meshPrefix ++ file
  place : ∃ m, Reaches (s.edges move) root v.1 m ∧ m * v.2.motion move = leaf.2

/-- From one state to the next, visuals for the shapes were added. -/
structure Carries (root : Str) (s s' : State G P Origin) (shapes : List (Shape G P × M)) : Prop where
  built : Built options move root s'
  grows : Extends move s s'
  shows : ∃ vs, s'.placed.Perm (s.placed ++ vs) ∧ List.Forall₂ (Shown c options move root s') shapes vs

variable {c options move} {root : Str} {s s' s'' : State G P Origin}

omit [Monoid M] in
theorem Extends.refl (s : State G P Origin) : Extends move s s := ⟨fun _ h => h, fun _ _ h => h⟩

omit [Monoid M] in
theorem Extends.trans (h : Extends move s s') (h' : Extends move s' s'') : Extends move s s'' :=
  ⟨fun e he => h'.edges e (h.edges e he), fun b f hf => h'.meshes b f (h.meshes b f hf)⟩

theorem Shown.mono {leaf : Shape G P × M} {v : Str × Visual G P Origin} (h : Shown c options move root s leaf v)
    (hext : Extends move s s') : Shown c options move root s' leaf v := by
  obtain ⟨file, hget, hname⟩ := h.file
  obtain ⟨m, hreach, hm⟩ := h.place
  exact ⟨h.shape, h.placement, h.origin, ⟨file, hext.meshes _ _ hget, hname⟩, m, hreach.mono hext.edges, hm⟩

namespace Carries

variable {shapes shapes' : List (Shape G P × M)}

theorem refl (h : Built options move root s) : Carries c options move root s s [] :=
  ⟨h, .refl s, [], by rw [List.append_nil], .nil⟩

theorem trans (h : Carries c options move root s s' shapes)
    (h' : Carries c options move root s' s'' shapes') :
    Carries c options move root s s'' (shapes ++ shapes') := by
  obtain ⟨vs, hperm, hshown⟩ := h.shows
  obtain ⟨vs', hperm', hshown'⟩ := h'.shows
  refine ⟨h'.built, h.grows.trans h'.grows, vs ++ vs', ?_, ?_⟩
  · rw [← List.append_assoc]
    exact hperm'.trans (hperm.append_right vs')
  · exact List.rel_append (hshown.imp fun leaf v hv => hv.mono h'.grows) hshown'

theorem perm (h : Carries c options move root s s' shapes) (hperm : shapes'.Perm shapes) :
    Carries c options move root s s' shapes' := by
  obtain ⟨vs, hplaced, hshown⟩ := h.shows
  obtain ⟨vs', hshown', hvs⟩ := List.perm_comp_forall₂ hperm hshown
  exact ⟨h.built, h.grows, vs', hplaced.trans (hvs.symm.append_left _), hshown'⟩

end Carries

/-! ## One link -/

/-- Only meshes were added. -/
structure Drew (options : Options) (s s' : State G P Origin) : Prop where
  names : s'.names = s.names
  jointNames : s'.jointNames = s.jointNames
  links : s'.links = s.links
  joints : s'.joints = s.joints
  kept : ∀ brep file, s.meshes.get? brep = some file → s'.meshes.get? brep = some file
  meshes : Meshes options s → Meshes options s'

theorem Drew.refl (s : State G P Origin) : Drew options s s :=
  ⟨rfl, rfl, rfl, rfl, fun _ _ h => h, fun h => h⟩

theorem Drew.trans (h : Drew options s s') (h' : Drew options s' s'') : Drew options s s'' where
  names := h'.names.trans h.names
  jointNames := h'.jointNames.trans h.jointNames
  links := h'.links.trans h.links
  joints := h'.joints.trans h.joints
  kept brep file hget := h'.kept brep file (h.kept brep file hget)
  meshes hmeshes := h'.meshes (h.meshes hmeshes)

theorem meshFile_injective {name name' : Str}
    (h : options.meshDirName ++ '/' :: name ++ ".stl".toList =
      options.meshDirName ++ '/' :: name' ++ ".stl".toList) : name = name' := by
  have hcons := List.append_cancel_left (List.append_cancel_right h)
  exact (List.cons.inj hcons).2

theorem meshes_set {brep : G} (h : Meshes options s) (name : Option Str) (fallback : Str) :
    Meshes options { s with
      meshNames := (s.meshNames.take name fallback).2
      meshes := s.meshes.set brep
        (options.meshDirName ++ '/' :: (s.meshNames.take name fallback).1 ++ ".stl".toList) } := by
  set meshName := (s.meshNames.take name fallback).1 with hname
  have hfresh : meshName ∉ s.meshNames.used := take_fresh _ _ _
  have hold : ∀ b, s.meshes.get? b ≠
      some (options.meshDirName ++ '/' :: meshName ++ ".stl".toList) := by
    intro b hb
    obtain ⟨name', hmem, heq⟩ := h.files b _ hb
    obtain rfl := meshFile_injective heq
    exact hfresh hmem
  refine ⟨?_, ?_⟩
  · intro b file hget
    rw [take_used]
    by_cases hb : brep = b
    · subst hb
      rw [Dict.get?_set_self] at hget
      exact ⟨meshName, List.mem_append_right _ (List.mem_singleton_self _), (Option.some.inj hget).symm⟩
    · rw [Dict.get?_set_of_ne _ _ hb] at hget
      obtain ⟨name', hmem, heq⟩ := h.files b file hget
      exact ⟨name', List.mem_append_left _ hmem, heq⟩
  · intro b b' file hget hget'
    rw [Dict.get?_set] at hget hget'
    split at hget
    · split at hget'
      · rename_i hb hb'
        exact hb.symm.trans hb'
      · obtain rfl := Option.some.inj hget
        exact absurd hget' (hold b')
    · split at hget'
      · obtain rfl := Option.some.inj hget'
        exact absurd hget (hold b)
      · exact h.distinct b b' file hget hget'

theorem meshReference_spec (options : Options) (shape : Shape G P) (linkName : Str)
    (s : State G P Origin) :
    Drew options s (meshReference options shape linkName s).2 ∧
      ∃ file, (meshReference options shape linkName s).2.meshes.get? shape.brep = some file ∧
        (meshReference options shape linkName s).1 = options.meshPrefix ++ file := by
  cases hget : s.meshes.get? shape.brep with
  | some file =>
    have heq : meshReference options shape linkName s = (options.meshPrefix ++ file, s) := by
      unfold meshReference
      rw [hget]
    rw [heq]
    exact ⟨.refl s, file, hget, rfl⟩
  | none =>
    set taken := s.meshNames.take
      (some (if shape.label.getD [] = [] then linkName else shape.label.getD [])) "mesh".toList with htaken
    set file := options.meshDirName ++ '/' :: taken.1 ++ ".stl".toList with hfile
    have heq : meshReference options shape linkName s =
        (options.meshPrefix ++ file,
          { s with meshNames := taken.2, meshes := s.meshes.set shape.brep file }) := by
      unfold meshReference
      rw [hget]
    rw [heq]
    refine ⟨⟨rfl, rfl, rfl, rfl, ?_, fun hmeshes => meshes_set hmeshes _ _⟩, file, ?_, rfl⟩
    · intro brep old hold
      have hne : shape.brep ≠ brep := by
        rintro rfl
        rw [hget] at hold
        cases hold
      exact (Dict.get?_set_of_ne _ _ hne).trans hold
    · exact Dict.get?_set_self _ _ _

/-- A visual for an element: its mesh, and the placement as an origin. -/
structure Drawn (c : Convention P Pose Origin) (options : Options) (s : State G P Origin)
    (element : Shape G P × Option P) (v : Visual G P Origin) : Prop where
  made : (v.shape, v.placement) = element
  file : ∃ file, s.meshes.get? element.1.brep = some file ∧ v.filename = options.meshPrefix ++ file
  origin : v.origin = element.2.map fun p => c.toUrdfOrigin (c.fromPacked (some p))

theorem buildVisuals_spec (c : Convention P Pose Origin) (options : Options) (linkName : Str)
    (elements : List (Shape G P × Option P)) (s : State G P Origin) :
    Drew options s (buildVisuals c options linkName elements s).2 ∧
      List.Forall₂ (Drawn c options (buildVisuals c options linkName elements s).2) elements
        (buildVisuals c options linkName elements s).1 := by
  induction elements generalizing s with
  | nil => exact ⟨.refl s, .nil⟩
  | cons element elements ih =>
    obtain ⟨hdrew, file, hget, hname⟩ := meshReference_spec options element.1 linkName s
    obtain ⟨hdrew', hdrawn⟩ := ih (meshReference options element.1 linkName s).2
    exact ⟨hdrew.trans hdrew', .cons ⟨rfl, ⟨file, hdrew'.kept _ _ hget, hname⟩, rfl⟩ hdrawn⟩

variable (c move) in
/-- The shapes of a link that stands where the motion says. -/
def ownShapes (m : M) (elements : List (Shape G P × Option P)) : List (Shape G P × M) :=
  elements.map fun element => (element.1, m * written c move element.2)

theorem motion_of_drawn (hnone : written c move none = 1) {element : Shape G P × Option P}
    {v : Visual G P Origin} (h : Drawn c options s element v) :
    v.motion move = written c move element.2 := by
  have horigin := h.origin
  unfold Visual.motion
  cases helement : element.2 with
  | none =>
    rw [helement, Option.map_none] at horigin
    rw [horigin, hnone]
  | some p =>
    rw [helement, Option.map_some] at horigin
    rw [horigin]
    rfl

/-- A link was added, with a joint or without one. -/
structure Linked (c : Convention P Pose Origin) (options : Options) (s s' : State G P Origin)
    (linkName : Str) (elements : List (Shape G P × Option P)) (visuals : List (Visual G P Origin))
    (added : List (Joint Origin)) : Prop where
  fresh : linkName ∉ s.names.used
  names : s'.names.used = s.names.used ++ [linkName]
  links : s'.links = s.links ++ [⟨linkName, visuals⟩]
  joints : s'.joints = s.joints ++ added
  jointNames : s'.jointNames.used = s.jointNames.used ++ added.map Joint.name
  distinct : s.jointNames.used.Nodup → s'.jointNames.used.Nodup
  kept : ∀ brep file, s.meshes.get? brep = some file → s'.meshes.get? brep = some file
  meshes : Meshes options s → Meshes options s'
  drawn : List.Forall₂ (Drawn c options s') elements visuals

omit [Monoid M] in
theorem emitLink_spec (c : Convention P Pose Origin) (options : Options) (move : Origin → M)
    (node : Node G P) (parentLink : Option Str) (pose : Pose) (s : State G P Origin) :
    ∃ visuals joints, Linked c options s (emitLink c options node parentLink pose s).2
        (emitLink c options node parentLink pose s).1 node.shapeElements.1 visuals joints ∧
      joints.map (Joint.edge move) = parentLink.toList.map fun parent =>
        ⟨parent, (emitLink c options node parentLink pose s).1, move (c.toUrdfOrigin pose)⟩ := by
  set linkName := (s.names.take node.title "link".toList).1 with hlinkName
  set named : State G P Origin := { s with names := (s.names.take node.title "link".toList).2 } with hnamed
  obtain ⟨hdrew, hdrawn⟩ := buildVisuals_spec c options linkName node.shapeElements.1 named
  set built := buildVisuals c options linkName node.shapeElements.1 named with hbuilt
  have hfresh : linkName ∉ s.names.used := take_fresh _ _ _
  have hmeshes : Meshes options s → Meshes options built.2 := fun h => hdrew.meshes ⟨h.files, h.distinct⟩
  have hnames : built.2.names.used = s.names.used ++ [linkName] := by rw [hdrew.names]; rfl
  have hlinks : built.2.links ++ [⟨linkName, built.1⟩] = s.links ++ [⟨linkName, built.1⟩] := by
    rw [hdrew.links]
  have hjoints : built.2.joints = s.joints := hdrew.joints
  have hjointNames : built.2.jointNames = s.jointNames := hdrew.jointNames
  cases parentLink with
  | none =>
    refine ⟨built.1, [], ⟨hfresh, hnames, hlinks, ?_, ?_, ?_, hdrew.kept, ?_, ?_⟩, rfl⟩
    · rw [List.append_nil]
      exact hjoints
    · rw [List.map_nil, List.append_nil]
      exact congrArg NameAllocator.used hjointNames
    · intro h
      have hdistinct : built.2.jointNames.used.Nodup := by
        rw [hjointNames]
        exact h
      exact hdistinct
    · exact fun h => ⟨(hmeshes h).files, (hmeshes h).distinct⟩
    · exact hdrawn.imp fun _ _ h => ⟨h.made, h.file, h.origin⟩
  | some parent =>
    set jointName := (built.2.jointNames.take (some (parent ++ "_to_".toList ++ linkName))
      "joint".toList).1 with hjointName
    refine ⟨built.1, [⟨jointName, parent, linkName, c.toUrdfOrigin pose⟩],
      ⟨hfresh, hnames, hlinks, ?_, ?_, ?_, hdrew.kept, ?_, ?_⟩, rfl⟩
    · exact congrArg (· ++ [_]) hjoints
    · exact congrArg (fun a => a.used ++ [jointName]) hjointNames
    · intro h
      have hdistinct : built.2.jointNames.used.Nodup := by
        rw [hjointNames]
        exact h
      exact nodup_take hdistinct _ _
    · exact fun h => ⟨(hmeshes h).files, (hmeshes h).distinct⟩
    · exact hdrawn.imp fun _ _ h => ⟨h.made, h.file, h.origin⟩

section

variable {linkName : Str} {elements : List (Shape G P × Option P)} {visuals : List (Visual G P Origin)}
  {added : List (Joint Origin)} (h : Linked c options s s' linkName elements visuals added)

include h

omit [Monoid M] in
theorem Linked.edges : s'.edges move = s.edges move ++ added.map (Joint.edge move) := by
  rw [State.edges, h.joints, List.map_append]
  rfl

omit [Monoid M] in
theorem Linked.grows : Extends move s s' where
  edges e he := by
    rw [h.edges]
    exact List.mem_append_left _ he
  meshes := h.kept

theorem Linked.placed : s'.placed = s.placed ++ visuals.map fun v => (linkName, v) := by
  simp only [State.placed, h.links, List.flatMap_append, List.flatMap_cons, List.flatMap_nil,
    List.append_nil]

/-- A link below one that is there. -/
theorem Linked.built (hs : Built options move root s) {parent : Str} {m : M}
    (hparent : parent ∈ s.names.used)
    (hadded : added.map (Joint.edge move) = [⟨parent, linkName, m⟩]) : Built options move root s' where
  links := by rw [h.links, h.names, List.map_append, hs.links]; rfl
  joints := by rw [h.joints, h.jointNames, List.map_append, hs.joints]
  jointNames := h.distinct hs.jointNames
  tree := by
    rw [h.names, h.edges, hadded]
    exact hs.tree.add (e := ⟨parent, linkName, m⟩) hparent h.fresh
  meshes := h.meshes hs.meshes

/-- The visuals of the link are its own shapes. -/
theorem Linked.carries (hnone : written c move none = 1) (hs' : Built options move root s') {m : M}
    (hreach : Reaches (s'.edges move) root linkName m)
    (hplacement : ∀ e ∈ elements, e.2 = none ∨ e.2 = e.1.location) :
    Carries c options move root s s' (ownShapes c move m elements) := by
  refine ⟨hs', h.grows, visuals.map fun v => (linkName, v), by rw [h.placed], ?_⟩
  rw [ownShapes, List.forall₂_map_left_iff, List.forall₂_map_right_iff]
  have hdrawn := (List.forall₂_and_left _ _).2 ⟨hplacement, h.drawn⟩
  refine hdrawn.imp fun element v hv => ?_
  obtain ⟨hlocation, hv⟩ := hv
  obtain rfl := hv.made
  refine ⟨rfl, hlocation, hv.origin, hv.file, m, hreach, ?_⟩
  rw [motion_of_drawn hnone hv]

end

/-! ## The walk over the tree -/

variable (c move) in
/-- The shapes below a node that stands where the motion says, where they are written. -/
def shapesAt (m : M) (ls : List (Shape G P × List (Option P))) : List (Shape G P × M) :=
  ls.map fun leaf => (leaf.1, m * (leaf.2.map (written c move)).prod)

omit [DecidableEq G] in
theorem shapesAt_cons (m : M) (child : Node G P) :
    shapesAt c move m ((below child).map fun leaf => (leaf.1, child.location :: leaf.2)) =
      shapesAt c move (m * written c move child.location) (below child) := by
  simp only [shapesAt, List.map_map, Function.comp_def, List.map_cons, List.prod_cons, mul_assoc]

omit [DecidableEq G] in
theorem shapesAt_belowAll_cons (m : M) (child : Node G P) (children : List (Node G P)) :
    shapesAt c move m (belowAll (child :: children)) =
      shapesAt c move (m * written c move child.location) (below child) ++
        shapesAt c move m (belowAll children) := by
  rw [belowAll_cons, ← shapesAt_cons]
  exact List.map_append

omit [DecidableEq G] in
/-- The own shapes of a node, and those below its other children, are all that is below it. -/
theorem shapesAt_below (hnone : written c move none = 1) (m : M) (node : Node G P) :
    (shapesAt c move m (below node)).Perm
      (ownShapes c move m node.shapeElements.1 ++
        shapesAt c move m (belowAll node.shapeElements.2)) := by
  cases node with
  | shape s =>
    rw [below]
    simp [Node.shapeElements, ownShapes, shapesAt, belowAll, hnone]
  | assembly label name location children =>
    rw [below]
    refine ((belowAll_perm (.assembly label name location children) children).map _).trans ?_
    rw [List.map_append]
    simp [Node.shapeElements, ownShapes, shapesAt, Function.comp_def]

omit [DecidableEq G] [Monoid M] in
theorem placement_of_mem {node : Node G P} {e : Shape G P × Option P}
    (h : e ∈ node.shapeElements.1) : e.2 = none ∨ e.2 = e.1.location := by
  cases node with
  | shape s =>
    obtain rfl := List.mem_singleton.1 h
    exact Or.inl rfl
  | assembly label name location children =>
    obtain ⟨s, -, rfl⟩ := List.mem_map.1 h
    exact Or.inr rfl

/-- A link and what is below it. -/
theorem carries_node (hnone : written c move none = 1) {node : Node G P} {linkName : Str}
    {visuals : List (Visual G P Origin)} {added : List (Joint Origin)} {m : M}
    (hlinked : Linked c options s s' linkName node.shapeElements.1 visuals added)
    (hs' : Built options move root s') (hreach : Reaches (s'.edges move) root linkName m)
    (hrest : Carries c options move root s' s'' (shapesAt c move m (belowAll node.shapeElements.2))) :
    Carries c options move root s s'' (shapesAt c move m (below node)) :=
  ((hlinked.carries hnone hs' hreach fun _ he => placement_of_mem he).trans hrest).perm (shapesAt_below hnone m node)

mutual

theorem carries_emit (hnone : written c move none = 1) (node : Node G P) {s : State G P Origin}
    {parent : Str} {m : M} (hs : Built options move root s)
    (hparent : Reaches (s.edges move) root parent m) :
    Carries c options move root s
      (emit c options node (some parent) (c.fromPacked node.location) s)
      (shapesAt c move (m * written c move node.location) (below node)) := by
  obtain ⟨visuals, added, hlinked, hadded⟩ :=
    emitLink_spec c options move node (some parent) (c.fromPacked node.location) s
  have hs' := hlinked.built hs (hs.tree.mem_of_reaches hparent) hadded
  have hreach : Reaches (State.edges move (emitLink c options node (some parent)
      (c.fromPacked node.location) s).2) root (emitLink c options node (some parent)
      (c.fromPacked node.location) s).1 (m * written c move node.location) := by
    have hgrows : Extends move s _ := hlinked.grows
    have hold := hparent.mono hgrows.edges
    refine Reaches.edge (e := ⟨parent, _, _⟩) ?_ hold
    rw [hlinked.edges, hadded]
    exact List.mem_append_right _ (List.mem_singleton_self _)
  refine carries_node hnone hlinked hs' hreach ?_
  match node with
  | .shape shape =>
    rw [emit]
    exact .refl hs'
  | .assembly label name location children =>
    rw [emit]
    exact carries_emitAll hnone (.assembly label name location children) children hs' hreach

theorem carries_emitAll (hnone : written c move none = 1) (node : Node G P)
    (children : List (Node G P)) {s : State G P Origin} {linkName : Str} {m : M}
    (hs : Built options move root s) (hlink : Reaches (s.edges move) root linkName m) :
    Carries c options move root s (emitAll c options node children linkName s)
      (shapesAt c move m (belowAll (children.filter fun child => (node.belongs child).isNone))) := by
  match children with
  | [] =>
    rw [emitAll]
    exact .refl hs
  | child :: children =>
    rw [emitAll]
    cases hbelongs : (node.belongs child).isNone with
    | false =>
      rw [List.filter_cons_of_neg (by simp [hbelongs])]
      exact carries_emitAll hnone node children hs hlink
    | true =>
      rw [List.filter_cons_of_pos (by simp [hbelongs]), shapesAt_belowAll_cons]
      have hchild := carries_emit hnone child hs hlink
      exact hchild.trans
        (carries_emitAll hnone node children hchild.built (hlink.mono hchild.grows.edges))

end

/-! ## The whole file -/

omit [Monoid M] in
theorem meshes_nil (options : Options) {s : State G P Origin} (h : s.meshes = Dict.empty) :
    Meshes options s := by
  have hnone : ∀ brep file, s.meshes.get? brep ≠ some file := by
    intro brep file
    rw [h, Dict.get?_empty]
    exact (Option.some_ne_none file).symm
  exact ⟨fun b f hget => absurd hget (hnone b f), fun b _ f hget => absurd hget (hnone b f)⟩

omit [Monoid M] in
theorem emit_eq (node : Node G P) (parentLink : Option Str) (pose : Pose) (s : State G P Origin) :
    emit c options node parentLink pose s =
      emitAll c options node node.children (emitLink c options node parentLink pose s).1
        (emitLink c options node parentLink pose s).2 := by
  cases node with
  | shape shape =>
    rw [emit, Node.children, emitAll]
  | assembly label name location children =>
    rw [emit]
    rfl

omit [DecidableEq G] [Monoid M] in
theorem shapeElements_snd (node : Node G P) :
    node.shapeElements.2 = node.children.filter fun child => (node.belongs child).isNone := by
  cases node with
  | shape => rfl
  | assembly => rfl

/-- The node at the top, without a joint above it. -/
theorem carries_top (options : Options) (hnone : written c move none = 1) (node : Node G P) (pose : Pose) :
    ∃ root, Carries c options move root State.empty (emit c options node none pose State.empty)
      (shapesAt c move 1 (below node)) := by
  obtain ⟨visuals, added, hlinked, hadded⟩ :=
    emitLink_spec c options move node none pose (State.empty : State G P Origin)
  have hadded' : added = [] := List.map_eq_nil_iff.1 hadded
  have hbuilt : Built options move (emitLink c options node none pose State.empty).1
      (emitLink c options node none pose (State.empty : State G P Origin)).2 := by
    refine ⟨?_, ?_, ?_, ?_, hlinked.meshes (meshes_nil options rfl)⟩
    · rw [hlinked.links, hlinked.names]
      rfl
    · rw [hlinked.joints, hlinked.jointNames, hadded']
      rfl
    · exact hlinked.distinct List.nodup_nil
    · rw [hlinked.names, hlinked.edges, hadded']
      exact Grown.single _
  refine ⟨_, carries_node hnone hlinked hbuilt .root ?_⟩
  rw [emit_eq, shapeElements_snd]
  exact carries_emitAll hnone node node.children hbuilt .root

variable (c move) in
/-- Where the root node is put; a placement that is taken for the identity is left out. -/
def rootMotion (p : Option P) : M := if c.isIdentity (c.fromPacked p) then 1 else written c move p

/-- **What the file holds**: one tree of links, and a visual for every shape. -/
theorem process_spec (options : Options) (hnone : written c move none = 1) (node : Node G P) :
    ∃ root, Built options move root (process c options node) ∧
      ∃ vs, (process c options node).placed.Perm vs ∧
        List.Forall₂ (Shown c options move root (process c options node))
          (shapesAt c move (rootMotion c move node.location) (below node)) vs := by
  cases hidentity : c.isIdentity (c.fromPacked node.location) with
  | true =>
    obtain ⟨root, hcarries⟩ := carries_top options hnone node (c.fromPacked node.location)
    obtain ⟨vs, hperm, hshown⟩ := hcarries.shows
    rw [process, hidentity, rootMotion, hidentity]
    exact ⟨root, hcarries.built, vs, hperm, hshown⟩
  | false =>
    set world := "world".toList with hworld
    set taken := (⟨[]⟩ : NameAllocator).take (some world) world with htaken
    set start : State G P Origin :=
      { (State.empty : State G P Origin) with names := taken.2, links := [⟨taken.1, []⟩] } with hstart
    have hbuilt : Built options move taken.1 start :=
      ⟨rfl, rfl, List.nodup_nil, Grown.single taken.1, meshes_nil options rfl⟩
    have hcarries := carries_emit hnone node hbuilt .root
    obtain ⟨vs, hperm, hshown⟩ := hcarries.shows
    rw [one_mul] at hshown
    rw [process, hidentity, rootMotion, hidentity]
    exact ⟨taken.1, hcarries.built, vs, hperm, hshown⟩

end

end PartCAD.Urdf
