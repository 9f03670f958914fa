import PartCAD.Export.UrdfPlaced

/-!
# Where the readers of a tree put its shapes

The same tree of nodes is decoded into one shape, flattened into parts to be checked against each
other, and exported.  A payload may carry a location of its own.

* `decodeShape`, `checkedLeaves`, `combined` : what the readers make of a tree;
* `poses_decodeShape`, `poses_checkedLeaves`, `poses_combined` : where they put the shapes;
* `agree_iff` : all of them put each shape in one place when no payload loses its own location.
-/

namespace PartCAD.Readers

open PartCAD.Lib PartCAD.Geometry PartCAD.Urdf

/-! ## The kernel -/

/-- A shape of the kernel, with its location.  What the text of a shape holds is one piece here. -/
inductive TopoShape (G L : Type) where
  | piece (geometry : G) (location : L)
  | compound (children : List (TopoShape G L)) (location : L)

namespace TopoShape

variable {G L : Type}

/-- `Located`: the location is replaced. -/
def located (l : L) : TopoShape G L → TopoShape G L
  | .piece g _ => .piece g l
  | .compound children _ => .compound children l

variable [Monoid L]

/-- `Moved`: the location is composed with another one. -/
def moved (l : L) : TopoShape G L → TopoShape G L
  | .piece g location => .piece g (l * location)
  | .compound children location => .compound children (l * location)

mutual

/-- The pieces, with the composition of the locations above them. -/
def poses : TopoShape G L → List (G × L)
  | .piece g location => [(g, location)]
  | .compound children location => (posesAll children).map fun p => (p.1, location * p.2)

def posesAll : List (TopoShape G L) → List (G × L)
  | [] => []
  | shape :: shapes => poses shape ++ posesAll shapes

end

theorem poses_moved (l : L) (shape : TopoShape G L) :
    (shape.moved l).poses = shape.poses.map fun p => (p.1, l * p.2) := by
  cases shape with
  | piece g location => rw [moved, poses, poses]; rfl
  | compound children location =>
    rw [moved, poses, poses, List.map_map]
    refine List.map_congr_left fun p _ => ?_
    simp [mul_assoc]

theorem posesAll_eq (shapes : List (TopoShape G L)) : posesAll shapes = shapes.flatMap poses := by
  induction shapes with
  | nil => rw [posesAll, List.flatMap_nil]
  | cons shape shapes ih => rw [posesAll, ih, List.flatMap_cons]

end TopoShape

/-! ## The readers -/

section

variable {B G P L : Type} [Monoid L] (read : B → G × L) (toploc : P → L)

/-- `_shape_from_b64` -/
def shapeFromB64 (brep : B) : TopoShape G L := .piece (read brep).1 (read brep).2

/-- `compound_of` -/
def compoundOf (shapes : List (TopoShape G L)) : TopoShape G L := .compound shapes 1

/-- `_apply_location` -/
def applyLocation (shape : TopoShape G L) : Option P → TopoShape G L
  | none => shape
  | some packed => shape.located (toploc packed)

mutual

/-- `decode_shape` -/
def decodeShape : Node B P → TopoShape G L
  | .shape s => applyLocation toploc (shapeFromB64 read s.brep) s.location
  | .assembly _ _ location children => applyLocation toploc (compoundOf (decodeAll children)) location

def decodeAll : List (Node B P) → List (TopoShape G L)
  | [] => []
  | child :: children => decodeShape child :: decodeAll children

end

/-- `toploc_from_packed`, and `Moved`, if there is a location. -/
def moveTo (location : Option P) (shape : TopoShape G L) : TopoShape G L :=
  match location with
  | none => shape
  | some packed => shape.moved (toploc packed)

/-- `path` of `_leaves` -/
def leafPath (pre name : Str) : Str := if pre = [] then name else pre ++ '/' :: name

mutual

/-- `_leaves` -/
def namedLeaves (pre : Str) : Node B P → List (Str × TopoShape G L)
  | .shape s =>
    [(leafPath pre ((Node.shape s : Node B P).title.getD []),
      moveTo toploc s.location (shapeFromB64 read s.brep))]
  | .assembly label name location children =>
    (namedAll (leafPath pre ((Node.assembly label name location children).title.getD [])) children).map
      fun leaf => (leaf.1, moveTo toploc location leaf.2)

def namedAll (pre : Str) : List (Node B P) → List (Str × TopoShape G L)
  | [] => []
  | child :: children => namedLeaves pre child ++ namedAll pre children

end

/-- The leaves that `wrapper_interference.process` checks: those of the root have no prefix. -/
def checkedLeaves (root : Node B P) : List (Str × TopoShape G L) :=
  match root with
  | .shape s => namedLeaves read toploc [] (.shape s)
  | .assembly _ _ location children =>
    (namedAll read toploc [] children).map fun leaf => (leaf.1, moveTo toploc location leaf.2)

/-- `node_geometry`: the placement of the node is left off. -/
def nodeGeometry (s : Shape B P) : TopoShape G L :=
  applyLocation toploc (shapeFromB64 read s.brep) none

/-- `combined` -/
def combined (placed : List (TopoShape G L × Option P)) : TopoShape G L :=
  match placed with
  | [(shape, none)] => shape
  | placed => compoundOf (placed.map fun e => applyLocation toploc e.1 e.2)

/-! ## Where they put the shapes -/

/-- The transform of a placement. -/
def place : Option P → L
  | none => 1
  | some packed => toploc packed

/-- The location of a payload, unless it is replaced. -/
def ownLocation (brep : B) : Option P → L
  | none => (read brep).2
  | some _ => 1

/-- Where a shape belongs: the placements from the root down, then the location of its payload. -/
def pose (leaf : Shape B P × List (Option P)) : G × L :=
  ((read leaf.1.brep).1, (leaf.2.map (place toploc)).prod * (read leaf.1.brep).2)

/-- Where a shape is decoded. -/
def decodedPose (leaf : Shape B P × List (Option P)) : G × L :=
  ((read leaf.1.brep).1,
    (leaf.2.map (place toploc)).prod * ownLocation read leaf.1.brep leaf.1.location)

theorem poses_applyLocation_piece (brep : B) (location : Option P) :
    (applyLocation toploc (shapeFromB64 read brep) location).poses =
      [((read brep).1, place toploc location * ownLocation read brep location)] := by
  cases location with
  | none => simp [applyLocation, shapeFromB64, TopoShape.poses, place, ownLocation]
  | some packed =>
    simp [applyLocation, shapeFromB64, TopoShape.located, TopoShape.poses, place, ownLocation]

theorem poses_applyLocation_compound (shapes : List (TopoShape G L)) (location : Option P) :
    (applyLocation toploc (compoundOf shapes) location).poses =
      (shapes.flatMap TopoShape.poses).map fun p => (p.1, place toploc location * p.2) := by
  cases location with
  | none => rw [applyLocation, compoundOf, TopoShape.poses, TopoShape.posesAll_eq]; rfl
  | some packed =>
    rw [applyLocation, compoundOf, TopoShape.located, TopoShape.poses, TopoShape.posesAll_eq]
    rfl

theorem poses_moveTo (location : Option P) (shape : TopoShape G L) :
    (moveTo toploc location shape).poses =
      shape.poses.map fun p => (p.1, place toploc location * p.2) := by
  cases location with
  | none => simp [moveTo, place]
  | some packed => rw [moveTo, TopoShape.poses_moved]; rfl

mutual

/-- The shapes below a node, decoded. -/
theorem poses_decode (node : Node B P) :
    (decodeShape read toploc node).poses =
      (below node).map fun leaf => decodedPose read toploc (leaf.1, node.location :: leaf.2) := by
  match node with
  | .shape s =>
    rw [decodeShape, poses_applyLocation_piece, below]
    simp [decodedPose, Node.location]
  | .assembly label name location children =>
    rw [decodeShape, poses_applyLocation_compound, poses_decodeAll children, below, List.map_map]
    refine List.map_congr_left fun leaf _ => ?_
    simp [decodedPose, Node.location, mul_assoc]

theorem poses_decodeAll (children : List (Node B P)) :
    (decodeAll read toploc children).flatMap TopoShape.poses =
      (belowAll children).map (decodedPose read toploc) := by
  match children with
  | [] => rw [decodeAll, belowAll]; rfl
  | child :: children =>
    rw [decodeAll, List.flatMap_cons, poses_decode child, poses_decodeAll children, belowAll,
      List.map_append, List.map_map]
    rfl

end

theorem poses_decodeShape (node : Node B P) :
    (decodeShape read toploc node).poses = (leaves node).map (decodedPose read toploc) := by
  rw [poses_decode, leaves, List.map_map]
  rfl

mutual

/-- The shapes below a node, flattened. -/
theorem poses_named (pre : Str) (node : Node B P) :
    (namedLeaves read toploc pre node).flatMap (fun leaf => leaf.2.poses) =
      (below node).map fun leaf => pose read toploc (leaf.1, node.location :: leaf.2) := by
  match node with
  | .shape s =>
    rw [namedLeaves, List.flatMap_singleton, poses_moveTo, below]
    simp [pose, Node.location, shapeFromB64, TopoShape.poses]
  | .assembly label name location children =>
    rw [namedLeaves, List.flatMap_map, below]
    simp only [poses_moveTo]
    rw [← List.map_flatMap, poses_namedAll _ children, List.map_map]
    refine List.map_congr_left fun leaf _ => ?_
    simp [pose, Node.location, mul_assoc]

theorem poses_namedAll (pre : Str) (children : List (Node B P)) :
    (namedAll read toploc pre children).flatMap (fun leaf => leaf.2.poses) =
      (belowAll children).map (pose read toploc) := by
  match children with
  | [] => rw [namedAll, belowAll]; rfl
  | child :: children =>
    rw [namedAll, List.flatMap_append, poses_named pre child, poses_namedAll pre children, belowAll,
      List.map_append, List.map_map]
    rfl

end

/-- **What is checked** is where it belongs. -/
theorem poses_checkedLeaves (node : Node B P) :
    (checkedLeaves read toploc node).flatMap (fun leaf => leaf.2.poses) =
      (leaves node).map (pose read toploc) := by
  cases node with
  | shape s =>
    rw [checkedLeaves, poses_named, leaves, List.map_map]
    rfl
  | assembly label name location children =>
    rw [checkedLeaves, List.flatMap_map, leaves, below]
    simp only [poses_moveTo]
    rw [← List.map_flatMap, poses_namedAll, List.map_map, List.map_map]
    refine List.map_congr_left fun leaf _ => ?_
    simp [pose, Node.location, mul_assoc]

theorem poses_compoundOf (shapes : List (TopoShape G L)) :
    (compoundOf shapes).poses = shapes.flatMap TopoShape.poses := by
  rw [compoundOf, TopoShape.poses, TopoShape.posesAll_eq]
  simp

/-- The shape that a link is weighed by. -/
theorem poses_combined (elements : List (Shape B P × Option P)) :
    (combined toploc (elements.map fun e => (nodeGeometry read toploc e.1, e.2))).poses =
      elements.map fun e =>
        ((read e.1.brep).1, place toploc e.2 * ownLocation read e.1.brep e.2) := by
  have hplaced : ∀ e : Shape B P × Option P,
      (applyLocation toploc (nodeGeometry read toploc e.1) e.2).poses =
        [((read e.1.brep).1, place toploc e.2 * ownLocation read e.1.brep e.2)] :=
    fun e => poses_applyLocation_piece read toploc e.1.brep e.2
  have hcompound : (compoundOf ((elements.map fun e => (nodeGeometry read toploc e.1, e.2)).map
      fun e => applyLocation toploc e.1 e.2)).poses =
      elements.map fun e =>
        ((read e.1.brep).1, place toploc e.2 * ownLocation read e.1.brep e.2) := by
    rw [poses_compoundOf, List.map_map, List.flatMap_map, List.map_eq_flatMap]
    exact congrArg (elements.flatMap ·) (funext hplaced)
  match elements, hcompound with
  | [(s, none)], _ => exact hplaced (s, none)
  | [], h => exact h
  | [(s, some packed)], h => exact h
  | (s, none) :: e' :: elements, h => exact h
  | (s, some packed) :: e' :: elements, h => exact h

end

/-! ## Rigid transforms -/

noncomputable section

/-- A rigid transform moves points. -/
def motionHom : RigidTransform →* Motion where
  toFun a := fun v => a.1 v
  map_one' := rfl
  map_mul' _ _ := rfl

/-- The fields of a location with an axis, as a node carries them. -/
def packedFields (p : Packed) : PackedLocation := ⟨p.t, p.axis, p.angle⟩

/-- `urdf_common`, for locations with an axis. -/
def urdfRigid : Convention Packed Pose Origin where
  fromPacked p := fromPacked (p.map packedFields)
  toUrdfOrigin := toUrdfOrigin
  isIdentity := isIdentity

theorem motionHom_place (p : Option Packed) :
    motionHom (place rigidPacking.unpack p) = placement (p.map packedFields) := by
  cases p with
  | none => exact (map_one motionHom).trans placement_none.symm
  | some p =>
    have hlocate : locate (some (packedFields p)) = Location.ofPacked p := dif_neg p.hasAxis
    show _ = (locate (some (packedFields p))).transformPoint
    rw [hlocate]
    rfl

theorem motionHom_prod (path : List (Option Packed)) :
    motionHom (path.map (place rigidPacking.unpack)).prod =
      ((path.map (Option.map packedFields)).map placement).prod := by
  rw [map_list_prod, List.map_map, List.map_map]
  exact congrArg List.prod (List.map_congr_left fun p _ => motionHom_place p)

section

variable {B G : Type} [DecidableEq B] (read : B → G × RigidTransform) (options : Options)

/-- The shapes that the links are weighed by, with the names of the links. -/
def solids (s : State B Packed Origin) : List (Str × G × RigidTransform) :=
  s.links.flatMap fun link =>
    (combined rigidPacking.unpack (link.visuals.map fun v =>
      (nodeGeometry read rigidPacking.unpack v.shape, v.placement))).poses.map fun p => (link.name, p)

/-- There is one way from the root to the link, and this is where it stands. -/
def StandsAt (s : State B Packed Origin) (root name : Str) (m : Motion) : Prop :=
  ∀ m', Reaches (s.edges Origin.motion) root name m' ↔ m' = m

/-- A visual shows the geometry of the shape where the shape belongs. -/
def DrawnAt (s : State B Packed Origin) (root : Str) (leaf : Shape B Packed × List (Option Packed))
    (v : Str × Visual B Packed Origin) : Prop :=
  (∃ file, s.meshes.get? leaf.1.brep = some file ∧ v.2.filename = options.meshPrefix ++ file) ∧
    ∃ m own, StandsAt s root v.1 m ∧
      (nodeGeometry read rigidPacking.unpack v.2.shape).poses = [((read leaf.1.brep).1, own)] ∧
      m * v.2.motion Origin.motion * motionHom own =
        motionHom (pose read rigidPacking.unpack leaf).2

/-- A link is weighed with the geometry of the shape where the shape belongs. -/
def WeighedAt (s : State B Packed Origin) (root : Str) (leaf : Shape B Packed × List (Option Packed))
    (w : Str × G × RigidTransform) : Prop :=
  w.2.1 = (read leaf.1.brep).1 ∧ ∃ m, StandsAt s root w.1 m ∧
    m * motionHom w.2.2 = motionHom (pose read rigidPacking.unpack leaf).2

/-- All readers put the geometry of each shape where it belongs. -/
structure Agree (node : Node B Packed) : Prop where
  decoded : (decodeShape read rigidPacking.unpack node).poses =
    (leaves node).map (pose read rigidPacking.unpack)
  checked : (checkedLeaves read rigidPacking.unpack node).flatMap (fun leaf => leaf.2.poses) =
    (leaves node).map (pose read rigidPacking.unpack)
  exported : ∃ root,
    (∃ vs, (process urdfRigid options node).placed.Perm vs ∧
      List.Forall₂ (DrawnAt read options (process urdfRigid options node) root) (leaves node) vs) ∧
    ∃ ws, (solids read (process urdfRigid options node)).Perm ws ∧
      List.Forall₂ (WeighedAt read (process urdfRigid options node) root) (leaves node) ws

/-- The placements on the way to every shape are written exactly. -/
def ExactTree (node : Node B Packed) : Prop :=
  ∀ leaf ∈ leaves node, Exact (leaf.2.map (Option.map packedFields))

/-- No payload has a location of its own under a node with a location. -/
def KeepsOwn (node : Node B Packed) : Prop :=
  ∀ leaf ∈ leaves node, leaf.1.location.isSome → (read leaf.1.brep).2 = 1

variable {read}

omit [DecidableEq B] in
theorem pose_eq_decodedPose_iff (leaf : Shape B Packed × List (Option Packed)) :
    decodedPose read rigidPacking.unpack leaf = pose read rigidPacking.unpack leaf ↔
      (leaf.1.location.isSome → (read leaf.1.brep).2 = 1) := by
  cases hlocation : leaf.1.location with
  | none => simp [decodedPose, pose, ownLocation, hlocation]
  | some packed =>
    simp only [decodedPose, pose, ownLocation, hlocation, Prod.mk.injEq, true_and, mul_right_inj,
      Option.isSome_some, forall_const]
    exact eq_comm

omit [DecidableEq B] in
theorem decoded_iff (node : Node B Packed) :
    (decodeShape read rigidPacking.unpack node).poses =
        (leaves node).map (pose read rigidPacking.unpack) ↔ KeepsOwn read node := by
  rw [poses_decodeShape, List.map_inj_left]
  exact forall₂_congr fun leaf _ => pose_eq_decodedPose_iff leaf

/-- The solids of the links are those of the visuals, one by one. -/
theorem solids_eq (read : B → G × RigidTransform) (s : State B Packed Origin) :
    solids read s = s.placed.map fun v =>
      (v.1, (read v.2.shape.brep).1,
        place rigidPacking.unpack v.2.placement * ownLocation read v.2.shape.brep v.2.placement) := by
  rw [solids, State.placed, List.map_flatMap]
  congr 1
  funext link
  have hcombined := poses_combined read rigidPacking.unpack
    (link.visuals.map fun v => (v.shape, v.placement))
  rw [List.map_map, List.map_map] at hcombined
  rw [List.map_map]
  have h := congrArg (List.map fun p => (link.name, p)) hcombined
  rw [List.map_map] at h
  exact h

omit [DecidableEq B] in
/-- The motion of a visual is that of the placement it was made from. -/
theorem visual_motion {v : Visual B Packed Origin}
    (hexact : Separable (locate (v.placement.map packedFields)).q)
    (horigin : v.origin =
      v.placement.map fun p => urdfRigid.toUrdfOrigin (urdfRigid.fromPacked (some p))) :
    v.motion Origin.motion = motionHom (place rigidPacking.unpack v.placement) := by
  unfold Visual.motion
  cases hplacement : v.placement with
  | none =>
    rw [hplacement, Option.map_none] at horigin
    rw [horigin]
    rfl
  | some p =>
    rw [hplacement] at hexact
    rw [hplacement, Option.map_some] at horigin
    rw [horigin, motionHom_place]
    exact motion_toUrdfOrigin hexact

/-- Where the exporter puts a shape. -/
theorem process_rigid (node : Node B Packed) :
    ∃ root, Built options Origin.motion root (process urdfRigid options node) ∧
      ∃ vs, (process urdfRigid options node).placed.Perm vs ∧ List.Forall₂ (fun leaf v =>
        Shown urdfRigid options Origin.motion root (process urdfRigid options node)
          (leaf.1, writtenPath (leaf.2.map (Option.map packedFields))) v) (leaves node) vs := by
  obtain ⟨root, hbuilt, vs, hperm, hshown⟩ := process_spec (c := urdfRigid) options written_none node
  refine ⟨root, hbuilt, vs, hperm, ?_⟩
  rw [shapesAt, List.forall₂_map_left_iff] at hshown
  rw [leaves, List.forall₂_map_left_iff]
  refine hshown.imp fun leaf v h => ?_
  have hpath : writtenPath ((node.location :: leaf.2).map (Option.map packedFields)) =
      rootMotion urdfRigid Origin.motion node.location *
        (leaf.2.map (written urdfRigid Origin.motion)).prod := by
    rw [List.map_cons, writtenPath, List.map_map]
    rfl
  rw [hpath]
  exact h

variable {options} {s : State B Packed Origin} {root : Str}
  {leaf : Shape B Packed × List (Option Packed)} {v : Str × Visual B Packed Origin}

theorem standsAt (hbuilt : Built options Origin.motion root s) {name : Str} {m : Motion}
    (h : Reaches (s.edges Origin.motion) root name m) : StandsAt s root name m := by
  intro m'
  refine ⟨fun h' => hbuilt.tree.reaches_unique h' h, ?_⟩
  rintro rfl
  exact h

section

variable (hbuilt : Built options Origin.motion root s)
  (h : Shown urdfRigid options Origin.motion root s
    (leaf.1, writtenPath (leaf.2.map (Option.map packedFields))) v)
  (hexact : Exact (leaf.2.map (Option.map packedFields)))

include hbuilt h hexact

theorem drawnAt_of_shown : DrawnAt read options s root leaf v := by
  obtain ⟨m, hreach, hm⟩ := h.place
  refine ⟨h.file, m, (read leaf.1.brep).2, standsAt hbuilt hreach, ?_, ?_⟩
  · rw [h.shape]
    simp [nodeGeometry, applyLocation, shapeFromB64, TopoShape.poses]
  · rw [hm, writtenPath_of_exact hexact, pose, map_mul, motionHom_prod]

theorem weighedAt_of_shown (hlocation : leaf.1.location ∈ leaf.2)
    (hown : leaf.1.location.isSome → (read leaf.1.brep).2 = 1) :
    WeighedAt read s root leaf (v.1, (read v.2.shape.brep).1,
      place rigidPacking.unpack v.2.placement * ownLocation read v.2.shape.brep v.2.placement) := by
  obtain ⟨m, hreach, hm⟩ := h.place
  have hshape : v.2.shape = leaf.1 := h.shape
  refine ⟨by rw [hshape], m, standsAt hbuilt hreach, ?_⟩
  have hseparable : Separable (locate (v.2.placement.map packedFields)).q := by
    rcases h.placement with hplacement | hplacement
    · rw [hplacement]
      exact separable_one
    · rw [hplacement, hshape]
      exact separable_of_exact hexact (List.mem_map_of_mem hlocation)
  have howned : ownLocation read v.2.shape.brep v.2.placement = (read leaf.1.brep).2 := by
    rw [hshape]
    cases hplacement : v.2.placement with
    | none => rfl
    | some packed =>
      have hsome : leaf.1.location.isSome := by
        rcases h.placement with hnone | hsome
        · rw [hplacement] at hnone
          cases hnone
        · rw [← hshape, ← hsome, hplacement]
          rfl
      exact (hown hsome).symm
  rw [howned, map_mul, ← mul_assoc, ← visual_motion hseparable h.origin, hm,
    writtenPath_of_exact hexact, pose, map_mul, motionHom_prod]

end

theorem agree_of_keepsOwn {node : Node B Packed} (hexact : ExactTree node) (hown : KeepsOwn read node) :
    Agree read options node := by
  obtain ⟨root, hbuilt, vs, hperm, hshown⟩ := process_rigid options node
  refine ⟨(decoded_iff node).2 hown, poses_checkedLeaves read rigidPacking.unpack node, root,
    ⟨vs, hperm, ?_⟩, ?_⟩
  · refine ((List.forall₂_and_left _ _).2 ⟨hexact, hshown⟩).imp fun leaf v hv => ?_
    exact drawnAt_of_shown hbuilt hv.2 hv.1
  · refine ⟨_, (solids_eq read _) ▸ hperm.map _, ?_⟩
    rw [List.forall₂_map_right_iff]
    have hall : ∀ leaf ∈ leaves node, Exact (leaf.2.map (Option.map packedFields)) ∧
        leaf.1.location ∈ leaf.2 ∧ (leaf.1.location.isSome → (read leaf.1.brep).2 = 1) :=
      fun leaf hleaf => ⟨hexact leaf hleaf, location_mem hleaf, hown leaf hleaf⟩
    refine ((List.forall₂_and_left _ _).2 ⟨hall, hshown⟩).imp fun leaf v hv => ?_
    obtain ⟨⟨hpath, hlocation, hkeeps⟩, hv⟩ := hv
    exact weighedAt_of_shown hbuilt hv hpath hlocation hkeeps

end

/-- **All readers agree** only if no payload loses its own location, and they do then. -/
theorem agree_iff {B G : Type} [DecidableEq B] (read : B → G × RigidTransform) (options : Options)
    (node : Node B Packed) :
    (Agree read options node → KeepsOwn read node) ∧
      (ExactTree node → (Agree read options node ↔ KeepsOwn read node)) := by
  have hkeeps : Agree read options node → KeepsOwn read node := fun h => (decoded_iff node).1 h.decoded
  exact ⟨hkeeps, fun hexact => ⟨hkeeps, agree_of_keepsOwn hexact⟩⟩

/-! ## Two trees -/

theorem axisNorm_up : axisNorm (0, 0, 1) ≠ 0 := by norm_num [axisNorm]

/-- Half a turn about the third axis. -/
def turned : Packed := ⟨(10, 0, 0), (0, 0, 1), 180, axisNorm_up⟩

/-- Moved along the first axis. -/
def shifted : Packed := ⟨(1, 0, 0), (0, 0, 1), 0, axisNorm_up⟩

/-- Payloads with a location of their own, and without one. -/
def readOwn (own : Bool) : Unit × RigidTransform :=
  ((), if own then rigidPacking.unpack shifted else 1)

/-- A shape at a location, and one without. -/
def pair : Node Bool Packed :=
  .assembly none none none [.shape ⟨none, none, some turned, false⟩, .shape ⟨none, none, none, true⟩]

theorem leaves_pair :
    leaves pair = [(⟨none, none, some turned, false⟩, [none, some turned]),
      (⟨none, none, none, true⟩, [none, none])] := by
  simp [leaves, pair, below, belowAll, Node.location]

theorem separable_turned : Separable (locate (some (packedFields turned))).q := by
  have hq : (locate (some (packedFields turned))).q = quat 0 (0 / axisNorm (0, 0, 1))
      (0 / axisNorm (0, 0, 1)) (1 / axisNorm (0, 0, 1)) := by
    have hlocate : locate (some (packedFields turned)) = Location.ofPacked turned := dif_neg axisNorm_up
    rw [hlocate]
    exact axisAngleToQuat_halfTurn (0, 0, 1)
  left
  rw [hq]
  norm_num [sinPitch, quat]

theorem exact_of_separable {p : Option PackedLocation} (h : Separable (locate p).q) :
    Exact [none, p] := by
  refine ⟨?_, fun p' hp' => ?_⟩
  · split
    · exact placement_none
    · exact separable_one
  · obtain rfl := List.mem_singleton.1 hp'
    exact h

theorem agree_pair : Agree readOwn besideFile pair := by
  refine ((agree_iff readOwn besideFile pair).2 ?_).2 ?_
  · intro leaf hleaf
    rw [leaves_pair] at hleaf
    simp only [List.mem_cons, List.not_mem_nil, or_false] at hleaf
    obtain rfl | rfl := hleaf
    · exact exact_of_separable separable_turned
    · exact exact_of_separable separable_one
  · intro leaf hleaf hsome
    rw [leaves_pair] at hleaf
    simp only [List.mem_cons, List.not_mem_nil, or_false] at hleaf
    obtain rfl | rfl := hleaf
    · rfl
    · cases hsome

/-- A location is put in the place of the one that the payload has. -/
theorem not_agree_own :
    ¬ Agree readOwn besideFile (.shape ⟨none, none, some turned, true⟩) := by
  intro h
  have hkeeps := (decoded_iff _).1 h.decoded
  have hleaf : (⟨none, none, some turned, true⟩, [some turned]) ∈
      leaves (.shape ⟨none, none, some turned, true⟩ : Node Bool Packed) := by
    simp [leaves, below, Node.location]
  have hone : rigidPacking.unpack shifted = 1 := hkeeps _ hleaf rfl
  have hpoint : (Location.ofPacked shifted).transformPoint (0, 0, 0) = (0, 0, 0) :=
    congrFun (congrArg motionHom hone) (0, 0, 0)
  have hfirst := congrArg Prod.fst hpoint
  simp [Location.transformPoint, Location.ofPacked, shifted, rotateVec] at hfirst

end

end PartCAD.Readers
