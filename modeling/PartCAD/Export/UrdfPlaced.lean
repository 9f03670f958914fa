import PartCAD.Export.UrdfCommon
import PartCAD.Export.UrdfTree

/-!
# What a URDF file says about an assembly

The joints hang all links from one root.  From the root to a visual the origins are composed, and this
is what the placements from the root node down to the shape are, when they are written exactly.

* `process_exported` : the file, for every tree of nodes;
* `not_exported_close` : a placement of the root that is almost the identity is left out, and the
  angles almost at a pole are not those of the placement.
-/

namespace PartCAD.Urdf

open PartCAD.Lib PartCAD.Geometry
open scoped Quaternion

noncomputable section

/-- `urdf_common`, as the exporter uses it. -/
def urdfCommon : Convention PackedLocation Pose Origin where
  fromPacked := fromPacked
  toUrdfOrigin := toUrdfOrigin
  isIdentity := isIdentity

/-- What the file says about a tree of nodes.  The placements on the way to a shape are composed from
the root node down, and the origins from the root link down. -/
structure Exported {G : Type} [DecidableEq G] (exact : List (Option PackedLocation) → Prop)
    (options : Options) (node : Node G PackedLocation) (root : Str) (s : State G PackedLocation Origin) : Prop where
  links : (s.links.map Link.name).Nodup
  joints : (s.joints.map Joint.name).Nodup
  tree : RootedTree root (s.links.map Link.name) (s.edges Origin.motion)
  meshes : ∀ brep brep' file, s.meshes.get? brep = some file → s.meshes.get? brep' = some file →
    brep = brep'
  shapes : ∃ vs, s.placed.Perm vs ∧ List.Forall₂ (fun leaf v =>
    (∃ file, s.meshes.get? leaf.1.brep = some file ∧ v.2.filename = options.meshPrefix ++ file) ∧
      ∃ m, (∀ m', Reaches (s.edges Origin.motion) root v.1 m' ↔ m' = m) ∧
        (exact leaf.2 → m * v.2.motion Origin.motion = (leaf.2.map placement).prod)) (leaves node) vs

/-- The placements are written exactly: no origin is almost at a pole, and the placement of the root
is not taken for the identity unless it is. -/
def Exact : List (Option PackedLocation) → Prop
  | [] => True
  | p :: ps =>
    (if isIdentity (fromPacked p) then placement p = 1 else Separable (locate p).q) ∧
      ∀ p' ∈ ps, Separable (locate p').q

/-! ## The file -/

theorem separable_one : Separable (1 : Location ℝ).q := by
  left
  rw [Location.one_q]
  norm_num [sinPitch]

theorem placement_none : placement none = 1 := funext Location.transformPoint_one

theorem written_of_separable {p : Option PackedLocation} (h : Separable (locate p).q) :
    written urdfCommon Origin.motion p = placement p :=
  motion_toUrdfOrigin h

theorem written_none : written urdfCommon Origin.motion none = 1 :=
  (written_of_separable (p := none) separable_one).trans placement_none

/-- Where the exporter puts what is at the end of the placements. -/
def writtenPath : List (Option PackedLocation) → Motion
  | [] => 1
  | p :: ps =>
    rootMotion urdfCommon Origin.motion p * (ps.map (written urdfCommon Origin.motion)).prod

theorem writtenPath_of_exact {path : List (Option PackedLocation)} (h : Exact path) :
    writtenPath path = (path.map placement).prod := by
  cases path with
  | nil => rfl
  | cons p ps =>
    obtain ⟨hroot, hrest⟩ := h
    have hfirst : rootMotion urdfCommon Origin.motion p = placement p := by
      cases hidentity : isIdentity (fromPacked p) with
      | true =>
        rw [hidentity, if_pos rfl] at hroot
        rw [hroot]
        exact if_pos hidentity
      | false =>
        rw [hidentity, if_neg Bool.false_ne_true] at hroot
        rw [← written_of_separable hroot]
        exact if_neg (by rw [show urdfCommon.isIdentity = isIdentity from rfl,
          show urdfCommon.fromPacked = fromPacked from rfl, hidentity]; exact Bool.false_ne_true)
    have htail : ps.map (written urdfCommon Origin.motion) = ps.map placement :=
      List.map_congr_left fun p' hp' => written_of_separable (hrest p' hp')
    rw [writtenPath, hfirst, htail, List.map_cons, List.prod_cons]

/-- What is not moved at all is not turned. -/
theorem separable_of_placement_eq_one {p : Option PackedLocation} (h : placement p = 1) :
    Separable (locate p).q := by
  have hfirst : rotateVec (locate p).q (1, 0, 0) + (locate p).t = (1, 0, 0) := congrFun h (1, 0, 0)
  have horigin : rotateVec (locate p).q (0, 0, 0) + (locate p).t = (0, 0, 0) := congrFun h (0, 0, 0)
  have hzero : (locate p).t.2.2 = 0 := by
    have h := congrArg (fun v => v.2.2) horigin
    simpa [rotateVec] using h
  have hentry := congrArg (fun v => v.2.2) hfirst
  simp only [rotateVec, Prod.snd_add, hzero, mul_one, mul_zero, add_zero] at hentry
  left
  rw [sinPitch, hentry]
  norm_num

theorem separable_of_exact {path : List (Option PackedLocation)} (h : Exact path)
    {p : Option PackedLocation} (hp : p ∈ path) : Separable (locate p).q := by
  cases path with
  | nil => exact absurd hp List.not_mem_nil
  | cons p' ps =>
    obtain ⟨hroot, hrest⟩ := h
    rcases List.mem_cons.1 hp with rfl | hp
    · split at hroot
      · exact separable_of_placement_eq_one hroot
      · exact hroot
    · exact hrest p hp

section

variable {G : Type} [DecidableEq G] (options : Options) (node : Node G PackedLocation)

/-- The file, with the places of the visuals as they are written. -/
theorem process_written :
    ∃ root, Built options Origin.motion root (process urdfCommon options node) ∧
      ∃ vs, (process urdfCommon options node).placed.Perm vs ∧ List.Forall₂ (fun leaf v =>
        Shown urdfCommon options Origin.motion root (process urdfCommon options node)
          (leaf.1, writtenPath leaf.2) v) (leaves node) vs := by
  obtain ⟨root, hbuilt, vs, hperm, hshown⟩ := process_spec options written_none node
  refine ⟨root, hbuilt, vs, hperm, ?_⟩
  rw [shapesAt, List.forall₂_map_left_iff] at hshown
  rw [leaves, List.forall₂_map_left_iff]
  exact hshown

/-- **What a URDF file says about an assembly.** -/
theorem process_exported :
    ∃ root, Exported Exact options node root (process urdfCommon options node) := by
  obtain ⟨root, hbuilt, vs, hperm, hshown⟩ := process_written options node
  refine ⟨root, ?_, ?_, ?_, hbuilt.meshes.distinct, vs, hperm, ?_⟩
  · rw [hbuilt.links]
    exact hbuilt.tree.distinct
  · rw [hbuilt.joints]
    exact hbuilt.jointNames
  · rw [hbuilt.links]
    exact hbuilt.tree.rootedTree
  · refine hshown.imp fun leaf v h => ⟨h.file, ?_⟩
    obtain ⟨m, hreach, hm⟩ := h.place
    refine ⟨m, fun m' => ⟨fun h' => hbuilt.tree.reaches_unique h' hreach, ?_⟩, fun hexact => ?_⟩
    · rintro rfl
      exact hreach
    · rw [hm]
      exact writtenPath_of_exact hexact

end

/-! ## Placements that are not written exactly -/

/-- A lone shape. -/
def lone (p : PackedLocation) : Node Unit PackedLocation := .shape ⟨none, none, some p, ()⟩

/-- What the file says about a lone shape is what is written for it. -/
theorem writtenPath_of_exported {p : PackedLocation} {options : Options} {root : Str}
    (h : Exported (fun _ => True) options (lone p) root (process urdfCommon options (lone p))) :
    writtenPath [some p] = placement (some p) := by
  obtain ⟨root', hbuilt, vs, hperm, hshown⟩ := process_written options (lone p)
  obtain ⟨vs', hperm', hshown'⟩ := h.shapes
  have hleaves : leaves (lone p) = [(⟨none, none, some p, ()⟩, [some p])] := by
    rw [leaves, lone, below]
    rfl
  rw [hleaves] at hshown hshown'
  obtain ⟨v, us, hv, hnil, rfl⟩ := List.forall₂_cons_left_iff.1 hshown
  obtain ⟨v', us', hv', hnil', rfl⟩ := List.forall₂_cons_left_iff.1 hshown'
  obtain rfl := List.forall₂_nil_left_iff.1 hnil
  obtain rfl := List.forall₂_nil_left_iff.1 hnil'
  obtain rfl : v = v' := by simpa using hperm.symm.trans hperm'
  have hroot : root' = root := by
    refine RootedTree.root_unique ?_ h.tree
    rw [hbuilt.links]
    exact hbuilt.tree.rootedTree
  subst hroot
  obtain ⟨m, hreach, hm⟩ := hv.place
  obtain ⟨-, m', hunique, hm'⟩ := hv'
  obtain rfl := (hunique m).1 hreach
  have hplaced := hm' trivial
  rw [hm, List.map_singleton, List.prod_singleton] at hplaced
  exact hplaced

/-- Moved by a ten millionth of a micrometre. -/
def closeToIdentity : PackedLocation := ⟨(1e-10, 0, 0), (0, 0, 1), 0⟩

theorem locate_close : (locate (some closeToIdentity)).q = 1 := by
  have haxis : axisNorm (0, 0, 1) ≠ 0 := by norm_num [axisNorm]
  have hq : (fromPacked (some closeToIdentity)).1 = (locate (some closeToIdentity)).q :=
    congrArg Prod.fst (fromPacked_eq (some closeToIdentity))
  rw [← hq]
  simp only [fromPacked, closeToIdentity, axisAngleToQuat, haxis, if_false, Geometry.axisAngleToQuat,
    zero_mul, zero_div, Real.cos_zero, Real.sin_zero, mul_zero]
  exact quat_one

theorem isIdentity_close : isIdentity (fromPacked (some closeToIdentity)) = true := by
  have hangle : (quatToAxisAngle 1e-12 (normalize 1)).2 = 0 := by
    rw [normalize_unit (map_one _), quatToAxisAngle]
    norm_num
  rw [fromPacked_eq, locate_close]
  have ht : (locate (some closeToIdentity)).t = (1e-10, 0, 0) :=
    (congrArg Prod.snd (fromPacked_eq (some closeToIdentity))).symm
  rw [ht, isIdentity, hangle]
  norm_num [epsilon]

/-- Half a turn that takes the first axis almost into the third. -/
def closeToPole : PackedLocation := ⟨(0, 0, 0), (1, 1e-6, 1), 180⟩

theorem locate_pole :
    ∃ n : ℝ, n ^ 2 = 2 + 1e-12 ∧
      fromPacked (some closeToPole) = (quat 0 (1 / n) (1e-6 / n) (1 / n), (0, 0, 0)) := by
  refine ⟨axisNorm (1, 1e-6, 1), ?_, ?_⟩
  · rw [axisNorm, Real.sq_sqrt (by norm_num)]
    norm_num
  · have haxis : axisNorm (1, 1e-6, 1) ≠ 0 := by
      refine (Real.sqrt_pos.2 ?_).ne'
      norm_num
    simp only [fromPacked, closeToPole, axisAngleToQuat, haxis, if_false, axisAngleToQuat_halfTurn]

/-- The roll is not written almost at a pole. -/
theorem roll_pole : (toUrdfOrigin (fromPacked (some closeToPole))).rpy.1 = 0 := by
  obtain ⟨n, hn, hpose⟩ := locate_pole
  have hne : n ≠ 0 := by
    rintro rfl
    norm_num at hn
  have hunit : Quaternion.normSq (quat 0 (1 / n) (1e-6 / n) (1 / n)) = 1 := by
    rw [normSq_quat]
    field_simp
    rw [hn]
    norm_num
  have hsin : sinPitch (quat 0 (1 / n) (1e-6 / n) (1 / n)) = -(2 / (2 + 1e-12)) := by
    rw [← hn]
    show -(2 * (1 / n * (1 / n) - 0 * (1e-6 / n))) = _
    field_simp
    ring
  have hpole : |sinPitch (quat 0 (1 / n) (1e-6 / n) (1 / n))| > 1 - 1e-12 := by
    rw [hsin, abs_neg]
    norm_num [abs_of_pos]
  rw [hpose, toUrdfOrigin, normalize_unit hunit, quatToRpy_unit hunit, if_pos hpole]
  split
  · rfl
  · rfl

theorem placement_pole : (placement (some closeToPole) (0, 1, 0)).2.2 ≠ 0 := by
  obtain ⟨n, hn, hpose⟩ := locate_pole
  have hq : (locate (some closeToPole)).q = quat 0 (1 / n) (1e-6 / n) (1 / n) := by
    have h := congrArg Prod.fst (fromPacked_eq (some closeToPole))
    rw [hpose] at h
    exact h.symm
  have ht : (locate (some closeToPole)).t = (0, 0, 0) := by
    have h := congrArg Prod.snd (fromPacked_eq (some closeToPole))
    rw [hpose] at h
    exact h.symm
  have hne : n ≠ 0 := by
    rintro rfl
    norm_num at hn
  have hvalue : (placement (some closeToPole) (0, 1, 0)).2.2 = 2 * (1e-6 / n * (1 / n)) := by
    show (rotateVec (locate (some closeToPole)).q (0, 1, 0) + (locate (some closeToPole)).t).2.2 = _
    rw [hq, ht]
    simp [rotateVec, quat]
  rw [hvalue]
  positivity

/-- Where a lone shape is written stays in the plane of the first two axes. -/
theorem writtenPath_pole : (writtenPath [some closeToPole] (0, 1, 0)).2.2 = 0 := by
  have hpath : writtenPath [some closeToPole] = rootMotion urdfCommon Origin.motion (some closeToPole) :=
    mul_one _
  rw [hpath, rootMotion]
  split
  · rfl
  · have hroll := roll_pole
    obtain ⟨n, hn, hpose⟩ := locate_pole
    show (matVec (fixedAxes (toUrdfOrigin (fromPacked (some closeToPole))).rpy.1 _ _) (0, 1, 0) +
      mmPerM • (toUrdfOrigin (fromPacked (some closeToPole))).xyz).2.2 = 0
    rw [hroll, fixedAxes_eq, toUrdfOrigin, hpose]
    simp [matVec]

/-- The meshes beside the file. -/
def besideFile : Options := ⟨"meshes".toList, "meshes/".toList⟩

/-- **Placements that are not written exactly**, of the root and at a pole. -/
theorem not_exported_close :
    ¬ (∃ root, Exported (fun _ => True) besideFile (lone closeToIdentity) root
        (process urdfCommon besideFile (lone closeToIdentity))) ∧
      ¬ ∃ root, Exported (fun _ => True) besideFile (lone closeToPole) root
        (process urdfCommon besideFile (lone closeToPole)) := by
  refine ⟨?_, ?_⟩
  · rintro ⟨root, h⟩
    have hplaced := writtenPath_of_exported h
    have hpath : writtenPath [some closeToIdentity] = 1 := by
      have hroot : rootMotion urdfCommon Origin.motion (some closeToIdentity) = 1 :=
        if_pos isIdentity_close
      rw [writtenPath, hroot, List.map_nil, List.prod_nil, mul_one]
    rw [hpath] at hplaced
    have hpoint : ((0 : ℝ), (0 : ℝ), (0 : ℝ)) = placement (some closeToIdentity) (0, 0, 0) :=
      congrFun hplaced (0, 0, 0)
    have hvalue : (placement (some closeToIdentity) (0, 0, 0)).1 = 1e-10 := by
      have ht : (locate (some closeToIdentity)).t = (1e-10, 0, 0) :=
        (congrArg Prod.snd (fromPacked_eq (some closeToIdentity))).symm
      show (rotateVec _ (0, 0, 0) + (locate (some closeToIdentity)).t).1 = _
      rw [locate_close, ht]
      simp [rotateVec]
    rw [← hpoint] at hvalue
    norm_num at hvalue
  · rintro ⟨root, h⟩
    have hplaced := writtenPath_of_exported h
    have hpoint : writtenPath [some closeToPole] (0, 1, 0) = placement (some closeToPole) (0, 1, 0) :=
      congrFun hplaced (0, 1, 0)
    apply placement_pole
    rw [← hpoint]
    exact writtenPath_pole

end

end PartCAD.Urdf
