import Mathlib.Analysis.Quaternion
import PartCAD.Export.UrdfCommon
import PartCAD.Lib.Turns

/-!
# Origins read back

What a pose is written as in a URDF file is read again as a pose.

* `rpyToQuat`, `fromUrdfOrigin` : an origin read as a pose;
* `origin_round_trip` : what is written is read back as the same rigid transform.
-/

namespace PartCAD.Urdf

open PartCAD.Lib PartCAD.Geometry
open scoped Quaternion

noncomputable section

/-- What the parser hands back for `<origin>`: either attribute may be missing. -/
structure OriginElement where
  xyz : Option (Vec ℝ)
  rpy : Option (Vec ℝ)

/-- An origin with both attributes written out. -/
def Origin.element (o : Origin) : OriginElement := ⟨some o.xyz, some o.rpy⟩

/-- `rpy_to_quat` -/
def rpyToQuat (rpy : Vec ℝ) : ℍ[ℝ] :=
  let (roll, pitch, yaw) := rpy
  let (cr, sr) := (Real.cos (roll / 2), Real.sin (roll / 2))
  let (cp, sp) := (Real.cos (pitch / 2), Real.sin (pitch / 2))
  let (cy, sy) := (Real.cos (yaw / 2), Real.sin (yaw / 2))
  quat (cr * cp * cy + sr * sp * sy) (sr * cp * cy - cr * sp * sy) (cr * sp * cy + sr * cp * sy)
    (cr * cp * sy - sr * sp * cy)

/-- `from_urdf_origin` -/
def fromUrdfOrigin : Option OriginElement → Pose
  | none => (quat 1 0 0 0, (0, 0, 0))
  | some origin =>
    let xyz := origin.xyz.getD (0, 0, 0)
    let rpy := origin.rpy.getD (0, 0, 0)
    (rpyToQuat rpy, (xyz.1 * mmPerM, xyz.2.1 * mmPerM, xyz.2.2 * mmPerM))

/-! ## The angles -/

/-- The half angles are multiplied out. -/
theorem rpyToQuat_eq (r p y : ℝ) : rpyToQuat (r, p, y) = turnZ y * turnY p * turnX r := by
  rw [← quatMul_eq, ← quatMul_eq]
  simp only [rpyToQuat, quatMul, turnX, turnY, turnZ, quat]
  ext
  · show _ = _ - _ - _ - _
    ring
  · show _ = _ + _ + _ - _
    ring
  · show _ = _ - _ + _ + _
    ring
  · show _ = _ + _ - _ + _
    ring

theorem normSq_rpyToQuat (rpy : Vec ℝ) : Quaternion.normSq (rpyToQuat rpy) = 1 := by
  obtain ⟨r, p, y⟩ := rpy
  rw [rpyToQuat_eq, map_mul, map_mul, normSq_turnX, normSq_turnY, normSq_turnZ, one_mul, one_mul]

theorem rotateVec_rpyToQuat (r p y : ℝ) (v : Vec ℝ) :
    rotateVec (rpyToQuat (r, p, y)) v =
      matVec (rotZ y) (matVec (rotY p) (matVec (rotX r) v)) := by
  rw [rotateVec_eq_rotate (normSq_rpyToQuat _), rpyToQuat_eq, rotate_turns]

/-! ## The quaternion -/

theorem norm_eq (q : ℍ[ℝ]) :
    √(q.re * q.re + q.imI * q.imI + q.imJ * q.imJ + q.imK * q.imK) = ‖q‖ := by
  have hsquare : q.re * q.re + q.imI * q.imI + q.imJ * q.imJ + q.imK * q.imK = ‖q‖ * ‖q‖ := by
    rw [← Quaternion.normSq_eq_norm_mul_self, Quaternion.normSq_def']
    ring
  rw [hsquare, Real.sqrt_mul_self (norm_nonneg q)]

section

variable {q : ℍ[ℝ]} (hq : q ≠ 0)

include hq

theorem normalize_eq : normalize q = ‖q‖⁻¹ • q := by
  have hnorm : ‖q‖ ≠ 0 := norm_ne_zero_iff.2 hq
  simp only [normalize, norm_eq, hnorm, if_false]
  ext
  · exact div_eq_inv_mul _ _
  · exact div_eq_inv_mul _ _
  · exact div_eq_inv_mul _ _
  · exact div_eq_inv_mul _ _

theorem normSq_unit : Quaternion.normSq (‖q‖⁻¹ • q) = 1 := by
  have hone : ‖‖q‖⁻¹ • q‖ = 1 := by
    rw [norm_smul, norm_inv, norm_norm, inv_mul_cancel₀ (norm_ne_zero_iff.2 hq)]
  rw [Quaternion.normSq_eq_norm_mul_self, hone, one_mul]

end

/-- The angles a pose is written with turn as its quaternion does. -/
theorem rotateVec_origin {q : ℍ[ℝ]} (hq : q ≠ 0) (hsep : Separable (‖q‖⁻¹ • q)) (v : Vec ℝ) :
    rotateVec (rpyToQuat (quatToRpy (normalize q))) v = rotate (‖q‖⁻¹ • q) v := by
  have hangles := fixedAxes_quatToRpy (normSq_unit hq) hsep
  rw [normalize_eq hq, rotateVec_rpyToQuat, ← matVec_fixedAxes, hangles, matVec_quatMatrix]

theorem metres_back (x : ℝ) : x / mmPerM * mmPerM = x := by
  have hne : mmPerM ≠ 0 := by norm_num [mmPerM]
  exact div_mul_cancel₀ x hne

/-- **What is written is read back** as the same rigid transform, and angles are read as the turns
about the three axes. -/
theorem origin_round_trip :
    (∀ pose : Pose, pose.1 ≠ 0 → Separable (‖pose.1‖⁻¹ • pose.1) →
      (fromUrdfOrigin (some (toUrdfOrigin pose).element)).2 = pose.2 ∧
        ∀ v, rotateVec (fromUrdfOrigin (some (toUrdfOrigin pose).element)).1 v =
          rotate (‖pose.1‖⁻¹ • pose.1) v) ∧
    ∀ r p y v, rotateVec (rpyToQuat (r, p, y)) v =
      matVec (rotZ y) (matVec (rotY p) (matVec (rotX r) v)) := by
  refine ⟨?_, rotateVec_rpyToQuat⟩
  rintro ⟨q, tx, ty, tz⟩ hq hsep
  constructor
  · show (tx / mmPerM * mmPerM, ty / mmPerM * mmPerM, tz / mmPerM * mmPerM) = (tx, ty, tz)
    rw [metres_back, metres_back, metres_back]
  · intro v
    exact rotateVec_origin hq hsep v

/-! ## A quarter turn about the second axis -/

theorem sinPitch_smul (c : ℝ) (q : ℍ[ℝ]) : sinPitch (c • q) = c * c * sinPitch q := by
  simp only [sinPitch, Quaternion.re_smul, Quaternion.imI_smul, Quaternion.imJ_smul,
    Quaternion.imK_smul, smul_eq_mul]
  ring

theorem rotate_smul (c : ℝ) (q : ℍ[ℝ]) (v : Vec ℝ) : rotate (c • q) v = (c * c) • rotate q v := by
  obtain ⟨x, y, z⟩ := v
  simp only [rotate_eq, Quaternion.re_smul, Quaternion.imI_smul, Quaternion.imJ_smul,
    Quaternion.imK_smul, smul_eq_mul, Prod.smul_mk, Prod.mk.injEq]
  refine ⟨?_, ?_, ?_⟩
  · ring
  · ring
  · ring

/-- A quarter turn about the second axis, not of unit length. -/
def quarter : ℍ[ℝ] := quat 1 0 1 0

theorem norm_quarter : ‖quarter‖⁻¹ * ‖quarter‖⁻¹ = 1 / 2 := by
  have hsquare : Quaternion.normSq quarter = 2 := by
    rw [quarter, normSq_quat]
    norm_num
  rw [← mul_inv, ← Quaternion.normSq_eq_norm_mul_self, hsquare, one_div]

/-- At the pole: the first axis is turned down. -/
theorem origin_round_trip_quarter :
    (fromUrdfOrigin (some (toUrdfOrigin (quarter, (1, 2, 3))).element)).2 = (1, 2, 3) ∧
      rotateVec (fromUrdfOrigin (some (toUrdfOrigin (quarter, (1, 2, 3))).element)).1 (1, 0, 0) =
        (0, 0, -1) := by
  have hne : quarter ≠ 0 := by
    intro h
    have hre := congrArg (fun q : ℍ[ℝ] => q.re) h
    exact one_ne_zero hre
  have hsep : Separable (‖quarter‖⁻¹ • quarter) := by
    right
    rw [sinPitch_smul, norm_quarter]
    norm_num [sinPitch, quarter, quat]
  obtain ⟨ht, hv⟩ := origin_round_trip.1 (quarter, (1, 2, 3)) hne hsep
  refine ⟨ht, ?_⟩
  rw [hv, rotate_smul, norm_quarter, rotate_eq]
  norm_num [quarter, quat]

end

end PartCAD.Urdf
