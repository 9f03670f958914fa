import PartCAD.Geometry.Packed
import PartCAD.Lib.Euler

/-!
# Placements as URDF states them

A URDF origin is three numbers in metres and three angles.  The numbers of the code are real numbers
here, and the tolerances are those of the code.

* `toUrdfOrigin` : how a pose is written as an origin;
* `motion_toUrdfOrigin` : an origin moves points as the placement does, unless the first axis is
  turned almost into the third.
-/

namespace PartCAD.Urdf

open PartCAD.Lib PartCAD.Geometry
open scoped Quaternion

noncomputable section

/-- A location as a node carries it: `[[tx, ty, tz], [ax, ay, az], angle]`. -/
structure PackedLocation where
  t : Vec ℝ
  axis : Vec ℝ
  angle : ℝ

/-- The quaternion and the translation, in millimetres. -/
abbrev Pose : Type := ℍ[ℝ] × Vec ℝ

/-- `<origin xyz rpy>` -/
structure Origin where
  xyz : Vec ℝ
  rpy : Vec ℝ

/-- `MM_PER_M` -/
def mmPerM : ℝ := 1000

/-- `EPSILON` -/
def epsilon : ℝ := 1e-9

/-- `axis_angle_to_quat` -/
def axisAngleToQuat (axis : Vec ℝ) (angleDeg : ℝ) : ℍ[ℝ] :=
  if axisNorm axis = 0 then quat 1 0 0 0 else Geometry.axisAngleToQuat axis angleDeg

/-- `normalize` -/
def normalize (q : ℍ[ℝ]) : ℍ[ℝ] :=
  let norm := √(q.re * q.re + q.imI * q.imI + q.imJ * q.imJ + q.imK * q.imK)
  if norm = 0 then quat 1 0 0 0 else quat (q.re / norm) (q.imI / norm) (q.imJ / norm) (q.imK / norm)

/-- `quat_to_rpy` -/
def quatToRpy (q : ℍ[ℝ]) : Vec ℝ :=
  let (w, x, y, z) := (q.re, q.imI, q.imJ, q.imK)
  let m31 := 2 * (x * z - w * y)
  let sinPitch := max (-1) (min 1 (-m31))
  let pitch := Real.arcsin sinPitch
  if |sinPitch| > 1 - 1e-12 then
    let m12 := 2 * (x * y - w * z)
    let m13 := 2 * (x * z + w * y)
    if sinPitch > 0 then (0, pitch, -atan2 m12 m13) else (0, pitch, atan2 (-m12) (-m13))
  else
    (atan2 (2 * (y * z + w * x)) (1 - 2 * (x * x + y * y)), pitch,
      atan2 (2 * (x * y + w * z)) (1 - 2 * (y * y + z * z)))

/-- `to_urdf_origin` -/
def toUrdfOrigin (pose : Pose) : Origin where
  xyz := (pose.2.1 / mmPerM, pose.2.2.1 / mmPerM, pose.2.2.2 / mmPerM)
  rpy := quatToRpy (normalize pose.1)

/-- `from_packed` -/
def fromPacked : Option PackedLocation → Pose
  | none => (quat 1 0 0 0, (0, 0, 0))
  | some p => (axisAngleToQuat p.axis p.angle, p.t)

open Classical in
/-- `is_identity` -/
def isIdentity (pose : Pose) : Bool :=
  if |pose.2.1| > epsilon ∨ |pose.2.2.1| > epsilon ∨ |pose.2.2.2| > epsilon then false
  else
    let angle := (quatToAxisAngle 1e-12 (normalize pose.1)).2
    decide (|angle| ≤ epsilon ∨ |(|angle| - 360)| ≤ epsilon)

/-! ## What placements and origins mean -/

/-- The rigid transform of a placement; no axis turns nothing. -/
def locate : Option PackedLocation → Location ℝ
  | none => 1
  | some p =>
    if h : axisNorm p.axis = 0 then ⟨1, p.t, normSq_unturned⟩
    else Location.ofPacked ⟨p.t, p.axis, p.angle, h⟩

/-- The points of space, moved. -/
abbrev Motion : Type := Function.End (Vec ℝ)

/-- How the node's own frame is placed in the frame of its parent. -/
def placement (p : Option PackedLocation) : Motion := (locate p).transformPoint

/-- What an origin means in URDF: `Rz(yaw) . Ry(pitch) . Rx(roll)`, then the offset. -/
def Origin.motion (o : Origin) : Motion := fun v =>
  matVec (fixedAxes o.rpy.1 o.rpy.2.1 o.rpy.2.2) v + mmPerM • o.xyz

/-! ## Poses -/

theorem fromPacked_eq (p : Option PackedLocation) : fromPacked p = ((locate p).q, (locate p).t) := by
  cases p with
  | none => rfl
  | some p =>
    by_cases h : axisNorm p.axis = 0
    · simp only [fromPacked, locate, axisAngleToQuat, h, if_true, dif_pos, quat_one]
    · simp only [fromPacked, locate, axisAngleToQuat, h, if_false, dif_neg, not_false_eq_true,
        Location.ofPacked]

/-- The sine of the pitch. -/
def sinPitch (q : ℍ[ℝ]) : ℝ := -(2 * (q.imI * q.imK - q.re * q.imJ))

/-- The first axis is not turned almost into the third, unless it is turned right into it. -/
def Separable (q : ℍ[ℝ]) : Prop := |sinPitch q| ≤ 1 - 1e-12 ∨ |sinPitch q| = 1

section

variable {q : ℍ[ℝ]} (h : Quaternion.normSq q = 1)

include h

theorem normalize_unit : normalize q = q := by
  have hparts := normSq_parts h
  have hsum : q.re * q.re + q.imI * q.imI + q.imJ * q.imJ + q.imK * q.imK = 1 := by
    linear_combination hparts
  simp only [normalize, hsum, Real.sqrt_one, one_ne_zero, if_false, div_one]
  rfl

theorem abs_sinPitch_le : |sinPitch q| ≤ 1 := by
  have hrow := rows (quatMatrix_mem h) 2 2
  rw [if_pos rfl] at hrow
  have hentry : sinPitch q = -quatMatrix q 2 0 := rfl
  rw [abs_le_one_iff_mul_self_le_one, hentry]
  nlinarith [sq_nonneg (quatMatrix q 2 1), sq_nonneg (quatMatrix q 2 2)]

/-- Nothing is cut off in the sine of a unit quaternion. -/
theorem clamp_sinPitch : max (-1) (min 1 (sinPitch q)) = sinPitch q := by
  obtain ⟨hlow, hhigh⟩ := abs_le.1 (abs_sinPitch_le h)
  rw [min_eq_right hhigh, max_eq_right hlow]

/-- The angles of a unit quaternion, by the entries of its matrix. -/
theorem quatToRpy_unit :
    quatToRpy q =
      if |sinPitch q| > 1 - 1e-12 then
        if sinPitch q > 0 then
          (0, Real.arcsin (sinPitch q), -atan2 (quatMatrix q 0 1) (quatMatrix q 0 2))
        else (0, Real.arcsin (sinPitch q), atan2 (-quatMatrix q 0 1) (-quatMatrix q 0 2))
      else
        (atan2 (quatMatrix q 2 1) (quatMatrix q 2 2), Real.arcsin (sinPitch q),
          atan2 (quatMatrix q 1 0) (quatMatrix q 0 0)) := by
  have hparts := normSq_parts h
  have hzz : 1 - 2 * (q.imI * q.imI + q.imJ * q.imJ) = quatMatrix q 2 2 := by
    show _ = q.re ^ 2 - q.imI ^ 2 - q.imJ ^ 2 + q.imK ^ 2
    linear_combination -hparts
  have hxx : 1 - 2 * (q.imJ * q.imJ + q.imK * q.imK) = quatMatrix q 0 0 := by
    show _ = q.re ^ 2 + q.imI ^ 2 - q.imJ ^ 2 - q.imK ^ 2
    linear_combination -hparts
  have hclamp := clamp_sinPitch h
  unfold sinPitch at hclamp
  simp only [quatToRpy, hclamp, hzz, hxx]
  rfl

/-- **The angles turn as the quaternion does.** -/
theorem fixedAxes_quatToRpy (hsep : Separable q) :
    fixedAxes (quatToRpy q).1 (quatToRpy q).2.1 (quatToRpy q).2.2 = quatMatrix q := by
  have hm := quatMatrix_mem h
  have hentry : sinPitch q = -quatMatrix q 2 0 := rfl
  rw [quatToRpy_unit h]
  rcases hsep with hsep | hsep
  · rw [if_neg (not_lt.2 hsep), hentry]
    refine fixedAxes_entries hm ?_
    rw [hentry, abs_neg] at hsep
    refine (sq_lt_one_iff_abs_lt_one _).2 (lt_of_le_of_lt hsep ?_)
    norm_num
  · rw [if_pos (by rw [hsep]; norm_num)]
    rcases (abs_eq zero_le_one).1 hsep with hone | hone
    · rw [if_pos (by rw [hone]; exact one_pos), hone]
      refine fixedAxes_down hm ?_
      linarith
    · rw [if_neg (by rw [hone]; norm_num), hone]
      refine fixedAxes_up hm ?_
      linarith

end

/-- **An origin means the placement** it was written for. -/
theorem motion_toUrdfOrigin {p : Option PackedLocation} (h : Separable (locate p).q) :
    (toUrdfOrigin (fromPacked p)).motion = placement p := by
  have hunit := (locate p).unit
  funext v
  have hrotate : matVec (fixedAxes (quatToRpy (locate p).q).1 (quatToRpy (locate p).q).2.1
      (quatToRpy (locate p).q).2.2) v = rotateVec (locate p).q v := by
    rw [fixedAxes_quatToRpy hunit h, matVec_quatMatrix, rotateVec_eq_rotate hunit]
  have hoffset : ∀ x : ℝ, mmPerM * (x / mmPerM) = x := by
    intro x
    exact mul_div_cancel₀ x (by norm_num [mmPerM])
  show matVec (fixedAxes _ _ _) v + mmPerM • _ = rotateVec (locate p).q v + (locate p).t
  simp only [toUrdfOrigin, fromPacked_eq, normalize_unit hunit, hrotate, Prod.smul_mk, smul_eq_mul,
    hoffset]

end

end PartCAD.Urdf
