import Mathlib.Analysis.SpecialFunctions.Trigonometric.Inverse
import PartCAD.Geometry.Location

/-!
# Placements as plain data

A location is written down as a translation, an axis and an angle.  The quaternion that is read back
is the same, or its opposite when it turns nothing, so what comes back is one rigid transform.

* `transformPoint_asPacked` : what is written down is read back as the same transform;
* `rigidPacking` : rigid transforms and their packed form.
-/

namespace PartCAD.Geometry

open PartCAD.Lib
open scoped Quaternion

/-- Placements that can be written down.  Reading gives back the placement. -/
structure Packing (L P : Type) where
  asPacked : L → P
  unpack : P → L
  unpack_asPacked : ∀ a, unpack (asPacked a) = a

noncomputable section

/-- `_quat_to_axis_angle`.  The tolerance is 1e-12 in the code, and none in exact arithmetic. -/
def quatToAxisAngle (tolerance : ℝ) (q : ℍ[ℝ]) : Vec ℝ × ℝ :=
  let w := max (-1) (min 1 q.re)
  let s := √(max 0 (1 - w * w))
  if s < tolerance ∨ s = 0 then ((0, 0, 1), 0)
  else ((q.imI / s, q.imJ / s, q.imK / s), 2 * Real.arccos w * (180 / Real.pi))

/-- The sine of half the angle. -/
def sinHalf (q : ℍ[ℝ]) : ℝ := √(1 - q.re * q.re)

section

variable {q : ℍ[ℝ]} (h : Quaternion.normSq q = 1)

include h

theorem normSq_parts : q.re ^ 2 + q.imI ^ 2 + q.imJ ^ 2 + q.imK ^ 2 = 1 := by
  rw [← Quaternion.normSq_def']
  exact h

theorem sinHalf_sq : sinHalf q ^ 2 = q.imI ^ 2 + q.imJ ^ 2 + q.imK ^ 2 := by
  have hparts := normSq_parts h
  have hnonneg : 0 ≤ 1 - q.re * q.re := by nlinarith
  rw [sinHalf, Real.sq_sqrt hnonneg]
  linear_combination -hparts

theorem re_mem : -1 ≤ q.re ∧ q.re ≤ 1 := by
  have hparts := normSq_parts h
  refine abs_le.1 (abs_le_one_iff_mul_self_le_one.2 ?_)
  nlinarith

/-- No number is cut off in a unit quaternion. -/
theorem quatToAxisAngle_unit :
    quatToAxisAngle 0 q =
      if sinHalf q = 0 then ((0, 0, 1), 0)
      else ((q.imI / sinHalf q, q.imJ / sinHalf q, q.imK / sinHalf q),
        2 * Real.arccos q.re * (180 / Real.pi)) := by
  obtain ⟨hlow, hhigh⟩ := re_mem h
  have hclamp : max (-1) (min 1 q.re) = q.re := by rw [min_eq_right hhigh, max_eq_right hlow]
  have hroot : √(max 0 (1 - q.re * q.re)) = sinHalf q := by
    rw [max_eq_right (by nlinarith), sinHalf]
  have hnot : (sinHalf q < 0 ∨ sinHalf q = 0) ↔ sinHalf q = 0 :=
    or_iff_right (not_lt.2 (Real.sqrt_nonneg _))
  simp only [quatToAxisAngle, hclamp, hroot, hnot]

theorem axisNorm_unit (hsin : sinHalf q ≠ 0) :
    axisNorm (q.imI / sinHalf q, q.imJ / sinHalf q, q.imK / sinHalf q) = 1 := by
  have hsq := sinHalf_sq h
  have hsum : q.imI / sinHalf q * (q.imI / sinHalf q) + q.imJ / sinHalf q * (q.imJ / sinHalf q) +
      q.imK / sinHalf q * (q.imK / sinHalf q) = 1 := by
    field_simp
    linear_combination -hsq
  rw [axisNorm, hsum, Real.sqrt_one]

theorem axisNorm_quatToAxisAngle : axisNorm (quatToAxisAngle 0 q).1 ≠ 0 := by
  rw [quatToAxisAngle_unit h]
  by_cases hsin : sinHalf q = 0
  · rw [if_pos hsin]
    simp [axisNorm]
  · rw [if_neg hsin, axisNorm_unit h hsin]
    exact one_ne_zero

/-- **An axis and an angle** give back the quaternion; one that turns nothing may change its sign. -/
theorem axisAngleToQuat_quatToAxisAngle :
    axisAngleToQuat (quatToAxisAngle 0 q).1 (quatToAxisAngle 0 q).2 = q ∨
      sinHalf q = 0 ∧ axisAngleToQuat (quatToAxisAngle 0 q).1 (quatToAxisAngle 0 q).2 = 1 := by
  rw [quatToAxisAngle_unit h]
  by_cases hsin : sinHalf q = 0
  · refine Or.inr ⟨hsin, ?_⟩
    rw [if_pos hsin]
    simp only [axisAngleToQuat, zero_mul, zero_div, Real.cos_zero, Real.sin_zero, mul_zero]
    exact quat_one
  · apply Or.inl
    obtain ⟨hlow, hhigh⟩ := re_mem h
    have hangle : 2 * Real.arccos q.re * (180 / Real.pi) * (Real.pi / 180) / 2 = Real.arccos q.re := by
      have hpi := Real.pi_ne_zero
      field_simp
    have hs : Real.sin (Real.arccos q.re) = sinHalf q := by
      rw [Real.sin_arccos, sinHalf, pow_two]
    rw [if_neg hsin]
    simp only [axisAngleToQuat, hangle, hs, Real.cos_arccos hlow hhigh, axisNorm_unit h hsin, div_one,
      div_mul_cancel₀ _ hsin]
    rfl

end

/-! ## Locations -/

/-- A location as it is written down, with an axis of some length. -/
structure Packed where
  t : Vec ℝ
  axis : Vec ℝ
  angle : ℝ
  hasAxis : axisNorm axis ≠ 0

namespace Location

/-- `as_packed` -/
def asPacked (a : Location ℝ) : Packed where
  t := a.t
  axis := (quatToAxisAngle 0 a.q).1
  angle := (quatToAxisAngle 0 a.q).2
  hasAxis := axisNorm_quatToAxisAngle a.unit

/-- `Location([t, axis, angle])` -/
def ofPacked (p : Packed) : Location ℝ :=
  ⟨axisAngleToQuat p.axis p.angle, p.t, normSq_axisAngleToQuat p.hasAxis p.angle⟩

theorem packed_eq (p : Packed) : packed p.t p.axis p.angle = some (ofPacked p) :=
  dif_neg p.hasAxis

/-- A quaternion that turns nothing leaves vectors as they are. -/
theorem rotateVec_of_sinHalf {q : ℍ[ℝ]} (h : Quaternion.normSq q = 1) (hsin : sinHalf q = 0)
    (v : Vec ℝ) : rotateVec q v = v := by
  have hsq := sinHalf_sq h
  rw [hsin] at hsq
  have hx : q.imI = 0 := by nlinarith
  have hy : q.imJ = 0 := by nlinarith
  have hz : q.imK = 0 := by nlinarith
  simp [rotateVec, hx, hy, hz]

/-- **What is written down** is read back as the same transform. -/
theorem transformPoint_asPacked (a : Location ℝ) (p : Vec ℝ) :
    (ofPacked a.asPacked).transformPoint p = a.transformPoint p := by
  have hrotate : rotateVec (ofPacked a.asPacked).q p = rotateVec a.q p := by
    rcases axisAngleToQuat_quatToAxisAngle a.unit with hq | ⟨hsin, hq⟩
    · exact congrArg (rotateVec · p) hq
    · rw [rotateVec_of_sinHalf a.unit hsin]
      show rotateVec (axisAngleToQuat (quatToAxisAngle 0 a.q).1 (quatToAxisAngle 0 a.q).2) p = p
      rw [hq]
      exact (rotateVec_q 1 p).trans (by rw [one_q, rotate_one])
  exact congrArg (· + a.t) hrotate

/-- A location as a transform of points. -/
def toPerm : Location ℝ →* Equiv.Perm (Vec ℝ) where
  toFun a :=
    { toFun := a.transformPoint
      invFun := (a⁻¹).transformPoint
      left_inv p := by rw [← transformPoint_mul, inv_mul_cancel, transformPoint_one]
      right_inv p := by rw [← transformPoint_mul, mul_inv_cancel, transformPoint_one] }
  map_one' := Equiv.ext transformPoint_one
  map_mul' a b := Equiv.ext (transformPoint_mul a b)

theorem toPerm_asPacked (a : Location ℝ) : toPerm (ofPacked a.asPacked) = toPerm a :=
  Equiv.ext (transformPoint_asPacked a)

end Location

/-- The rigid transforms that locations stand for. -/
abbrev RigidTransform : Type := Location.toPerm.range

/-- **Rigid transforms in their packed form.** -/
def rigidPacking : Packing RigidTransform Packed where
  asPacked a := (Classical.choose a.2).asPacked
  unpack p := ⟨Location.toPerm (Location.ofPacked p), ⟨Location.ofPacked p, rfl⟩⟩
  unpack_asPacked a := by
    apply Subtype.ext
    have hread := Location.toPerm_asPacked (Classical.choose a.2)
    exact hread.trans (Classical.choose_spec a.2)

end

end PartCAD.Geometry
