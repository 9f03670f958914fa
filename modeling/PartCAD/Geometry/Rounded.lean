import Mathlib.Data.Int.Cast.Lemmas
import Mathlib.Algebra.Order.Floor.Ring
import PartCAD.Geometry.Packed

/-!
# Placements to six digits

Two placements are compared by what they are when written down and rounded.

* `toPerm_eq_iff` : a rigid transform has one quaternion and its opposite;
* `packedKey_opposite` : these two are written down differently, unless they turn nothing.
-/

namespace PartCAD.Geometry

open PartCAD.Lib
open scoped Quaternion

noncomputable section

/-! ## Rounding -/

/-- `round(v, 6)`, in millionths: the nearest number, or of two that are as near the even one. -/
def round6 (v : ℝ) : ℤ :=
  let x : ℝ := v * 10 ^ 6
  if x - ⌊x⌋ < 1 / 2 ∨ x - ⌊x⌋ = 1 / 2 ∧ Even ⌊x⌋ then ⌊x⌋ else ⌊x⌋ + 1

theorem abs_sub_round6 (v : ℝ) : |v * 10 ^ 6 - round6 v| ≤ 1 / 2 := by
  unfold round6
  generalize v * 10 ^ 6 = x
  have hlow := Int.floor_le x
  have hhigh := Int.lt_floor_add_one x
  dsimp only
  rw [abs_le]
  split
  · rename_i h
    rcases h with h | ⟨h, -⟩
    · constructor <;> linarith
    · constructor <;> linarith
  · rename_i h
    have hhalf : 1 / 2 ≤ x - ⌊x⌋ := by
      by_contra hlt
      exact h (.inl (not_le.1 hlt))
    push_cast
    constructor <;> linarith

/-- A number is rounded as its opposite is only if it is next to nothing. -/
theorem sq_le_of_round6_neg {v : ℝ} (h : round6 v = round6 (-v)) : v ^ 2 ≤ (1 / 2) ^ 2 / 10 ^ 12 := by
  have hv := abs_le.1 (abs_sub_round6 v)
  have hneg := abs_le.1 (abs_sub_round6 (-v))
  rw [← h] at hneg
  -- the integer is within a half of zero
  have hzero : round6 v = 0 := by
    have hlow : -(1 : ℝ) ≤ 2 * round6 v := by linarith [hv.2, hneg.2]
    have hhigh : 2 * (round6 v : ℝ) ≤ 1 := by linarith [hv.1, hneg.1]
    have hlow' : -1 ≤ 2 * round6 v := by exact_mod_cast hlow
    have hhigh' : 2 * round6 v ≤ 1 := by exact_mod_cast hhigh
    omega
  rw [hzero, Int.cast_zero, sub_zero] at hv
  nlinarith [hv.1, hv.2]

/-! ## Placements as keys -/

structure PackedKey where
  t : ℤ × ℤ × ℤ
  axis : ℤ × ℤ × ℤ
  angle : ℤ
  deriving DecidableEq

def roundVec (v : Vec ℝ) : ℤ × ℤ × ℤ := (round6 v.1, round6 v.2.1, round6 v.2.2)

/-- `_quat_to_axis_angle` -/
def axisAngle (q : ℍ[ℝ]) : Vec ℝ × ℝ := quatToAxisAngle (1 / 10 ^ 12) q

/-- `_packed` -/
def packedKey (a : Location ℝ) : PackedKey :=
  ⟨roundVec a.t, roundVec (axisAngle a.q).1, round6 (axisAngle a.q).2⟩

/-- A placement that is written down with an axis of its own. -/
def Location.Turns (a : Location ℝ) : Prop := 1 / 10 ^ 12 ≤ sinHalf a.q

theorem axisAngle_of_turns {a : Location ℝ} (h : a.Turns) :
    (axisAngle a.q).1 = (a.q.imI / sinHalf a.q, a.q.imJ / sinHalf a.q, a.q.imK / sinHalf a.q) := by
  obtain ⟨hlow, hhigh⟩ := re_mem a.unit
  have hclamp : max (-1) (min 1 a.q.re) = a.q.re := by rw [min_eq_right hhigh, max_eq_right hlow]
  have hroot : √(max 0 (1 - a.q.re * a.q.re)) = sinHalf a.q := by
    rw [max_eq_right (by nlinarith), sinHalf]
  have hpos : 0 < sinHalf a.q := lt_of_lt_of_le (by positivity) h
  have hnot : ¬ (sinHalf a.q < 1 / 10 ^ 12 ∨ sinHalf a.q = 0) :=
    not_or.2 ⟨not_lt.2 h, ne_of_gt hpos⟩
  simp only [axisAngle, quatToAxisAngle, hclamp, hroot, if_neg hnot]

theorem axisAngle_of_not_turns {a : Location ℝ} (h : ¬ a.Turns) : axisAngle a.q = ((0, 0, 1), 0) := by
  obtain ⟨hlow, hhigh⟩ := re_mem a.unit
  have hclamp : max (-1) (min 1 a.q.re) = a.q.re := by rw [min_eq_right hhigh, max_eq_right hlow]
  have hroot : √(max 0 (1 - a.q.re * a.q.re)) = sinHalf a.q := by
    rw [max_eq_right (by nlinarith), sinHalf]
  simp only [axisAngle, quatToAxisAngle, hclamp, hroot, if_pos (Or.inl (not_le.1 h) :
    sinHalf a.q < 1 / 10 ^ 12 ∨ sinHalf a.q = 0)]

theorem sinHalf_neg (q : ℍ[ℝ]) : sinHalf (-q) = sinHalf q := by
  rw [sinHalf, sinHalf, Quaternion.re_neg, neg_mul_neg]

/-- **Opposite quaternions** are written down alike only when they turn nothing. -/
theorem packedKey_opposite {a b : Location ℝ} (ht : b.t = a.t) (hq : b.q = -a.q) :
    packedKey a = packedKey b ↔ ¬ a.Turns := by
  have hsin : sinHalf b.q = sinHalf a.q := by rw [hq, sinHalf_neg]
  constructor
  · intro hkey h
    have hb : b.Turns := by
      unfold Location.Turns
      rwa [hsin]
    have haxis := congrArg PackedKey.axis hkey
    have hneg : (axisAngle b.q).1 = (-(a.q.imI / sinHalf a.q), -(a.q.imJ / sinHalf a.q),
        -(a.q.imK / sinHalf a.q)) := by
      rw [axisAngle_of_turns hb, hsin, hq, Quaternion.imI_neg, Quaternion.imJ_neg, Quaternion.imK_neg,
        neg_div, neg_div, neg_div]
    simp only [packedKey, roundVec, axisAngle_of_turns h, hneg, Prod.mk.injEq] at haxis
    obtain ⟨hx, hy, hz⟩ := haxis
    have hx := sq_le_of_round6_neg hx
    have hy := sq_le_of_round6_neg hy
    have hz := sq_le_of_round6_neg hz
    -- an axis has length one
    have hpos : 0 < sinHalf a.q := lt_of_lt_of_le (by positivity) h
    have hsq := sinHalf_sq a.unit
    have hone : (a.q.imI / sinHalf a.q) ^ 2 + (a.q.imJ / sinHalf a.q) ^ 2 +
        (a.q.imK / sinHalf a.q) ^ 2 = 1 := by
      field_simp
      linarith
    norm_num at hx hy hz
    linarith
  · intro h
    have hb : ¬ b.Turns := by
      unfold Location.Turns
      rwa [hsin]
    rw [packedKey, packedKey, axisAngle_of_not_turns h, axisAngle_of_not_turns hb, ht]

/-! ## Quaternions of one transform -/

/-- A unit quaternion that turns nothing is one or minus one. -/
theorem eq_one_or_neg_one {r : ℍ[ℝ]} (hr : Quaternion.normSq r = 1)
    (h : ∀ v : Vec ℝ, rotateVec r v = v) : r = 1 ∨ r = -1 := by
  have hx : rotateVec r (1, 0, 0) = (1, 0, 0) := h _
  have hy : rotateVec r (0, 1, 0) = (0, 1, 0) := h _
  have hyz : r.imJ * r.imJ + r.imK * r.imK = 0 := by
    have hfirst := congrArg Prod.fst hx
    simp only [rotateVec, mul_one, mul_zero, add_zero] at hfirst
    linarith
  have hxz : r.imI * r.imI + r.imK * r.imK = 0 := by
    have hsecond := congrArg (fun v => v.2.1) hy
    simp only [rotateVec, mul_one, mul_zero, add_zero, zero_add] at hsecond
    linarith
  have hI : r.imI = 0 := by nlinarith [mul_self_nonneg r.imI, mul_self_nonneg r.imK]
  have hJ : r.imJ = 0 := by nlinarith [mul_self_nonneg r.imJ, mul_self_nonneg r.imK]
  have hK : r.imK = 0 := by nlinarith [mul_self_nonneg r.imJ, mul_self_nonneg r.imK]
  have hre : r.re ^ 2 = 1 := by
    have hparts := normSq_parts hr
    rw [hI, hJ, hK] at hparts
    linarith
  rcases sq_eq_one_iff.1 hre with hre | hre
  · left
    ext
    · exact hre
    · exact hI
    · exact hJ
    · exact hK
  · right
    ext
    · exact hre
    · rw [hI, Quaternion.imI_neg, Quaternion.imI_one, neg_zero]
    · rw [hJ, Quaternion.imJ_neg, Quaternion.imJ_one, neg_zero]
    · rw [hK, Quaternion.imK_neg, Quaternion.imK_one, neg_zero]

/-- **A rigid transform** has one quaternion and its opposite. -/
theorem toPerm_eq_iff {a b : Location ℝ} :
    Location.toPerm a = Location.toPerm b ↔ b.t = a.t ∧ (b.q = a.q ∨ b.q = -a.q) := by
  constructor
  · intro h
    have hpoint : ∀ p, a.transformPoint p = b.transformPoint p := fun p => Equiv.congr_fun h p
    have hzero : ∀ c : Location ℝ, c.transformPoint 0 = c.t := by
      intro c
      unfold Location.transformPoint
      rw [Location.rotateVec_q, rotate_zero, zero_add]
    have ht : b.t = a.t := by rw [← hzero b, ← hzero a, hpoint]
    have hrotate : ∀ v, (a⁻¹ * b).transformPoint v = v := by
      intro v
      rw [Location.transformPoint_mul, ← hpoint, ← Location.transformPoint_mul, inv_mul_cancel,
        Location.transformPoint_one]
    have hnone : (a⁻¹ * b).t = 0 := by rw [← hzero, hrotate]
    have hturn : ∀ v, rotateVec (a⁻¹ * b).q v = v := by
      intro v
      have hv := hrotate v
      rwa [Location.transformPoint, hnone, add_zero] at hv
    have hback : b.q = a.q * (a⁻¹ * b).q := by
      rw [← Location.mul_q, mul_inv_cancel_left]
    refine ⟨ht, ?_⟩
    rcases eq_one_or_neg_one (a⁻¹ * b).unit hturn with hone | hone
    · left
      rw [hback, hone, mul_one]
    · right
      rw [hback, hone, mul_neg, mul_one]
  · rintro ⟨ht, hq⟩
    refine Equiv.ext fun p => ?_
    show rotateVec a.q p + a.t = rotateVec b.q p + b.t
    rcases hq with hq | hq
    · rw [hq, ht]
    · have hopposite : rotateVec (-a.q) p = rotateVec a.q p := by
        simp only [rotateVec, Quaternion.re_neg, Quaternion.imI_neg, Quaternion.imJ_neg,
          Quaternion.imK_neg, neg_mul_neg]
      rw [hq, ht, hopposite]

end

end PartCAD.Geometry
