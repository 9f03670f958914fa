import Mathlib.Analysis.SpecialFunctions.Trigonometric.Basic
import PartCAD.Lib.Rotation

/-!
# Locations

A location is a unit quaternion and a translation.  Products and inverses are computed on the four
and three numbers.  The numbers are those of a commutative ring, and real numbers where a location is
made from an axis and an angle.

* `rotateVec_eq_rotate` : the matrix of a unit quaternion is the rotation by it;
* `Group (Location R)` : locations compose as rigid transforms;
* `packed_halfTurn` : half a turn about an axis.
-/

namespace PartCAD.Geometry

open PartCAD.Lib
open scoped Quaternion

/-! ## The functions -/

section

variable {R : Type} [CommRing R]

/-- `_quat_mul` -/
def quatMul (a b : ℍ[R]) : ℍ[R] :=
  quat (a.re * b.re - a.imI * b.imI - a.imJ * b.imJ - a.imK * b.imK)
    (a.re * b.imI + a.imI * b.re + a.imJ * b.imK - a.imK * b.imJ)
    (a.re * b.imJ - a.imI * b.imK + a.imJ * b.re + a.imK * b.imI)
    (a.re * b.imK + a.imI * b.imJ - a.imJ * b.imI + a.imK * b.re)

/-- `_quat_conj` -/
def quatConj (q : ℍ[R]) : ℍ[R] := quat q.re (-q.imI) (-q.imJ) (-q.imK)

/-- `_rotate_vec` -/
def rotateVec (q : ℍ[R]) (v : Vec R) : Vec R :=
  let (w, x, y, z) := (q.re, q.imI, q.imJ, q.imK)
  let (vx, vy, vz) := v
  ((1 - 2 * (y * y + z * z)) * vx + 2 * (x * y - w * z) * vy + 2 * (x * z + w * y) * vz,
    2 * (x * y + w * z) * vx + (1 - 2 * (x * x + z * z)) * vy + 2 * (y * z - w * x) * vz,
    2 * (x * z - w * y) * vx + 2 * (y * z + w * x) * vy + (1 - 2 * (x * x + y * y)) * vz)

theorem quatMul_eq (a b : ℍ[R]) : quatMul a b = a * b := by
  ext
  · exact (Quaternion.re_mul a b).symm
  · exact (Quaternion.imI_mul a b).symm
  · exact (Quaternion.imJ_mul a b).symm
  · exact (Quaternion.imK_mul a b).symm

theorem quatConj_eq (q : ℍ[R]) : quatConj q = star q := by
  ext
  · exact (Quaternion.re_star q).symm
  · exact (Quaternion.imI_star q).symm
  · exact (Quaternion.imJ_star q).symm
  · exact (Quaternion.imK_star q).symm

/-- **The matrix of a unit quaternion** is the rotation by it. -/
theorem rotateVec_eq_rotate {q : ℍ[R]} (hq : Quaternion.normSq q = 1) (v : Vec R) :
    rotateVec q v = rotate q v := by
  obtain ⟨vx, vy, vz⟩ := v
  rw [Quaternion.normSq_def'] at hq
  rw [rotate_eq, rotateVec]
  -- the diagonal of the matrix takes the norm to be one
  refine Prod.ext ?_ (Prod.ext ?_ ?_)
  · linear_combination (-vx) * hq
  · linear_combination (-vy) * hq
  · linear_combination (-vz) * hq

/-- `Location` -/
@[ext]
structure Location (R : Type) [CommRing R] where
  q : ℍ[R]
  t : Vec R
  unit : Quaternion.normSq q = 1

theorem normSq_unturned : Quaternion.normSq (1 : ℍ[ℝ]) = 1 := map_one _

namespace Location

/-- `Location()` -/
instance : One (Location R) where
  one := ⟨quat 1 0 0 0, (0, 0, 0), by rw [quat_one, map_one]⟩

/-- `__mul__` -/
instance : Mul (Location R) where
  mul a b :=
    { q := quatMul a.q b.q
      t := rotateVec a.q b.t + a.t
      unit := by rw [quatMul_eq, map_mul, a.unit, b.unit, one_mul] }

/-- `inverse` -/
instance : Inv (Location R) where
  inv a :=
    { q := quatConj a.q
      t := -rotateVec (quatConj a.q) a.t
      unit := by rw [quatConj_eq, Quaternion.normSq_star, a.unit] }

/-- `transform_point` -/
def transformPoint (a : Location R) (p : Vec R) : Vec R := rotateVec a.q p + a.t

/-- `rotate_vector` -/
def rotateVector (a : Location R) (v : Vec R) : Vec R := rotateVec a.q v

/-! ## Rigid transforms -/

theorem rotateVec_q (a : Location R) (v : Vec R) : rotateVec a.q v = rotate a.q v :=
  rotateVec_eq_rotate a.unit v

@[simp]
theorem one_q : (1 : Location R).q = 1 := quat_one

@[simp]
theorem one_t : (1 : Location R).t = 0 := rfl

@[simp]
theorem mul_q (a b : Location R) : (a * b).q = a.q * b.q := quatMul_eq a.q b.q

@[simp]
theorem mul_t (a b : Location R) : (a * b).t = rotate a.q b.t + a.t :=
  congrArg (· + a.t) (rotateVec_q a b.t)

@[simp]
theorem inv_q (a : Location R) : (a⁻¹).q = star a.q := quatConj_eq a.q

@[simp]
theorem inv_t (a : Location R) : (a⁻¹).t = -rotate (star a.q) a.t := by
  have h := rotateVec_q a⁻¹ a.t
  rw [inv_q] at h
  show -rotateVec (a⁻¹).q a.t = _
  rw [inv_q, h]

theorem star_mul_self (a : Location R) : star a.q * a.q = 1 := by
  rw [Quaternion.star_mul_self, a.unit, Quaternion.coe_one]

/-- **Locations compose as rigid transforms.** -/
instance : Group (Location R) where
  mul_assoc a b c := by
    ext1
    · simp only [mul_q, mul_assoc]
    · simp only [mul_q, mul_t, rotate_mul, rotate_add, add_assoc]
  one_mul a := by
    ext1
    · rw [mul_q, one_q, one_mul]
    · rw [mul_t, one_q, one_t, rotate_one, add_zero]
  mul_one a := by
    ext1
    · rw [mul_q, one_q, mul_one]
    · rw [mul_t, one_t, rotate_zero, zero_add]
  inv_mul_cancel a := by
    ext1
    · rw [mul_q, inv_q, star_mul_self, one_q]
    · rw [mul_t, inv_q, inv_t, add_neg_cancel, one_t]

theorem transformPoint_mul (a b : Location R) (p : Vec R) :
    (a * b).transformPoint p = a.transformPoint (b.transformPoint p) := by
  unfold transformPoint
  rw [rotateVec_q, rotateVec_q, rotateVec_q, mul_q, mul_t, rotate_mul, rotate_add, add_assoc]

theorem transformPoint_one (p : Vec R) : (1 : Location R).transformPoint p = p := by
  unfold transformPoint
  rw [rotateVec_q, one_q, one_t, rotate_one, add_zero]

theorem rotateVector_mul (a b : Location R) (v : Vec R) :
    (a * b).rotateVector v = a.rotateVector (b.rotateVector v) := by
  unfold rotateVector
  rw [rotateVec_q, rotateVec_q, rotateVec_q, mul_q, rotate_mul]

theorem rotateVector_neg (a : Location R) (v : Vec R) :
    a.rotateVector (-v) = -a.rotateVector v := by
  unfold rotateVector
  rw [rotateVec_q, rotateVec_q, rotate_neg]

end Location

end

/-! ## An axis and an angle -/

noncomputable section

/-- The length of a vector. -/
def axisNorm (v : Vec ℝ) : ℝ := √(v.1 * v.1 + v.2.1 * v.2.1 + v.2.2 * v.2.2)

theorem axisNorm_eq (v : Vec ℝ) : axisNorm v = √(Quaternion.normSq (pureQuat v)) := by
  rw [pureQuat, normSq_quat, axisNorm]
  congr 1
  ring

/-- Turning a vector leaves its length. -/
theorem axisNorm_rotateVector (a : Location ℝ) (v : Vec ℝ) :
    axisNorm (a.rotateVector v) = axisNorm v := by
  have hrotate : a.rotateVector v = rotate a.q v := a.rotateVec_q v
  rw [axisNorm_eq, axisNorm_eq, hrotate, pureQuat_rotate, map_mul, map_mul,
    Quaternion.normSq_star, a.unit, one_mul, mul_one]

/-- `_axis_angle_to_quat`, for an axis of a length other than zero. -/
def axisAngleToQuat (ax : Vec ℝ) (angleDeg : ℝ) : ℍ[ℝ] :=
  let norm := axisNorm ax
  let half := angleDeg * (Real.pi / 180) / 2
  let s := Real.sin half
  quat (Real.cos half) (ax.1 / norm * s) (ax.2.1 / norm * s) (ax.2.2 / norm * s)

/-- The axis is normalised. -/
theorem normalised {ax : Vec ℝ} (h : axisNorm ax ≠ 0) :
    (ax.1 / axisNorm ax) ^ 2 + (ax.2.1 / axisNorm ax) ^ 2 + (ax.2.2 / axisNorm ax) ^ 2 = 1 := by
  have hsquare : axisNorm ax ^ 2 = ax.1 * ax.1 + ax.2.1 * ax.2.1 + ax.2.2 * ax.2.2 := by
    apply Real.sq_sqrt
    have hx := mul_self_nonneg ax.1
    have hy := mul_self_nonneg ax.2.1
    have hz := mul_self_nonneg ax.2.2
    linarith
  have hne : ax.1 * ax.1 + ax.2.1 * ax.2.1 + ax.2.2 * ax.2.2 ≠ 0 := by
    rw [← hsquare]
    exact pow_ne_zero 2 h
  rw [div_pow, div_pow, div_pow, ← add_div, ← add_div, hsquare, pow_two, pow_two, pow_two]
  exact div_self hne

theorem normSq_axisAngleToQuat {ax : Vec ℝ} (h : axisNorm ax ≠ 0) (angleDeg : ℝ) :
    Quaternion.normSq (axisAngleToQuat ax angleDeg) = 1 := by
  have hcircle := Real.sin_sq_add_cos_sq (angleDeg * (Real.pi / 180) / 2)
  rw [axisAngleToQuat, normSq_quat]
  linear_combination Real.sin (angleDeg * (Real.pi / 180) / 2) ^ 2 * normalised h + hcircle

/-- `Location(t, axis, angle)`; `none` is the `ValueError` for an axis of length zero. -/
def Location.packed (t axis : Vec ℝ) (angle : ℝ) : Option (Location ℝ) :=
  if h : axisNorm axis = 0 then none
  else some ⟨axisAngleToQuat axis angle, t, normSq_axisAngleToQuat h angle⟩

/-! ## Half a turn -/

def dot (v w : Vec ℝ) : ℝ := v.1 * w.1 + v.2.1 * w.2.1 + v.2.2 * w.2.2

/-- Half a turn about a direction: the direction stays, and what is square to it is reversed. -/
structure IsHalfTurn (axis : Vec ℝ) (a : Location ℝ) : Prop where
  origin : a.transformPoint 0 = 0
  along : a.rotateVector axis = axis
  across : ∀ v, dot v axis = 0 → a.rotateVector v = -v

/-- A unit quaternion without a real part reflects vectors in its direction. -/
theorem rotateVec_pure {nx ny nz : ℝ} (h : nx ^ 2 + ny ^ 2 + nz ^ 2 = 1) (v : Vec ℝ) :
    rotateVec (quat 0 nx ny nz) v = (2 * dot v (nx, ny, nz)) • (nx, ny, nz) - v := by
  obtain ⟨vx, vy, vz⟩ := v
  refine Prod.ext ?_ (Prod.ext ?_ ?_)
  · simp only [rotateVec, quat, dot, Prod.smul_mk, smul_eq_mul, Prod.mk_sub_mk]
    linear_combination (-2 * vx) * h
  · simp only [rotateVec, quat, dot, Prod.smul_mk, smul_eq_mul, Prod.mk_sub_mk]
    linear_combination (-2 * vy) * h
  · simp only [rotateVec, quat, dot, Prod.smul_mk, smul_eq_mul, Prod.mk_sub_mk]
    linear_combination (-2 * vz) * h

theorem axisAngleToQuat_halfTurn (axis : Vec ℝ) :
    axisAngleToQuat axis 180 =
      quat 0 (axis.1 / axisNorm axis) (axis.2.1 / axisNorm axis) (axis.2.2 / axisNorm axis) := by
  have hhalf : (180 : ℝ) * (Real.pi / 180) / 2 = Real.pi / 2 := by ring
  rw [axisAngleToQuat, hhalf, Real.cos_pi_div_two, Real.sin_pi_div_two, mul_one, mul_one, mul_one]

/-- **Half a turn about an axis**, and about any other vector along it. -/
theorem packed_halfTurn {axis : Vec ℝ} (h : axisNorm axis ≠ 0) {c : ℝ} (hc : c ≠ 0)
    {direction : Vec ℝ} (hdirection : axis = c • direction) :
    ∃ a, Location.packed 0 axis 180 = some a ∧ IsHalfTurn direction a := by
  set n : Vec ℝ := (axis.1 / axisNorm axis, axis.2.1 / axisNorm axis, axis.2.2 / axisNorm axis) with hn
  set a : Location ℝ := ⟨axisAngleToQuat axis 180, 0, normSq_axisAngleToQuat h 180⟩ with ha
  have hrotate : ∀ v, a.rotateVector v = (2 * dot v n) • n - v := by
    intro v
    show rotateVec (axisAngleToQuat axis 180) v = _
    rw [axisAngleToQuat_halfTurn]
    exact rotateVec_pure (normalised h) v
  -- the direction is a multiple of the normalised axis
  have hmultiple : direction = (axisNorm axis / c) • n := by
    have hscale : ∀ x y : ℝ, x = c * y → y = axisNorm axis / c * (x / axisNorm axis) := by
      intro x y hxy
      rw [hxy]
      field_simp
    refine Prod.ext ?_ (Prod.ext ?_ ?_)
    · exact hscale axis.1 direction.1 (congrArg Prod.fst hdirection)
    · exact hscale axis.2.1 direction.2.1 (congrArg (fun v => v.2.1) hdirection)
    · exact hscale axis.2.2 direction.2.2 (congrArg (fun v => v.2.2) hdirection)
  have hunit : dot n n = 1 := by
    have h := normalised h
    simp only [dot, hn]
    linear_combination h
  have hdot : ∀ v, dot v direction = axisNorm axis / c * dot v n := by
    intro v
    rw [hmultiple]
    simp only [dot, Prod.smul_fst, Prod.smul_snd, smul_eq_mul]
    ring
  refine ⟨a, by rw [Location.packed, dif_neg h], ?_, ?_, ?_⟩
  · show a.rotateVector 0 + 0 = 0
    rw [hrotate]
    simp [dot]
  · have hself : dot direction n = axisNorm axis / c := by
      have hcomm : dot direction n = dot n direction := by
        unfold dot
        ring
      rw [hcomm, hdot, hunit, mul_one]
    rw [hrotate, hself, mul_smul, ← hmultiple, two_smul, add_sub_cancel_right]
  · intro v hv
    have hzero : dot v n = 0 := by
      rw [hdot] at hv
      exact (mul_eq_zero.1 hv).resolve_left (div_ne_zero h hc)
    rw [hrotate, hzero, mul_zero, zero_smul, zero_sub]

end

end PartCAD.Geometry
