import PartCAD.Geometry.Location

/-!
# What a location leaves as it is

A rotation leaves products of vectors as they are, and so a location leaves distances.

* `dotOf_rotate` : products of rotated vectors, by a unit quaternion;
* `distSq_transformPoint` : distances of points that are moved;
* `location_laws` : **the laws of locations**, all of them.
-/

namespace PartCAD.Geometry

open PartCAD.Lib
open scoped Quaternion

section

variable {R : Type} [CommRing R]

/-- The dot product of two vectors. -/
def dotOf (v w : Vec R) : R := v.1 * w.1 + v.2.1 * w.2.1 + v.2.2 * w.2.2

/-- The square of the distance of two points. -/
def distSq (p q : Vec R) : R := dotOf (p - q) (p - q)

/-- The dot product is the real part of a product of quaternions. -/
theorem dotOf_eq_re (v w : Vec R) : dotOf v w = (pureQuat v * star (pureQuat w)).re := by
  simp only [dotOf, Quaternion.re_mul, Quaternion.re_star, Quaternion.imI_star, Quaternion.imJ_star,
    Quaternion.imK_star, re_pureQuat, imI_pureQuat, imJ_pureQuat, imK_pureQuat]
  ring

theorem re_mul_comm (p q : ℍ[R]) : (p * q).re = (q * p).re := by
  rw [Quaternion.re_mul, Quaternion.re_mul]
  ring

/-- The middle of three rotations does not show in the real part. -/
theorem re_conj {q : ℍ[R]} (hq : Quaternion.normSq q = 1) (x : ℍ[R]) : (q * x * star q).re = x.re := by
  rw [re_mul_comm, ← mul_assoc, Quaternion.star_mul_self, hq, Quaternion.coe_one, one_mul]

/-- **A rotation leaves dot products as they are.** -/
theorem dotOf_rotate {q : ℍ[R]} (hq : Quaternion.normSq q = 1) (v w : Vec R) :
    dotOf (rotate q v) (rotate q w) = dotOf v w := by
  have hcancel : star q * q = 1 := by
    rw [Quaternion.star_mul_self, hq, Quaternion.coe_one]
  have hproduct : pureQuat (rotate q v) * star (pureQuat (rotate q w)) =
      q * (pureQuat v * star (pureQuat w)) * star q := by
    rw [pureQuat_rotate, pureQuat_rotate, star_mul, star_mul, star_star]
    calc q * pureQuat v * star q * (q * (star (pureQuat w) * star q))
        = q * pureQuat v * (star q * q) * (star (pureQuat w) * star q) := by simp only [mul_assoc]
      _ = q * (pureQuat v * star (pureQuat w)) * star q := by
        rw [hcancel, mul_one]
        simp only [mul_assoc]
  rw [dotOf_eq_re, hproduct, re_conj hq, ← dotOf_eq_re]

namespace Location

theorem dotOf_rotateVector (a : Location R) (v w : Vec R) :
    dotOf (a.rotateVector v) (a.rotateVector w) = dotOf v w := by
  unfold rotateVector
  rw [rotateVec_q, rotateVec_q, dotOf_rotate a.unit]

/-- The way from one point to another is turned. -/
theorem transformPoint_sub (a : Location R) (p q : Vec R) :
    a.transformPoint p - a.transformPoint q = a.rotateVector (p - q) := by
  have hrotate : rotate a.q (p - q) = rotate a.q p - rotate a.q q := by
    rw [sub_eq_add_neg, rotate_add, rotate_neg, ← sub_eq_add_neg]
  unfold transformPoint rotateVector
  rw [rotateVec_q, rotateVec_q, rotateVec_q, hrotate, add_sub_add_right_eq_sub]

/-- **A location leaves distances as they are.** -/
theorem distSq_transformPoint (a : Location R) (p q : Vec R) :
    distSq (a.transformPoint p) (a.transformPoint q) = distSq p q := by
  rw [distSq, transformPoint_sub, dotOf_rotateVector]
  rfl

end Location

end

/-- The distance of two points. -/
noncomputable def distance (p q : Vec ℝ) : ℝ := √(distSq p q)

/-- **The laws of locations**: products and inverses are of unit quaternions, apply one after the other, and make
a group; a location leaves dot products and distances as they are. -/
theorem location_laws {R : Type} [CommRing R] (a b c : Location R) :
    (Quaternion.normSq (quatMul a.q b.q) = 1 ∧ Quaternion.normSq (quatConj a.q) = 1) ∧
      ((a * b).q = quatMul a.q b.q ∧ a⁻¹.q = quatConj a.q) ∧
      (∀ p, (a * b).transformPoint p = a.transformPoint (b.transformPoint p)) ∧
      (∀ v, (a * b).rotateVector v = a.rotateVector (b.rotateVector v)) ∧
      a * b * c = a * (b * c) ∧ a * a⁻¹ = 1 ∧ a⁻¹ * a = 1 ∧
      (∀ p q, distSq (a.transformPoint p) (a.transformPoint q) = distSq p q) ∧
      (∀ v w, dotOf (a.rotateVector v) (a.rotateVector w) = dotOf v w) ∧
      ∀ (d : Location ℝ) (p q : Vec ℝ), distance (d.transformPoint p) (d.transformPoint q) = distance p q := by
  refine ⟨⟨(a * b).unit, a⁻¹.unit⟩, ⟨rfl, rfl⟩, a.transformPoint_mul b, a.rotateVector_mul b, mul_assoc a b c,
    mul_inv_cancel a, inv_mul_cancel a, a.distSq_transformPoint, a.dotOf_rotateVector, fun d p q => ?_⟩
  rw [distance, d.distSq_transformPoint]
  rfl

end PartCAD.Geometry
