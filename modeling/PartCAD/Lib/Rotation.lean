import Mathlib.Algebra.Quaternion
import Mathlib.Tactic.LinearCombination
import PartCAD.Lib.Numerals

/-!
# Rotations by quaternions

A unit quaternion `q` turns a vector `v` into the vector part of `q * v * star q`.

* `pureQuat_rotate` : the product has no real part, so the vector part is all of it;
* `rotate_mul`, `rotate_add` : products turn one after the other, and turning is additive.
-/

namespace PartCAD.Lib

open scoped Quaternion

/-- Vectors by their coordinates. -/
abbrev Vec (R : Type) := R × R × R

section

variable {R : Type} [CommRing R]

/-- A quaternion by its four numbers. -/
def quat (w x y z : R) : ℍ[R] := ⟨w, x, y, z⟩

theorem quat_one : quat (1 : R) 0 0 0 = 1 := rfl

theorem normSq_quat (w x y z : R) :
    Quaternion.normSq (quat w x y z) = w ^ 2 + x ^ 2 + y ^ 2 + z ^ 2 :=
  Quaternion.normSq_def' _

/-- A vector as a quaternion without a real part. -/
def pureQuat (v : Vec R) : ℍ[R] := quat 0 v.1 v.2.1 v.2.2

@[simp]
theorem re_pureQuat (v : Vec R) : (pureQuat v).re = 0 := rfl

@[simp]
theorem imI_pureQuat (v : Vec R) : (pureQuat v).imI = v.1 := rfl

@[simp]
theorem imJ_pureQuat (v : Vec R) : (pureQuat v).imJ = v.2.1 := rfl

@[simp]
theorem imK_pureQuat (v : Vec R) : (pureQuat v).imK = v.2.2 := rfl

/-- The vector part. -/
def vecPart (q : ℍ[R]) : Vec R := (q.imI, q.imJ, q.imK)

def rotate (q : ℍ[R]) (v : Vec R) : Vec R := vecPart (q * pureQuat v * star q)

@[simp]
theorem vecPart_pureQuat (v : Vec R) : vecPart (pureQuat v) = v := rfl

theorem pureQuat_vecPart {q : ℍ[R]} (h : q.re = 0) : pureQuat (vecPart q) = q := by
  ext
  · exact h.symm
  · rfl
  · rfl
  · rfl

theorem pureQuat_add (v w : Vec R) : pureQuat (v + w) = pureQuat v + pureQuat w := by
  ext
  · show (0 : R) = 0 + 0
    rw [add_zero]
  · rfl
  · rfl
  · rfl

theorem vecPart_add (p q : ℍ[R]) : vecPart (p + q) = vecPart p + vecPart q := rfl

theorem pureQuat_rotate (q : ℍ[R]) (v : Vec R) :
    pureQuat (rotate q v) = q * pureQuat v * star q := by
  refine pureQuat_vecPart ?_
  simp only [Quaternion.re_mul, Quaternion.imI_mul, Quaternion.imJ_mul, Quaternion.imK_mul,
    Quaternion.re_star, Quaternion.imI_star, Quaternion.imJ_star, Quaternion.imK_star, re_pureQuat,
    imI_pureQuat, imJ_pureQuat, imK_pureQuat]
  ring

/-- The coordinates of a rotated vector. -/
theorem rotate_eq (q : ℍ[R]) (vx vy vz : R) :
    rotate q (vx, vy, vz) =
      ((q.re ^ 2 + q.imI ^ 2 - q.imJ ^ 2 - q.imK ^ 2) * vx + 2 * (q.imI * q.imJ - q.re * q.imK) * vy
          + 2 * (q.imI * q.imK + q.re * q.imJ) * vz,
        2 * (q.imI * q.imJ + q.re * q.imK) * vx + (q.re ^ 2 - q.imI ^ 2 + q.imJ ^ 2 - q.imK ^ 2) * vy
          + 2 * (q.imJ * q.imK - q.re * q.imI) * vz,
        2 * (q.imI * q.imK - q.re * q.imJ) * vx + 2 * (q.imJ * q.imK + q.re * q.imI) * vy
          + (q.re ^ 2 - q.imI ^ 2 - q.imJ ^ 2 + q.imK ^ 2) * vz) := by
  simp only [rotate, vecPart, Quaternion.re_mul, Quaternion.imI_mul, Quaternion.imJ_mul,
    Quaternion.imK_mul, Quaternion.re_star, Quaternion.imI_star, Quaternion.imJ_star,
    Quaternion.imK_star, re_pureQuat, imI_pureQuat, imJ_pureQuat, imK_pureQuat, Prod.mk.injEq]
  refine ⟨?_, ?_, ?_⟩
  · ring
  · ring
  · ring

/-- A product turns by its second factor first. -/
theorem rotate_mul (p q : ℍ[R]) (v : Vec R) : rotate (p * q) v = rotate p (rotate q v) := by
  have hproduct : p * q * pureQuat v * star (p * q) = p * pureQuat (rotate q v) * star p := by
    rw [pureQuat_rotate, star_mul]
    simp only [mul_assoc]
  show vecPart (p * q * pureQuat v * star (p * q)) = vecPart (p * pureQuat (rotate q v) * star p)
  rw [hproduct]

theorem rotate_add (q : ℍ[R]) (v w : Vec R) : rotate q (v + w) = rotate q v + rotate q w := by
  unfold rotate
  rw [pureQuat_add, mul_add, add_mul, vecPart_add]

@[simp]
theorem rotate_zero (q : ℍ[R]) : rotate q 0 = 0 := by
  have h := rotate_add q 0 0
  rw [add_zero] at h
  exact left_eq_add.1 h

theorem rotate_neg (q : ℍ[R]) (v : Vec R) : rotate q (-v) = -rotate q v := by
  have h := rotate_add q (-v) v
  rw [neg_add_cancel, rotate_zero] at h
  exact eq_neg_of_add_eq_zero_left h.symm

@[simp]
theorem rotate_one (v : Vec R) : rotate 1 v = v := by
  unfold rotate
  rw [one_mul, star_one, mul_one, vecPart_pureQuat]

end

end PartCAD.Lib
