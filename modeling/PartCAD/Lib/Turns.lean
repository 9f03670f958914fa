import PartCAD.Lib.Euler

/-!
# Turns about the axes

* `turnX`, `turnY`, `turnZ` : the quaternions of the turns about the three axes;
* `rotate_turns` : roll, pitch and yaw as a product of quaternions.
-/

namespace PartCAD.Lib

open Matrix
open scoped Quaternion

noncomputable section

def turnX (a : ℝ) : ℍ[ℝ] := quat (Real.cos (a / 2)) (Real.sin (a / 2)) 0 0

def turnY (a : ℝ) : ℍ[ℝ] := quat (Real.cos (a / 2)) 0 (Real.sin (a / 2)) 0

def turnZ (a : ℝ) : ℍ[ℝ] := quat (Real.cos (a / 2)) 0 0 (Real.sin (a / 2))

/-! ## The angle and its half -/

theorem half_circle (a : ℝ) : Real.cos (a / 2) ^ 2 + Real.sin (a / 2) ^ 2 = 1 :=
  Real.cos_sq_add_sin_sq (a / 2)

theorem cos_half (a : ℝ) : Real.cos (a / 2) ^ 2 - Real.sin (a / 2) ^ 2 = Real.cos a := by
  rw [← Real.cos_two_mul', mul_div_cancel₀ a two_ne_zero]

theorem sin_half (a : ℝ) : 2 * Real.sin (a / 2) * Real.cos (a / 2) = Real.sin a := by
  rw [← Real.sin_two_mul, mul_div_cancel₀ a two_ne_zero]

section

variable (a : ℝ)

theorem normSq_turnX : Quaternion.normSq (turnX a) = 1 := by
  rw [turnX, normSq_quat]
  linear_combination half_circle a

theorem normSq_turnY : Quaternion.normSq (turnY a) = 1 := by
  rw [turnY, normSq_quat]
  linear_combination half_circle a

theorem normSq_turnZ : Quaternion.normSq (turnZ a) = 1 := by
  rw [turnZ, normSq_quat]
  linear_combination half_circle a

/-! ## What the turns do -/

theorem quatMatrix_turnX : quatMatrix (turnX a) = rotX a := by
  have hone := half_circle a
  have hcos := cos_half a
  have hsin := sin_half a
  ext i j
  fin_cases i <;> fin_cases j <;> simp [quatMatrix, turnX, quat, rotX] <;> linarith

theorem quatMatrix_turnY : quatMatrix (turnY a) = rotY a := by
  have hone := half_circle a
  have hcos := cos_half a
  have hsin := sin_half a
  ext i j
  fin_cases i <;> fin_cases j <;> simp [quatMatrix, turnY, quat, rotY] <;> linarith

theorem quatMatrix_turnZ : quatMatrix (turnZ a) = rotZ a := by
  have hone := half_circle a
  have hcos := cos_half a
  have hsin := sin_half a
  ext i j
  fin_cases i <;> fin_cases j <;> simp [quatMatrix, turnZ, quat, rotZ] <;> linarith

end

/-- **Roll, pitch and yaw**, one after the other. -/
theorem rotate_turns (r p y : ℝ) (v : Vec ℝ) :
    rotate (turnZ y * turnY p * turnX r) v =
      matVec (rotZ y) (matVec (rotY p) (matVec (rotX r) v)) := by
  rw [rotate_mul, rotate_mul, ← matVec_quatMatrix (turnX r), ← matVec_quatMatrix (turnY p),
    ← matVec_quatMatrix (turnZ y), quatMatrix_turnX, quatMatrix_turnY, quatMatrix_turnZ]

theorem matVec_mul (m n : Mat) (v : Vec ℝ) : matVec (m * n) v = matVec m (matVec n v) := by
  simp only [matVec, Matrix.mul_apply, Fin.sum_univ_three, Prod.mk.injEq]
  refine ⟨?_, ?_, ?_⟩
  · ring
  · ring
  · ring

theorem matVec_fixedAxes (r p y : ℝ) (v : Vec ℝ) :
    matVec (fixedAxes r p y) v = matVec (rotZ y) (matVec (rotY p) (matVec (rotX r) v)) := by
  rw [fixedAxes, matVec_mul, matVec_mul]

end

end PartCAD.Lib
