import Mathlib.Analysis.SpecialFunctions.Complex.Arg
import Mathlib.Analysis.SpecialFunctions.Trigonometric.Inverse
import Mathlib.LinearAlgebra.Matrix.Notation
import Mathlib.LinearAlgebra.UnitaryGroup
import Mathlib.LinearAlgebra.Matrix.Adjugate
import PartCAD.Lib.Rotation

/-!
# Roll, pitch and yaw

A rotation of space is a turn about the first axis, one about the second and one about the third.

* `atan2` : the angle of a point of the plane;
* `fixedAxes` : the three turns one after the other;
* `fixedAxes_entries` : the three angles, read from the entries of the matrix;
* `fixedAxes_up`, `fixedAxes_down` : the angles where the first axis is turned into the third;
* `quatMatrix_mem` : the matrix of a unit quaternion is a rotation.
-/

namespace PartCAD.Lib

open Matrix
open scoped Quaternion

noncomputable section

/-- `math.atan2` -/
def atan2 (y x : ℝ) : ℝ := Complex.arg ⟨x, y⟩

/-- The matrices of space. -/
abbrev Mat : Type := Matrix (Fin 3) (Fin 3) ℝ

/-! ## The three turns -/

def rotX (a : ℝ) : Mat := !![1, 0, 0; 0, Real.cos a, -Real.sin a; 0, Real.sin a, Real.cos a]

def rotY (a : ℝ) : Mat := !![Real.cos a, 0, Real.sin a; 0, 1, 0; -Real.sin a, 0, Real.cos a]

def rotZ (a : ℝ) : Mat := !![Real.cos a, -Real.sin a, 0; Real.sin a, Real.cos a, 0; 0, 0, 1]

/-- Roll about the first axis, then pitch about the second, then yaw about the third. -/
def fixedAxes (roll pitch yaw : ℝ) : Mat := rotZ yaw * rotY pitch * rotX roll

theorem fixedAxes_eq (r p y : ℝ) :
    fixedAxes r p y =
      !![Real.cos y * Real.cos p, Real.cos y * Real.sin p * Real.sin r - Real.sin y * Real.cos r,
          Real.cos y * Real.sin p * Real.cos r + Real.sin y * Real.sin r;
        Real.sin y * Real.cos p, Real.sin y * Real.sin p * Real.sin r + Real.cos y * Real.cos r,
          Real.sin y * Real.sin p * Real.cos r - Real.cos y * Real.sin r;
        -Real.sin p, Real.cos p * Real.sin r, Real.cos p * Real.cos r] := by
  ext i j
  fin_cases i <;> fin_cases j <;>
    simp [fixedAxes, rotX, rotY, rotZ, Matrix.mul_apply, Fin.sum_univ_three] <;> ring

/-! ## The angle of a point -/

section

variable {x y r : ℝ} (hr : 0 < r) (h : x ^ 2 + y ^ 2 = r ^ 2)

include hr h

theorem norm_of_sq : ‖(⟨x, y⟩ : ℂ)‖ = r := by
  have hsq : Complex.normSq ⟨x, y⟩ = r ^ 2 := by
    rw [Complex.normSq_mk, ← h]
    ring
  rw [Complex.norm_def, hsq, Real.sqrt_sq hr.le]

theorem cos_atan2 : Real.cos (atan2 y x) = x / r := by
  have hmul := Complex.norm_mul_cos_arg ⟨x, y⟩
  rw [norm_of_sq hr h] at hmul
  rw [eq_div_iff hr.ne', mul_comm]
  exact hmul

theorem sin_atan2 : Real.sin (atan2 y x) = y / r := by
  have hmul := Complex.norm_mul_sin_arg ⟨x, y⟩
  rw [norm_of_sq hr h] at hmul
  rw [eq_div_iff hr.ne', mul_comm]
  exact hmul

end

/-! ## The entries of a rotation -/

section

variable {m : Mat} (hm : m ∈ specialOrthogonalGroup (Fin 3) ℝ)

include hm

theorem mul_transpose_of_mem : m * mᵀ = 1 := by
  have h := (mem_specialOrthogonalGroup_iff.1 hm).1
  exact (mem_orthogonalGroup_iff _ _).1 h

theorem transpose_mul_of_mem : mᵀ * m = 1 := by
  have h := (mem_specialOrthogonalGroup_iff.1 hm).1
  exact (mem_orthogonalGroup_iff' _ _).1 h

theorem rows (i j : Fin 3) :
    m i 0 * m j 0 + m i 1 * m j 1 + m i 2 * m j 2 = if i = j then 1 else 0 := by
  have h := congrFun (congrFun (mul_transpose_of_mem hm) i) j
  rwa [Matrix.mul_apply, Fin.sum_univ_three, Matrix.one_apply] at h

theorem columns (i j : Fin 3) :
    m 0 i * m 0 j + m 1 i * m 1 j + m 2 i * m 2 j = if i = j then 1 else 0 := by
  have h := congrFun (congrFun (transpose_mul_of_mem hm) i) j
  rwa [Matrix.mul_apply, Fin.sum_univ_three, Matrix.one_apply] at h

/-- The cofactors of a rotation are its entries. -/
theorem adjugate_of_mem : m.adjugate = mᵀ := by
  have hdet : m.det = 1 := (mem_specialOrthogonalGroup_iff.1 hm).2
  calc m.adjugate = mᵀ * m * m.adjugate := by rw [transpose_mul_of_mem hm, one_mul]
    _ = mᵀ := by rw [mul_assoc, mul_adjugate, hdet, one_smul, mul_one]

theorem cofactor (i j : Fin 3) : m.adjugate j i = m i j := by
  rw [adjugate_of_mem hm, transpose_apply]

theorem cofactor_xx : m 0 0 = m 1 1 * m 2 2 - m 1 2 * m 2 1 := by
  rw [← cofactor hm 0 0, adjugate_fin_three]
  rfl

theorem cofactor_yx : m 1 0 = -(m 0 1 * m 2 2) + m 0 2 * m 2 1 := by
  rw [← cofactor hm 1 0, adjugate_fin_three]
  rfl

theorem cofactor_yy : m 1 1 = m 0 0 * m 2 2 - m 0 2 * m 2 0 := by
  rw [← cofactor hm 1 1, adjugate_fin_three]
  rfl

theorem cofactor_yz : m 1 2 = -(m 0 0 * m 2 1) + m 0 1 * m 2 0 := by
  rw [← cofactor hm 1 2, adjugate_fin_three]
  rfl

/-- **Roll, pitch and yaw** are read from the first column and the last row. -/
theorem fixedAxes_entries (hpole : m 2 0 ^ 2 < 1) :
    fixedAxes (atan2 (m 2 1) (m 2 2)) (Real.arcsin (-m 2 0)) (atan2 (m 1 0) (m 0 0)) = m := by
  obtain ⟨hlow, hhigh⟩ := abs_lt.1 ((sq_lt_one_iff_abs_lt_one _).1 hpole)
  set c := √(1 - m 2 0 ^ 2) with hc
  have hpos : 0 < c := Real.sqrt_pos.2 (by linarith)
  have hsq : c ^ 2 = 1 - m 2 0 ^ 2 := Real.sq_sqrt (by linarith)
  have hrow := rows hm 2 2
  have hcolumn := columns hm 0 0
  have hxz := rows hm 0 2
  have hyz := rows hm 1 2
  simp only [if_true, Fin.reduceEq, if_false] at hrow hcolumn hxz hyz
  have hlast : m 2 2 ^ 2 + m 2 1 ^ 2 = c ^ 2 := by linear_combination hrow - hsq
  have hfirst : m 0 0 ^ 2 + m 1 0 ^ 2 = c ^ 2 := by linear_combination hcolumn - hsq
  have hsin : Real.sin (Real.arcsin (-m 2 0)) = -m 2 0 :=
    Real.sin_arcsin (by linarith) (by linarith)
  have hcos : Real.cos (Real.arcsin (-m 2 0)) = c := by rw [Real.cos_arcsin, neg_sq]
  have hne : c ≠ 0 := hpos.ne'
  have hxx := cofactor_xx hm
  have hyx := cofactor_yx hm
  -- the first column and the last row are read, and the rest follows from the cofactors
  have entry00 : m 0 0 / c * c = m 0 0 := div_mul_cancel₀ _ hne
  have entry10 : m 1 0 / c * c = m 1 0 := div_mul_cancel₀ _ hne
  have entry21 : c * (m 2 1 / c) = m 2 1 := mul_div_cancel₀ _ hne
  have entry22 : c * (m 2 2 / c) = m 2 2 := mul_div_cancel₀ _ hne
  have entry01 : m 0 0 / c * -m 2 0 * (m 2 1 / c) - m 1 0 / c * (m 2 2 / c) = m 0 1 := by
    field_simp
    linear_combination (-m 2 1) * hxz - m 2 2 * hyx + m 0 1 * hlast
  have entry02 : m 0 0 / c * -m 2 0 * (m 2 2 / c) + m 1 0 / c * (m 2 1 / c) = m 0 2 := by
    field_simp
    linear_combination (-m 2 2) * hxz + m 2 1 * hyx + m 0 2 * hlast
  have entry11 : m 1 0 / c * -m 2 0 * (m 2 1 / c) + m 0 0 / c * (m 2 2 / c) = m 1 1 := by
    field_simp
    linear_combination (-m 2 1) * hyz + m 2 2 * hxx + m 1 1 * hlast
  have entry12 : m 1 0 / c * -m 2 0 * (m 2 2 / c) - m 0 0 / c * (m 2 1 / c) = m 1 2 := by
    field_simp
    linear_combination (-m 2 2) * hyz - m 2 1 * hxx + m 1 2 * hlast
  rw [fixedAxes_eq, cos_atan2 hpos hlast, sin_atan2 hpos hlast, cos_atan2 hpos hfirst,
    sin_atan2 hpos hfirst, hsin, hcos, entry00, entry01, entry02, entry10, entry11, entry12, entry21,
    entry22, neg_neg, ← eta_fin_three m]

/-- The last entries of the other columns are zero where the first axis is turned into the third. -/
theorem pole_zero (hpole : m 2 0 ^ 2 = 1) : m 0 0 = 0 ∧ m 1 0 = 0 ∧ m 2 1 = 0 ∧ m 2 2 = 0 := by
  have hrow := rows hm 2 2
  have hcolumn := columns hm 0 0
  simp only [if_true] at hrow hcolumn
  refine ⟨?_, ?_, ?_, ?_⟩
  · nlinarith [sq_nonneg (m 0 0), sq_nonneg (m 1 0)]
  · nlinarith [sq_nonneg (m 0 0), sq_nonneg (m 1 0)]
  · nlinarith [sq_nonneg (m 2 1), sq_nonneg (m 2 2)]
  · nlinarith [sq_nonneg (m 2 1), sq_nonneg (m 2 2)]

theorem pole_circle (hpole : m 2 0 ^ 2 = 1) : m 0 2 ^ 2 + m 0 1 ^ 2 = 1 ^ 2 := by
  have hrow := rows hm 0 0
  rw [if_pos rfl, (pole_zero hm hpole).1] at hrow
  linear_combination hrow

/-- **The first axis is turned down**: the yaw is read from the first row. -/
theorem fixedAxes_down (hpole : m 2 0 = -1) :
    fixedAxes 0 (Real.arcsin 1) (-atan2 (m 0 1) (m 0 2)) = m := by
  have hsquare : m 2 0 ^ 2 = 1 := by rw [hpole, neg_sq, one_pow]
  obtain ⟨hxx, hyx, hzy, hzz⟩ := pole_zero hm hsquare
  have hcircle := pole_circle hm hsquare
  have hyy := cofactor_yy hm
  have hyz := cofactor_yz hm
  rw [hxx, hpole] at hyy hyz
  rw [fixedAxes_eq, Real.arcsin_one, Real.cos_neg, Real.sin_neg, cos_atan2 one_pos hcircle,
    sin_atan2 one_pos hcircle, eta_fin_three m, hxx, hyx, hzy, hzz, hpole, hyy, hyz]
  simp

/-- **The first axis is turned up.** -/
theorem fixedAxes_up (hpole : m 2 0 = 1) :
    fixedAxes 0 (Real.arcsin (-1)) (atan2 (-m 0 1) (-m 0 2)) = m := by
  have hsquare : m 2 0 ^ 2 = 1 := by rw [hpole, one_pow]
  obtain ⟨hxx, hyx, hzy, hzz⟩ := pole_zero hm hsquare
  have hcircle : (-m 0 2) ^ 2 + (-m 0 1) ^ 2 = 1 ^ 2 := by
    rw [neg_sq, neg_sq]
    exact pole_circle hm hsquare
  have hyy := cofactor_yy hm
  have hyz := cofactor_yz hm
  rw [hxx, hpole] at hyy hyz
  rw [fixedAxes_eq, Real.arcsin_neg_one, Real.cos_neg, Real.sin_neg, cos_atan2 one_pos hcircle,
    sin_atan2 one_pos hcircle, eta_fin_three m, hxx, hyx, hzy, hzz, hpole, hyy, hyz]
  simp

end

/-! ## The matrix of a quaternion -/

/-- A matrix times a vector. -/
def matVec (m : Mat) (v : Vec ℝ) : Vec ℝ :=
  (m 0 0 * v.1 + m 0 1 * v.2.1 + m 0 2 * v.2.2, m 1 0 * v.1 + m 1 1 * v.2.1 + m 1 2 * v.2.2,
    m 2 0 * v.1 + m 2 1 * v.2.1 + m 2 2 * v.2.2)

def quatMatrix (q : ℍ[ℝ]) : Mat :=
  !![q.re ^ 2 + q.imI ^ 2 - q.imJ ^ 2 - q.imK ^ 2, 2 * (q.imI * q.imJ - q.re * q.imK),
      2 * (q.imI * q.imK + q.re * q.imJ);
    2 * (q.imI * q.imJ + q.re * q.imK), q.re ^ 2 - q.imI ^ 2 + q.imJ ^ 2 - q.imK ^ 2,
      2 * (q.imJ * q.imK - q.re * q.imI);
    2 * (q.imI * q.imK - q.re * q.imJ), 2 * (q.imJ * q.imK + q.re * q.imI),
      q.re ^ 2 - q.imI ^ 2 - q.imJ ^ 2 + q.imK ^ 2]

theorem matVec_quatMatrix (q : ℍ[ℝ]) (v : Vec ℝ) : matVec (quatMatrix q) v = rotate q v :=
  (rotate_eq q v.1 v.2.1 v.2.2).symm

theorem quatMatrix_mul_transpose (q : ℍ[ℝ]) :
    quatMatrix q * (quatMatrix q)ᵀ = (Quaternion.normSq q ^ 2) • (1 : Mat) := by
  rw [Quaternion.normSq_def']
  ext i j
  fin_cases i <;> fin_cases j <;>
    simp [quatMatrix, Matrix.mul_apply, Fin.sum_univ_three] <;> ring

theorem det_quatMatrix (q : ℍ[ℝ]) : (quatMatrix q).det = Quaternion.normSq q ^ 3 := by
  rw [Quaternion.normSq_def', det_fin_three]
  simp [quatMatrix]
  ring

/-- **The matrix of a unit quaternion** is a rotation. -/
theorem quatMatrix_mem {q : ℍ[ℝ]} (h : Quaternion.normSq q = 1) :
    quatMatrix q ∈ specialOrthogonalGroup (Fin 3) ℝ := by
  refine mem_specialOrthogonalGroup_iff.2 ⟨(mem_orthogonalGroup_iff _ _).2 ?_, ?_⟩
  · rw [quatMatrix_mul_transpose, h, one_pow, one_smul]
  · rw [det_quatMatrix, h, one_pow]

end

end PartCAD.Lib
