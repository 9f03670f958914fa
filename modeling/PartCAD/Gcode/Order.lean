import Mathlib.Data.Rat.Floor
import PartCAD.Gcode.Program

/-!
# The order of the contours

* `cnc_congr`, `laser_congr` : a program is made of the points of its contours, in their order;
* `sortedPaths_perm_iff` : **when the order in which contours arrive does not matter**.
-/

namespace PartCAD.Gcode

open PartCAD.Lib

variable {K : Type} [Field K] [LinearOrder K] [FloorRing K]

/-! ## Programs are made of points -/

theorem Path.eq_of_points {a b : Path K} (h : a.points = b.points) : a.start = b.start ∧ a.rest = b.rest :=
  List.cons_eq_cons.1 h

/-- What is done with one contour after the other, when it is a matter of its points only. -/
theorem foldl_congr_points {S : Type} {f : S → Path K → S}
    (hf : ∀ s (a b : Path K), a.points = b.points → f s a = f s b) {l l' : List (Path K)}
    (h : l.map Path.points = l'.map Path.points) (s : S) : l.foldl f s = l'.foldl f s := by
  induction l generalizing l' s with
  | nil =>
    obtain rfl := List.map_eq_nil_iff.1 h.symm
    rfl
  | cons a l ih =>
    obtain ⟨b, rest, rfl, hb, hrest⟩ := List.map_eq_cons_iff.1 h.symm
    rw [List.foldl_cons, List.foldl_cons, hf s a b hb.symm]
    exact ih hrest.symm _

theorem cnc_congr (job : Job K) {paths paths' : List (Path K)}
    (h : (sortedPaths paths').map Path.points = (sortedPaths paths).map Path.points) :
    cnc job paths' = cnc job paths := by
  have hcontour : ∀ (p : Program K) (a b : Path K), a.points = b.points →
      cutContour job p a = cutContour job p b := by
    intro p a b hab
    obtain ⟨hstart, hrest⟩ := Path.eq_of_points hab
    rw [cutContour, cutContour, hstart, hrest]
  simp only [cnc, foldl_congr_points hcontour h]

theorem laser_congr (inches : Bool) (comments : ℕ) (feed : K) {paths paths' : List (Path K)}
    (h : (sortedPaths paths').map Path.points = (sortedPaths paths).map Path.points) :
    laser inches comments feed paths' = laser inches comments feed paths := by
  have hcontour : ∀ (p : Program K) (a b : Path K), a.points = b.points →
      burnContour feed p a = burnContour feed p b := by
    intro p a b hab
    obtain ⟨hstart, hrest⟩ := Path.eq_of_points hab
    rw [burnContour, burnContour, hstart, hrest]
  simp only [laser, foldl_congr_points hcontour h]

/-! ## The order in which contours arrive -/

/-- In whatever order the contours arrive, the cuts are the same ones in the same order, and so are the
programs. -/
def Stable (paths : List (Path K)) : Prop :=
  ∀ paths', paths'.Perm paths →
    (sortedPaths paths').map Path.points = (sortedPaths paths).map Path.points ∧
    (∀ job, cnc job paths' = cnc job paths) ∧
    ∀ inches comments feed, laser inches comments feed paths' = laser inches comments feed paths

/-- **The order does not matter** exactly when contours that are sorted alike go through the same points. -/
theorem stable_iff {paths : List (Path K)} :
    Stable paths ↔ ∀ a ∈ paths, ∀ b ∈ paths, a.sortKey = b.sortKey → a.points = b.points := by
  have hsort := @map_sortBy_perm_iff _ _ _ _ Path.sortKey Path.points paths
  constructor
  · intro h
    exact hsort.1 fun paths' hperm => (h paths' hperm).1
  · intro h paths' hperm
    have hpoints : (sortedPaths paths').map Path.points = (sortedPaths paths).map Path.points :=
      hsort.2 h paths' hperm
    exact ⟨hpoints, fun job => cnc_congr job hpoints,
      fun inches comments feed => laser_congr inches comments feed hpoints⟩

/-- A contour around a square at the origin. -/
def squareOf (size : ℚ) : Path ℚ where
  start := (0, 0)
  rest := [(size, 0), (size, size), (0, size), (0, 0)]
  inside := false
  group := 1

theorem sortKey_squareOf {size : ℚ} (h : 0 ≤ size) :
    (squareOf size).sortKey = toLex (1, toLex (round6 0, round6 0)) := by
  have hx : (squareOf size).minX = 0 := by simp [Path.minX, squareOf, h]
  have hy : (squareOf size).minY = 0 := by simp [Path.minY, squareOf, h]
  rw [Path.sortKey, hx, hy]
  rfl

/-- **Two squares in one corner** are cut in the order in which they arrive. -/
theorem not_stable_squares : ¬ ∀ paths : List (Path ℚ), Stable paths := by
  intro h
  have hcuts := (h [squareOf 1, squareOf 2] [squareOf 2, squareOf 1] (List.Perm.swap _ _ _)).1
  have hsorted (a b : Path ℚ) (hab : a.sortKey = b.sortKey) : sortedPaths [a, b] = [a, b] := by
    refine List.mergeSort_of_pairwise (List.pairwise_pair.2 ?_)
    exact decide_eq_true hab.le
  have hkey : (squareOf 1).sortKey = (squareOf 2).sortKey := by
    rw [sortKey_squareOf zero_le_one, sortKey_squareOf zero_le_two]
  rw [hsorted _ _ hkey, hsorted _ _ hkey.symm] at hcuts
  have hpoints := (List.cons_eq_cons.1 hcuts).1
  exact absurd hpoints (by decide)

end PartCAD.Gcode
