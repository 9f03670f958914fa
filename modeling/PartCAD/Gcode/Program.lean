import Mathlib.Algebra.Order.Field.Basic
import Mathlib.Algebra.Order.Floor.Ring
import Mathlib.Data.Prod.Lex
import PartCAD.Lib.Modal
import PartCAD.Lib.Numerals
import PartCAD.Lib.SortedBy

/-!
# The programs of a router and of a laser

Contours are followed one after the other, by a router at one depth after the other.  Numbers are exact
here: a program states them as they are, in its own unit.

* `Program` : the file, with its moves;
* `sortedPaths` : the order of the contours;
* `cnc`, `laser` : the programs.
-/

namespace PartCAD.Gcode

open PartCAD.Lib PartCAD.Lib.Modal

variable {K : Type}

/-! ## Contours -/

abbrev Point (K : Type) := K × K

/-- A contour with at least one point, on the inside of a boundary or not, with the group that it is cut
in. -/
structure Path (K : Type) where
  start : Point K
  rest : List (Point K)
  inside : Bool
  group : ℕ
  deriving DecidableEq

namespace Path

def points (p : Path K) : List (Point K) := p.start :: p.rest

/-- It comes back to where it starts. -/
def Closed (p : Path K) : Prop := p.points.getLast (List.cons_ne_nil _ _) = p.start

def minX [LinearOrder K] (p : Path K) : K := (p.rest.map Prod.fst).foldl min p.start.1

def minY [LinearOrder K] (p : Path K) : K := (p.rest.map Prod.snd).foldl min p.start.2

end Path

section

variable [Field K] [LinearOrder K] [FloorRing K]

/-- `round(v, 6)`: the nearest one, or of two that are as near the one with an even last digit. -/
def round6 (v : K) : K :=
  let x : K := v * 10 ^ 6
  let n : ℤ := if x - (⌊x⌋ : ℤ) < 1 / 2 ∨ x - (⌊x⌋ : ℤ) = 1 / 2 ∧ ⌊x⌋ % 2 = 0 then ⌊x⌋ else ⌊x⌋ + 1
  (n : K) / 10 ^ 6

/-- The group, and the least corner. -/
def Path.sortKey (p : Path K) : ℕ ×ₗ K ×ₗ K := toLex (p.group, toLex (round6 p.minX, round6 p.minY))

/-- `_sorted_paths` -/
def sortedPaths (paths : List (Path K)) : List (Path K) := sortBy Path.sortKey paths

end

/-! ## The file -/

/-- The lines, the factor to the unit of the file, and where the tool is known to be. -/
structure Program (K : Type) where
  lines : List (Block K)
  scale : K
  where_ : Option (Point K)

namespace Program

def code (p : Program K) (line : Block K) : Program K := { p with lines := p.lines ++ [line] }

section

variable [Field K]

/-- `TOLERANCE` -/
def tolerance : K := 1 / 10 ^ 6

/-- `number`, without the rounding. -/
def number (p : Program K) (value : K) : K := value * p.scale

def rapidZ (p : Program K) (z : K) : Program K :=
  { p.code (.rapid none none (some (p.number z))) with where_ := none }

def rapidXY (p : Program K) (point : Point K) : Program K :=
  { p.code (.rapid (some (p.number point.1)) (some (p.number point.2)) none) with where_ := some point }

def plunge (p : Program K) (z feed : K) : Program K :=
  p.code (.cut none none (some (p.number z)) (some (p.number feed)))

variable [LinearOrder K]

/-- `_distance(a, b) <= TOLERANCE` -/
def Near (a b : Point K) : Prop := (a.1 - b.1) ^ 2 + (a.2 - b.2) ^ 2 ≤ tolerance ^ 2

instance (a b : Point K) : Decidable (Near a b) := inferInstanceAs (Decidable (_ ≤ _))

/-- A cutting move, with the feed where one is given, and whether it was written. -/
def cutTo (p : Program K) (point : Point K) (feed : Option K) : Program K × Bool :=
  if p.where_.any fun place => Near place point then (p, false)
  else
    ({ p.code (.cut (some (p.number point.1)) (some (p.number point.2)) none (feed.map p.number)) with
      where_ := some point }, true)

/-- One move after the other; the first one that is written has the feed. -/
def cutAll (feed : K) : List (Point K) → Program K → Bool → Program K
  | [], p, _ => p
  | point :: points, p, first =>
    let (p, written) := p.cutTo point (if first then some feed else none)
    cutAll feed points p (first && !written)

end

end Program

/-! ## The route of a router -/

/-- What is asked of a route: heights are those of the machine, and feeds are as they are configured. -/
structure Job (K : Type) where
  inches : Bool
  comments : ℕ
  spindle : Bool
  feed : K
  plungeFeed : K
  top : K
  depth : K
  depthPerPass : K
  clearance : K

/-- `MM_PER_INCH` -/
def mmPerInch [Field K] : K := 254 / 10

section

variable [Field K] [LinearOrder K]

/-- The unit of the numbers, in millimeters. -/
def perUnit (inches : Bool) : K := if inches then mmPerInch else 1

/-- A new file, with as many comments in front as there are. -/
def startProgram (inches : Bool) (comments : ℕ) : Program K :=
  { lines := List.replicate comments .other ++ [.units (perUnit inches), .other, .other, .other]
    scale := 1 / perUnit inches
    where_ := none }

section

variable [FloorRing K]

section

variable (job : Job K)

namespace Job

def passes : ℕ := max 1 ⌈job.depth / job.depthPerPass - 1 / 10 ^ 9⌉.toNat

/-- The heights of the passes. -/
def depths : List K :=
  (List.range job.passes).map fun index : ℕ => job.top - min job.depth (job.depthPerPass * (index + 1))

def safeHeight : K := job.top + job.clearance

end Job

/-- One pass along a contour. -/
def cutPass (points : List (Point K)) (p : Program K) (z : K) : Program K :=
  Program.cutAll job.feed points (p.plunge z job.plungeFeed) true

def cutContour (p : Program K) (path : Path K) : Program K :=
  (job.depths.foldl (cutPass job path.rest) (p.rapidXY path.start)).rapidZ job.safeHeight

/-- The lines of `_cnc`, for the paths that it has made. -/
def cnc (paths : List (Path K)) : Program K :=
  let start := startProgram job.inches job.comments
  let start := if job.spindle then start.code .on else start
  let p := (sortedPaths paths).foldl (cutContour job) (start.rapidZ job.safeHeight)
  (if job.spindle then p.code .off else p).code .other

end

/-! ## The route of a laser -/

def burnContour (feed : K) (p : Program K) (path : Path K) : Program K :=
  (Program.cutAll feed path.rest ((p.rapidXY path.start).code .on) true).code .off

/-- The lines of `_laser`, for the paths that it has made. -/
def laser (inches : Bool) (comments : ℕ) (feed : K) (paths : List (Path K)) : Program K :=
  ((sortedPaths paths).foldl (burnContour feed) (startProgram inches comments)).code .other

end

end

end PartCAD.Gcode
