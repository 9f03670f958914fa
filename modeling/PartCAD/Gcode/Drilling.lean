import PartCAD.Gcode.Program
import PartCAD.Lib.Gathered

/-!
# The programs of a drill

The cylinders of an object that have material around them are gathered into holes, and each hole is
drilled at its centre, at once or in pecks.

* `holesOf` : the holes, by Y and then X;
* `drilling` : the program;
* `Work` : what is asked, for an object that ends where its top is.
-/

namespace PartCAD.Gcode

open PartCAD.Lib PartCAD.Lib.Modal

variable {K : Type}

/-! ## Holes -/

/-- A cylindrical face, its axis upright and the material outside of it, with the heights that it lies
between. -/
structure Face (K : Type) [LE K] where
  x : K
  y : K
  radius : K
  top : K
  bottom : K
  bottom_le : bottom ≤ top

def Face.centre [LE K] (f : Face K) : Point K := (f.x, f.y)

structure Hole (K : Type) where
  x : K
  y : K
  diameter : K
  top : K
  bottom : K

def Hole.centre (h : Hole K) : Point K := (h.x, h.y)

section

variable [Field K] [LinearOrder K] [FloorRing K]

/-- `round(v)`: of two integers that are as near the even one. -/
def roundEven (v : K) : ℤ :=
  if v - (⌊v⌋ : ℤ) < 1 / 2 ∨ v - (⌊v⌋ : ℤ) = 1 / 2 ∧ ⌊v⌋ % 2 = 0 then ⌊v⌋ else ⌊v⌋ + 1

/-- The key of the hole that a face is a part of. -/
def Face.key (tolerance : K) (f : Face K) : ℤ × ℤ × ℤ :=
  (roundEven (f.x / max tolerance (1 / 10 ^ 6)), roundEven (f.y / max tolerance (1 / 10 ^ 6)),
    roundEven (f.radius / max tolerance (1 / 10 ^ 6)))

/-- The hole of one face. -/
def Face.hole (f : Face K) : Hole K := ⟨f.x, f.y, f.radius * 2, f.top, f.bottom⟩

/-- One face more of a hole: it stays where its first face has it. -/
def Hole.extend (h : Hole K) (f : Face K) : Hole K :=
  { h with top := max h.top f.top, bottom := min h.bottom f.bottom }

/-- The holes by their keys. -/
def gatheredHoles (tolerance : K) (faces : List (Face K)) : Dict (ℤ × ℤ × ℤ) (Hole K) :=
  Dict.gathered (Face.key tolerance) Face.hole Hole.extend faces

/-- By Y, then X. -/
def Hole.sortKey (h : Hole K) : K ×ₗ K := toLex (h.y, h.x)

/-- `_holes` -/
def holesOf (tolerance : K) (faces : List (Face K)) : List (Hole K) :=
  sortBy Hole.sortKey ((gatheredHoles tolerance faces).items.map Prod.snd)

end

/-! ## The route of a drill -/

/-- What is asked of a route: heights are those of the machine, and feeds are as they are configured. -/
structure DrillJob (K : Type) where
  inches : Bool
  comments : ℕ
  spindle : Bool
  tolerance : K
  plungeFeed : K
  peck : Option K
  top : K
  clearance : K

section

variable [Field K] [LinearOrder K] [FloorRing K] (job : DrillJob K)

namespace DrillJob

def safeHeight : K := job.top + job.clearance

/-- How many pecks a hole of the depth takes. -/
def pecks (step depth : K) : ℕ := max 1 ⌈depth / step - 1 / 10 ^ 9⌉.toNat

/-- The heights that a hole is drilled to, one after the other. -/
def steps (h : Hole K) : List K :=
  match job.peck with
  | none => [h.bottom]
  | some step =>
    if 0 < step then
      (List.range (pecks step (h.top - h.bottom))).map fun index : ℕ =>
        h.top - min (h.top - h.bottom) (step * (index + 1))
    else [h.bottom]

end DrillJob

/-- One plunge, and out to the top of the hole when there are more. -/
def drillStep (steps : List K) (h : Hole K) (p : Program K) (z : K) : Program K :=
  if 1 < steps.length then (p.plunge z job.plungeFeed).rapidZ h.top else p.plunge z job.plungeFeed

def drillHole (p : Program K) (h : Hole K) : Program K :=
  ((job.steps h).foldl (drillStep job (job.steps h) h) ((p.rapidXY h.centre).rapidZ h.top)).rapidZ job.safeHeight

/-- The lines of `_drilling`, for the faces that it finds: there are none without a hole. -/
def drilling (faces : List (Face K)) : Option (Program K) :=
  let holes := holesOf job.tolerance faces
  if holes.isEmpty then none
  else
    let start := startProgram job.inches job.comments
    let start := if job.spindle then start.code .on else start
    let p := holes.foldl (drillHole job) (start.rapidZ job.safeHeight)
    some ((if job.spindle then p.code .off else p).code .other)

/-- What is asked, for the faces of an object that ends where its top is. -/
structure Work (K : Type) [Field K] [LinearOrder K] [FloorRing K] where
  job : DrillJob K
  faces : List (Face K)
  le_top : ∀ f ∈ faces, f.top ≤ job.top
  clearance_nonneg : 0 ≤ job.clearance

end

end PartCAD.Gcode
