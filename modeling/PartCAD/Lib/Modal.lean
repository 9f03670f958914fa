import Mathlib.Algebra.Field.Defs
import Mathlib.Tactic.Common

/-!
# Modal machines

A machine tool reads one block after the other.  What a block does not state is as it was: the place
along an axis, the feed, whether the tool is on, and the unit of the numbers.

* `Block`, `Machine`, `Machine.step` : what a block does;
* `Motion`, `play` : the moves of a program;
* `Pass`, `History` : how deep the tool is sent down, and where it goes there.
-/

namespace PartCAD.Lib.Modal

variable {K : Type}

/-- A block of a program: a move with the axes that it states, or a change of a mode. -/
inductive Block (K : Type)
  | rapid (x y z : Option K)
  | cut (x y z feed : Option K)
  | on
  | off
  | units (perUnit : K)
  | other

/-- What is as it was until a block changes it, in one unit of length. -/
structure Machine (K : Type) where
  x : Option K
  y : Option K
  z : Option K
  feed : Option K
  on : Bool
  perUnit : K

/-- A move, with the machine before and after it. -/
structure Motion (K : Type) where
  rapid : Bool
  planar : Bool
  vertical : Bool
  before : Machine K
  after : Machine K

section

variable [Mul K] (m : Machine K)

/-- A number of a block, in the unit of length of the machine. -/
@[grind =]
def Machine.set (old new : Option K) : Option K := (new.map (· * m.perUnit)).or old

/-- What a block does. -/
@[grind =]
def Machine.step : Block K → Machine K
  | .rapid x y z => { m with x := m.set m.x x, y := m.set m.y y, z := m.set m.z z }
  | .cut x y z feed =>
    { m with x := m.set m.x x, y := m.set m.y y, z := m.set m.z z, feed := m.set m.feed feed }
  | .on => { m with on := true }
  | .off => { m with on := false }
  | .units perUnit => { m with perUnit := perUnit }
  | .other => m

/-- The move of a block. -/
@[grind =]
def Machine.motion (b : Block K) : Option (Motion K) :=
  match b with
  | .rapid x y z =>
    some { rapid := true, planar := x.isSome || y.isSome, vertical := z.isSome, before := m, after := m.step b }
  | .cut x y z _ =>
    some { rapid := false, planar := x.isSome || y.isSome, vertical := z.isSome, before := m, after := m.step b }
  | _ => none

end

/-! ## The depths of a program -/

/-- What is cut from one plunge on: the height, and where the tool is there, the last place first. -/
structure Pass (K : Type) where
  z : Option K
  visited : List (Option K × Option K)

/-- The passes since each rapid move in the plane, the last one first. -/
abbrev History (K : Type) := List (List (Pass K))

def Machine.place (m : Machine K) : Option K × Option K := (m.x, m.y)

/-- A place more, in the pass that is being cut. -/
def History.visit (h : History K) (place : Option K × Option K) : History K :=
  match h with
  | (pass :: passes) :: contours => ({ pass with visited := place :: pass.visited } :: passes) :: contours
  | h => h

/-- A pass more, since the last rapid move. -/
def History.plunge (h : History K) (m : Machine K) : History K :=
  match h with
  | passes :: contours => (⟨m.z, [m.place]⟩ :: passes) :: contours
  | [] => []

def History.add (h : History K) (motion : Motion K) : History K :=
  if motion.rapid then if motion.planar then [] :: h else h
  else if motion.planar then h.visit motion.after.place
  else if motion.vertical then h.plunge motion.after
  else h

/-- A program that has been read so far. -/
structure Play (K : Type) where
  machine : Machine K
  motions : List (Motion K)
  history : History K

section

variable [Mul K]

@[grind =]
def Play.step (p : Play K) (b : Block K) : Play K :=
  match p.machine.motion b with
  | some motion =>
    { machine := p.machine.step b, motions := p.motions ++ [motion], history := p.history.add motion }
  | none => { p with machine := p.machine.step b }

/-- A program that is read from the start, on a machine that is nowhere and off. -/
def play (perUnit : K) (blocks : List (Block K)) : Play K :=
  blocks.foldl Play.step ⟨⟨none, none, none, none, false, perUnit⟩, [], []⟩

theorem play_concat (perUnit : K) (blocks : List (Block K)) (b : Block K) :
    play perUnit (blocks ++ [b]) = (play perUnit blocks).step b := by
  rw [play, List.foldl_append]
  rfl

end

end PartCAD.Lib.Modal
