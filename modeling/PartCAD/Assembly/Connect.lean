import PartCAD.Geometry.Location
import PartCAD.Ports.Inherit

/-!
# Connecting an object

An object is connected by putting a port of its own onto a port of another object, turned around to
face it, and moved by the freedom that the two interfaces leave.

* `connectionLocation_mul` : where the source port comes to be, whichever ports are known;
* `connectionLocation_frames` : for two ports, with the half turn of the code.
-/

namespace PartCAD.Assembly

open PartCAD.Lib PartCAD.Geometry PartCAD.Ports

/-- `port_location` -/
def portLocation {L B : Type} [One L] (port : InterfacePort L B) : L := port.location.getD 1

section

variable {L B : Type} [Group L]

/-- The location of the object that is connected, from the target's location and the ports that are
known. -/
def connectionLocation (turnAround targetPartLocation : L)
    (sourcePort targetPort : Option (InterfacePort L B)) (targetOffsets sourceOffsets : List L) : L :=
  match sourcePort, targetPort with
  | some source, some target =>
    let location := targetPartLocation * portLocation target * turnAround
    let location := targetOffsets.foldl (· * ·) location
    let location := sourceOffsets.foldl (· * ·) location
    location * (portLocation source)⁻¹
  | none, some target =>
    let location := targetPartLocation * portLocation target * turnAround
    targetOffsets.foldl (· * ·) location
  | some source, none =>
    let location := targetPartLocation * turnAround
    let location := sourceOffsets.foldl (· * ·) location
    location * (portLocation source)⁻¹
  | none, none => targetPartLocation * turnAround

/-- The frame of a port; of an object without one, its own. -/
def frame (port : Option (InterfacePort L B)) : L := (port.map portLocation).getD 1

/-- The offsets of an end whose port is known. -/
def offsetsOf (port : Option (InterfacePort L B)) (offsets : List L) : L :=
  if port.isSome then offsets.prod else 1

theorem foldl_offsets (offsets : List L) (location : L) :
    offsets.foldl (· * ·) location = location * offsets.prod := by
  induction offsets generalizing location with
  | nil => rw [List.foldl_nil, List.prod_nil, mul_one]
  | cons offset offsets ih => rw [List.foldl_cons, ih, List.prod_cons, mul_assoc]

/-- **Where the source port comes to be.** -/
theorem connectionLocation_mul (turnAround targetPartLocation : L)
    (sourcePort targetPort : Option (InterfacePort L B)) (targetOffsets sourceOffsets : List L) :
    connectionLocation turnAround targetPartLocation sourcePort targetPort targetOffsets
        sourceOffsets * frame sourcePort =
      targetPartLocation * frame targetPort * turnAround * offsetsOf targetPort targetOffsets *
        offsetsOf sourcePort sourceOffsets := by
  cases sourcePort with
  | none =>
    cases targetPort with
    | none => simp [connectionLocation, frame, offsetsOf]
    | some target => simp [connectionLocation, frame, offsetsOf, foldl_offsets]
  | some source =>
    cases targetPort with
    | none => simp [connectionLocation, frame, offsetsOf, foldl_offsets]
    | some target =>
      simp only [connectionLocation, frame, offsetsOf, foldl_offsets, Option.map_some,
        Option.getD_some, Option.isSome_some, if_true]
      rw [inv_mul_cancel_right]

end

/-- `Location((0, 0, 0), (0.71, 0.71, 0), 180)` -/
noncomputable def turnAround : Option (Location ℝ) :=
  Location.packed (0, 0, 0) (0.71, 0.71, 0) 180

/-- Two frames have one origin, and their Z axes are opposite. -/
structure FaceToFace (a b : Location ℝ) : Prop where
  origin : a.transformPoint 0 = b.transformPoint 0
  opposite : a.rotateVector (0, 0, 1) = -b.rotateVector (0, 0, 1)

theorem turnAround_halfTurn : ∃ turn, turnAround = some turn ∧ IsHalfTurn (1, 1, 0) turn := by
  have hlength : axisNorm ((0.71, 0.71, 0) : Vec ℝ) ≠ 0 := by
    unfold axisNorm
    refine (Real.sqrt_pos.2 ?_).ne'
    norm_num
  have haxis : ((0.71, 0.71, 0) : Vec ℝ) = (0.71 : ℝ) • ((1, 1, 0) : Vec ℝ) := by
    simp
  exact packed_halfTurn hlength (by norm_num) haxis

/-- After half a turn about a direction square to Z, a frame faces the other way. -/
theorem faceToFace_mul (a : Location ℝ) {direction : Vec ℝ} {turn : Location ℝ}
    (h : IsHalfTurn direction turn) (hsquare : direction.2.2 = 0) : FaceToFace (a * turn) a where
  origin := by rw [Location.transformPoint_mul, h.origin]
  opposite := by
    have hz : dot ((0, 0, 1) : Vec ℝ) direction = 0 := by
      simp only [dot, hsquare]
      ring
    rw [Location.rotateVector_mul, h.across _ hz, Location.rotateVector_neg]

/-- **Connecting by two ports** puts the source port onto the target port, after half a turn about
(1, 1, 0) and the offsets of the target and of the source; without offsets the two ports are face to
face. -/
theorem connectionLocation_frames {B : Type} (targetPartLocation : Location ℝ)
    (sourcePort targetPort : InterfacePort (Location ℝ) B)
    (targetOffsets sourceOffsets : List (Location ℝ)) :
    ∃ turn, turnAround = some turn ∧ IsHalfTurn (1, 1, 0) turn ∧
      connectionLocation turn targetPartLocation (some sourcePort) (some targetPort) targetOffsets
          sourceOffsets * portLocation sourcePort =
        targetPartLocation * portLocation targetPort * turn * targetOffsets.prod *
          sourceOffsets.prod ∧
      FaceToFace
        (connectionLocation turn targetPartLocation (some sourcePort) (some targetPort) [] [] *
          portLocation sourcePort)
        (targetPartLocation * portLocation targetPort) := by
  obtain ⟨turn, hturn, hhalf⟩ := turnAround_halfTurn
  have hframe : ∀ offsets offsets' : List (Location ℝ),
      connectionLocation turn targetPartLocation (some sourcePort) (some targetPort) offsets
          offsets' * portLocation sourcePort =
        targetPartLocation * portLocation targetPort * turn * offsets.prod * offsets'.prod :=
    fun offsets offsets' => connectionLocation_mul turn targetPartLocation (some sourcePort)
      (some targetPort) offsets offsets'
  refine ⟨turn, hturn, hhalf, hframe targetOffsets sourceOffsets, ?_⟩
  rw [hframe, List.prod_nil, mul_one, mul_one]
  exact faceToFace_mul _ hhalf rfl

end PartCAD.Assembly
