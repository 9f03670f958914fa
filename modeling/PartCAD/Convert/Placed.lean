import PartCAD.Assembly.Connect
import PartCAD.Convert.Assy

/-!
# Where the converted assembly puts its links

The ASSY file is read back: a link is placed by its location, or connected by its plug to the socket
that it names.  URDF puts a link where the joints on the way from the root put it.

* `connected_eq` : what a connection says of a joint, with half a turn on either side of its movement;
* `urdfToAssy_places` : **every link is where the joints put it**, at the values that are given.
-/

namespace PartCAD.Convert

open PartCAD.Lib PartCAD.Geometry PartCAD.Ports PartCAD.Assembly
open scoped Quaternion

noncomputable section

/-- A location as a rigid transform. -/
def rigid : Location ℝ →* RigidTransform := Location.toPerm.rangeRestrict

/-- `math.degrees` -/
def degrees (v : ℝ) : ℝ := v * (180 / Real.pi)

theorem facing_hasAxis : axisNorm ((0.71, 0.71, 0) : Vec ℝ) ≠ 0 := by
  unfold axisNorm
  refine (Real.sqrt_pos.2 ?_).ne'
  norm_num

/-- `FACING` -/
def facing : Packed := ⟨(0, 0, 0), (0.71, 0.71, 0), 180, facing_hasAxis⟩

/-! ## Kinematics -/

/-- A turn about an axis, by an angle in degrees. -/
def turnBy (axis : Vec ℝ) (angle : ℝ) : Location ℝ := (Location.packed 0 axis angle).getD 1

def moveBy (v : Vec ℝ) : Location ℝ := ⟨1, v, normSq_unturned⟩

/-- How the child frame of a joint is moved at a value, in degrees or millimetres.  The axis is the first
one unless it is stated. -/
def Joint.motion {V : Type} (joint : Joint RigidTransform ℝ V) (value : ℝ) : RigidTransform :=
  match joint.type with
  | .revolute => rigid (turnBy (joint.axis.getD (1, 0, 0)) value)
  | .continuous => rigid (turnBy (joint.axis.getD (1, 0, 0)) value)
  | .prismatic => rigid (moveBy (value • joint.axis.getD (1, 0, 0)))
  | _ => 1

/-! ## Reading the file back -/

/-- `get_offsets`; `none` is the `ValueError` for an axis of length zero. -/
def getOffsets (parameter : InterfaceParameter ℝ) (value : ℝ) : Option (List (Location ℝ)) :=
  if value = 0 then some []
  else
    match parameter.type with
    | .move =>
      (Location.packed (parameter.dir.1 * value, parameter.dir.2.1 * value, parameter.dir.2.2 * value)
        (0, 0, 1) 0).map fun offset => [offset]
    | .turn => (Location.packed (0, 0, 0) parameter.dir value).map fun offset => [offset]

section

variable {V : Type}

/-- The offsets of a parameter that a connection gives, when the interface has it. -/
def offsetsOfParameter (parameters : Dict Str (InterfaceParameter ℝ)) (p : Str × ℝ) :
    Option (List (Location ℝ)) :=
  match parameters.get? p.1 with
  | none => some []
  | some parameter => getOffsets parameter p.2

/-- The offsets of the parameters that a connection gives. -/
def targetOffsets (parameters : Dict Str (InterfaceParameter ℝ)) (toParams : Dict Str ℝ) :
    Option (List (Location ℝ)) :=
  (toParams.items.mapM (offsetsOfParameter parameters)).map List.flatten

/-- What a part implements, as it is read. -/
def inheritConfig (entry : Option (Dict Str Packed)) : InheritConfig RigidTransform :=
  match entry with
  | none => .omitted
  | some instances =>
    .instances (instances.mapValues fun p => ⟨some (rigidPacking.unpack p), none, none⟩)

/-- The ports of an interface, as they are read. -/
def interfacePorts (config : InterfaceConfig Packed ℝ V) :
    Dict Str (InterfacePort RigidTransform Unit) :=
  config.ports.mapValues fun location => ⟨location.map rigidPacking.unpack, ()⟩

/-- `list(values)[0]`, of one value. -/
def only {α : Type} : List α → Option α
  | [a] => some a
  | _ => none

/-- The one port of an instance of an interface, which is named or the only one. -/
def instancePort (config : InterfaceConfig Packed ℝ V) (interfaceName : Str)
    (entry : Option (Dict Str Packed)) (instanceName : Option Str) :
    Option (InterfacePort RigidTransform Unit) := do
  let inherit := makeInherits interfaceName (inheritConfig entry) (interfacePorts config)
  let (name, location) ←
    match instanceName with
    | some name => (inherit.instances.get? name).map fun location => (name, location)
    | none => only inherit.instances.items
  let (_, port) ← only (interfacePorts config).items
  some (inheritedPort (fun _ => ()) inherit name location port)

/-- A child of the assembly, with what its part implements. -/
structure Child where
  name : Str
  location : RigidTransform
  entries : Entries Packed

variable (converted : Converted Packed ℝ V)

/-- Where a connection puts a part. -/
def connectedLocation (children : List Child) (entries : Entries Packed) (connect : Connect ℝ) :
    Option RigidTransform := do
  let target ← children.find? fun child => child.name = connect.name
  let socket ← converted.interfaces.get? connect.to_
  let plug ← converted.interfaces.get? connect.with_
  let targetPort ← instancePort socket connect.to_ (← target.entries.get? connect.to_)
    (some connect.toInstance)
  let sourcePort ← instancePort plug connect.with_ (← entries.get? connect.with_) none
  let turnAround ← turnAround
  let offsets ← targetOffsets socket.parameters connect.toParams
  some (connectionLocation (rigid turnAround) target.location (some sourcePort) (some targetPort)
    (offsets.map rigid) [])

/-- Where a part is put. -/
def placedLocation (children : List Child) (entries : Entries Packed) :
    Placing Packed ℝ → Option RigidTransform
  | .location location => some (rigidPacking.unpack location)
  | .connect connect => connectedLocation converted children entries connect

/-- `handle_node`; a part is named after a colon. -/
def handleNode (children : List Child) (node : AssyNode Packed ℝ) : Option (List Child) := do
  let part ← converted.parts.get? node.part.tail
  let location ← placedLocation converted children part.entries node.placing
  some (children ++ [⟨node.name, location, part.entries⟩])

/-- The children of the assembly. -/
def assemble : Option (List Child) := converted.links.foldlM (handleNode converted) []

/-- The node with parameters that its connection is given. -/
def AssyNode.given (toParams : Str → Dict Str ℝ) (node : AssyNode Packed ℝ) : AssyNode Packed ℝ :=
  match node.placing with
  | .location _ => node
  | .connect connect =>
    { node with placing := .connect { connect with toParams := toParams node.name } }

/-- The document with parameters that the connections of the links are given. -/
def Converted.given (toParams : Str → Dict Str ℝ) : Converted Packed ℝ V :=
  { converted with links := converted.links.map (AssyNode.given toParams) }

/-- The value that a document gives to a joint: what the connection of the link below says for the
parameter of the joint, and zero otherwise. -/
def jointValue (links : Dict Str (LinkRecord Packed)) (toParams : Str → Dict Str ℝ)
    (joint : Joint RigidTransform ℝ V) : ℝ :=
  match attachedTo links joint.child, movementParameter (jointRecord degrees joint) with
  | some _, some parameter => ((toParams joint.child).get? parameter.1).getD 0
  | _, _ => 0

end

/-! ## Half a turn on either side -/

/-- Half a turn about (1, 1, 0), on either side of a quaternion. -/
theorem halfTurn_conj {s : ℝ} (hs : s * s = 1 / 2) (q : ℍ[ℝ]) :
    quat 0 s s 0 * q * star (quat 0 s s 0) = quat q.re q.imJ q.imI (-q.imK) := by
  rw [← quatConj_eq, ← quatMul_eq, ← quatMul_eq]
  ext
  · simp only [quatMul, quatConj, quat]
    linear_combination (2 * q.re) * hs
  · simp only [quatMul, quatConj, quat]
    linear_combination (2 * q.imJ) * hs
  · simp only [quatMul, quatConj, quat]
    linear_combination (2 * q.imI) * hs
  · simp only [quatMul, quatConj, quat]
    linear_combination (-2 * q.imK) * hs

/-- The half turn of the plug and of the connection. -/
def halfTurn : Location ℝ := Location.ofPacked facing

theorem turnAround_eq : turnAround = some halfTurn := Location.packed_eq facing

theorem halfTurn_q : ∃ s : ℝ, s * s = 1 / 2 ∧ halfTurn.q = quat 0 s s 0 := by
  refine ⟨0.71 / axisNorm ((0.71, 0.71, 0) : Vec ℝ), ?_, ?_⟩
  · have h := normalised facing_hasAxis
    simp only [zero_div] at h
    linear_combination (1 / 2) * h
  · show axisAngleToQuat (0.71, 0.71, 0) 180 = _
    rw [axisAngleToQuat_halfTurn]
    simp only [zero_div]

/-- **A location between two half turns** has its axes exchanged. -/
theorem halfTurn_conj_eq (a : Location ℝ) :
    (halfTurn * a * halfTurn⁻¹).q = quat a.q.re a.q.imJ a.q.imI (-a.q.imK) ∧
      (halfTurn * a * halfTurn⁻¹).t = (a.t.2.1, a.t.1, -a.t.2.2) := by
  obtain ⟨s, hs, hq⟩ := halfTurn_q
  have ht : halfTurn.t = 0 := rfl
  constructor
  · rw [Location.mul_q, Location.mul_q, Location.inv_q, hq, halfTurn_conj hs]
  · rw [Location.mul_t, Location.mul_t, Location.inv_t, ht, rotate_zero, neg_zero, rotate_zero, zero_add,
      add_zero, hq, rotate, halfTurn_conj hs]
    rfl

/-! ## The movement of a joint -/

theorem axisNorm_inPortFrame (axis : Vec ℝ) : axisNorm (jointAxisInPortFrame axis) = axisNorm axis := by
  unfold axisNorm jointAxisInPortFrame
  congr 1
  ring

/-- A turn between two half turns. -/
theorem turn_conj {axis : Vec ℝ} (h : axisNorm axis ≠ 0) (angle : ℝ) :
    ∃ offset, Location.packed (0, 0, 0) (jointAxisInPortFrame axis) angle = some offset ∧
      halfTurn * offset * halfTurn⁻¹ = turnBy axis angle := by
  have h' : axisNorm (jointAxisInPortFrame axis) ≠ 0 := by rwa [axisNorm_inPortFrame]
  refine ⟨_, dif_neg h', ?_⟩
  obtain ⟨hq, ht⟩ := halfTurn_conj_eq ⟨axisAngleToQuat (jointAxisInPortFrame axis) angle, (0, 0, 0),
    normSq_axisAngleToQuat h' angle⟩
  rw [turnBy, Location.packed, dif_neg h, Option.getD_some]
  have hnorm : axisNorm (axis.2.1, axis.1, -axis.2.2) = axisNorm axis := axisNorm_inPortFrame axis
  refine Location.ext (hq.trans ?_) (ht.trans ?_)
  · simp only [axisAngleToQuat, quat, jointAxisInPortFrame, hnorm, neg_div, neg_mul, neg_neg]
    rfl
  · simp only [neg_zero]
    rfl

/-- A move between two half turns. -/
theorem move_conj (axis : Vec ℝ) (value : ℝ) :
    ∃ offset, Location.packed ((jointAxisInPortFrame axis).1 * value,
        (jointAxisInPortFrame axis).2.1 * value, (jointAxisInPortFrame axis).2.2 * value)
          (0, 0, 1) 0 = some offset ∧
      halfTurn * offset * halfTurn⁻¹ = moveBy (value • axis) := by
  have h : axisNorm ((0, 0, 1) : Vec ℝ) ≠ 0 := by simp [axisNorm]
  refine ⟨_, dif_neg h, ?_⟩
  obtain ⟨hq, ht⟩ := halfTurn_conj_eq ⟨axisAngleToQuat (0, 0, 1) 0,
    ((jointAxisInPortFrame axis).1 * value, (jointAxisInPortFrame axis).2.1 * value,
      (jointAxisInPortFrame axis).2.2 * value), normSq_axisAngleToQuat h 0⟩
  refine Location.ext (hq.trans ?_) (ht.trans ?_)
  · simp only [axisAngleToQuat, quat, zero_mul, zero_div, Real.cos_zero, Real.sin_zero, mul_zero,
      neg_zero]
    exact quat_one
  · simp only [moveBy, jointAxisInPortFrame, Prod.smul_def, smul_eq_mul, neg_mul, neg_neg,
      mul_comm value]

theorem turnBy_zero (axis : Vec ℝ) : turnBy axis 0 = 1 := by
  unfold turnBy Location.packed
  split
  · rfl
  · refine Location.ext ?_ rfl
    simp only [Option.getD_some, axisAngleToQuat, zero_mul, zero_div, Real.cos_zero, Real.sin_zero,
      mul_zero]
    exact quat_one

theorem moveBy_zero (axis : Vec ℝ) : moveBy ((0 : ℝ) • axis) = 1 := by
  rw [zero_smul]
  rfl

section

variable {V : Type}

/-- At zero a joint does not move. -/
theorem motion_zero (joint : Joint RigidTransform ℝ V) : joint.motion 0 = 1 := by
  unfold Joint.motion
  split
  · rw [turnBy_zero, map_one]
  · rw [turnBy_zero, map_one]
  · rw [moveBy_zero, map_one]
  · rfl

theorem movementParameter_eq_some {joint : Joint RigidTransform ℝ V}
    {p : Str × InterfaceParameter ℝ} (h : movementParameter (jointRecord degrees joint) = some p) :
    ∃ axis, joint.axis = some axis ∧ p.2.dir = jointAxisInPortFrame axis ∧
      jointParameters joint.type = some p.2.type := by
  simp only [movementParameter, jointRecord, Option.bind_eq_bind, Option.bind_eq_some_iff] at h
  obtain ⟨kind, hkind, axis, haxis, range, -, hp⟩ := h
  obtain rfl := Option.some.inj hp
  exact ⟨axis, haxis, rfl, hkind⟩

/-- **What a parameter says of a joint**: between the half turns, the offsets are the movement of the
joint at the value. -/
theorem getOffsets_conj {joint : Joint RigidTransform ℝ V} {p : Str × InterfaceParameter ℝ}
    (hunit : ∀ axis, joint.axis = some axis → axisNorm axis = 1)
    (h : movementParameter (jointRecord degrees joint) = some p) (value : ℝ) :
    ∃ offsets, getOffsets p.2 value = some offsets ∧
      rigid halfTurn * (offsets.map rigid).prod * (rigid halfTurn)⁻¹ = joint.motion value := by
  obtain ⟨axis, haxis, hdir, hkind⟩ := movementParameter_eq_some h
  by_cases hvalue : value = 0
  · subst hvalue
    refine ⟨[], if_pos rfl, ?_⟩
    rw [motion_zero, List.map_nil, List.prod_nil, mul_one, mul_inv_cancel]
  · have hne : axisNorm axis ≠ 0 := by
      rw [hunit axis haxis]
      exact one_ne_zero
    -- one offset between the half turns
    have hone : ∀ (offset result : Location ℝ), halfTurn * offset * halfTurn⁻¹ = result →
        rigid halfTurn * (([offset].map rigid).prod) * (rigid halfTurn)⁻¹ = rigid result := by
      intro offset result hconj
      rw [List.map_singleton, List.prod_singleton, ← map_inv, ← map_mul, ← map_mul, hconj]
    obtain ⟨turn, hturn, hturned⟩ := turn_conj hne value
    obtain ⟨move, hmove, hmoved⟩ := move_conj axis value
    have hgetTurn : p.2.type = .turn → getOffsets p.2 value = some [turn] := by
      intro htype
      rw [getOffsets, if_neg hvalue, htype, hdir]
      simp only [hturn, Option.map_some]
    have hgetMove : p.2.type = .move → getOffsets p.2 value = some [move] := by
      intro htype
      rw [getOffsets, if_neg hvalue, htype, hdir]
      simp only [hmove, Option.map_some]
    cases htype : joint.type with
    | revolute =>
      rw [htype] at hkind
      refine ⟨[turn], hgetTurn (Option.some.inj hkind).symm, ?_⟩
      rw [hone turn _ hturned, Joint.motion, htype, haxis]
      rfl
    | continuous =>
      rw [htype] at hkind
      refine ⟨[turn], hgetTurn (Option.some.inj hkind).symm, ?_⟩
      rw [hone turn _ hturned, Joint.motion, htype, haxis]
      rfl
    | prismatic =>
      rw [htype] at hkind
      refine ⟨[move], hgetMove (Option.some.inj hkind).symm, ?_⟩
      rw [hone move _ hmoved, Joint.motion, htype, haxis]
      rfl
    | unknown => exact absurd (htype ▸ hkind) (by simp [jointParameters])
    | floating => exact absurd (htype ▸ hkind) (by simp [jointParameters])
    | fixed => exact absurd (htype ▸ hkind) (by simp [jointParameters])
    | planar => exact absurd (htype ▸ hkind) (by simp [jointParameters])

/-- Of the parameters that are given, the one that the interface has counts. -/
theorem offsets_single {name : Str} {parameter : InterfaceParameter ℝ} {items : List (Str × ℝ)}
    (hnodup : (items.map Prod.fst).Nodup) :
    (items.mapM (offsetsOfParameter (Dict.empty.set name parameter))).map List.flatten =
      match lookupItem name items with
      | none => some []
      | some value => getOffsets parameter value := by
  induction items with
  | nil => rfl
  | cons item items ih =>
    obtain ⟨q, value⟩ := item
    rw [List.map_cons, List.nodup_cons] at hnodup
    have ih := ih hnodup.2
    rw [List.mapM_cons]
    by_cases hq : q = name
    · subst hq
      have hrest : lookupItem q items = none := lookupItem_eq_none.2 hnodup.1
      rw [hrest] at ih
      obtain ⟨rest, hrest, hflatten⟩ := Option.map_eq_some_iff.1 ih
      have hitem : offsetsOfParameter (Dict.empty.set q parameter) (q, value) =
          getOffsets parameter value := by
        rw [offsetsOfParameter, Dict.get?_set_self]
      rw [hitem, hrest, lookupItem, if_pos rfl]
      show _ = getOffsets parameter value
      cases getOffsets parameter value with
      | none => rfl
      | some offsets =>
        show some ((offsets :: rest).flatten) = some offsets
        rw [List.flatten_cons, hflatten, List.append_nil]
    · have hitem : offsetsOfParameter (Dict.empty.set name parameter) (q, value) = some [] := by
        rw [offsetsOfParameter, Dict.get?_set_of_ne _ _ (Ne.symm hq), Dict.get?_empty]
      rw [hitem, lookupItem, if_neg hq, ← ih]
      cases items.mapM (offsetsOfParameter (Dict.empty.set name parameter)) with
      | none => rfl
      | some rest => rfl

/-- The value of the parameter of a joint among those that are given. -/
def givenValue (toParams : Dict Str ℝ) (joint : Joint RigidTransform ℝ V) : ℝ :=
  match movementParameter (jointRecord degrees joint) with
  | none => 0
  | some parameter => (toParams.get? parameter.1).getD 0

/-- **What the parameters of a connection say of a joint.** -/
theorem targetOffsets_conj {joint : Joint RigidTransform ℝ V}
    (hunit : ∀ axis, joint.axis = some axis → axisNorm axis = 1) (toParams : Dict Str ℝ) :
    ∃ offsets, targetOffsets (parametersOf (jointRecord degrees joint)) toParams = some offsets ∧
      rigid halfTurn * (offsets.map rigid).prod * (rigid halfTurn)⁻¹ =
        joint.motion (givenValue toParams joint) := by
  have hnone : rigid halfTurn * (([] : List (Location ℝ)).map rigid).prod * (rigid halfTurn)⁻¹ =
      joint.motion 0 := by
    rw [motion_zero, List.map_nil, List.prod_nil, mul_one, mul_inv_cancel]
  cases hparameter : movementParameter (jointRecord degrees joint) with
  | none =>
    have hempty : ∀ item ∈ toParams.items, offsetsOfParameter Dict.empty item = some [] :=
      fun item _ => rfl
    refine ⟨[], ?_, ?_⟩
    · rw [targetOffsets, parametersOf, hparameter]
      simp only [mapM_some hempty, Option.map_some, Option.some.injEq]
      simp
    · rw [hnone, givenValue, hparameter]
  | some parameter =>
    have htarget : targetOffsets (parametersOf (jointRecord degrees joint)) toParams =
        match toParams.get? parameter.1 with
        | none => some []
        | some value => getOffsets parameter.2 value := by
      rw [targetOffsets, parametersOf, hparameter]
      exact offsets_single toParams.nodup
    have hvalue : givenValue toParams joint = (toParams.get? parameter.1).getD 0 := by
      rw [givenValue, hparameter]
    rw [htarget, hvalue]
    cases toParams.get? parameter.1 with
    | none => exact ⟨[], rfl, hnone⟩
    | some value =>
      rw [Option.getD_some]
      exact getOffsets_conj hunit hparameter value

end

/-! ## Ports -/

section

variable {V : Type}

/-- The port of a socket is where the instance is. -/
theorem instancePort_socket {config : InterfaceConfig Packed ℝ V}
    (hports : config.ports = Dict.empty.set "joint".toList none) (interfaceName : Str)
    {instances : Dict Str Packed} {instanceName : Str} {location : Packed}
    (hget : instances.get? instanceName = some location) :
    ∃ port, instancePort config interfaceName (some instances) (some instanceName) = some port ∧
      portLocation port = rigidPacking.unpack location := by
  have hitems : (interfacePorts config).items = [("joint".toList, ⟨none, ()⟩)] := by
    rw [interfacePorts, hports]
    rfl
  have hinstance : (makeInherits interfaceName (inheritConfig (some instances))
      (interfacePorts config)).instances.get? instanceName = some (rigidPacking.unpack location) := by
    simp only [makeInherits, inheritConfig, InheritConfig.normalized, Dict.get?_mapValues, hget,
      Option.map_some, Option.getD_some]
  refine ⟨_, by simp only [instancePort, hinstance, hitems, Option.map_some, only,
    Option.bind_eq_bind, Option.bind_some]; rfl, rfl⟩

/-- The port of a plug is the one of its interface. -/
theorem instancePort_plug {config : InterfaceConfig Packed ℝ V} {location : Packed}
    (hports : config.ports = Dict.empty.set "joint".toList (some location)) (interfaceName : Str) :
    ∃ port, instancePort config interfaceName none none = some port ∧
      portLocation port = rigidPacking.unpack location := by
  have hitems : (interfacePorts config).items =
      [("joint".toList, ⟨some (rigidPacking.unpack location), ()⟩)] := by
    rw [interfacePorts, hports]
    rfl
  have hinstances : (makeInherits interfaceName (inheritConfig none)
      (interfacePorts config)).instances.items = [([], 1)] := rfl
  refine ⟨_, by simp only [instancePort, hinstances, hitems, only, Option.bind_eq_bind,
    Option.bind_some]; rfl, ?_⟩
  exact one_mul _

/-! ## Links in place -/

/-- **What a connection says of a joint**: the part is at the joint's place on the target, moved by the
joint. -/
theorem connected_eq {converted : Converted Packed ℝ V} {children : List Child} {target : Child}
    {entries : Entries Packed} {joint : Joint RigidTransform ℝ V} {pair : Str × Str}
    {instances : Dict Str Packed} {location : Packed} (toParams : Dict Str ℝ)
    (hunit : ∀ axis, joint.axis = some axis → axisNorm axis = 1)
    (hpair : IsPair facing converted.interfaces (parametersOf (jointRecord degrees joint)) pair)
    (htarget : children.find? (fun child => child.name = target.name) = some target)
    (hsocket : target.entries.get? pair.1 = some (some instances))
    (hinstance : instances.get? joint.name = some location) (hplug : entries.get? pair.2 = some none) :
    connectedLocation converted children entries
        ⟨pair.2, target.name, pair.1, joint.name, toParams⟩ =
      some (target.location *
        (rigidPacking.unpack location * joint.motion (givenValue toParams joint))) := by
  obtain ⟨socket, hgetSocket, hsocketPorts, -, hparameters⟩ := hpair.socket
  obtain ⟨plug, hgetPlug, hplugPorts, -⟩ := hpair.plug
  obtain ⟨targetPort, htargetPort, htargetLocation⟩ :=
    instancePort_socket hsocketPorts pair.1 hinstance
  obtain ⟨sourcePort, hsourcePort, hsourceLocation⟩ := instancePort_plug hplugPorts pair.2
  obtain ⟨offsets, hoffsets, hmotion⟩ := targetOffsets_conj hunit toParams
  have hfacing : rigidPacking.unpack facing = rigid halfTurn := rfl
  rw [← hparameters] at hoffsets
  simp only [connectedLocation, htarget, hgetSocket, hgetPlug, hsocket, hplug, htargetPort,
    hsourcePort, turnAround_eq, hoffsets, Option.bind_eq_bind, Option.bind_some]
  congr 1
  simp only [connectionLocation, foldl_offsets, List.prod_nil, mul_one, htargetLocation,
    hsourceLocation, hfacing, ← hmotion, mul_assoc]

/-- A joint whose link is connected to none does not move. -/
theorem jointValue_of_free {links : Dict Str (LinkRecord Packed)} (toParams : Str → Dict Str ℝ)
    {joint : Joint RigidTransform ℝ V} (h : attachedTo links joint.child = none) :
    jointValue links toParams joint = 0 := by
  rw [jointValue, h]

theorem jointValue_of_attached {links : Dict Str (LinkRecord Packed)} (toParams : Str → Dict Str ℝ)
    {joint : Joint RigidTransform ℝ V} {p : Str} (h : attachedTo links joint.child = some p) :
    jointValue links toParams joint = givenValue (toParams joint.child) joint := by
  rw [jointValue, givenValue, h]
  cases movementParameter (jointRecord degrees joint) with
  | none => rfl
  | some parameter => rfl

theorem attachedTo_of_notMem {links : Dict Str (LinkRecord Packed)} {linkName : Str}
    (h : links.get? linkName = none) : attachedTo links linkName = none := by
  rw [attachedTo, above, parentOf, h]
  rfl

end

/-! ## The assembly -/

section

variable {V : Type} [DecidableEq V]

/-- The instance that a connection names is declared on the link that it names, where the joints between
the two put it. -/
def Declared (robot : Robot RigidTransform Packed ℝ V) (assemblyName : Str)
    (converted : Converted Packed ℝ V) (linkName : Str) (connect : Connect ℝ) : Prop :=
  ∃ place chain joint instances location, Visit robot linkName place chain ∧
    place.ancestor = some connect.name ∧ chain.getLast? = some joint ∧
    connect.toInstance = joint.name ∧
    Implements assemblyName converted.parts connect.name connect.to_ (some instances) ∧
    instances.get? connect.toInstance = some location ∧
    rigidPacking.unpack location = (chain.map Joint.origin).prod

/-- Where URDF has the links, at the values that a document gives. -/
def Robot.kinematics (robot : Robot RigidTransform Packed ℝ V)
    (links : Dict Str (LinkRecord Packed)) (toParams : Str → Dict Str ℝ) :
    List (Edge Str RigidTransform) :=
  robot.edges fun joint => joint.origin * joint.motion (jointValue links toParams joint)

variable {robot : Robot RigidTransform Packed ℝ V} {links : Dict Str (LinkRecord Packed)}
  (hlinks : ∀ linkName record,
    links.get? linkName = some record ↔ Recorded rigidPacking robot linkName record)

include hlinks

omit [DecidableEq V] in
/-- The joints of a chain do not move, but for the last one. -/
theorem still_dropLast (toParams : Str → Dict Str ℝ) {linkName : Str} {place : Place RigidTransform}
    {chain : List (Joint RigidTransform ℝ V)} (hvisit : Visit robot linkName place chain) :
    ∀ joint ∈ chain.dropLast, joint.motion (jointValue links toParams joint) = 1 := by
  intro joint hjoint
  have hgeometry := hvisit.dropLast_child joint hjoint
  have hfree : links.get? joint.child = none := by
    rw [Option.eq_none_iff_forall_not_mem]
    intro record hrecord
    obtain ⟨place', chain', geometry, -, hget, hempty, -⟩ := (hlinks _ _).1 hrecord
    rw [hgeometry] at hget
    obtain rfl := Option.some.inj hget
    exact absurd hempty (by simp)
  rw [jointValue_of_free toParams (attachedTo_of_notMem hfree), motion_zero]

omit [DecidableEq V] in
/-- The joints above a link that hangs from none do not move. -/
theorem still_chain (toParams : Str → Dict Str ℝ) {linkName : Str} {place : Place RigidTransform}
    {chain : List (Joint RigidTransform ℝ V)} (hvisit : Visit robot linkName place chain)
    (hfree : attachedTo links linkName = none) :
    ∀ joint ∈ chain, joint.motion (jointValue links toParams joint) = 1 := by
  intro joint hjoint
  rcases Visit.mem_chain hjoint with hlast | hdrop
  · rw [← hvisit.last_child hlast] at hfree
    rw [jointValue_of_free toParams hfree, motion_zero]
  · exact still_dropLast hlinks toParams hvisit joint hdrop

/-- The children that are there stand where the joints put them. -/
structure Standing (robot : Robot RigidTransform Packed ℝ V) (links : Dict Str (LinkRecord Packed))
    (toParams : Str → Dict Str ℝ) (assemblyName : Str) (converted : Converted Packed ℝ V)
    (done : List (AssyNode Packed ℝ)) (children : List Child) : Prop where
  names : children.map Child.name = done.map AssyNode.name
  reached : ∀ child ∈ children,
    Reaches (robot.kinematics links toParams) robot.root child.name child.location
  entries : ∀ child ∈ children, ∃ part,
    converted.parts.get? (partName assemblyName child.name) = some part ∧
      child.entries = part.entries

omit [DecidableEq V] in
/-- **One node.** -/
theorem handleNode_standing
    (hunit : ∀ joint ∈ robot.joints, ∀ axis, joint.axis = some axis → axisNorm axis = 1)
    (toParams : Str → Dict Str ℝ) {assemblyName : Str} {converted : Converted Packed ℝ V}
    {done : List (AssyNode Packed ℝ)} {node : AssyNode Packed ℝ} {children : List Child}
    (hstanding : Standing robot links toParams assemblyName converted done children)
    (hpart : node.part = ':' :: partName assemblyName node.name)
    (hknown : ∃ part, converted.parts.get? (partName assemblyName node.name) = some part)
    (hmem : node.name ∈ links.keys)
    (hbefore : ∀ p, attachedTo links node.name = some p → p ∈ done.map AssyNode.name)
    (hwritten : Written rigidPacking degrees robot facing assemblyName converted node) :
    ∃ children', handleNode (converted.given toParams) children (node.given toParams) =
        some children' ∧
      Standing robot links toParams assemblyName converted (done ++ [node]) children' := by
  obtain ⟨part, hget⟩ := hknown
  -- it is enough to know where the node is put
  suffices hlocation : ∃ location,
      placedLocation (converted.given toParams) children part.entries (node.given toParams).placing =
        some location ∧
      Reaches (robot.kinematics links toParams) robot.root node.name location by
    obtain ⟨location, hplaced, hreaches⟩ := hlocation
    have hname : (node.given toParams).name = node.name ∧ (node.given toParams).part = node.part := by
      unfold AssyNode.given
      split <;> exact ⟨rfl, rfl⟩
    have hgiven : (converted.given toParams).parts.get? (node.given toParams).part.tail = some part := by
      rw [hname.2, hpart]
      exact hget
    refine ⟨children ++ [⟨node.name, location, part.entries⟩], ?_, ?_, ?_, ?_⟩
    · simp only [handleNode, hgiven, hplaced, hname.1, Option.bind_eq_bind, Option.bind_some]
    · rw [List.map_append, List.map_append, hstanding.names]
      rfl
    · intro child hchild
      rcases List.mem_append.1 hchild with hchild | hchild
      · exact hstanding.reached child hchild
      · obtain rfl := List.mem_singleton.1 hchild
        exact hreaches
    · intro child hchild
      rcases List.mem_append.1 hchild with hchild | hchild
      · exact hstanding.entries child hchild
      · obtain rfl := List.mem_singleton.1 hchild
        exact ⟨part, hget, rfl⟩
  cases hwritten with
  | @placed place chain hvisit hancestor hplacing =>
    have hfree : attachedTo links node.name = none :=
      (attachedTo_eq rigidPacking hlinks hvisit hmem).trans hancestor
    refine ⟨place.relative, ?_,
      hvisit.reaches_top (still_chain hlinks toParams hvisit hfree) hancestor⟩
    have hgiven : (node.given toParams).placing =
        .location (rigidPacking.asPacked place.relative) := by
      rw [AssyNode.given, hplacing]
      exact hplacing
    rw [hgiven, placedLocation, rigidPacking.unpack_asPacked]
  | @connected place chain p joint pair instances hvisit hancestor hlast hpair hplacing hsocket
      hinstance hplug =>
    have hattached : attachedTo links node.name = some p :=
      (attachedTo_eq rigidPacking hlinks hvisit hmem).trans hancestor
    -- the link above is there already
    obtain ⟨target, htarget, htargetMem, rfl⟩ : ∃ target,
        children.find? (fun child => child.name = p) = some target ∧ target ∈ children ∧
          target.name = p := by
      have hp := hbefore p hattached
      rw [← hstanding.names] at hp
      obtain ⟨child, hchild, rfl⟩ := List.mem_map.1 hp
      have hsome : (children.find? fun c => c.name = child.name).isSome :=
        List.find?_isSome.2 ⟨child, hchild, decide_eq_true rfl⟩
      obtain ⟨target, htarget⟩ := Option.isSome_iff_exists.1 hsome
      have hfound := List.find?_some htarget
      exact ⟨target, htarget, List.mem_of_find?_eq_some htarget, of_decide_eq_true hfound⟩
    obtain ⟨targetPart, htargetPart, htargetEntries⟩ := hstanding.entries target htargetMem
    obtain ⟨part₁, hpart₁, hentry₁⟩ := hsocket
    rw [htargetPart] at hpart₁
    obtain rfl := Option.some.inj hpart₁
    obtain ⟨part₂, hpart₂, hentry₂⟩ := hplug
    rw [hget] at hpart₂
    obtain rfl := Option.some.inj hpart₂
    rw [← htargetEntries] at hentry₁
    have hjoint := hvisit.chain_mem joint (List.mem_of_getLast? hlast)
    have hconnected : connectedLocation (converted.given toParams) children part.entries _ = some _ :=
      connected_eq (toParams node.name) (hunit joint hjoint) hpair htarget hentry₁ hinstance hentry₂
    rw [rigidPacking.unpack_asPacked] at hconnected
    have hgiven : (node.given toParams).placing =
        .connect ⟨pair.2, target.name, pair.1, joint.name, toParams node.name⟩ := by
      rw [AssyNode.given, hplacing]
    rw [hgiven]
    refine ⟨_, hconnected, ?_⟩
    have hvalue : jointValue links toParams joint = givenValue (toParams node.name) joint := by
      rw [← hvisit.last_child hlast] at hattached ⊢
      exact jointValue_of_attached toParams hattached
    have hreaches := hvisit.reaches (still_dropLast hlinks toParams hvisit) hancestor
      (hstanding.reached target htargetMem) hlast
    rw [hvalue] at hreaches
    exact hreaches

end

/-- **Every link is where the joints put it.**  The walk of a joint tree ends, and the assembly that is
written from its table, with any parameters given, has the links of the table at the poses of URDF's
kinematics: each joint at the value that is given for the link below it, and at zero where there is none.
Every connection names a link that is listed before, and an instance that is declared there, where the
joints between the two put it. -/
theorem urdfToAssy_places {V : Type} [DecidableEq V] (robot : Robot RigidTransform Packed ℝ V)
    (hunit : ∀ joint ∈ robot.joints, ∀ axis, joint.axis = some axis → axisNorm axis = 1)
    (assemblyName : Str) (toParams : Str → Dict Str ℝ) :
    ∃ c, walk rigidPacking robot = some c ∧ (c.links.keys ≠ [] → ∃ converted children,
      urdfToAssy c.links (jointTable degrees robot) facing assemblyName = some converted ∧
      assemble (converted.given toParams) = some children ∧
      (children.map Child.name).Perm c.links.keys ∧
      (∀ child ∈ children, ∀ pose,
        Reaches (robot.kinematics c.links toParams) robot.root child.name pose ↔
          pose = child.location) ∧
      ∀ before node after connect, converted.links = before ++ node :: after →
        node.placing = .connect connect →
          connect.name ∈ before.map AssyNode.name ∧
            Declared robot assemblyName converted node.name connect) := by
  obtain ⟨c, hwalk, hlinks⟩ := walk_links rigidPacking robot
  refine ⟨c, hwalk, fun hne => ?_⟩
  obtain ⟨converted, hconverted, hnames, hnodes⟩ :=
    urdfToAssy_spec degrees hlinks hne facing assemblyName
  obtain ⟨hperm, hfirst⟩ := linkOrder_spec rigidPacking hlinks
  have hmem : ∀ node ∈ converted.links, node.name ∈ c.links.keys := by
    intro node hnode
    refine hperm.mem_iff.1 ?_
    rw [← hnames]
    exact List.mem_map_of_mem hnode
  -- the link that a node hangs from is listed before it
  have hbefore : ∀ before node after, converted.links = before ++ node :: after →
      ∀ p, attachedTo c.links node.name = some p → p ∈ before.map AssyNode.name := by
    intro before node after hsplit p hp
    refine hfirst (before.map AssyNode.name) node.name (after.map AssyNode.name) ?_ p hp
    rw [← hnames, hsplit, List.map_append, List.map_cons]
  obtain ⟨children, hassemble, hstanding⟩ : ∃ children,
      assemble (converted.given toParams) = some children ∧
        Standing robot c.links toParams assemblyName converted converted.links children := by
    have hfold : assemble (converted.given toParams) = converted.links.foldlM
        (fun children node => handleNode (converted.given toParams) children (node.given toParams)) [] :=
      List.foldlM_map
    rw [hfold]
    refine foldlM_spec (P := Standing robot c.links toParams assemblyName converted) ⟨rfl, ?_, ?_⟩ ?_
    · exact fun child hchild => absurd hchild List.not_mem_nil
    · exact fun child hchild => absurd hchild List.not_mem_nil
    · intro done node rest children hsplit hstanding
      have hnode : node ∈ converted.links := by
        rw [hsplit]
        exact List.mem_append_right _ List.mem_cons_self
      obtain ⟨hpart, hknown, hwritten⟩ := hnodes node hnode
      exact handleNode_standing hlinks hunit toParams hstanding hpart hknown (hmem node hnode)
        (hbefore done node rest hsplit) hwritten
  refine ⟨converted, children, hconverted, hassemble, ?_, ?_, ?_⟩
  · rw [hstanding.names, hnames]
    exact hperm
  · intro child hchild pose
    have hreached := hstanding.reached child hchild
    refine ⟨fun hpose => reaches_unique hpose hreached, ?_⟩
    rintro rfl
    exact hreached
  · intro before node after connect hsplit hplacing
    have hnode : node ∈ converted.links := by
      rw [hsplit]
      exact List.mem_append_right _ List.mem_cons_self
    obtain ⟨-, -, hwritten⟩ := hnodes node hnode
    cases hwritten with
    | placed _ _ hplaced =>
      rw [hplaced] at hplacing
      exact absurd hplacing (by simp)
    | @connected place chain p joint pair instances hvisit hancestor hlast hpair hconnect hsocket
        hinstance hplug =>
      rw [hconnect] at hplacing
      obtain rfl := Placing.connect.inj hplacing
      refine ⟨hbefore before node after hsplit p ?_, place, chain, joint, instances, _, hvisit,
        hancestor, hlast, rfl, hsocket, hinstance, ?_⟩
      · exact (attachedTo_eq rigidPacking hlinks hvisit (hmem node hnode)).trans hancestor
      · rw [rigidPacking.unpack_asPacked]
        exact hvisit.chain_eq.2

/-- An arm on a base, which turns about the third axis. -/
def arm : Robot RigidTransform Packed ℝ Unit where
  links := Dict.ofPairs
    [("base".toList, [rigidPacking.asPacked 1]), ("arm".toList, [rigidPacking.asPacked 1])]
  joints :=
    [⟨"shoulder".toList, .continuous, "base".toList, "arm".toList, 1, some (0, 0, 1), none, none,
      Dict.empty, Dict.empty⟩]
  root := "base".toList
  names := List.nodup_singleton _
  one_parent := List.nodup_singleton _
  root_free := by
    rw [List.map_singleton, List.mem_singleton]
    decide

theorem urdfToAssy_places_arm :
    ∃ c converted children, walk rigidPacking arm = some c ∧
      urdfToAssy c.links (jointTable degrees arm) facing "lamp".toList = some converted ∧
      assemble (converted.given fun _ => Dict.empty.set "angle".toList 30) = some children ∧
      ∀ child ∈ children, ∀ pose,
        Reaches (arm.kinematics c.links fun _ => Dict.empty.set "angle".toList 30) arm.root
          child.name pose ↔ pose = child.location := by
  have hunit : ∀ joint ∈ arm.joints, ∀ axis, joint.axis = some axis → axisNorm axis = 1 := by
    intro joint hjoint axis haxis
    obtain rfl := List.mem_singleton.1 hjoint
    obtain rfl := Option.some.inj haxis
    simp [axisNorm]
  obtain ⟨c, hwalk, hplaced⟩ := urdfToAssy_places arm hunit "lamp".toList
    fun _ => Dict.empty.set "angle".toList 30
  obtain ⟨c', hwalk', hlinks⟩ := walk_links rigidPacking arm
  rw [hwalk] at hwalk'
  obtain rfl := Option.some.inj hwalk'
  have hbase := (hlinks "base".toList _).2 ⟨_, _, [rigidPacking.asPacked 1], Visit.root, rfl, rfl, rfl⟩
  have hne : c.links.keys ≠ [] :=
    List.ne_nil_of_mem (Dict.mem_keys.2 ⟨_, Dict.get?_eq_some.1 hbase⟩)
  obtain ⟨converted, children, hconverted, hassemble, -, hchildren, -⟩ := hplaced hne
  exact ⟨c, converted, children, hwalk, hconverted, hassemble, hchildren⟩

end

end PartCAD.Convert
