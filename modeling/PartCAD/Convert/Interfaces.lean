import Mathlib.Algebra.Order.Field.Basic
import PartCAD.Convert.JointTree

/-!
# The interfaces that joints become

Each joint becomes a socket, which the link above implements where the joint is, and a plug, which the
link below implements at its own origin, turned to face the socket.  Joints that say the same share one
pair.

* `buildInterfaces_spec` : **every joint has its pair**, with the movement that it allows;
* `movementParameter_congr` : joints that share a pair move alike.
-/

namespace PartCAD.Convert

open PartCAD.Lib PartCAD.Lib.Text PartCAD.Geometry

/-! ## Joints in the terms of interfaces -/

/-- `motion`; what it says besides are the soft limits and what it mimics. -/
structure Motion (R V : Type) where
  type : JointType
  axis : Option (Vec R)
  lower : Option R
  upper : Option R
  others : Dict Str V

/-- What `joint_record` says about a joint.  The motion names the type too. -/
structure JointRecord (R V : Type) where
  name : Str
  type : JointType
  parent : Str
  child : Str
  motion : Motion R V
  physics : Dict Str V
  typed : motion.type = type

inductive ParameterType where
  | turn | move
  deriving DecidableEq

/-- `InterfaceParameter` -/
structure InterfaceParameter (R : Type) where
  type : ParameterType
  dir : Vec R
  min : R
  max : R
  default : R

/-- An interface that is written. -/
structure InterfaceConfig (P R V : Type) where
  desc : Str
  ports : Dict Str (Option P)
  motion : Option (Motion R V)
  physics : Dict Str V
  parameters : Dict Str (InterfaceParameter R)
  mates : Option Str

/-- What tells two joints apart.  The code compares texts in which these are spelled out. -/
structure Signature (R V : Type) where
  type : JointType
  axis : Option (Vec R)
  lower : Option R
  upper : Option R
  others : List (Str × V)
  physics : List (Str × V)
  deriving DecidableEq

/-- `interfaces`, `by_signature` and `by_joint` -/
structure Interfaces (P R V : Type) [DecidableEq R] [DecidableEq V] where
  interfaces : Dict Str (InterfaceConfig P R V)
  bySignature : Dict (Signature R V) (Str × Str)
  byJoint : Dict Str (Str × Str)

/-- How a type is spelled. -/
def JointType.text : JointType → Str
  | .unknown => "unknown".toList
  | .revolute => "revolute".toList
  | .continuous => "continuous".toList
  | .prismatic => "prismatic".toList
  | .floating => "floating".toList
  | .fixed => "fixed".toList
  | .planar => "planar".toList

/-- `JOINT_PARAMETERS` -/
def jointParameters : JointType → Option ParameterType
  | .revolute => some .turn
  | .continuous => some .turn
  | .prismatic => some .move
  | _ => none

def isAngular (type : JointType) : Bool := type = .revolute ∨ type = .continuous

section

variable {L P R V : Type} [Field R] [LinearOrder R] [DecidableEq V] (degrees : R → R) (facing : P)

/-- `to_pc` -/
def toPc (joint : Joint L R V) (v : R) : R := if isAngular joint.type then degrees v else v * 1000

/-- `joint_record` -/
def jointRecord (joint : Joint L R V) : JointRecord R V where
  name := joint.name
  type := joint.type
  parent := joint.parent
  child := joint.child
  motion :=
    { type := joint.type
      axis := joint.axis
      lower := joint.lower.map (toPc degrees joint)
      upper := joint.upper.map (toPc degrees joint)
      others := joint.others }
  physics := joint.physics
  typed := rfl

/-- `joint_axis_in_port_frame` -/
def jointAxisInPortFrame (axis : Vec R) : Vec R := (axis.2.1, axis.1, -axis.2.2)

def sortedItems (d : Dict Str V) : List (Str × V) := d.items.mergeSort fun p q => p.1 ≤ q.1

/-- `joint_signature` -/
def jointSignature (joint : JointRecord R V) : Signature R V where
  type := joint.motion.type
  axis := joint.motion.axis
  lower := joint.motion.lower
  upper := joint.motion.upper
  others := sortedItems joint.motion.others
  physics := sortedItems joint.physics

/-- The range of a parameter; a continuous joint has a full turn either way. -/
def parameterRange (joint : JointRecord R V) : Option (R × R) :=
  if joint.type = .continuous then some (-360, 360)
  else if joint.motion.lower.isSome ∨ joint.motion.upper.isSome then
    some (joint.motion.lower.getD 0, joint.motion.upper.getD 0)
  else none

def parameterName : ParameterType → Str
  | .turn => "angle".toList
  | .move => "offset".toList

/-- `movement_parameter` -/
def movementParameter (joint : JointRecord R V) : Option (Str × InterfaceParameter R) := do
  let kind ← jointParameters joint.type
  let axis ← joint.motion.axis
  let (lower, upper) ← parameterRange joint
  some (parameterName kind,
    { type := kind
      dir := jointAxisInPortFrame axis
      min := lower
      max := upper
      default := if lower ≤ 0 ∧ 0 ≤ upper then 0 else lower })

/-! ## The pairs -/

/-- What stands between the base and the end of a name. -/
def suffixText : ℕ → Str
  | 0 => []
  | k + 1 => '-' :: Nat.toDigits 10 (k + 1)

def socketName (base : Str) (suffix : ℕ) : Str := base ++ suffixText suffix ++ "-socket".toList

def plugName (base : Str) (suffix : ℕ) : Str := base ++ suffixText suffix ++ "-plug".toList

/-- `"%s/%s" % (assembly_name, ...)` -/
def pairBase (assemblyName : Str) (joint : JointRecord R V) : Str :=
  assemblyName ++ '/' :: if joint.type = .fixed then "fixed".toList else joint.name

def isTaken (interfaces : Dict Str (InterfaceConfig P R V)) (base : Str) (suffix : ℕ) : Bool :=
  socketName base suffix ∈ interfaces.keys || plugName base suffix ∈ interfaces.keys

/-- The loop over the suffixes. -/
def freeSuffix (interfaces : Dict Str (InterfaceConfig P R V)) (base : Str) : ℕ :=
  firstIndex (isTaken interfaces base) interfaces.keys.length 0

def parametersOf (joint : JointRecord R V) : Dict Str (InterfaceParameter R) :=
  match movementParameter joint with
  | none => Dict.empty
  | some parameter => Dict.empty.set parameter.1 parameter.2

def socketConfig (joint : JointRecord R V) : InterfaceConfig P R V where
  desc := "URDF ".toList ++ joint.type.text ++
    " joint, as seen from the parent link. Used by: ".toList ++ joint.name
  ports := Dict.empty.set "joint".toList none
  motion := some joint.motion
  physics := joint.physics
  parameters := parametersOf joint
  mates := none

def plugConfig (joint : JointRecord R V) (socket : Str) : InterfaceConfig P R V where
  desc := "URDF ".toList ++ joint.type.text ++ " joint, as seen from the child link".toList
  ports := Dict.empty.set "joint".toList (some facing)
  motion := none
  physics := Dict.empty
  parameters := Dict.empty
  mates := some socket

/-- `interfaces[socket]["desc"] += ", %s" % joint_name` -/
def describeUse (interfaces : Dict Str (InterfaceConfig P R V)) (socket jointName : Str) :
    Option (Dict Str (InterfaceConfig P R V)) :=
  (interfaces.get? socket).map fun config =>
    interfaces.set socket { config with desc := config.desc ++ ", ".toList ++ jointName }

/-- The body of the loop of `build_interfaces`; `none` is a `KeyError`. -/
def addPair (assemblyName : Str) (joints : Dict Str (JointRecord R V)) (s : Interfaces P R V)
    (jointName : Str) : Option (Interfaces P R V) := do
  let joint ← joints.get? jointName
  match s.bySignature.get? (jointSignature joint) with
  | some pair =>
    let interfaces ← describeUse s.interfaces pair.1 jointName
    some { s with interfaces := interfaces, byJoint := s.byJoint.set jointName pair }
  | none =>
    let base := pairBase assemblyName joint
    let suffix := freeSuffix s.interfaces base
    let socket := socketName base suffix
    let plug := plugName base suffix
    some
      { interfaces :=
          (s.interfaces.set socket (socketConfig joint)).set plug (plugConfig facing joint socket)
        bySignature := s.bySignature.set (jointSignature joint) (socket, plug)
        byJoint := s.byJoint.set jointName (socket, plug) }

def Interfaces.empty : Interfaces P R V := ⟨Dict.empty, Dict.empty, Dict.empty⟩

/-- `build_interfaces` -/
def buildInterfaces (assemblyName : Str) (joints : Dict Str (JointRecord R V))
    (usedJoints : List Str) : Option (Interfaces P R V) :=
  usedJoints.foldlM (addPair facing assemblyName joints) Interfaces.empty

/-! ## What a signature tells -/

omit [DecidableEq V] in
/-- **Joints that share a pair move alike.** -/
theorem movementParameter_congr {joint joint' : JointRecord R V}
    (h : jointSignature joint = jointSignature joint') :
    movementParameter joint = movementParameter joint' := by
  simp only [jointSignature, Signature.mk.injEq] at h
  obtain ⟨htype, haxis, hlower, hupper, -, -⟩ := h
  have htype : joint.type = joint'.type := by rw [← joint.typed, ← joint'.typed, htype]
  have hrange : parameterRange joint = parameterRange joint' := by
    simp only [parameterRange, htype, hlower, hupper]
  simp only [movementParameter, htype, haxis, hrange]

/-! ## Names -/

theorem suffixText_injective : Function.Injective suffixText := by
  intro m n h
  match m, n with
  | 0, 0 => rfl
  | 0, n + 1 => exact absurd h (by simp [suffixText])
  | m + 1, 0 => exact absurd h (by simp [suffixText])
  | m + 1, n + 1 => exact toDigits_injective (List.cons.inj h).2

theorem suffix_of_name {base tail : Str} {k k' : ℕ}
    (h : base ++ suffixText k ++ tail = base ++ suffixText k' ++ tail) : k = k' :=
  suffixText_injective (List.append_cancel_left (List.append_cancel_right h))

theorem socketName_ne_plugName (base base' : Str) (k k' : ℕ) :
    socketName base k ≠ plugName base' k' := by
  intro h
  have hsocket : ∀ s : Str, (s ++ "-socket".toList).getLast? = some 't' := by
    intro s
    rw [List.getLast?_append_of_ne_nil _ (by decide)]
    decide
  have hplug : ∀ s : Str, (s ++ "-plug".toList).getLast? = some 'g' := by
    intro s
    rw [List.getLast?_append_of_ne_nil _ (by decide)]
    decide
  have hlast := congrArg List.getLast? h
  rw [socketName, plugName, hsocket, hplug] at hlast
  exact absurd hlast (by decide)

omit [Field R] [LinearOrder R] [DecidableEq V] in
/-- **The names of a new pair are new.** -/
theorem freeSuffix_free (interfaces : Dict Str (InterfaceConfig P R V)) (base : Str) :
    socketName base (freeSuffix interfaces base) ∉ interfaces.keys ∧
      plugName base (freeSuffix interfaces base) ∉ interfaces.keys := by
  suffices hfree : isTaken interfaces base (freeSuffix interfaces base) = false by
    simpa [isTaken] using hfree
  refine firstIndex_free (fun q k => q = socketName base k ∨ q = plugName base k) ?_ ?_
  · intro k hk
    rcases Bool.or_eq_true_iff.1 hk with hk | hk
    · exact ⟨_, of_decide_eq_true hk, Or.inl rfl⟩
    · exact ⟨_, of_decide_eq_true hk, Or.inr rfl⟩
  · rintro q k k' (rfl | rfl) (h | h)
    · exact suffix_of_name h
    · exact absurd h (socketName_ne_plugName base base k k')
    · exact absurd h.symm (socketName_ne_plugName base base k' k)
    · exact suffix_of_name h

/-! ## The loop -/

/-- A pair of interfaces for a joint of some parameters: the socket's port is where it is implemented,
and the plug's is turned. -/
structure IsPair (interfaces : Dict Str (InterfaceConfig P R V))
    (parameters : Dict Str (InterfaceParameter R)) (pair : Str × Str) : Prop where
  socket : ∃ config, interfaces.get? pair.1 = some config ∧
    config.ports = Dict.empty.set "joint".toList none ∧ config.mates = none ∧
      config.parameters = parameters
  plug : ∃ config, interfaces.get? pair.2 = some config ∧
    config.ports = Dict.empty.set "joint".toList (some facing) ∧ config.mates = some pair.1

/-- What is said about interfaces grows, but for their descriptions. -/
def Extends (interfaces interfaces' : Dict Str (InterfaceConfig P R V)) : Prop :=
  ∀ q config, interfaces.get? q = some config → ∃ config', interfaces'.get? q = some config' ∧
    config'.ports = config.ports ∧ config'.mates = config.mates ∧
      config'.parameters = config.parameters

omit [DecidableEq V] [Field R] [LinearOrder R] in
variable {facing} in
theorem IsPair.mono {interfaces interfaces' : Dict Str (InterfaceConfig P R V)}
    {parameters : Dict Str (InterfaceParameter R)} {pair : Str × Str}
    (h : IsPair facing interfaces parameters pair) (hext : Extends interfaces interfaces') :
    IsPair facing interfaces' parameters pair where
  socket := by
    obtain ⟨config, hget, hports, hmates, hparameters⟩ := h.socket
    obtain ⟨config', hget', hports', hmates', hparameters'⟩ := hext _ _ hget
    exact ⟨config', hget', hports'.trans hports, hmates'.trans hmates, hparameters'.trans hparameters⟩
  plug := by
    obtain ⟨config, hget, hports, hmates⟩ := h.plug
    obtain ⟨config', hget', hports', hmates', -⟩ := hext _ _ hget
    exact ⟨config', hget', hports'.trans hports, hmates'.trans hmates⟩

omit [DecidableEq V] [Field R] [LinearOrder R] in
/-- A socket is no plug. -/
theorem IsPair.ne {interfaces : Dict Str (InterfaceConfig P R V)}
    {parameters parameters' : Dict Str (InterfaceParameter R)} {pair pair' : Str × Str}
    (h : IsPair facing interfaces parameters pair) (h' : IsPair facing interfaces parameters' pair') :
    pair.1 ≠ pair'.2 := by
  intro heq
  obtain ⟨config, hget, -, hmates, -⟩ := h.socket
  obtain ⟨config', hget', -, hmates'⟩ := h'.plug
  rw [← heq, hget] at hget'
  obtain rfl := Option.some.inj hget'
  rw [hmates] at hmates'
  exact absurd hmates' (by simp)

omit [DecidableEq V] [Field R] [LinearOrder R] in
theorem extends_set {interfaces : Dict Str (InterfaceConfig P R V)} {q : Str}
    (hq : q ∉ interfaces.keys) (config : InterfaceConfig P R V) :
    Extends interfaces (interfaces.set q config) := by
  intro q' config' hget
  have hne : q ≠ q' := by
    rintro rfl
    exact hq (Dict.mem_keys.2 ⟨config', Dict.get?_eq_some.1 hget⟩)
  exact ⟨config', by rw [Dict.get?_set_of_ne _ _ hne, hget], rfl, rfl, rfl⟩

omit [DecidableEq V] [Field R] [LinearOrder R] in
/-- Noting a use of a socket. -/
theorem extends_describeUse {interfaces : Dict Str (InterfaceConfig P R V)} {socket : Str}
    {config : InterfaceConfig P R V} (hget : interfaces.get? socket = some config) (jointName : Str) :
    ∃ interfaces', describeUse interfaces socket jointName = some interfaces' ∧
      Extends interfaces interfaces' := by
  refine ⟨_, by rw [describeUse, hget]; rfl, fun q config' hget' => ?_⟩
  by_cases hq : socket = q
  · subst hq
    rw [hget] at hget'
    obtain rfl := Option.some.inj hget'
    exact ⟨_, Dict.get?_set_self _ _ _, rfl, rfl, rfl⟩
  · exact ⟨config', by rw [Dict.get?_set_of_ne _ _ hq, hget'], rfl, rfl, rfl⟩

/-- The interfaces of the joints that are done. -/
structure Built (joints : Dict Str (JointRecord R V)) (done : List Str) (s : Interfaces P R V) :
    Prop where
  signatures : ∀ signature pair, s.bySignature.get? signature = some pair →
    ∃ joint, jointSignature joint = signature ∧
      IsPair facing s.interfaces (parametersOf joint) pair
  joints : ∀ jointName ∈ done, ∃ joint pair, joints.get? jointName = some joint ∧
    s.byJoint.get? jointName = some pair ∧ IsPair facing s.interfaces (parametersOf joint) pair

/-- **One joint.** -/
theorem addPair_built {assemblyName : Str} {joints : Dict Str (JointRecord R V)} {done : List Str}
    {s : Interfaces P R V} (h : Built facing joints done s) {jointName : Str}
    {joint : JointRecord R V} (hjoint : joints.get? jointName = some joint) :
    ∃ s', addPair facing assemblyName joints s jointName = some s' ∧
      Built facing joints (done ++ [jointName]) s' := by
  -- it is enough that the interfaces grow, and that the joint is given a pair of its own parameters
  have hbuilt : ∀ (s' : Interfaces P R V) (pair : Str × Str), Extends s.interfaces s'.interfaces →
      s'.byJoint = s.byJoint.set jointName pair →
      IsPair facing s'.interfaces (parametersOf joint) pair →
      (s'.bySignature = s.bySignature ∨
        s'.bySignature = s.bySignature.set (jointSignature joint) pair) →
      Built facing joints (done ++ [jointName]) s' := by
    intro s' pair hext hby hpair hsignatures
    refine ⟨fun signature pair' hget => ?_, fun q hq => ?_⟩
    · have hold : s.bySignature.get? signature = some pair' ∨
          jointSignature joint = signature ∧ pair' = pair := by
        rcases hsignatures with heq | heq
        · exact Or.inl (heq ▸ hget)
        · rw [heq, Dict.get?_set] at hget
          split at hget <;> rename_i hsame
          · exact Or.inr ⟨hsame, (Option.some.inj hget).symm⟩
          · exact Or.inl hget
      rcases hold with hold | ⟨hsame, rfl⟩
      · obtain ⟨joint', hsame, hold⟩ := h.signatures signature pair' hold
        exact ⟨joint', hsame, hold.mono hext⟩
      · exact ⟨joint, hsame, hpair⟩
    · by_cases hself : jointName = q
      · subst hself
        exact ⟨joint, pair, hjoint, by rw [hby, Dict.get?_set_self], hpair⟩
      · have hq : q ∈ done := by simpa [Ne.symm hself] using hq
        obtain ⟨joint', pair', hjoint', hpair', hold⟩ := h.joints q hq
        exact ⟨joint', pair', hjoint', by rw [hby, Dict.get?_set_of_ne _ _ hself, hpair'],
          hold.mono hext⟩
  cases hsignature : s.bySignature.get? (jointSignature joint) with
  | some pair =>
    obtain ⟨joint', hsame, hpair⟩ := h.signatures _ _ hsignature
    obtain ⟨config, hget, -⟩ := hpair.socket
    obtain ⟨interfaces', hdescribe, hext⟩ := extends_describeUse hget jointName
    refine ⟨⟨interfaces', s.bySignature, s.byJoint.set jointName pair⟩, ?_,
      hbuilt _ pair hext rfl ?_ (Or.inl rfl)⟩
    · simp only [addPair, hjoint, hsignature, hdescribe, Option.bind_eq_bind, Option.bind_some]
    · have hparameters : parametersOf joint' = parametersOf joint := by
        simp only [parametersOf, movementParameter_congr hsame]
      exact hparameters ▸ hpair.mono hext
  | none =>
    obtain ⟨hsocket, hplug⟩ := freeSuffix_free s.interfaces (pairBase assemblyName joint)
    set suffix := freeSuffix s.interfaces (pairBase assemblyName joint) with hsuffix
    set socket := socketName (pairBase assemblyName joint) suffix with hsocketName
    set plug := plugName (pairBase assemblyName joint) suffix with hplugName
    have hne : socket ≠ plug := socketName_ne_plugName _ _ _ _
    refine ⟨⟨(s.interfaces.set socket (socketConfig joint)).set plug (plugConfig facing joint socket),
      s.bySignature.set (jointSignature joint) (socket, plug), s.byJoint.set jointName (socket, plug)⟩,
      ?_, hbuilt _ (socket, plug) ?_ rfl ⟨?_, ?_⟩ (Or.inr rfl)⟩
    · simp only [addPair, hjoint, hsignature, Option.bind_eq_bind, Option.bind_some]
      rfl
    · have hfirst := extends_set hsocket (socketConfig joint)
      have hplug' : plug ∉ (s.interfaces.set socket (socketConfig joint)).keys := by
        rw [Dict.mem_keys_set]
        exact fun hmem => hmem.elim (fun h => hne h.symm) hplug
      have hsecond := extends_set hplug' (plugConfig facing joint socket)
      intro q config hget
      obtain ⟨config₁, hget₁, hports₁, hmates₁, hparameters₁⟩ := hfirst q config hget
      obtain ⟨config₂, hget₂, hports₂, hmates₂, hparameters₂⟩ := hsecond q config₁ hget₁
      exact ⟨config₂, hget₂, hports₂.trans hports₁, hmates₂.trans hmates₁,
        hparameters₂.trans hparameters₁⟩
    · refine ⟨socketConfig joint, ?_, rfl, rfl, rfl⟩
      rw [Dict.get?_set_of_ne _ _ hne.symm, Dict.get?_set_self]
    · exact ⟨plugConfig facing joint socket, Dict.get?_set_self _ _ _, rfl, rfl⟩

/-- **Every joint has its pair**, with the movement that it allows. -/
theorem buildInterfaces_spec (assemblyName : Str) {joints : Dict Str (JointRecord R V)}
    {usedJoints : List Str} (h : ∀ jointName ∈ usedJoints, ∃ joint, joints.get? jointName = some joint) :
    ∃ s : Interfaces P R V, buildInterfaces facing assemblyName joints usedJoints = some s ∧
      Built facing joints usedJoints s := by
  refine foldlM_spec (P := Built facing joints) ⟨?_, ?_⟩ ?_
  · exact fun signature pair hget => absurd hget (by simp [Interfaces.empty])
  · exact fun q hq => absurd hq List.not_mem_nil
  · intro done jointName rest s hl hbuilt
    obtain ⟨joint, hjoint⟩ := h jointName (by rw [hl]; exact List.mem_append_right _ List.mem_cons_self)
    exact addPair_built facing hbuilt hjoint

end

end PartCAD.Convert
