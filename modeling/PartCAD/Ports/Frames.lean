import PartCAD.Assembly.Connect
import PartCAD.Ports.Instances

/-!
# Where the instances of an object are

An object has a port for every port of every instance, at every level of the hierarchy.  Where the tables of
the interfaces and of the object agree (`Sits`), the ports of an instance are those of its interface, all
moved by one frame: the product of the locations of the instances on the way to it.

* `moved_levels` : the ports of a level;
* `moved_listed` : **the ports of an instance that is listed**.
-/

namespace PartCAD.Ports

open PartCAD.Lib PartCAD.Assembly

section

variable {L B P : Type}

/-- An object has the ports of an interface, under the names that they get along a path, moved by a
frame. -/
def Moved [Monoid L] (ports interfacePorts : Dict Str (InterfacePort L B)) (path : List Str)
    (frame : L) : Prop :=
  ∀ p port, interfacePorts.get? p = some port →
    ∃ own, ports.get? (adoptedName path p) = some own ∧ portLocation own = frame * portLocation port

/-- The tables of every interface agree. -/
def AllSit [One L] [Mul L] (drawn : Str → B) : List (Str × Declaration L B P) → Prop
  | [] => True
  | (_, d) :: rest =>
    Sits (resolve drawn rest) (instantiate (resolve drawn rest) drawn d) ∧ AllSit drawn rest

variable [Monoid L] {interfaces : Str → Interface L B P}

/-- A port of an instance is where the port of the interface is, moved by the instance's location. -/
theorem Sits.own {obj : Interface L B P} (h : Sits interfaces obj) {interfaceName instanceName : Str}
    {location : L} (hrecorded : recorded obj.inherits interfaceName instanceName = some location) :
    Moved obj.ports (interfaces interfaceName).ports [instanceName] location := by
  intro p port hport
  obtain ⟨own, hown, hlocation⟩ := h interfaceName instanceName location hrecorded p port hport
  refine ⟨own, hown, ?_⟩
  rw [portLocation, hlocation, Option.getD_some, portLocation]
  cases port.location with
  | none => exact (mul_one location).symm
  | some own => rfl

theorem Moved.trans {ports middle inner : Dict Str (InterfacePort L B)} {instanceName : Str}
    {path : List Str} {a b : L} (hab : Moved ports middle [instanceName] a)
    (hbc : Moved middle inner path b) : Moved ports inner (instanceName :: path) (a * b) := by
  intro p port hport
  obtain ⟨own, hown, hlocation⟩ := hbc p port hport
  obtain ⟨outer, houter, hlocation'⟩ := hab _ own hown
  exact ⟨outer, houter, by rw [hlocation', hlocation, mul_assoc]⟩

/-- The levels below an object, when those below its parents are moved. -/
theorem moved_of_inherited {abstract : Str → Bool} {below : Str → List Str → List Event}
    (hbelow : ∀ name path l, Event.level l ∈ below name path → ∃ more frame,
      l.fullPath = path ++ more ∧
        Moved (interfaces name).ports (interfaces l.interfaceName).ports more frame)
    {obj : Interface L B P} (hsits : Sits interfaces obj) {path : List Str} {topLevel : Bool} {l : Level}
    (hl : Event.level l ∈ inheritedEvents interfaces abstract below obj.inherits path topLevel) :
    ∃ more frame, l.fullPath = path ++ more ∧
      Moved obj.ports (interfaces l.interfaceName).ports more frame := by
  obtain ⟨interfaceName, inherit, instanceName, location, hinherit, hinstance, hcases⟩ :=
    mem_inheritedEvents hl
  have hrecorded : recorded obj.inherits interfaceName instanceName = some location := by
    rw [recorded, Dict.get?_eq_some.2 hinherit, Option.bind_some, Dict.get?_eq_some.2 hinstance]
  have hown := hsits.own hrecorded
  rcases hcases with rfl | hl
  · exact ⟨[instanceName], location, rfl, hown⟩
  · obtain ⟨more, frame, hpath, hmoved⟩ := hbelow interfaceName _ l hl
    exact ⟨instanceName :: more, location * frame, by rw [hpath, List.append_assoc]; rfl,
      hown.trans hmoved⟩

variable (drawn : Str → B)

theorem moved_parentEvents {interfaces : List (Str × Declaration L B P)} (hordered : Ordered interfaces)
    (hsits : AllSit drawn interfaces) :
    ∀ name path l, Event.level l ∈ parentEvents drawn interfaces name path → ∃ more frame,
      l.fullPath = path ++ more ∧ Moved (resolve drawn interfaces name).ports
        (resolve drawn interfaces l.interfaceName).ports more frame := by
  induction interfaces with
  | nil =>
    intro name path l hl
    exact absurd hl (by simp [parentEvents])
  | cons p rest ih =>
    obtain ⟨n, d⟩ := p
    obtain ⟨hn, hparents, hrest⟩ := hordered
    intro name path l hl
    have hlater : l.interfaceName ∈ rest.map Prod.fst := by
      rw [parentEvents] at hl
      split at hl
      · obtain ⟨interfaceName, inherit, instanceName, location, hinherit, -, hcases⟩ :=
          mem_inheritedEvents hl
        rcases hcases with rfl | hl
        · exact hparents _ (mem_keys_inherits.1 (Dict.mem_keys.2 ⟨inherit, hinherit⟩))
        · exact (portNames_of_mem_parentEvents drawn hrest hl).1
      · exact (portNames_of_mem_parentEvents drawn hrest hl).1
    rw [resolve_cons_of_mem hn hlater]
    rw [parentEvents] at hl
    rw [resolve]
    by_cases hname : n = name
    · rw [if_pos hname] at hl ⊢
      exact moved_of_inherited (ih hrest hsits.2) hsits.1 hl
    · rw [if_neg hname] at hl ⊢
      exact ih hrest hsits.2 name path l hl

/-- **The ports of a level** are those of its interface, moved by one frame. -/
theorem moved_levels {h : Hierarchy L B P} {d : Declaration L B P} (hall : AllSit drawn h.interfaces)
    (hsits : Sits (resolve drawn h.interfaces) (instantiate (resolve drawn h.interfaces) drawn d))
    {l : Level} (hl : l ∈ levels drawn h d) : ∃ frame,
      Moved (getPorts drawn h d) (resolve drawn h.interfaces l.interfaceName).ports l.fullPath frame := by
  obtain ⟨more, frame, hpath, hmoved⟩ := moved_of_inherited
    (moved_parentEvents drawn h.ordered hall) hsits ((mem_levels drawn).1 hl)
  rw [hpath, List.nil_append]
  exact ⟨frame, hmoved⟩

/-- **The ports of an instance that is listed** are those of the interface, all moved by one frame; of an
instance that the object declares, by the location that it declares. -/
theorem moved_listed {h : Hierarchy L B P} {d : Declaration L B P} (hall : AllSit drawn h.interfaces)
    (hsits : Sits (resolve drawn h.interfaces) (instantiate (resolve drawn h.interfaces) drawn d))
    (hnamed : PortsNamed (levels drawn h d)) {table : Table}
    (htable : instantiateInterfaces drawn h d = .ok table) {interfaceName instanceName : Str}
    {ports : Dict Str Str} (hports : (table.instances interfaceName).get? instanceName = some ports) :
    ∃ frame : L,
      (∀ location, recorded (instantiate (resolve drawn h.interfaces) drawn d).inherits interfaceName
        instanceName = some location → location = frame) ∧
      ∀ portName fullName own port, ports.get? portName = some fullName →
        (getPorts drawn h d).get? fullName = some own →
          (resolve drawn h.interfaces interfaceName).ports.get? portName = some port →
            portLocation own = frame * portLocation port := by
  let portsOf : Str → List Str := fun name => (resolve drawn h.interfaces name).ports.keys
  have hlevels : ∀ l ∈ levelsOf (events drawn h d), l.portNames = portsOf l.interfaceName :=
    fun l hl => portNames_of_mem_levels drawn d hl
  rw [walk_eq_foldlM] at htable
  obtain ⟨table', hok, hrecorded⟩ := run_ok recorded_nil hlevels (fun more l rest heq => by
    simpa using trips_of_ok recorded_nil hlevels htable more l rest heq)
  obtain rfl : table = table' := Except.ok.inj (htable.symm.trans hok)
  have hnames := hrecorded.ports _ _ _ hports
  by_cases hempty : portsOf interfaceName = []
  · -- there is no port to be moved
    have hnone : ∀ portName fullName, ports.get? portName ≠ some fullName := by
      intro portName fullName hfull
      rw [hnames, hempty, if_neg (by simp)] at hfull
      exact absurd hfull (by simp)
    cases hdeclared : recorded (instantiate (resolve drawn h.interfaces) drawn d).inherits
        interfaceName instanceName with
    | none => exact ⟨1, fun location h => absurd h (by simp), fun p f own port hf => absurd hf (hnone p f)⟩
    | some location =>
      exact ⟨location, fun location' h => (Option.some.inj h).symm,
        fun p f own port hf => absurd hf (hnone p f)⟩
  · obtain ⟨l, hl, hinterface, hfull⟩ := (hrecorded.keys interfaceName hempty instanceName).1
      (Option.isSome_iff_exists.2 ⟨ports, hports⟩)
    have hl : l ∈ levels drawn h d := by rwa [List.nil_append] at hl
    -- the names in the listing are those that the ports got on their way up
    have hadopted : ∀ portName fullName, ports.get? portName = some fullName →
        fullName = inheritedPortName instanceName portName := by
      intro portName fullName hport
      rw [hnames] at hport
      split at hport
      · rename_i hmem
        rw [← Option.some.inj hport, portFullName_eq_iff]
        rintro rfl
        rw [← hfull]
        refine hnamed l hl ?_
        rw [hlevels l hl, hinterface]
        exact hmem
      · exact absurd hport (by simp)
    suffices hmoved : ∃ frame : L,
        (∀ location, recorded (instantiate (resolve drawn h.interfaces) drawn d).inherits
          interfaceName instanceName = some location → location = frame) ∧
        ∀ portName port, (resolve drawn h.interfaces interfaceName).ports.get? portName = some port →
          ∃ own, (getPorts drawn h d).get? (inheritedPortName instanceName portName) = some own ∧
            portLocation own = frame * portLocation port by
      obtain ⟨frame, hdeclared, hframe⟩ := hmoved
      refine ⟨frame, hdeclared, fun portName fullName own port hport hown hinner => ?_⟩
      obtain ⟨own', hown', hlocation⟩ := hframe portName port hinner
      rw [hadopted portName fullName hport, hown'] at hown
      obtain rfl := Option.some.inj hown
      exact hlocation
    cases hdeclared : recorded (instantiate (resolve drawn h.interfaces) drawn d).inherits
        interfaceName instanceName with
    | some location =>
      refine ⟨location, fun location' h => (Option.some.inj h).symm, ?_⟩
      exact hsits.own hdeclared
    | none =>
      obtain ⟨frame, hmoved⟩ := moved_levels drawn hall hsits hl
      refine ⟨frame, fun location h => absurd h (by simp), fun portName port hport => ?_⟩
      rw [← hinterface] at hport
      rw [← hfull, ← adoptedName_eq]
      exact hmoved portName port hport

end

end PartCAD.Ports
