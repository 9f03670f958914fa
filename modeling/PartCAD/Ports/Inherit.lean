import Mathlib.Algebra.Group.TypeTags.Basic
import Mathlib.Data.List.Induction
import PartCAD.Lib.Dict
import PartCAD.Lib.Text

/-!
# Taking in an interface

An object takes in the interfaces that it inherits one after the other (`adoptInherit`): it records
the instances of each, and makes a port of its own for every port of every instance.  The instances
and the ports are kept in two tables.

* `get?_ports_of_recorded` : every port of a recorded instance has a port of the object;
* `sits_run` : when the calls never make two ports of one name that differ, the two tables agree
  after every call, and an instance that is declared again changes neither.
-/

namespace PartCAD.Ports

open PartCAD.Lib

/-! ## The functions -/

/-- A port: where it is, when it says so, and what it is drawn with. -/
structure InterfacePort (L B : Type) where
  location : Option L
  boundary : B
  deriving DecidableEq

/-- Instances of one interface, with the sketches that some of them restate. -/
structure InterfaceInherits (L : Type) where
  name : Str
  instances : Dict Str L
  sketches : Dict Str Str

/-- An interface, or an object that implements some, with everything that it has taken in.  The
reports are the instances found to be declared more than once, each with its interface. -/
structure Interface (L B P : Type) where
  ports : Dict Str (InterfacePort L B)
  params : Dict Str P
  inherits : Dict Str (InterfaceInherits L)
  reports : List (Str × Str)

/-- What a section says about one instance. -/
structure InstanceConfig (L : Type) where
  location : Option L
  port : Option Str
  sketch : Option Str

/-- What a section says about one interface. -/
inductive InheritConfig (L : Type) where
  | omitted
  | named (instanceName : Str)
  | located (location : L)
  | listed (instanceNames : List Str)
  | instances (config : Dict Str (InstanceConfig L))

/-- The section, spelled as a dictionary. -/
def InheritConfig.normalized {L : Type} : InheritConfig L → Dict Str (InstanceConfig L)
  | .omitted => Dict.empty.set [] ⟨none, none, none⟩
  | .named instanceName => Dict.empty.set instanceName ⟨none, none, none⟩
  | .located location => Dict.empty.set [] ⟨some location, none, none⟩
  | .listed instanceNames => Dict.ofPairs (instanceNames.map fun n => (n, ⟨none, none, none⟩))
  | .instances config => config

/-- What an object declares about its ports.  `mapped` is what it inherits from elsewhere. -/
structure Declaration (L B P : Type) where
  ports : Dict Str (InterfacePort L B)
  params : Dict Str P
  mapped : List (InterfaceInherits L)
  inherits : List (Str × InheritConfig L)
  abstract : Bool

/-- The name under which an object has a port of an instance. -/
def inheritedPortName (instanceName portName : Str) : Str :=
  if instanceName ≠ [] then instanceName ++ '-' :: portName else portName

section

variable {L B P : Type}

/-- `InterfaceInherits(name, project, config, ports)` -/
def makeInherits [One L] (name : Str) (config : InheritConfig L)
    (ports : Dict Str (InterfacePort L B)) : InterfaceInherits L where
  name := name
  instances := config.normalized.mapValues fun c =>
    let instanceLocation :=
      match c.port with
      | none => c.location
      | some portName => (ports.get? portName).bind InterfacePort.location
    instanceLocation.getD 1
  sketches := Dict.ofPairs (config.normalized.items.filterMap fun p => p.2.sketch.map (p.1, ·))

/-- One instance of an interface that is among the inherited ones already. -/
def mergeInstance (inherit : InterfaceInherits L)
    (st : InterfaceInherits L × List (Str × Str)) (p : Str × L) :
    InterfaceInherits L × List (Str × Str) :=
  if (st.1.instances.get? p.1).isSome then (st.1, st.2 ++ [(p.1, inherit.name)])
  else
    ({ st.1 with
        instances := st.1.instances.set p.1 p.2
        sketches :=
          match inherit.sketches.get? p.1 with
          | none => st.1.sketches
          | some sketch => st.1.sketches.set p.1 sketch }, st.2)

/-- The table of the inherited interfaces, and what is reported. -/
def recordInherit (inherits : Dict Str (InterfaceInherits L)) (inherit : InterfaceInherits L) :
    Dict Str (InterfaceInherits L) × List (Str × Str) :=
  match inherits.get? inherit.name with
  | none => (inherits.set inherit.name inherit, [])
  | some existing =>
    let merged := inherit.instances.items.foldl (mergeInstance inherit) (existing, [])
    (inherits.set inherit.name merged.1, merged.2)

variable [Mul L] (interfaces : Str → Interface L B P) (drawn : Str → B)

/-- The port that an instance brings for a port of its interface. -/
def inheritedPort (inherit : InterfaceInherits L) (instanceName : Str) (instanceLocation : L)
    (port : InterfacePort L B) : InterfacePort L B where
  location := some <|
    match port.location with
    | none => instanceLocation
    | some location => instanceLocation * location
  boundary :=
    match inherit.sketches.get? instanceName with
    | none => port.boundary
    | some restated => drawn restated

/-- The ports made for the instances, in the order in which they are made. -/
def inheritedPorts (inherit : InterfaceInherits L) : List (Str × InterfacePort L B) :=
  inherit.instances.items.flatMap fun i =>
    (interfaces inherit.name).ports.items.map fun p =>
      (inheritedPortName i.1 p.1, inheritedPort drawn inherit i.1 i.2 p.2)

/-- The freedom of movement that comes with the instances. -/
def inheritedParams (ownParamNames : List Str) (inherit : InterfaceInherits L) : List (Str × P) :=
  inherit.instances.items.flatMap fun _ =>
    (interfaces inherit.name).params.items.filter fun p => p.1 ∉ ownParamNames

def adoptInherit (ownParamNames : List Str) (obj : Interface L B P)
    (inherit : InterfaceInherits L) : Interface L B P where
  ports := obj.ports.setAll (inheritedPorts interfaces drawn inherit)
  params := obj.params.setAll (inheritedParams interfaces ownParamNames inherit)
  inherits := (recordInherit obj.inherits inherit).1
  reports := obj.reports ++ (recordInherit obj.inherits inherit).2

/-- `_merge_inherit(mapped, inherit, where)`: an instance that is mapped joins those of its
interface, and one that is mapped already is left out. -/
def mergeInherit (mapped : Dict Str (InterfaceInherits L)) (inherit : InterfaceInherits L) :
    Dict Str (InterfaceInherits L) :=
  match mapped.get? inherit.name with
  | none => mapped.set inherit.name inherit
  | some existing =>
    mapped.set inherit.name
      { existing with
        instances := inherit.instances.items.foldl (fun d i => d.setdefault i.1 i.2)
          existing.instances }

/-- An object before anything is inherited into it. -/
def Declaration.bare (d : Declaration L B P) : Interface L B P where
  ports := d.ports
  params := d.params
  inherits := Dict.empty
  reports := []

/-- `instantiate()`: what comes from elsewhere first, then the section. -/
def instantiate [One L] (d : Declaration L B P) : Interface L B P :=
  d.inherits.foldl
    (fun obj c => adoptInherit interfaces drawn d.params.keys obj (makeInherits c.1 c.2 obj.ports))
    (d.mapped.foldl (adoptInherit interfaces drawn d.params.keys) d.bare)

end

/-! ## The instances that are recorded -/

section

variable {L : Type}

/-- Where the table has an instance of an interface. -/
def recorded (inherits : Dict Str (InterfaceInherits L)) (interfaceName instanceName : Str) :
    Option L :=
  (inherits.get? interfaceName).bind fun inherit => inherit.instances.get? instanceName

theorem recorded_empty (interfaceName instanceName : Str) :
    recorded (Dict.empty : Dict Str (InterfaceInherits L)) interfaceName instanceName = none := rfl

theorem recorded_set (inherits : Dict Str (InterfaceInherits L)) (inherit : InterfaceInherits L)
    (name interfaceName instanceName : Str) :
    recorded (inherits.set name inherit) interfaceName instanceName =
      if name = interfaceName then inherit.instances.get? instanceName
      else recorded inherits interfaceName instanceName := by
  unfold recorded
  rw [Dict.get?_set]
  split <;> rfl

theorem instances_foldl_mergeInstance (inherit : InterfaceInherits L) (items : List (Str × L))
    (st : InterfaceInherits L × List (Str × Str)) :
    (items.foldl (mergeInstance inherit) st).1.instances =
      items.foldl (fun d i => d.setdefault i.1 i.2) st.1.instances := by
  induction items generalizing st with
  | nil => rfl
  | cons i items ih =>
    have hstep : (mergeInstance inherit st i).1.instances = st.1.instances.setdefault i.1 i.2 := by
      unfold mergeInstance Dict.setdefault
      cases st.1.instances.get? i.1 with
      | none => rfl
      | some location => rfl
    rw [List.foldl_cons, List.foldl_cons, ih, hstep]

/-- **What a call records**: the instances that are not recorded yet. -/
theorem recorded_recordInherit (inherits : Dict Str (InterfaceInherits L))
    (inherit : InterfaceInherits L) (interfaceName instanceName : Str) :
    recorded (recordInherit inherits inherit).1 interfaceName instanceName =
      if inherit.name = interfaceName then
        (recorded inherits interfaceName instanceName).or (inherit.instances.get? instanceName)
      else recorded inherits interfaceName instanceName := by
  by_cases hname : inherit.name = interfaceName
  · subst hname
    unfold recordInherit
    cases hexisting : inherits.get? inherit.name with
    | none => simp [recorded, hexisting]
    | some existing =>
      have hmerged : ∀ n, (inherit.instances.items.foldl (mergeInstance inherit)
          (existing, [])).1.instances.get? n =
            (existing.instances.get? n).or (inherit.instances.get? n) := by
        intro n
        rw [instances_foldl_mergeInstance, Dict.get?_foldl_setdefault_items]
        rfl
      simp [recorded, hexisting, hmerged]
  · unfold recordInherit
    rw [if_neg hname]
    cases inherits.get? inherit.name with
    | none => rw [recorded_set, if_neg hname]
    | some existing => rw [recorded_set, if_neg hname]

/-- What is mapped is recorded in the same way. -/
theorem recorded_mergeInherit (mapped : Dict Str (InterfaceInherits L))
    (inherit : InterfaceInherits L) (interfaceName instanceName : Str) :
    recorded (mergeInherit mapped inherit) interfaceName instanceName =
      recorded (recordInherit mapped inherit).1 interfaceName instanceName := by
  rw [recorded_recordInherit]
  unfold mergeInherit
  by_cases hname : inherit.name = interfaceName
  · subst hname
    cases hexisting : mapped.get? inherit.name with
    | none => simp [recorded, hexisting]
    | some existing =>
      rw [recorded_set, if_pos rfl, if_pos rfl, Dict.get?_foldl_setdefault_items]
      simp only [recorded, hexisting, Option.bind_some]
      rfl
  · rw [if_neg hname]
    cases mapped.get? inherit.name with
    | none => rw [recorded_set, if_neg hname]
    | some existing => rw [recorded_set, if_neg hname]

end

/-! ## Every instance has its ports -/

section

variable {L B P : Type} [Mul L] (interfaces : Str → Interface L B P) (drawn : Str → B)

/-- Every port of a recorded instance has a port of the object under its name. -/
def Named (obj : Interface L B P) : Prop :=
  ∀ interfaceName instanceName, (recorded obj.inherits interfaceName instanceName).isSome →
    ∀ portName ∈ (interfaces interfaceName).ports.keys,
      inheritedPortName instanceName portName ∈ obj.ports.keys

theorem mem_inheritedPorts {inherit : InterfaceInherits L} {q : Str} {port : InterfacePort L B} :
    (q, port) ∈ inheritedPorts interfaces drawn inherit ↔
      ∃ n location p own, inherit.instances.get? n = some location ∧
        (interfaces inherit.name).ports.get? p = some own ∧ q = inheritedPortName n p ∧
          port = inheritedPort drawn inherit n location own := by
  simp only [inheritedPorts, List.mem_flatMap, List.mem_map, Prod.exists, Prod.mk.injEq,
    Dict.get?_eq_some]
  constructor
  · rintro ⟨n, location, hn, p, own, hp, rfl, rfl⟩
    exact ⟨n, location, p, own, hn, hp, rfl, rfl⟩
  · rintro ⟨n, location, p, own, hn, hp, rfl, rfl⟩
    exact ⟨n, location, hn, p, own, hp, rfl, rfl⟩

theorem Named.adopt {obj : Interface L B P} (h : Named interfaces obj) (names : List Str)
    (inherit : InterfaceInherits L) :
    Named interfaces (adoptInherit interfaces drawn names obj inherit) := by
  intro interfaceName instanceName hrecorded portName hport
  have hkeys : (adoptInherit interfaces drawn names obj inherit).ports.keys =
      (obj.ports.setAll (inheritedPorts interfaces drawn inherit)).keys := rfl
  rw [hkeys, Dict.mem_keys_setAll]
  have hin : (adoptInherit interfaces drawn names obj inherit).inherits =
      (recordInherit obj.inherits inherit).1 := rfl
  rw [hin, recorded_recordInherit] at hrecorded
  by_cases hold : (recorded obj.inherits interfaceName instanceName).isSome
  · exact Or.inr (h interfaceName instanceName hold portName hport)
  · -- the instance comes with the call, which makes its ports
    left
    split at hrecorded
    · rename_i hname
      subst hname
      rw [Option.not_isSome_iff_eq_none.1 hold, Option.none_or] at hrecorded
      obtain ⟨location, hlocation⟩ := Option.isSome_iff_exists.1 hrecorded
      obtain ⟨own, hown⟩ := Dict.mem_keys.1 hport
      refine List.mem_map.2 ⟨(_, _), (mem_inheritedPorts interfaces drawn).2 ⟨instanceName, location,
        portName, own, hlocation, Dict.get?_eq_some.2 hown, rfl, rfl⟩, rfl⟩
    · exact absurd hrecorded hold

omit [Mul L] in
theorem named_bare (d : Declaration L B P) : Named interfaces d.bare := by
  intro interfaceName instanceName h
  exact absurd h (by simp [Declaration.bare, recorded_empty])

/-- **Every port of a recorded instance** has a port of the object. -/
theorem named_instantiate [One L] (d : Declaration L B P) :
    Named interfaces (instantiate interfaces drawn d) := by
  have hmapped : ∀ (mapped : List (InterfaceInherits L)) (obj : Interface L B P),
      Named interfaces obj →
        Named interfaces (mapped.foldl (adoptInherit interfaces drawn d.params.keys) obj) := by
    intro mapped
    induction mapped with
    | nil => exact fun obj h => h
    | cons inherit mapped ih => exact fun obj h => ih _ (h.adopt interfaces drawn _ inherit)
  unfold instantiate
  have hstart := hmapped d.mapped d.bare (named_bare interfaces d)
  generalize d.mapped.foldl (adoptInherit interfaces drawn d.params.keys) d.bare = obj at hstart ⊢
  induction d.inherits generalizing obj with
  | nil => exact hstart
  | cons c configs ih =>
    rw [List.foldl_cons]
    exact ih _ (hstart.adopt interfaces drawn _ _)

end

/-! ## Runs of calls -/

section

variable {L B P : Type} [Mul L] (interfaces : Str → Interface L B P) (drawn : Str → B)

/-- The two tables agree: every port of a recorded instance sits where the table of the instances
has the instance, moved by the location of the port itself. -/
def Sits (obj : Interface L B P) : Prop :=
  ∀ interfaceName instanceName location,
    recorded obj.inherits interfaceName instanceName = some location →
    ∀ portName own, (interfaces interfaceName).ports.get? portName = some own →
      ∃ port, obj.ports.get? (inheritedPortName instanceName portName) = some port ∧
        port.location = some ((own.location.map (location * ·)).getD location)

/-- An instance that is recorded already and comes with a call again changes neither table: the
call does what it does without the instance. -/
def SkipsSilently (names : List Str) (obj : Interface L B P) (inherit : InterfaceInherits L) :
    Prop :=
  ∀ n, n ∈ inherit.instances.keys → (recorded obj.inherits inherit.name n).isSome →
    let without := { inherit with instances := inherit.instances.erase n }
    Dict.Same (adoptInherit interfaces drawn names obj inherit).ports
        (adoptInherit interfaces drawn names obj without).ports ∧
      ∀ interfaceName m,
        recorded (adoptInherit interfaces drawn names obj inherit).inherits interfaceName m =
          recorded (adoptInherit interfaces drawn names obj without).inherits interfaceName m

/-- No two of the ports that the calls make have one name and differ. -/
def Agreeing (calls : List (InterfaceInherits L)) : Prop :=
  ∀ x ∈ calls, ∀ y ∈ calls, ∀ q a b, (q, a) ∈ inheritedPorts interfaces drawn x →
    (q, b) ∈ inheritedPorts interfaces drawn y → a = b

/-- What a run of calls leaves: the instances come from the calls, and so do the ports. -/
structure Backed (calls : List (InterfaceInherits L)) (obj : Interface L B P) : Prop where
  instances : ∀ interfaceName instanceName location,
    recorded obj.inherits interfaceName instanceName = some location →
      ∃ x ∈ calls, x.name = interfaceName ∧ x.instances.get? instanceName = some location
  ports : ∀ x ∈ calls, ∀ q a, (q, a) ∈ inheritedPorts interfaces drawn x →
    obj.ports.get? q = some a

variable {interfaces drawn}

theorem Agreeing.mono {calls calls' : List (InterfaceInherits L)}
    (h : Agreeing interfaces drawn calls) (hsub : ∀ x ∈ calls', x ∈ calls) :
    Agreeing interfaces drawn calls' :=
  fun x hx y hy => h x (hsub x hx) y (hsub y hy)

theorem backed_bare (d : Declaration L B P) : Backed interfaces drawn [] d.bare where
  instances := by
    intro interfaceName instanceName location h
    exact absurd h (by simp [Declaration.bare, recorded_empty])
  ports := by
    intro x hx
    exact absurd hx (by simp)

/-- One call. -/
theorem Backed.adopt {calls : List (InterfaceInherits L)} {obj : Interface L B P}
    {inherit : InterfaceInherits L} (h : Backed interfaces drawn calls obj) (names : List Str)
    (hagree : Agreeing interfaces drawn (calls ++ [inherit])) :
    Backed interfaces drawn (calls ++ [inherit])
      (adoptInherit interfaces drawn names obj inherit) where
  instances := by
    intro interfaceName instanceName location hrecorded
    have hin : (adoptInherit interfaces drawn names obj inherit).inherits =
        (recordInherit obj.inherits inherit).1 := rfl
    rw [hin, recorded_recordInherit] at hrecorded
    have hcases : recorded obj.inherits interfaceName instanceName = some location ∨
        inherit.name = interfaceName ∧ inherit.instances.get? instanceName = some location := by
      split at hrecorded
      · rename_i hname
        cases hold : recorded obj.inherits interfaceName instanceName with
        | none => exact Or.inr ⟨hname, by simpa [hold] using hrecorded⟩
        | some l => exact Or.inl (by simpa [hold] using hrecorded)
      · exact Or.inl hrecorded
    rcases hcases with hold | ⟨hname, hnew⟩
    · obtain ⟨x, hx, hrest⟩ := h.instances interfaceName instanceName location hold
      exact ⟨x, List.mem_append_left _ hx, hrest⟩
    · exact ⟨inherit, by simp, hname, hnew⟩
  ports := by
    intro x hx q a ha
    apply Dict.get?_setAll_of_agree
    · intro b hb
      exact hagree inherit (by simp) x hx q b a hb ha
    · rcases List.mem_append.1 hx with hx | hx
      · exact Or.inr (h.ports x hx q a ha)
      · obtain rfl := List.mem_singleton.1 hx
        exact Or.inl ha

theorem backed_run (d : Declaration L B P) {calls : List (InterfaceInherits L)}
    (hagree : Agreeing interfaces drawn calls) :
    Backed interfaces drawn calls
      (calls.foldl (adoptInherit interfaces drawn d.params.keys) d.bare) := by
  induction calls using List.reverseRecOn with
  | nil => exact backed_bare d
  | append_singleton calls inherit ih =>
    rw [List.foldl_append, List.foldl_cons, List.foldl_nil]
    exact (ih (hagree.mono fun x hx => List.mem_append_left _ hx)).adopt _ hagree

theorem Backed.sits {calls : List (InterfaceInherits L)} {obj : Interface L B P}
    (h : Backed interfaces drawn calls obj) : Sits interfaces obj := by
  intro interfaceName instanceName location hrecorded portName own hown
  obtain ⟨x, hx, rfl, hinstance⟩ := h.instances interfaceName instanceName location hrecorded
  refine ⟨inheritedPort drawn x instanceName location own, ?_, ?_⟩
  · exact h.ports x hx _ _ ((mem_inheritedPorts interfaces drawn).2
      ⟨instanceName, location, portName, own, hinstance, hown, rfl, rfl⟩)
  · unfold inheritedPort
    cases own.location <;> rfl

theorem mem_inheritedPorts_of_erase {inherit : InterfaceInherits L} {n q : Str}
    {port : InterfacePort L B} (h : (q, port) ∈ inheritedPorts interfaces drawn
      { inherit with instances := inherit.instances.erase n }) :
    (q, port) ∈ inheritedPorts interfaces drawn inherit := by
  obtain ⟨m, location, p, own, hm, hrest⟩ := (mem_inheritedPorts interfaces drawn).1 h
  rw [Dict.get?_erase] at hm
  split at hm
  · exact absurd hm (by simp)
  · exact (mem_inheritedPorts interfaces drawn).2 ⟨m, location, p, own, hm, hrest⟩

theorem Backed.skipsSilently {calls : List (InterfaceInherits L)} {obj : Interface L B P}
    {inherit : InterfaceInherits L} (h : Backed interfaces drawn calls obj) (names : List Str)
    (hagree : Agreeing interfaces drawn (calls ++ [inherit])) :
    SkipsSilently interfaces drawn names obj inherit := by
  intro n hn hrecorded
  refine ⟨fun q => ?_, fun interfaceName m => ?_⟩
  · have hall : (adoptInherit interfaces drawn names obj inherit).ports =
        obj.ports.setAll (inheritedPorts interfaces drawn inherit) := rfl
    have hless : (adoptInherit interfaces drawn names obj
        { inherit with instances := inherit.instances.erase n }).ports = obj.ports.setAll
          (inheritedPorts interfaces drawn
            { inherit with instances := inherit.instances.erase n }) := rfl
    rw [hall, hless]
    have hone : ∀ a b, (q, a) ∈ inheritedPorts interfaces drawn inherit →
        (q, b) ∈ inheritedPorts interfaces drawn inherit → b = a := fun a b ha hb =>
      hagree inherit (by simp) inherit (by simp) q b a hb ha
    by_cases hq : q ∈ (inheritedPorts interfaces drawn
        { inherit with instances := inherit.instances.erase n }).map Prod.fst
    · -- another instance of the call makes the port as well
      obtain ⟨⟨q, a⟩, ha, rfl⟩ := List.mem_map.1 hq
      have hsub := mem_inheritedPorts_of_erase ha
      rw [Dict.get?_setAll_of_agree (fun b hb => hone a b hsub hb) (Or.inl hsub),
        Dict.get?_setAll_of_agree
          (fun b hb => hone a b hsub (mem_inheritedPorts_of_erase hb)) (Or.inl ha)]
    · rw [Dict.get?_setAll_of_notMem hq]
      by_cases hq' : q ∈ (inheritedPorts interfaces drawn inherit).map Prod.fst
      · -- only the instance makes the port, and the call that recorded it has made it
        obtain ⟨⟨q, a⟩, ha, rfl⟩ := List.mem_map.1 hq'
        rw [Dict.get?_setAll_of_agree (fun b hb => hone a b ha hb) (Or.inl ha)]
        obtain ⟨m, location, p, own, hm, hown, hqm, -⟩ :=
          (mem_inheritedPorts interfaces drawn).1 ha
        have hmn : m = n := by
          by_contra hne
          apply hq
          refine List.mem_map.2 ⟨(q, inheritedPort drawn inherit m location own), ?_, rfl⟩
          refine (mem_inheritedPorts interfaces drawn).2 ⟨m, location, p, own, ?_, hown, hqm, rfl⟩
          rw [Dict.get?_erase, if_neg hne, hm]
        subst hmn
        obtain ⟨first, hfirst⟩ := Option.isSome_iff_exists.1 hrecorded
        obtain ⟨x, hx, hname, hinstance⟩ := h.instances _ _ _ hfirst
        have hmade : (q, inheritedPort drawn x m first own) ∈ inheritedPorts interfaces drawn x :=
          (mem_inheritedPorts interfaces drawn).2
            ⟨m, first, p, own, hinstance, by rw [hname]; exact hown, hqm, rfl⟩
        rw [h.ports x hx q _ hmade]
        exact congrArg some
          (hagree inherit (by simp) x (List.mem_append_left _ hx) q _ _ ha hmade)
      · rw [Dict.get?_setAll_of_notMem hq']
  · have hwith : (adoptInherit interfaces drawn names obj inherit).inherits =
        (recordInherit obj.inherits inherit).1 := rfl
    have hwithout : (adoptInherit interfaces drawn names obj
        { inherit with instances := inherit.instances.erase n }).inherits =
          (recordInherit obj.inherits
            { inherit with instances := inherit.instances.erase n }).1 := rfl
    rw [hwith, hwithout, recorded_recordInherit, recorded_recordInherit]
    by_cases hname : inherit.name = interfaceName
    · subst hname
      rw [if_pos rfl, if_pos rfl, Dict.get?_erase]
      by_cases hm : m = n
      · subst hm
        obtain ⟨location, hlocation⟩ := Option.isSome_iff_exists.1 hrecorded
        rw [hlocation]
        rfl
      · rw [if_neg hm]
    · rw [if_neg hname, if_neg hname]

/-- **The tables agree after every call**, and no instance that is declared again changes one of
them, when no two ports that the calls make have one name and differ. -/
theorem sits_run (d : Declaration L B P) {calls : List (InterfaceInherits L)}
    (hagree : Agreeing interfaces drawn calls) :
    (∀ done, done <+: calls →
      Sits interfaces (done.foldl (adoptInherit interfaces drawn d.params.keys) d.bare)) ∧
      ∀ done inherit, done ++ [inherit] <+: calls →
        SkipsSilently interfaces drawn d.params.keys
          (done.foldl (adoptInherit interfaces drawn d.params.keys) d.bare) inherit := by
  constructor
  · intro done hdone
    exact (backed_run d (hagree.mono fun x hx => hdone.subset hx)).sits
  · intro done inherit hdone
    have hbacked := backed_run d (hagree.mono fun x hx =>
      hdone.subset (List.mem_append_left [inherit] hx))
    exact hbacked.skipsSilently _ (hagree.mono fun x hx => hdone.subset hx)

end

/-! ## An instance declared twice -/

/-- An interface with the port `p` at its origin. -/
def onePort : Interface (Multiplicative ℤ) Unit Unit where
  ports := Dict.empty.set ['p'] ⟨none, ()⟩
  params := Dict.empty
  inherits := Dict.empty
  reports := []

/-- An object that declares nothing. -/
def nothing : Declaration (Multiplicative ℤ) Unit Unit where
  ports := Dict.empty
  params := Dict.empty
  mapped := []
  inherits := []
  abstract := false

/-- The instance `a` of the interface `m`. -/
def instanceAt (location : ℤ) : InterfaceInherits (Multiplicative ℤ) where
  name := ['m']
  instances := Dict.empty.set ['a'] (.ofAdd location)
  sketches := Dict.empty

/-- The same instance at one place, twice. -/
theorem sits_twice :
    Sits (fun _ => onePort) ([instanceAt 1, instanceAt 1].foldl
      (adoptInherit (fun _ => onePort) (fun _ => ()) nothing.params.keys) nothing.bare) := by
  have hagree : Agreeing (fun _ => onePort) (fun _ => ()) [instanceAt 1, instanceAt 1] := by
    intro x hx y hy q a b ha hb
    obtain rfl : x = instanceAt 1 := by simpa using hx
    obtain rfl : y = instanceAt 1 := by simpa using hy
    have hports : inheritedPorts (fun _ => onePort) (fun _ => ()) (instanceAt 1) =
        [("a-p".toList, ⟨some (.ofAdd 1), ()⟩)] := by decide
    rw [hports] at ha hb
    simp only [List.mem_singleton, Prod.mk.injEq] at ha hb
    rw [ha.2, hb.2]
  exact (sits_run nothing hagree).1 _ (List.prefix_refl _)

/-- The same instance at two places: the table of the instances keeps the first one, and the port
goes to the second one. -/
theorem not_sits_twice :
    ¬ ∀ calls : List (InterfaceInherits (Multiplicative ℤ)),
      Sits (fun _ => onePort) (calls.foldl
        (adoptInherit (fun _ => onePort) (fun _ => ()) nothing.params.keys) nothing.bare) := by
  intro h
  obtain ⟨port, hport, hlocation⟩ :=
    h [instanceAt 1, instanceAt 2] ['m'] ['a'] (.ofAdd 1) rfl ['p'] ⟨none, ()⟩ rfl
  have hget : (([instanceAt 1, instanceAt 2].foldl
      (adoptInherit (fun _ => onePort) (fun _ => ()) nothing.params.keys) nothing.bare).ports.get?
        (inheritedPortName ['a'] ['p'])) = some ⟨some (.ofAdd 2), ()⟩ := by decide
  rw [hget] at hport
  obtain rfl : ⟨some (.ofAdd 2), ()⟩ = port := by simpa using hport
  exact absurd hlocation (by decide)

end PartCAD.Ports
