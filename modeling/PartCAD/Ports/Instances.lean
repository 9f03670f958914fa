import PartCAD.Ports.Hierarchy

/-!
# The instances of an object

`instantiateInterfaces` lists the instances of the interfaces that an object implements, at every
level of the hierarchy, with the names that their ports have on the object.  It makes these names
on its way down from the object, while `adoptInherit` makes them on the way up.

* `walk_eq_foldlM` : the recursion records the levels of the hierarchy one after the other;
* `adoptedName_mem_keys` : on the way up, every level leaves its ports on the object;
* `correct_iff` : when the listing is complete and names the ports of the object.

In a hierarchy every reference to an interface is to one that is there; asking for one that is not
raises before any of this.
-/

namespace PartCAD.Ports

open PartCAD.Lib

variable {L B P : Type}

/-! ## The functions -/

/-- Port names by interface, instance and port of the interface. -/
abbrev Table := Dict Str (Dict Str (Dict Str Str))

/-- A key that is not there. -/
structure KeyError where
  key : Str

def instanceFullName (interfaceState instanceName : Str) : Str :=
  if instanceName ≠ [] ∧ interfaceState ≠ [] then interfaceState ++ '-' :: instanceName
  else if instanceName ≠ [] then instanceName
  else if interfaceState ≠ [] then interfaceState
  else []

def portFullName (instanceFullName portName : Str) : Str :=
  if instanceFullName ≠ [] ∧ portName ≠ [] then instanceFullName ++ '-' :: portName
  else if instanceFullName ≠ [] then instanceFullName
  else if portName ≠ [] then portName
  else []

/-- `self.interfaces[interface_name]` -/
def Table.instances (table : Table) (interfaceName : Str) : Dict Str (Dict Str Str) :=
  (table.get? interfaceName).getD Dict.empty

/-- One instance, under its full name.  The test for an instance that is there already looks for
the name that the instance has in its section. -/
def recordInstance (table : Table) (interfaceName instanceName fullName : Str)
    (portNames : List Str) : Except KeyError Table :=
  let instances :=
    if ((table.instances interfaceName).get? instanceName).isNone then
      (table.instances interfaceName).set fullName Dict.empty
    else table.instances interfaceName
  if portNames = [] then .ok (table.set interfaceName instances)
  else
    match instances.get? fullName with
    | none => .error ⟨fullName⟩
    | some ports =>
      .ok (table.set interfaceName (instances.set fullName
        (ports.setAll (portNames.map fun p => (p, portFullName fullName p)))))

/-- Whether the parents are one instance of one interface. -/
def oneInstance (inherits : Dict Str (InterfaceInherits L)) : Bool :=
  match inherits.items with
  | [(_, inherit)] => inherit.instances.items.length = 1
  | _ => false

/-- `merge_inherits(inherits, interface_state, top_level)`, where `recurse` does the parents of an
interface. -/
def mergeInherits (interfaces : Str → Interface L B P) (abstract : Str → Bool)
    (recurse : Str → Str → Table → Except KeyError Table)
    (inherits : Dict Str (InterfaceInherits L)) (interfaceState : Str) (topLevel : Bool)
    (table : Table) : Except KeyError Table :=
  let compatible := ! topLevel && oneInstance inherits
  inherits.items.foldlM
    (fun table p =>
      if abstract p.1 then .ok table
      else
        p.2.instances.items.foldlM
          (fun table i =>
            let fullName := instanceFullName interfaceState i.1
            (if compatible then .ok table
              else recordInstance table p.1 i.1 fullName (interfaces p.1).ports.keys) >>=
                recurse p.1 fullName)
          (if compatible then table else table.setdefault p.1 Dict.empty))
    table

section

variable [One L] [Mul L] (drawn : Str → B)

/-- The parents of an interface. -/
def mergeParents : List (Str × Declaration L B P) → Str → Str → Table → Except KeyError Table
  | [], _, _, table => .ok table
  | (n, d) :: rest, name, interfaceState, table =>
    if n = name then
      mergeInherits (resolve drawn rest) (isAbstract rest) (mergeParents rest)
        (instantiate (resolve drawn rest) drawn d).inherits interfaceState false table
    else mergeParents rest name interfaceState table

/-- `get_ports()` -/
def getPorts (h : Hierarchy L B P) (d : Declaration L B P) : Dict Str (InterfacePort L B) :=
  (instantiate (resolve drawn h.interfaces) drawn d).ports

def instantiateInterfaces (h : Hierarchy L B P) (d : Declaration L B P) : Except KeyError Table :=
  mergeInherits (resolve drawn h.interfaces) (isAbstract h.interfaces)
    (mergeParents drawn h.interfaces) (instantiate (resolve drawn h.interfaces) drawn d).inherits
    [] true Dict.empty

end

/-! ## Levels -/

/-- A level of the hierarchy: an instance of an interface with the names of the instances on the
way to it, and the ports of the interface. -/
structure Level where
  interfaceName : Str
  path : List Str
  instanceName : Str
  portNames : List Str

/-- The name of the instance that a path leads to. -/
def fullName (path : List Str) : Str := path.foldl instanceFullName []

/-- The name that a port gets on its way up along a path. -/
def adoptedName (path : List Str) (portName : Str) : Str := path.foldr inheritedPortName portName

def Level.fullPath (l : Level) : List Str := l.path ++ [l.instanceName]

inductive Event where
  | enter (interfaceName : Str)
  | level (l : Level)

/-- The levels among some events. -/
def levelsOf (es : List Event) : List Level :=
  es.filterMap fun
    | .enter _ => none
    | .level l => some l

def step (table : Table) : Event → Except KeyError Table
  | .enter interfaceName => .ok (table.setdefault interfaceName Dict.empty)
  | .level l =>
    recordInstance table l.interfaceName l.instanceName (fullName l.fullPath) l.portNames

/-- What `mergeInherits` does, in order. -/
def inheritedEvents (interfaces : Str → Interface L B P) (abstract : Str → Bool)
    (recurse : Str → List Str → List Event) (inherits : Dict Str (InterfaceInherits L))
    (path : List Str) (topLevel : Bool) : List Event :=
  let compatible := ! topLevel && oneInstance inherits
  inherits.items.flatMap fun p =>
    if abstract p.1 then []
    else
      (if compatible then [] else [Event.enter p.1]) ++
        p.2.instances.items.flatMap fun i =>
          (if compatible then []
            else [Event.level ⟨p.1, path, i.1, (interfaces p.1).ports.keys⟩]) ++
            recurse p.1 (path ++ [i.1])

section

variable [One L] [Mul L] (drawn : Str → B)

def parentEvents : List (Str × Declaration L B P) → Str → List Str → List Event
  | [], _, _ => []
  | (n, d) :: rest, name, path =>
    if n = name then
      inheritedEvents (resolve drawn rest) (isAbstract rest) (parentEvents rest)
        (instantiate (resolve drawn rest) drawn d).inherits path false
    else parentEvents rest name path

def events (h : Hierarchy L B P) (d : Declaration L B P) : List Event :=
  inheritedEvents (resolve drawn h.interfaces) (isAbstract h.interfaces)
    (parentEvents drawn h.interfaces) (instantiate (resolve drawn h.interfaces) drawn d).inherits
    [] true

/-- The levels that an object has. -/
def levels (h : Hierarchy L B P) (d : Declaration L B P) : List Level :=
  levelsOf (events drawn h d)

end

/-! ## The walk records the levels -/

theorem foldlM_flatMap {m : Type → Type} [Monad m] [LawfulMonad m] {α β : Type} {σ : Type}
    (f : α → List β) (g : σ → β → m σ) (l : List α) (s : σ) :
    (l.flatMap f).foldlM g s = l.foldlM (fun s a => (f a).foldlM g s) s := by
  induction l generalizing s with
  | nil => rfl
  | cons a l ih =>
    rw [List.flatMap_cons, List.foldlM_append, List.foldlM_cons]
    simp only [ih]

theorem fullName_append (path : List Str) (instanceName : Str) :
    fullName (path ++ [instanceName]) = instanceFullName (fullName path) instanceName := by
  rw [fullName, List.foldl_append]
  rfl

/-- One step of the recursion. -/
theorem mergeInherits_eq_foldlM {interfaces : Str → Interface L B P} {abstract : Str → Bool}
    {recurse : Str → Str → Table → Except KeyError Table} {recurse' : Str → List Str → List Event}
    (hrecurse : ∀ name path table,
      recurse name (fullName path) table = (recurse' name path).foldlM step table)
    (inherits : Dict Str (InterfaceInherits L)) (path : List Str) (topLevel : Bool)
    (table : Table) :
    mergeInherits interfaces abstract recurse inherits (fullName path) topLevel table =
      (inheritedEvents interfaces abstract recurse' inherits path topLevel).foldlM step table := by
  unfold mergeInherits inheritedEvents
  dsimp only
  rw [foldlM_flatMap]
  generalize (! topLevel && oneInstance inherits) = compatible
  congr 1
  funext table p
  by_cases habstract : abstract p.1
  · rw [if_pos habstract, if_pos habstract]
    rfl
  rw [if_neg habstract, if_neg habstract, List.foldlM_append]
  simp only [foldlM_flatMap]
  have hinstances : ∀ table : Table,
      p.2.instances.items.foldlM
          (fun table i =>
            (if compatible then .ok table
              else recordInstance table p.1 i.1 (instanceFullName (fullName path) i.1)
                (interfaces p.1).ports.keys) >>=
                  recurse p.1 (instanceFullName (fullName path) i.1)) table =
        p.2.instances.items.foldlM
          (fun table i => List.foldlM step table
            ((if compatible then []
              else [Event.level ⟨p.1, path, i.1, (interfaces p.1).ports.keys⟩]) ++
                recurse' p.1 (path ++ [i.1]))) table := by
    intro table
    congr 1
    funext table i
    rw [List.foldlM_append, ← fullName_append]
    simp only [← hrecurse]
    cases compatible with
    | true => rfl
    | false => exact (bind_pure (recordInstance table p.1 i.1 _ _)).symm ▸ rfl
  rw [hinstances]
  cases compatible with
  | true => rfl
  | false => rfl

section

variable [One L] [Mul L] (drawn : Str → B)

theorem mergeParents_eq_foldlM (interfaces : List (Str × Declaration L B P)) (name : Str)
    (path : List Str) (table : Table) :
    mergeParents drawn interfaces name (fullName path) table =
      (parentEvents drawn interfaces name path).foldlM step table := by
  induction interfaces generalizing name path table with
  | nil => rfl
  | cons p rest ih =>
    obtain ⟨n, d⟩ := p
    rw [mergeParents, parentEvents]
    by_cases hname : n = name
    · rw [if_pos hname, if_pos hname]
      exact mergeInherits_eq_foldlM ih _ path false table
    · rw [if_neg hname, if_neg hname]
      exact ih name path table

/-- **The recursion records the levels**, one after the other. -/
theorem walk_eq_foldlM (h : Hierarchy L B P) (d : Declaration L B P) :
    instantiateInterfaces drawn h d = (events drawn h d).foldlM step Dict.empty :=
  mergeInherits_eq_foldlM (mergeParents_eq_foldlM drawn h.interfaces) _ [] true Dict.empty

end

/-! ## Names on the way up -/

theorem inheritedPortName_instanceFullName (interfaceState instanceName portName : Str) :
    inheritedPortName (instanceFullName interfaceState instanceName) portName =
      inheritedPortName interfaceState (inheritedPortName instanceName portName) := by
  unfold inheritedPortName instanceFullName
  by_cases hstate : interfaceState = []
  · by_cases hinstance : instanceName = [] <;> simp [hstate, hinstance]
  · by_cases hinstance : instanceName = [] <;> simp [hstate, hinstance]

/-- On its way up a port gets the full name of the instance in front of its name. -/
theorem adoptedName_eq (path : List Str) (portName : Str) :
    adoptedName path portName = inheritedPortName (fullName path) portName := by
  induction path using List.reverseRecOn generalizing portName with
  | nil => rfl
  | append_singleton path instanceName ih =>
    rw [fullName_append, inheritedPortName_instanceFullName, ← ih, adoptedName, List.foldr_append]
    rfl

/-- On its way down it gets the same one, unless it has no name of its own. -/
theorem portFullName_eq_iff (instanceFullName portName : Str) :
    portFullName instanceFullName portName = inheritedPortName instanceFullName portName ↔
      (portName = [] → instanceFullName = []) := by
  unfold portFullName inheritedPortName
  by_cases hinstance : instanceFullName = []
  · by_cases hport : portName = [] <;> simp [hinstance, hport]
  · by_cases hport : portName = [] <;> simp [hinstance, hport]

/-- Levels below some objects: each one continues the path, and its ports are ports of the object
that the path leads to. -/
def Below (interfaces : Str → Interface L B P) (below : Str → List Str → List Event) : Prop :=
  ∀ name path l, Event.level l ∈ below name path →
    ∃ more, l.fullPath = path ++ more ∧
      ∀ p ∈ l.portNames, adoptedName more p ∈ (interfaces name).ports.keys

/-- A level is one of the object's own, or one further down. -/
theorem mem_inheritedEvents {interfaces : Str → Interface L B P} {abstract : Str → Bool}
    {below : Str → List Str → List Event} {inherits : Dict Str (InterfaceInherits L)}
    {path : List Str} {topLevel : Bool} {l : Level}
    (hl : Event.level l ∈ inheritedEvents interfaces abstract below inherits path topLevel) :
    ∃ interfaceName inherit instanceName location, (interfaceName, inherit) ∈ inherits.items ∧
      (instanceName, location) ∈ inherit.instances.items ∧
        (l = ⟨interfaceName, path, instanceName, (interfaces interfaceName).ports.keys⟩ ∨
          Event.level l ∈ below interfaceName (path ++ [instanceName])) := by
  unfold inheritedEvents at hl
  obtain ⟨⟨interfaceName, inherit⟩, hinherit, hl⟩ := List.mem_flatMap.1 hl
  by_cases habstract : abstract interfaceName
  · rw [if_pos habstract] at hl
    exact absurd hl (by simp)
  rw [if_neg habstract] at hl
  rcases List.mem_append.1 hl with hl | hl
  · -- an entry is no level
    split at hl
    · exact absurd hl (by simp)
    · exact absurd (List.mem_singleton.1 hl) (by simp)
  obtain ⟨⟨instanceName, location⟩, hinstance, hl⟩ := List.mem_flatMap.1 hl
  refine ⟨interfaceName, inherit, instanceName, location, hinherit, hinstance, ?_⟩
  rcases List.mem_append.1 hl with hl | hl
  · split at hl
    · exact absurd hl (by simp)
    · exact Or.inl (by simpa using hl)
  · exact Or.inr hl

theorem adoptedName_mem_of_inherited {interfaces : Str → Interface L B P} {abstract : Str → Bool}
    {below : Str → List Str → List Event} (hbelow : Below interfaces below)
    {obj : Interface L B P} (hnamed : Named interfaces obj) {path : List Str} {topLevel : Bool}
    {l : Level}
    (hl : Event.level l ∈
      inheritedEvents interfaces abstract below obj.inherits path topLevel) :
    ∃ more, l.fullPath = path ++ more ∧
      ∀ p ∈ l.portNames, adoptedName more p ∈ obj.ports.keys := by
  obtain ⟨interfaceName, inherit, instanceName, location, hinherit, hinstance, hcases⟩ :=
    mem_inheritedEvents hl
  have hrecorded : (recorded obj.inherits interfaceName instanceName).isSome := by
    rw [recorded, Dict.get?_eq_some.2 hinherit, Option.bind_some, Dict.get?_eq_some.2 hinstance]
    rfl
  have hports := hnamed interfaceName instanceName hrecorded
  rcases hcases with rfl | hl
  · exact ⟨[instanceName], rfl, hports⟩
  · obtain ⟨more, hpath, hmore⟩ := hbelow interfaceName _ l hl
    refine ⟨instanceName :: more, by rw [hpath, List.append_assoc]; rfl, fun p hp => ?_⟩
    exact hports _ (hmore p hp)

section

variable [One L] [Mul L] (drawn : Str → B)

theorem below_parentEvents (interfaces : List (Str × Declaration L B P)) :
    Below (resolve drawn interfaces) (parentEvents drawn interfaces) := by
  induction interfaces with
  | nil =>
    intro name path l hl
    exact absurd hl (by simp [parentEvents])
  | cons p rest ih =>
    obtain ⟨n, d⟩ := p
    intro name path l hl
    rw [parentEvents] at hl
    rw [resolve]
    by_cases hname : n = name
    · rw [if_pos hname] at hl ⊢
      exact adoptedName_mem_of_inherited ih (named_instantiate _ drawn d) hl
    · rw [if_neg hname] at hl ⊢
      exact ih name path l hl

theorem mem_levels {h : Hierarchy L B P} {d : Declaration L B P} {l : Level} :
    l ∈ levels drawn h d ↔ Event.level l ∈ events drawn h d := by
  rw [levels, levelsOf, List.mem_filterMap]
  constructor
  · rintro ⟨e, he, hl⟩
    cases e with
    | enter name => exact absurd hl (by simp)
    | level l' =>
      obtain rfl : l' = l := by simpa using hl
      exact he
  · exact fun hl => ⟨.level l, hl, rfl⟩

/-- **Every level leaves its ports on the object.** -/
theorem adoptedName_mem_keys {h : Hierarchy L B P} {d : Declaration L B P} {l : Level}
    (hl : l ∈ levels drawn h d) {p : Str} (hp : p ∈ l.portNames) :
    adoptedName l.fullPath p ∈ (getPorts drawn h d).keys := by
  obtain ⟨more, hpath, hmore⟩ := adoptedName_mem_of_inherited
    (below_parentEvents drawn h.interfaces) (named_instantiate _ drawn d) ((mem_levels drawn).1 hl)
  rw [hpath]
  exact hmore p hp

end

/-! ## What the table holds -/

/-- An earlier level of the interface has the instance name of this one for its full name, and none
has the full name. -/
def Trips (earlier : List Level) (l : Level) : Prop :=
  l.portNames ≠ [] ∧
    (∃ m ∈ earlier, m.interfaceName = l.interfaceName ∧ fullName m.fullPath = l.instanceName) ∧
    ∀ m ∈ earlier, m.interfaceName = l.interfaceName → fullName m.fullPath ≠ fullName l.fullPath

/-- What is recorded once some levels are done, where `portsOf` has the ports of every interface. -/
structure Recorded (portsOf : Str → List Str) (done : List Level) (table : Table) : Prop where
  keys : ∀ interfaceName, portsOf interfaceName ≠ [] → ∀ full,
    ((table.instances interfaceName).get? full).isSome ↔
      ∃ m ∈ done, m.interfaceName = interfaceName ∧ fullName m.fullPath = full
  ports : ∀ interfaceName full ports, (table.instances interfaceName).get? full = some ports →
    ∀ p, ports.get? p = if p ∈ portsOf interfaceName then some (portFullName full p) else none

theorem instances_set (table : Table) (name interfaceName : Str)
    (instances : Dict Str (Dict Str Str)) :
    Table.instances (table.set name instances) interfaceName =
      if name = interfaceName then instances else table.instances interfaceName := by
  unfold Table.instances
  rw [Dict.get?_set]
  split <;> rfl

theorem instances_setdefault (table : Table) (name interfaceName : Str) :
    Table.instances (table.setdefault name Dict.empty) interfaceName =
      table.instances interfaceName := by
  unfold Table.instances
  rw [Dict.get?_setdefault]
  cases table.get? interfaceName with
  | none => simp only [Option.none_or]; split <;> rfl
  | some instances => rfl

section

variable {portsOf : Str → List Str} {done : List Level} {table : Table}

theorem recorded_nil : Recorded portsOf [] Dict.empty where
  keys := by
    intro interfaceName _ full
    simp [Table.instances]
  ports := by
    intro interfaceName full ports h
    exact absurd h (by simp [Table.instances])

theorem Recorded.enter (h : Recorded portsOf done table) (name : Str) :
    Recorded portsOf done (table.setdefault name Dict.empty) where
  keys := by
    intro interfaceName
    rw [instances_setdefault]
    exact h.keys interfaceName
  ports := by
    intro interfaceName
    rw [instances_setdefault]
    exact h.ports interfaceName

/-- The instances of the interface of a level, with the one of the level when its own name is not
among them. -/
def created (table : Table) (l : Level) : Dict Str (Dict Str Str) :=
  if ((table.instances l.interfaceName).get? l.instanceName).isNone then
    (table.instances l.interfaceName).set (fullName l.fullPath) Dict.empty
  else table.instances l.interfaceName

theorem get?_created {l : Level} {full : Str} {ports : Dict Str Str}
    (h : (created table l).get? full = some ports) :
    ports = Dict.empty ∨ (table.instances l.interfaceName).get? full = some ports := by
  unfold created at h
  split at h
  · rw [Dict.get?_set] at h
    split at h
    · exact Or.inl (Option.some.inj h).symm
    · exact Or.inr h
  · exact Or.inr h

theorem get?_created_of_ne {l : Level} {full : Str} (h : fullName l.fullPath ≠ full) :
    (created table l).get? full = (table.instances l.interfaceName).get? full := by
  unfold created
  split
  · rw [Dict.get?_set_of_ne _ _ h]
  · rfl

theorem mem_snoc_iff {l : Level} {interfaceName full : Str} :
    (∃ m ∈ done ++ [l], m.interfaceName = interfaceName ∧ fullName m.fullPath = full) ↔
      (∃ m ∈ done, m.interfaceName = interfaceName ∧ fullName m.fullPath = full) ∨
        l.interfaceName = interfaceName ∧ fullName l.fullPath = full := by
  simp [or_and_right, exists_or]

/-- A level of an interface without ports. -/
theorem Recorded.level_of_nil (h : Recorded portsOf done table) {l : Level}
    (hports : l.portNames = portsOf l.interfaceName) (hnil : l.portNames = []) :
    ∃ table', step table (.level l) = .ok table' ∧ Recorded portsOf (done ++ [l]) table' := by
  refine ⟨table.set l.interfaceName (created table l), ?_, ?_, ?_⟩
  · simp only [step, recordInstance, created, hnil, if_true]
  · intro interfaceName hne full
    have hname : l.interfaceName ≠ interfaceName := by
      rintro rfl
      exact hne (hports ▸ hnil)
    rw [instances_set, if_neg hname, mem_snoc_iff, h.keys interfaceName hne full]
    simp [hname]
  · intro interfaceName full ports hget p
    rw [instances_set] at hget
    split at hget
    · rename_i hname
      subst hname
      rcases get?_created hget with rfl | hold
      · rw [← hports, hnil]
        simp
      · exact h.ports _ _ _ hold p
    · exact h.ports _ _ _ hget p

theorem recordInstance_of_some {l : Level} {ports : Dict Str Str} (hne : l.portNames ≠ [])
    (hget : (created table l).get? (fullName l.fullPath) = some ports) :
    step table (.level l) = .ok (table.set l.interfaceName ((created table l).set
      (fullName l.fullPath) (ports.setAll
        (l.portNames.map fun p => (p, portFullName (fullName l.fullPath) p))))) := by
  simp only [step, recordInstance]
  rw [if_neg hne]
  change (match (created table l).get? (fullName l.fullPath) with
    | none => _
    | some ports => _) = _
  rw [hget]
  rfl

/-- A level of an interface with ports. -/
theorem Recorded.level (h : Recorded portsOf done table) {l : Level}
    (hports : l.portNames = portsOf l.interfaceName) (hne : l.portNames ≠ [])
    (htrips : ¬ Trips done l) :
    ∃ table', step table (.level l) = .ok table' ∧ Recorded portsOf (done ++ [l]) table' := by
  have hne' : portsOf l.interfaceName ≠ [] := hports ▸ hne
  -- the instance is there, new or not
  obtain ⟨ports, hget⟩ : ∃ ports, (created table l).get? (fullName l.fullPath) = some ports := by
    by_cases hinstance : ((table.instances l.interfaceName).get? l.instanceName).isNone
    · exact ⟨Dict.empty, by rw [created, if_pos hinstance, Dict.get?_set_self]⟩
    · rw [created, if_neg hinstance]
      apply Option.isSome_iff_exists.1
      rw [h.keys _ hne']
      by_contra hnone
      apply htrips
      refine ⟨hne, (h.keys _ hne' _).1 (by simpa [Option.isSome_iff_ne_none] using hinstance),
        fun m hm hname hfull => hnone ⟨m, hm, hname, hfull⟩⟩
  refine ⟨_, recordInstance_of_some hne hget, ?_, ?_⟩
  · intro interfaceName hne full
    rw [instances_set, mem_snoc_iff]
    by_cases hname : l.interfaceName = interfaceName
    · subst hname
      rw [if_pos rfl, Dict.get?_set]
      by_cases hfull : fullName l.fullPath = full
      · simp [hfull]
      · rw [if_neg hfull, get?_created_of_ne hfull, h.keys _ hne']
        simp [hfull]
    · rw [if_neg hname, h.keys _ hne]
      simp [hname]
  · intro interfaceName full ports' hget' p
    rw [instances_set] at hget'
    split at hget'
    · rename_i hname
      subst hname
      rw [Dict.get?_set] at hget'
      split at hget'
      · rename_i hfull
        subst hfull
        obtain rfl := Option.some.inj hget'
        rw [Dict.get?_setAll, hports]
        split
        · rfl
        · rename_i hp
          rcases get?_created hget with rfl | hold
          · rfl
          · rw [h.ports _ _ _ hold p, if_neg hp]
      · rename_i hfull
        rw [get?_created_of_ne hfull] at hget'
        exact h.ports _ _ _ hget' p
    · exact h.ports _ _ _ hget' p

theorem Recorded.error (h : Recorded portsOf done table) {l : Level}
    (hports : l.portNames = portsOf l.interfaceName) (htrips : Trips done l) :
    ∃ e, step table (.level l) = .error e := by
  obtain ⟨hne, hinstance, hfull⟩ := htrips
  have hne' : portsOf l.interfaceName ≠ [] := hports ▸ hne
  refine ⟨⟨fullName l.fullPath⟩, ?_⟩
  have hthere := (h.keys _ hne' _).2 hinstance
  have hmissing : (table.instances l.interfaceName).get? (fullName l.fullPath) = none := by
    rw [← Option.not_isSome_iff_eq_none, h.keys _ hne']
    rintro ⟨m, hm, hname, heq⟩
    exact hfull m hm hname heq
  have hcreated : created table l = table.instances l.interfaceName := by
    rw [created, if_neg]
    simpa [Option.isSome_iff_ne_none] using hthere
  simp only [step, recordInstance]
  rw [if_neg hne]
  change (match (created table l).get? (fullName l.fullPath) with
    | none => _
    | some ports => _) = _
  rw [hcreated, hmissing]

end

/-! ## Runs -/

/-- Every level finds its instance. -/
def Unambiguous (ls : List Level) : Prop :=
  ∀ done l rest, ls = done ++ l :: rest → ¬ Trips done l

/-- Ports without a name are ports of the object itself. -/
def PortsNamed (ls : List Level) : Prop :=
  ∀ l ∈ ls, [] ∈ l.portNames → fullName l.fullPath = []

section

variable {portsOf : Str → List Str}

theorem run_ok {es : List Event} {done : List Level} {table : Table}
    (h : Recorded portsOf done table)
    (hports : ∀ l ∈ levelsOf es, l.portNames = portsOf l.interfaceName)
    (htrips : ∀ more l rest, levelsOf es = more ++ l :: rest → ¬ Trips (done ++ more) l) :
    ∃ table', es.foldlM step table = .ok table' ∧
      Recorded portsOf (done ++ levelsOf es) table' := by
  induction es generalizing done table with
  | nil => exact ⟨table, rfl, by simpa [levelsOf] using h⟩
  | cons e es ih =>
    cases e with
    | enter name => exact ih (h.enter name) hports htrips
    | level l =>
      have hlevels : levelsOf (.level l :: es) = l :: levelsOf es := rfl
      rw [hlevels] at hports htrips ⊢
      have hl := hports l (by simp)
      have hfirst : ¬ Trips done l := by simpa using htrips [] l (levelsOf es) rfl
      obtain ⟨table', hstep, h'⟩ : ∃ table', step table (.level l) = .ok table' ∧
          Recorded portsOf (done ++ [l]) table' := by
        by_cases hnil : l.portNames = []
        · exact h.level_of_nil hl hnil
        · exact h.level hl hnil hfirst
      obtain ⟨table'', hrun, h''⟩ := ih h' (fun m hm => hports m (by simp [hm])) (by
        intro more m rest heq
        simpa using htrips (l :: more) m rest (by rw [heq]; rfl))
      refine ⟨table'', ?_, by simpa using h''⟩
      rw [List.foldlM_cons, hstep]
      exact hrun

theorem trips_of_ok {es : List Event} {done : List Level} {table table' : Table}
    (h : Recorded portsOf done table)
    (hports : ∀ l ∈ levelsOf es, l.portNames = portsOf l.interfaceName)
    (hrun : es.foldlM step table = .ok table') :
    ∀ more l rest, levelsOf es = more ++ l :: rest → ¬ Trips (done ++ more) l := by
  induction es generalizing done table with
  | nil =>
    intro more l rest heq
    exact absurd heq (by simp [levelsOf])
  | cons e es ih =>
    cases e with
    | enter name => exact ih (h.enter name) hports hrun
    | level l =>
      have hlevels : levelsOf (.level l :: es) = l :: levelsOf es := rfl
      rw [hlevels] at hports ⊢
      have hl := hports l (by simp)
      by_cases htrips : Trips done l
      · obtain ⟨e, hstep⟩ := h.error hl htrips
        rw [List.foldlM_cons, hstep] at hrun
        exact absurd hrun (by simp [bind, Except.bind])
      obtain ⟨table₁, hstep, h'⟩ : ∃ table₁, step table (.level l) = .ok table₁ ∧
          Recorded portsOf (done ++ [l]) table₁ := by
        by_cases hnil : l.portNames = []
        · exact h.level_of_nil hl hnil
        · exact h.level hl hnil htrips
      rw [List.foldlM_cons, hstep] at hrun
      intro more m rest heq
      cases more with
      | nil =>
        obtain ⟨rfl, -⟩ := List.cons.inj heq
        simpa using htrips
      | cons m' more =>
        obtain ⟨-, htail⟩ := List.cons.inj heq
        obtain rfl : l = m' := (List.cons.inj heq).1
        simpa using ih h' (fun m hm => hports m (by simp [hm])) hrun more m rest htail

end

/-! ## When the listing is right -/

section

variable [One L] [Mul L] (drawn : Str → B)

theorem portNames_of_mem_parentEvents {interfaces : List (Str × Declaration L B P)}
    (hordered : Ordered interfaces) {name : Str} {path : List Str} {l : Level}
    (hl : Event.level l ∈ parentEvents drawn interfaces name path) :
    l.interfaceName ∈ interfaces.map Prod.fst ∧
      l.portNames = (resolve drawn interfaces l.interfaceName).ports.keys := by
  induction interfaces generalizing name path with
  | nil => exact absurd hl (by simp [parentEvents])
  | cons p rest ih =>
    obtain ⟨n, d⟩ := p
    obtain ⟨hn, hparents, hrest⟩ := hordered
    have hlater : l.interfaceName ∈ rest.map Prod.fst ∧
        l.portNames = (resolve drawn rest l.interfaceName).ports.keys := by
      rw [parentEvents] at hl
      split at hl
      · obtain ⟨interfaceName, inherit, instanceName, location, hinherit, -, hcases⟩ :=
          mem_inheritedEvents hl
        rcases hcases with rfl | hl
        · exact ⟨hparents _ (mem_keys_inherits.1 (Dict.mem_keys.2 ⟨inherit, hinherit⟩)), rfl⟩
        · exact ih hrest hl
      · exact ih hrest hl
    refine ⟨List.mem_cons_of_mem _ hlater.1, ?_⟩
    rw [resolve_cons_of_mem hn hlater.1]
    exact hlater.2

theorem portNames_of_mem_levels {h : Hierarchy L B P} (d : Declaration L B P) {l : Level}
    (hl : l ∈ levels drawn h d) :
    l.portNames = (resolve drawn h.interfaces l.interfaceName).ports.keys := by
  obtain ⟨interfaceName, inherit, instanceName, location, -, -, hcases⟩ :=
    mem_inheritedEvents ((mem_levels drawn).1 hl)
  rcases hcases with rfl | hl
  · rfl
  · exact (portNames_of_mem_parentEvents drawn h.ordered hl).2

/-- The listing is complete, and every name in it is the one that `adoptInherit` has made for the
port on its way up along the path of the instance, and the name of a port of the object. -/
def Correct (h : Hierarchy L B P) (d : Implementer h) : Prop :=
  ∃ table, instantiateInterfaces drawn h d.declaration = .ok table ∧
    ∀ interfaceName full ports portName name,
      (table.instances interfaceName).get? full = some ports → ports.get? portName = some name →
        name ∈ (getPorts drawn h d.declaration).keys ∧
          ∃ l ∈ levels drawn h d.declaration, l.interfaceName = interfaceName ∧
            fullName l.fullPath = full ∧ portName ∈ l.portNames ∧
              name = adoptedName l.fullPath portName

/-- **When the listing is right**: every level finds its instance, and no port without a name comes
with a named instance. -/
theorem correct_iff (h : Hierarchy L B P) (d : Implementer h) :
    Correct drawn h d ↔
      Unambiguous (levels drawn h d.declaration) ∧ PortsNamed (levels drawn h d.declaration) := by
  let portsOf : Str → List Str := fun name => (resolve drawn h.interfaces name).ports.keys
  have hports : ∀ l ∈ levelsOf (events drawn h d.declaration),
      l.portNames = portsOf l.interfaceName := fun l hl => portNames_of_mem_levels drawn _ hl
  have hstart : Recorded portsOf [] Dict.empty := recorded_nil
  constructor
  · rintro ⟨table, hok, hnames⟩
    rw [walk_eq_foldlM] at hok
    have htrips : Unambiguous (levels drawn h d.declaration) := by
      intro done l rest heq
      simpa using trips_of_ok hstart hports hok done l rest heq
    refine ⟨htrips, fun l hl hnil => ?_⟩
    obtain ⟨table', hok', hrecorded⟩ := run_ok hstart hports (fun more l rest heq => by
      simpa using htrips more l rest heq)
    obtain rfl : table = table' := by
      rw [hok] at hok'
      simpa using hok'
    -- the port without a name is listed with the name of the instance
    have hne : portsOf l.interfaceName ≠ [] := by
      rw [← hports l hl]
      exact List.ne_nil_of_mem hnil
    obtain ⟨ports, hget⟩ := Option.isSome_iff_exists.1
      ((hrecorded.keys l.interfaceName hne (fullName l.fullPath)).2 ⟨l, hl, rfl, rfl⟩)
    have hport := hrecorded.ports _ _ _ hget []
    rw [← hports l hl, if_pos hnil] at hport
    obtain ⟨-, l', -, -, hfull, -, hname⟩ := hnames _ _ _ _ _ hget hport
    rw [adoptedName_eq, hfull, portFullName_eq_iff] at hname
    exact hname rfl
  · rintro ⟨htrips, hnamed⟩
    obtain ⟨table, hok, hrecorded⟩ := run_ok hstart hports (fun more l rest heq => by
      simpa using htrips more l rest heq)
    refine ⟨table, by rw [walk_eq_foldlM, hok], ?_⟩
    intro interfaceName full ports portName name hget hname
    have hport := hrecorded.ports _ _ _ hget portName
    rw [hname] at hport
    have hmem : portName ∈ portsOf interfaceName := by
      by_contra hnot
      rw [if_neg hnot] at hport
      exact absurd hport (by simp)
    rw [if_pos hmem, Option.some.injEq] at hport
    have hne : portsOf interfaceName ≠ [] := List.ne_nil_of_mem hmem
    obtain ⟨l, hl, hinterface, hfull⟩ :=
      (hrecorded.keys interfaceName hne full).1 (Option.isSome_iff_exists.2 ⟨ports, hget⟩)
    have hl' : l ∈ levels drawn h d.declaration := by rwa [List.nil_append] at hl
    have hlport : portName ∈ l.portNames := by
      rw [hports l hl', hinterface]
      exact hmem
    have heq : name = adoptedName l.fullPath portName := by
      rw [hport, adoptedName_eq, hfull, portFullName_eq_iff]
      rintro rfl
      rw [← hfull]
      exact hnamed l hl' hlport
    refine ⟨heq ▸ adoptedName_mem_keys drawn hl' hlport, l, hl', hinterface, hfull, hlport, heq⟩

end

/-! ## One interface at two levels -/

/-- An interface with the port `p` at its origin, and parents. -/
def withParents (inherits : List (Str × InheritConfig (Multiplicative ℤ))) :
    Declaration (Multiplicative ℤ) Unit Unit where
  ports := Dict.empty.set ['p'] ⟨none, ()⟩
  params := Dict.empty
  mapped := []
  inherits := inherits
  abstract := false

/-- `j` inherits `i` and `k`, without names for the instances. -/
def threeInterfaces : Hierarchy (Multiplicative ℤ) Unit Unit where
  interfaces :=
    [(['j'], withParents [(['i'], .omitted), (['k'], .omitted)]), (['i'], withParents []),
      (['k'], withParents [])]
  ordered := by
    simp [Ordered, Declaration.parentNames, withParents]

/-- An object that implements `i`, and the instance `b` of `j`. -/
def bothLevels : Implementer threeInterfaces where
  declaration := withParents [(['i'], .omitted), (['j'], .named ['b'])]
  known := by
    simp [Declaration.parentNames, withParents, threeInterfaces]

/-- The instance of `i` inside of the instance of `j` is not found: its own name is that of the
instance that the object has of `i` itself. -/
theorem not_correct_bothLevels :
    ¬ ∀ (h : Hierarchy (Multiplicative ℤ) Unit Unit) (d : Implementer h),
      Correct (fun _ => ()) h d := by
  intro h
  obtain ⟨table, hok, -⟩ := h threeInterfaces bothLevels
  have herror : (instantiateInterfaces (fun _ => ()) threeInterfaces
      bothLevels.declaration).toOption.isNone = true := by decide
  rw [hok] at herror
  exact absurd herror (by simp [Except.toOption])

end PartCAD.Ports
