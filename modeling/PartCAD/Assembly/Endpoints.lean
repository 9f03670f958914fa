import Mathlib.Data.Finset.Card
import PartCAD.Ports.Candidates

/-!
# Which ports a connection joins

A `connect` section names an interface, an instance and a port at either end, or leaves them to be
worked out: `handle_node` takes the only port, the one that a pattern matches, the interface that is
mated with one of the other item, its only instance, its lead port, or two ports of one name.  It has
that cascade twice, once for the item placed (`with`) and once for the item it is connected to
(`to`).

* `cascade_mirror` : the cascade itself is its own mirror image;
* `cascade_values` : where the first copy matches a pattern against ports or instances, it raises,
  since it goes over the objects while the second copy goes over their names;
* `mirrorSymmetric_iff` : which sections are selected for alike when the two ends are exchanged.
-/

namespace PartCAD.Endpoints

open PartCAD.Lib PartCAD.Package PartCAD.Ports

/-! ## Patterns -/

inductive Token where
  | star
  | anyChar
  | literal (c : Char)
  | among (negated : Bool) (ranges : List (Char × Char))

/-- The ranges between brackets, where a hyphen that has no neighbour stands for itself. -/
def ranges : Str → List (Char × Char)
  | a :: '-' :: b :: rest => (a, b) :: ranges rest
  | a :: rest => (a, a) :: ranges rest
  | [] => []

/-- What stands between the brackets, and what comes after them.  A bracket that closes at once is
one of the characters. -/
def bracket (pattern : Str) : Option (Bool × Str × Str) :=
  let (negated, seq) :=
    match pattern with
    | '!' :: seq => (true, seq)
    | seq => (false, seq)
  let (first, rest) :=
    match seq with
    | ']' :: rest => ([']'], rest)
    | rest => ([], rest)
  if ']' ∈ rest then
    some (negated, first ++ rest.takeWhile (· ≠ ']'), (rest.dropWhile (· ≠ ']')).tail)
  else none

/-- `fnmatch.translate`, where the fuel bounds the length of the pattern. -/
def translate : Nat → Str → List Token
  | 0, _ => []
  | _, [] => []
  | fuel + 1, c :: rest =>
    if c = '*' then .star :: translate fuel rest
    else if c = '?' then .anyChar :: translate fuel rest
    else if c = '[' then
      match bracket rest with
      | some (negated, seq, rest) => .among negated (ranges seq) :: translate fuel rest
      | none => .literal c :: translate fuel rest
    else .literal c :: translate fuel rest

def Token.admits : Token → Char → Bool
  | .star, _ => true
  | .anyChar, _ => true
  | .literal c, c' => c = c'
  | .among negated ranges, c => (ranges.any fun r => r.1 ≤ c ∧ c ≤ r.2) != negated

def matchTokens : List Token → Str → Bool
  | [], name => name.isEmpty
  | .star :: tokens, name => name.tails.any (matchTokens tokens)
  | _ :: _, [] => false
  | token :: tokens, c :: name => token.admits c && matchTokens tokens name

/-- `fnmatch.fnmatch(name, pattern)` -/
def fnmatch (name pattern : Str) : Bool :=
  matchTokens (translate pattern.length pattern) name

/-! ## Items and sections -/

variable {L B P ι F Q : Type}

/-- The ports of an item and the instances of its interfaces.  The ports of an instance have their
full names for values. -/
structure Item (Q : Type) where
  ports : Dict Str Q
  interfaces : Table
  loosePorts : Bool

structure Connect where
  withInterface : Option Str
  withInstance : Option Str
  withPort : Option Str
  toInterface : Option Str
  toInstance : Option Str
  toPort : Option Str

inductive Declaration where
  | connect (connect : Connect)
  | connectPorts (withPort toPort : Option Str)

/-- What is known of one end before anything is worked out. -/
structure End where
  interface : Option Str
  instanceName : Option Str
  instancePattern : Option Str
  port : Option Str
  portPattern : Option Str

structure Context (L B P ι F : Type) where
  projectName : Str
  hierarchy : Hierarchy L B P
  mates : Mates ι F
  /-- The lead port of an interface, for the interfaces that there are. -/
  interface : Str → Option (Option Str)

/-- The name of an interface, in the project unless it says where. -/
def interfaceName (projectName name : Str) : Str :=
  if ':' ∈ name then name else projectName ++ ':' :: name

/-- A name with an asterisk is a pattern instead. -/
def plainName (name : Option Str) : Option Str :=
  name.filter ('*' ∉ ·)

def namePattern (name : Option Str) : Option Str :=
  name.filter ('*' ∈ ·)

def makeEnd (projectName : Str) (interface instanceName port : Option Str) : End where
  interface := interface.map (interfaceName projectName)
  instanceName := plainName instanceName
  instancePattern := namePattern instanceName
  port := plainName port
  portPattern := namePattern port

def Declaration.withEnd (projectName : Str) : Declaration → End
  | .connect c => makeEnd projectName c.withInterface c.withInstance c.withPort
  | .connectPorts withPort _ => makeEnd projectName none none withPort

def Declaration.toEnd (projectName : Str) : Declaration → End
  | .connect c => makeEnd projectName c.toInterface c.toInstance c.toPort
  | .connectPorts _ toPort => makeEnd projectName none none toPort

/-! ## One end -/

/-- What the loop over a dictionary goes over.  Neither a port nor an instance is a string, and
matching one against a pattern raises. -/
inductive Reading where
  | keys
  | values
deriving DecidableEq

def values {α : Type} (d : Dict Str α) : List α :=
  d.items.map Prod.snd

def single {α : Type} : List α → Option α
  | [a] => some a
  | _ => none

/-- The names that match a pattern. -/
def matched (r : Reading) (names : List Str) (pattern : Str) : Option (List Str) :=
  match r with
  | .keys => some (names.filter (fnmatch · pattern))
  | .values => if names = [] then some [] else none

/-- The only interface that an item implements. -/
def onlyInterface (item : Item Q) (interface : Option Str) : Option Str :=
  match interface with
  | some name => some name
  | none => if item.loosePorts then none else single item.interfaces.keys

/-- The only port of an item, or the only one that matches. -/
def onlyPort (r : Reading) (item : Item Q) (e : End) : Option (Option Str) :=
  match e.port with
  | some name => some (some name)
  | none =>
    match single item.ports.keys with
    | some name => some (some name)
    | none =>
      match e.portPattern with
      | some pattern => (matched r item.ports.keys pattern).map single
      | none => some none

/-- `get_ports()[name]`, where a port is known and has not been looked up before. -/
def getPort (item : Item Q) (name : Option Str) (found : Option Q) : Option (Option Q) :=
  match found, name with
  | some port, _ => some (some port)
  | none, some name => (item.ports.get? name).map some
  | none, none => some none

/-- The old syntax for absolute package paths. -/
def rooted (name : Str) : Str :=
  match name with
  | '/' :: '/' :: _ => name
  | '/' :: _ => '/' :: name
  | _ => name

/-- An interface of an item: its instances there, and its lead port, if there is such an interface. -/
structure Known where
  instances : Dict Str (Dict Str Str)
  obj : Option (Option Str)

def getInterface (ctx : Context L B P ι F) (item : Item Q) (name : Option Str) :
    Option (Option Known) :=
  match name with
  | none => some none
  | some name =>
    (item.interfaces.get? (rooted name)).map fun instances => some ⟨instances, ctx.interface name⟩

/-- The instance that an end is at.  One that is not there is only reported. -/
def chooseInstance (r : Reading) (instances : Dict Str (Dict Str Str)) (e : End) :
    Option (Option (Dict Str Str)) := do
  let name ←
    match e.instancePattern with
    | some pattern => (matched r instances.keys pattern).map fun names =>
        (single names).or e.instanceName
    | none => some e.instanceName
  match name with
  | some name => return instances.get? name
  | none => return single (values instances)

/-- The port of an instance: its only one, the one that matches, or the lead port. -/
def choosePort (leadPort : Option Str) (ports : Dict Str Str) (e : End) : Option Str :=
  match single (values ports) with
  | some name => some name
  | none =>
    match e.portPattern with
    | some pattern => single ((values ports).filter (fnmatch · pattern))
    | none => leadPort.bind fun leadPort => (values ports).find? (fnmatch · ('*' :: leadPort))

/-- The port of one end where only its interface is known, and the instance that it is of. -/
def endPort (r : Reading) (interface : Option Known) (e : End) (port : Option Str) :
    Option (Option Str × Option (Dict Str Str)) :=
  match port, interface with
  | none, some ⟨instances, some leadPort⟩ =>
    (chooseInstance r instances e).map fun ports =>
      (ports.bind fun ports => choosePort leadPort ports e, ports)
  | port, _ => some (port, none)

/-! ## Both ends -/

/-- `candidates.pop()`, where there is one. -/
def popSingle (candidates : Finset Str) : Option Str :=
  if h : candidates.card = 1 then
    some (candidates.choose (fun _ => True) (by
      obtain ⟨name, hname⟩ := Finset.card_eq_one.1 h
      exact ⟨name, by simp [hname]⟩))
  else none

def adopt (port interface : Option Str) (candidates : Finset Str) : Option Str :=
  if port = none ∧ interface = none then popSingle candidates else interface

/-- The interfaces of the two items that are mated, where either end has nothing else to go by. -/
def detect (ctx : Context L B P ι F) (source target : Item Q)
    (withPort withInterface toPort toInterface : Option Str) : Option (Option Str × Option Str) :=
  if (withPort = none ∧ withInterface = none) ∨ (toPort = none ∧ toInterface = none) then
    if ∀ name ∈ source.interfaces.keys ++ target.interfaces.keys, (ctx.interface name).isSome then
      match findMatingInterfaces ctx.hierarchy ctx.mates source.interfaces target.interfaces with
      | .ok (sources, targets) =>
        some (adopt withPort withInterface sources, adopt toPort toInterface targets)
      | .error _ => none
    else none
  else some (withInterface, toInterface)

def firstMatch (names : List Str) (pattern : Option Str) : Option Nat :=
  pattern.bind fun pattern => names.findIdx? (fnmatch · pattern)

/-- Where in the sorted names of its ports either instance is connected. -/
def portIndices (sourcePorts targetPorts : List Str) (withPattern toPattern : Option Str) :
    Option Nat × Option Nat :=
  if sourcePorts.length ≠ 1 then
    let guess :=
      if withPattern = none ∧ toPattern = none ∧ sourcePorts.length = targetPorts.length then some 0
      else none
    let withIndex := (firstMatch sourcePorts withPattern).or guess
    let toIndex := (firstMatch targetPorts toPattern).or guess
    if sourcePorts.length = targetPorts.length then
      let toIndex := toIndex.or withIndex
      (withIndex.or toIndex, toIndex)
    else (withIndex, toIndex)
  else (none, none)

def portAt (ports : Dict Str Str) (names : List Str) (index : Option Nat) : Option Str :=
  index.bind fun index => (names[index]?).bind ports.get?

/-- Two ports of the instances that are known, where neither port is. -/
def pairPorts (sourceInstance targetInstance : Option (Dict Str Str)) (w t : End)
    (withPort toPort : Option Str) : Option (Option Str × Option Str) :=
  match sourceInstance, targetInstance, withPort, toPort with
  | some source, some target, none, none =>
    let sourcePorts := source.keys.mergeSort (· ≤ ·)
    let targetPorts := target.keys.mergeSort (· ≤ ·)
    if sourcePorts = targetPorts then
      match sourcePorts with
      | [] => none
      | name :: _ => some (source.get? name, target.get? name)
    else
      let indices := portIndices sourcePorts targetPorts w.portPattern t.portPattern
      some (portAt source sourcePorts indices.1, portAt target targetPorts indices.2)
  | _, _, withPort, toPort => some (withPort, toPort)

/-- Two items, and the two ends of the section between them. -/
structure Query (Q : Type) where
  source : Item Q
  target : Item Q
  withEnd : End
  toEnd : End

/-- What is found at one end. -/
structure Selected (Q : Type) where
  interface : Option Str
  port : Option Str
  found : Option Q
deriving DecidableEq

/-- The two copies of the cascade, where either one goes over the names or over the objects. -/
def cascade (r₁ r₂ : Reading) (ctx : Context L B P ι F) (x : Query Q) :
    Option (Selected Q × Selected Q) := do
  let withInterface := onlyInterface x.source x.withEnd.interface
  let withPort ← onlyPort r₁ x.source x.withEnd
  let sourcePort ← getPort x.source withPort none
  let toInterface := onlyInterface x.target x.toEnd.interface
  let toPort ← onlyPort r₂ x.target x.toEnd
  let targetPort ← getPort x.target toPort none
  let (withInterface, toInterface) ←
    detect ctx x.source x.target withPort withInterface toPort toInterface
  let sourceInterface ← getInterface ctx x.source withInterface
  let targetInterface ← getInterface ctx x.target toInterface
  let (withPort, sourceInstance) ← endPort r₁ sourceInterface x.withEnd withPort
  let (toPort, targetInstance) ← endPort r₂ targetInterface x.toEnd toPort
  let (withPort, toPort) ←
    pairPorts sourceInstance targetInstance x.withEnd x.toEnd withPort toPort
  let sourcePort ← getPort x.source withPort sourcePort
  let targetPort ← getPort x.target toPort targetPort
  return (⟨withInterface, withPort, sourcePort⟩, ⟨toInterface, toPort, targetPort⟩)

def query (ctx : Context L B P ι F) (item target : Item Q) (d : Declaration) : Query Q :=
  ⟨item, target, d.withEnd ctx.projectName, d.toEnd ctx.projectName⟩

/-- The ports that `handle_node` connects the item and the target by. -/
def select (ctx : Context L B P ι F) (item target : Item Q) (d : Declaration) :
    Option (Selected Q × Selected Q) :=
  cascade .values .keys ctx (query ctx item target d)

/-! ## The cascade and its mirror image -/

def Query.mirror (x : Query Q) : Query Q :=
  ⟨x.target, x.source, x.toEnd, x.withEnd⟩

/-- The same section, written from the other item. -/
def Declaration.mirror : Declaration → Declaration
  | .connect c =>
    .connect
      { withInterface := c.toInterface
        withInstance := c.toInstance
        withPort := c.toPort
        toInterface := c.withInterface
        toInstance := c.withInstance
        toPort := c.withPort }
  | .connectPorts withPort toPort => .connectPorts toPort withPort

@[simp] theorem withEnd_mirror (projectName : Str) (d : Declaration) :
    d.mirror.withEnd projectName = d.toEnd projectName := by
  cases d <;> rfl

@[simp] theorem toEnd_mirror (projectName : Str) (d : Declaration) :
    d.mirror.toEnd projectName = d.withEnd projectName := by
  cases d <;> rfl

variable {ctx : Context L B P ι F}

/-- Mating does not tell the two ends apart. -/
theorem detect_mirror (source target : Item Q)
    (withPort withInterface toPort toInterface : Option Str) :
    detect ctx target source toPort toInterface withPort withInterface =
      (detect ctx source target withPort withInterface toPort toInterface).map Prod.swap := by
  have hnames : (∀ name ∈ target.interfaces.keys ++ source.interfaces.keys,
      (ctx.interface name).isSome) ↔
        ∀ name ∈ source.interfaces.keys ++ target.interfaces.keys, (ctx.interface name).isSome := by
    simp only [List.mem_append]
    exact forall_congr' fun name => by rw [or_comm]
  unfold detect
  simp only [hnames, or_comm (a := toPort = none ∧ toInterface = none)]
  split_ifs with hmissing hknown
  · unfold findMatingInterfaces
    dsimp only
    cases hs : realCandidates
        (realInterfaces (compatibleWith ctx.hierarchy) source.interfaces.keys)
        ((forms (compatibleWith ctx.hierarchy) source.interfaces.keys).filter
          (· ∈ (forms (compatibleWith ctx.hierarchy) target.interfaces.keys).flatMap
            (peers ctx.mates))) with
    | error e =>
      cases ht : realCandidates
          (realInterfaces (compatibleWith ctx.hierarchy) target.interfaces.keys)
          ((forms (compatibleWith ctx.hierarchy) target.interfaces.keys).filter
            (· ∈ (forms (compatibleWith ctx.hierarchy) source.interfaces.keys).flatMap
              (peers ctx.mates))) <;> rfl
    | ok sources =>
      cases ht : realCandidates
          (realInterfaces (compatibleWith ctx.hierarchy) target.interfaces.keys)
          ((forms (compatibleWith ctx.hierarchy) target.interfaces.keys).filter
            (· ∈ (forms (compatibleWith ctx.hierarchy) source.interfaces.keys).flatMap
              (peers ctx.mates))) <;> rfl
  · rfl
  · rfl

theorem length_values {α : Type} (d : Dict Str α) : (values d).length = d.keys.length := by
  rw [values, Dict.keys, List.length_map, List.length_map]

theorem single_of_length {α : Type} {l : List α} (h : l.length = 1) : ∃ a, single l = some a := by
  obtain ⟨a, rfl⟩ := List.length_eq_one_iff.1 h
  exact ⟨a, rfl⟩

/-- An instance with one port has given that port. -/
theorem length_of_endPort {r : Reading} {interface : Option Known} {e : End} {port : Option Str}
    {ports : Dict Str Str} (h : endPort r interface e port = some (none, some ports)) :
    ports.keys.length ≠ 1 := by
  intro hlength
  unfold endPort at h
  split at h
  · rename_i instances leadPort
    obtain ⟨chosen, -, hchosen⟩ := Option.map_eq_some_iff.1 h
    obtain ⟨hport, rfl⟩ := Prod.mk.inj hchosen
    obtain ⟨name, hname⟩ := single_of_length (l := values ports) (by rw [length_values, hlength])
    rw [Option.bind_some, choosePort, hname] at hport
    cases hport
  · cases h

theorem portIndices_mirror {sourcePorts targetPorts : List Str} (withPattern toPattern : Option Str)
    (hs : sourcePorts.length ≠ 1) (ht : targetPorts.length ≠ 1) :
    portIndices targetPorts sourcePorts toPattern withPattern =
      (portIndices sourcePorts targetPorts withPattern toPattern).swap := by
  have hguess : (toPattern = none ∧ withPattern = none ∧ targetPorts.length = sourcePorts.length) ↔
      (withPattern = none ∧ toPattern = none ∧ sourcePorts.length = targetPorts.length) := by
    constructor <;> rintro ⟨h₁, h₂, h₃⟩ <;> exact ⟨h₂, h₁, h₃.symm⟩
  unfold portIndices
  rw [if_pos hs, if_pos ht]
  simp only [hguess]
  generalize (firstMatch sourcePorts withPattern).or _ = i
  generalize (firstMatch targetPorts toPattern).or _ = j
  by_cases hlength : sourcePorts.length = targetPorts.length
  · rw [if_pos hlength, if_pos hlength.symm]
    cases i <;> cases j <;> rfl
  · rw [if_neg hlength, if_neg fun h => hlength h.symm]
    rfl

theorem pairPorts_mirror (s t : Option (Dict Str Str)) (w e : End) (withPort toPort : Option Str)
    (hs : ∀ ports, withPort = none → s = some ports → ports.keys.length ≠ 1)
    (ht : ∀ ports, toPort = none → t = some ports → ports.keys.length ≠ 1) :
    pairPorts t s e w toPort withPort = (pairPorts s t w e withPort toPort).map Prod.swap := by
  rcases s with _ | source <;> rcases t with _ | target <;> rcases withPort with _ | p <;>
    rcases toPort with _ | q <;> try rfl
  unfold pairPorts
  dsimp only
  by_cases hsame : source.keys.mergeSort (· ≤ ·) = target.keys.mergeSort (· ≤ ·)
  · rw [if_pos hsame, if_pos hsame.symm, hsame]
    cases target.keys.mergeSort (· ≤ ·) <;> rfl
  · rw [if_neg hsame, if_neg fun h => hsame h.symm,
      portIndices_mirror _ _ (by rw [List.length_mergeSort]; exact hs source rfl rfl)
        (by rw [List.length_mergeSort]; exact ht target rfl rfl)]
    rfl

/-- **The cascade is its own mirror image.** -/
theorem cascade_mirror (r₁ r₂ : Reading) (x : Query Q) :
    cascade r₂ r₁ ctx x.mirror = (cascade r₁ r₂ ctx x).map Prod.swap := by
  unfold cascade Query.mirror
  dsimp only [Option.bind_eq_bind]
  rcases onlyPort r₁ x.source x.withEnd with _ | withPort
  · rcases onlyPort r₂ x.target x.toEnd with _ | toPort
    · rfl
    · exact Option.bind_fun_none _
  rcases onlyPort r₂ x.target x.toEnd with _ | toPort
  · dsimp only [Option.bind_none, Option.bind_some]
    rw [Option.bind_fun_none, Option.map_none]
  dsimp only [Option.bind_some]
  rcases getPort x.source withPort none with _ | sourcePort
  · exact Option.bind_fun_none _
  rcases getPort x.target toPort none with _ | targetPort
  · rfl
  dsimp only [Option.bind_some]
  rw [detect_mirror x.source x.target]
  rcases detect ctx x.source x.target withPort (onlyInterface x.source x.withEnd.interface) toPort
    (onlyInterface x.target x.toEnd.interface) with _ | ⟨withInterface, toInterface⟩
  · rfl
  dsimp only [Option.map_some, Option.bind_some, Prod.swap]
  rcases getInterface ctx x.source withInterface with _ | sourceInterface
  · exact Option.bind_fun_none _
  rcases getInterface ctx x.target toInterface with _ | targetInterface
  · rfl
  dsimp only [Option.bind_some]
  rcases hsource : endPort r₁ sourceInterface x.withEnd withPort with _ | ⟨p, s⟩
  · exact Option.bind_fun_none _
  rcases htarget : endPort r₂ targetInterface x.toEnd toPort with _ | ⟨q, t⟩
  · rfl
  dsimp only [Option.bind_some]
  rw [pairPorts_mirror s t x.withEnd x.toEnd p q
    (by rintro ports rfl rfl; exact length_of_endPort hsource)
    (by rintro ports rfl rfl; exact length_of_endPort htarget)]
  rcases pairPorts s t x.withEnd x.toEnd p q with _ | ⟨p, q⟩
  · rfl
  dsimp only [Option.map_some, Option.bind_some, Prod.swap]
  rcases getPort x.source p sourcePort with _ | sourcePort
  · exact Option.bind_fun_none _
  rcases getPort x.target q targetPort with _ | targetPort <;> rfl

/-! ## The ports under their names -/

theorem getPort_eq {item : Item Q} {name : Option Str} {port : Option Q}
    (h : getPort item name none = some port) : port = name.bind item.ports.get? := by
  cases name with
  | none => exact (Option.some.inj h).symm
  | some name =>
    obtain ⟨found, hfound, rfl⟩ := Option.map_eq_some_iff.1 h
    exact hfound.symm

/-- A port that is known stays. -/
theorem endPort_known {r : Reading} {interface : Option Known} {e : End} {name : Str}
    {known : Option Str × Option (Dict Str Str)}
    (h : endPort r interface e (some name) = some known) : known = (some name, none) := by
  cases interface <;> exact (Option.some.inj h).symm

theorem pairPorts_with_known {s t : Option (Dict Str Str)} {w e : End} {name : Str}
    {toPort : Option Str} {ports : Option Str × Option Str}
    (h : pairPorts s t w e (some name) toPort = some ports) : ports = (some name, toPort) := by
  cases s <;> cases t <;> cases toPort <;> exact (Option.some.inj h).symm

theorem pairPorts_to_known {s t : Option (Dict Str Str)} {w e : End} {name : Str}
    {withPort : Option Str} {ports : Option Str × Option Str}
    (h : pairPorts s t w e withPort (some name) = some ports) : ports = (withPort, some name) := by
  cases s <;> cases t <;> cases withPort <;> exact (Option.some.inj h).symm

/-- A port that was looked up at once is looked up by the name that is found in the end. -/
theorem getPort_found {item : Item Q} {early late : Option Str} {port found : Option Q}
    (hearly : getPort item early none = some port) (hlate : getPort item late port = some found)
    (hkept : ∀ name, early = some name → late = some name) :
    found = late.bind item.ports.get? := by
  have hport := getPort_eq hearly
  cases port with
  | none => exact getPort_eq hlate
  | some p =>
    cases early with
    | none => cases hport
    | some name =>
      rw [hkept name rfl, ← Option.some.inj hlate]
      exact hport

/-- **The ports found are those of the names found.** -/
theorem cascade_found {r₁ r₂ : Reading} {x : Query Q} {s t : Selected Q}
    (h : cascade r₁ r₂ ctx x = some (s, t)) :
    s.found = s.port.bind x.source.ports.get? ∧ t.found = t.port.bind x.target.ports.get? := by
  unfold cascade at h
  simp only [Option.bind_eq_bind] at h
  obtain ⟨withPort, hwith, h⟩ := Option.bind_eq_some_iff.1 h
  obtain ⟨sourcePort, hsource, h⟩ := Option.bind_eq_some_iff.1 h
  obtain ⟨toPort, hto, h⟩ := Option.bind_eq_some_iff.1 h
  obtain ⟨targetPort, htarget, h⟩ := Option.bind_eq_some_iff.1 h
  obtain ⟨⟨withInterface, toInterface⟩, -, h⟩ := Option.bind_eq_some_iff.1 h
  obtain ⟨sourceInterface, -, h⟩ := Option.bind_eq_some_iff.1 h
  obtain ⟨targetInterface, -, h⟩ := Option.bind_eq_some_iff.1 h
  obtain ⟨⟨p, sourceInstance⟩, hp, h⟩ := Option.bind_eq_some_iff.1 h
  obtain ⟨⟨q, targetInstance⟩, hq, h⟩ := Option.bind_eq_some_iff.1 h
  obtain ⟨⟨p', q'⟩, hpair, h⟩ := Option.bind_eq_some_iff.1 h
  obtain ⟨foundSource, hfoundSource, h⟩ := Option.bind_eq_some_iff.1 h
  obtain ⟨foundTarget, hfoundTarget, h⟩ := Option.bind_eq_some_iff.1 h
  obtain ⟨rfl, rfl⟩ := Prod.mk.inj (Option.some.inj h)
  refine ⟨getPort_found hsource hfoundSource ?_, getPort_found htarget hfoundTarget ?_⟩
  · rintro name rfl
    obtain ⟨rfl, -⟩ := Prod.mk.inj (endPort_known hp)
    exact congrArg Prod.fst (pairPorts_with_known hpair)
  · rintro name rfl
    obtain ⟨rfl, -⟩ := Prod.mk.inj (endPort_known hq)
    exact congrArg Prod.snd (pairPorts_to_known hpair)

/-! ## Objects in place of names -/

/-- A pattern is matched against the ports of an item. -/
def MatchesPorts (item : Item Q) (e : End) : Prop :=
  e.port = none ∧ single item.ports.keys = none ∧ e.portPattern ≠ none ∧ item.ports.keys ≠ []

/-- A pattern is matched against the instances of an interface. -/
def MatchesInstances (interface : Option Known) (e : End) (port : Option Str) : Prop :=
  ∃ instances leadPort, port = none ∧ interface = some ⟨instances, some leadPort⟩ ∧
    e.instancePattern ≠ none ∧ instances.keys ≠ []

/-- Working out the `with` end comes to a pattern: the ports of the item are matched against one, or
the instances of its interface are, be it the one named, its only one or the one that is mated. -/
def MeetsPattern (ctx : Context L B P ι F) (x : Query Q) : Prop :=
  MatchesPorts x.source x.withEnd ∨
    ∃ withPort toPort interfaces interface,
      onlyPort .keys x.source x.withEnd = some withPort ∧
      onlyPort .keys x.target x.toEnd = some toPort ∧
      detect ctx x.source x.target withPort (onlyInterface x.source x.withEnd.interface)
        toPort (onlyInterface x.target x.toEnd.interface) = some interfaces ∧
      getInterface ctx x.source interfaces.1 = some interface ∧
      MatchesInstances interface x.withEnd withPort

theorem onlyPort_values_of_matches {item : Item Q} {e : End} (h : MatchesPorts item e) :
    onlyPort .values item e = none := by
  obtain ⟨hport, hsingle, hpattern, hports⟩ := h
  obtain ⟨pattern, hpattern⟩ := Option.ne_none_iff_exists'.1 hpattern
  simp only [onlyPort, hport, hsingle, hpattern, matched, if_neg hports, Option.map_none]

theorem onlyPort_values {item : Item Q} {e : End} (h : ¬ MatchesPorts item e) :
    onlyPort .values item e = onlyPort .keys item e := by
  unfold onlyPort
  cases hport : e.port with
  | some name => rfl
  | none =>
    dsimp only
    cases hsingle : single item.ports.keys with
    | some name => rfl
    | none =>
      dsimp only
      cases hpattern : e.portPattern with
      | none => rfl
      | some pattern =>
        have hports : item.ports.keys = [] := by
          by_contra hports
          exact h ⟨hport, hsingle, by rw [hpattern]; exact Option.some_ne_none pattern, hports⟩
        simp only [matched, hports, if_true, List.filter_nil]

theorem endPort_values_of_matches {interface : Option Known} {e : End} {port : Option Str}
    (h : MatchesInstances interface e port) : endPort .values interface e port = none := by
  obtain ⟨instances, leadPort, rfl, rfl, hpattern, hinstances⟩ := h
  obtain ⟨pattern, hpattern⟩ := Option.ne_none_iff_exists'.1 hpattern
  simp only [endPort, chooseInstance, hpattern, matched, if_neg hinstances, Option.map_none,
    Option.bind_eq_bind, Option.bind_none]

theorem endPort_values {interface : Option Known} {e : End} {port : Option Str}
    (h : ¬ MatchesInstances interface e port) :
    endPort .values interface e port = endPort .keys interface e port := by
  unfold endPort
  split
  · rename_i instances leadPort
    congr 1
    unfold chooseInstance
    cases hpattern : e.instancePattern with
    | none => rfl
    | some pattern =>
      have hinstances : instances.keys = [] := by
        by_contra hinstances
        exact h ⟨instances, leadPort, rfl, rfl, by rw [hpattern]; exact Option.some_ne_none pattern,
          hinstances⟩
      simp only [matched, hinstances, if_true, List.filter_nil]
  · rfl

theorem cascade_values_of_meets {x : Query Q} (h : MeetsPattern ctx x) :
    cascade .values .keys ctx x = none := by
  unfold cascade
  dsimp only [Option.bind_eq_bind]
  by_cases hports : MatchesPorts x.source x.withEnd
  · rw [onlyPort_values_of_matches hports]
    rfl
  obtain ⟨withPort, toPort, ⟨withInterface, toInterface⟩, interface, hwith, hto, hdetect,
    hinterface, hmatches⟩ := h.resolve_left hports
  rw [onlyPort_values hports, hwith, hto]
  dsimp only [Option.bind_some] at hinterface ⊢
  rw [hdetect]
  dsimp only [Option.bind_some]
  rw [hinterface]
  dsimp only [Option.bind_some]
  rw [endPort_values_of_matches hmatches]
  dsimp only [Option.bind_none]
  rw [Option.bind_fun_none]
  simp only [Option.bind_fun_none]

/-- **Without a pattern the objects serve as well as the names.** -/
theorem cascade_values {x : Query Q} (h : ¬ MeetsPattern ctx x) :
    cascade .values .keys ctx x = cascade .keys .keys ctx x := by
  obtain ⟨hports, hinstances⟩ := not_or.1 h
  unfold cascade
  dsimp only [Option.bind_eq_bind]
  rw [onlyPort_values hports]
  rcases hwith : onlyPort .keys x.source x.withEnd with _ | withPort
  · rfl
  rcases hto : onlyPort .keys x.target x.toEnd with _ | toPort
  · rfl
  dsimp only [Option.bind_some]
  rcases hdetect : detect ctx x.source x.target withPort
    (onlyInterface x.source x.withEnd.interface) toPort
    (onlyInterface x.target x.toEnd.interface) with _ | ⟨withInterface, toInterface⟩
  · rfl
  dsimp only [Option.bind_some]
  rcases hinterface : getInterface ctx x.source withInterface with _ | interface
  · rfl
  have hmatches : ¬ MatchesInstances interface x.withEnd withPort := fun hmatches =>
    hinstances ⟨withPort, toPort, (withInterface, toInterface), interface, hwith, hto, hdetect,
      hinterface, hmatches⟩
  dsimp only [Option.bind_some]
  rw [endPort_values hmatches]

/-! ## Selection -/

/-- Either port is asked for and not there, where `found` has those that are known already. -/
def PortsMissing (x : Query Q) (withPort toPort : Option Str) (found : Option Q × Option Q) : Prop :=
  getPort x.source withPort found.1 = none ∨ getPort x.target toPort found.2 = none

/-- Either interface is asked for and not there, the ports of the two instances cannot be paired, or
one that is found there is not a port of the item. -/
def InterfacesMissing (ctx : Context L B P ι F) (x : Query Q) (withPort toPort : Option Str)
    (found : Option Q × Option Q) (interfaces : Option Str × Option Str) : Prop :=
  getInterface ctx x.source interfaces.1 = none ∨ getInterface ctx x.target interfaces.2 = none ∨
    ∃ source target withEnd toEnd,
      getInterface ctx x.source interfaces.1 = some source ∧
      getInterface ctx x.target interfaces.2 = some target ∧
      endPort .keys source x.withEnd withPort = some withEnd ∧
      endPort .keys target x.toEnd toPort = some toEnd ∧
      (pairPorts withEnd.2 toEnd.2 x.withEnd x.toEnd withEnd.1 toEnd.1 = none ∨
        ∃ ports, pairPorts withEnd.2 toEnd.2 x.withEnd x.toEnd withEnd.1 toEnd.1 = some ports ∧
          PortsMissing x ports.1 ports.2 found)

/-- What a section asks for is missing: a port that it names, an interface of either item for the
mating, an interface that it names or that mating finds, or a port of the instance. -/
def Missing (ctx : Context L B P ι F) (x : Query Q) : Prop :=
  ∃ withPort toPort,
    onlyPort .keys x.source x.withEnd = some withPort ∧
    onlyPort .keys x.target x.toEnd = some toPort ∧
    (PortsMissing x withPort toPort (none, none) ∨
      ∃ sourcePort targetPort,
        getPort x.source withPort none = some sourcePort ∧
        getPort x.target toPort none = some targetPort ∧
        (detect ctx x.source x.target withPort (onlyInterface x.source x.withEnd.interface)
            toPort (onlyInterface x.target x.toEnd.interface) = none ∨
          ∃ interfaces,
            detect ctx x.source x.target withPort (onlyInterface x.source x.withEnd.interface)
              toPort (onlyInterface x.target x.toEnd.interface) = some interfaces ∧
            InterfacesMissing ctx x withPort toPort (sourcePort, targetPort) interfaces))

theorem exists_onlyPort_keys (item : Item Q) (e : End) :
    ∃ port, onlyPort .keys item e = some port := by
  unfold onlyPort
  cases e.port with
  | some name => exact ⟨_, rfl⟩
  | none =>
    dsimp only
    cases single item.ports.keys with
    | some name => exact ⟨_, rfl⟩
    | none =>
      dsimp only
      cases e.portPattern with
      | some pattern => exact ⟨_, rfl⟩
      | none => exact ⟨_, rfl⟩

theorem exists_endPort_keys (interface : Option Known) (e : End) (port : Option Str) :
    ∃ known, endPort .keys interface e port = some known := by
  unfold endPort
  split
  · rename_i instances leadPort
    have hinstance : ∃ ports, chooseInstance .keys instances e = some ports := by
      unfold chooseInstance
      cases e.instancePattern with
      | some pattern =>
        simp only [matched, Option.map_some, Option.bind_eq_bind, Option.bind_some]
        cases (single (instances.keys.filter (fnmatch · pattern))).or e.instanceName <;>
          exact ⟨_, rfl⟩
      | none =>
        simp only [Option.bind_eq_bind, Option.bind_some]
        cases e.instanceName <;> exact ⟨_, rfl⟩
    obtain ⟨ports, hports⟩ := hinstance
    rw [hports]
    exact ⟨_, rfl⟩
  · exact ⟨_, rfl⟩

/-- Names alone raise exactly where something is missing. -/
theorem cascade_keys_eq_none_iff {x : Query Q} :
    cascade .keys .keys ctx x = none ↔ Missing ctx x := by
  obtain ⟨withPort, hwith⟩ := exists_onlyPort_keys x.source x.withEnd
  obtain ⟨toPort, hto⟩ := exists_onlyPort_keys x.target x.toEnd
  unfold cascade Missing
  dsimp only [Option.bind_eq_bind]
  rw [hwith, hto]
  dsimp only [Option.bind_some]
  simp only [Option.some.injEq, exists_eq_left', exists_and_left, PortsMissing]
  rcases getPort x.source withPort none with _ | sourcePort
  · simp
  rcases getPort x.target toPort none with _ | targetPort
  · simp
  simp only [Option.bind_some, Option.some.injEq, exists_eq_left', reduceCtorEq, false_or]
  rcases detect ctx x.source x.target withPort (onlyInterface x.source x.withEnd.interface) toPort
    (onlyInterface x.target x.toEnd.interface) with _ | ⟨withInterface, toInterface⟩
  · simp
  simp only [Option.bind_some, Option.some.injEq, exists_eq_left', reduceCtorEq, false_or,
    InterfacesMissing]
  rcases getInterface ctx x.source withInterface with _ | source
  · simp
  rcases getInterface ctx x.target toInterface with _ | target
  · simp
  obtain ⟨⟨p, s⟩, hsource⟩ := exists_endPort_keys source x.withEnd withPort
  obtain ⟨⟨q, t⟩, htarget⟩ := exists_endPort_keys target x.toEnd toPort
  simp only [Option.bind_some, Option.some.injEq, exists_eq_left', reduceCtorEq, false_or,
    exists_and_left, hsource, htarget]
  rcases pairPorts s t x.withEnd x.toEnd p q with _ | ⟨p, q⟩
  · simp
  simp only [Option.bind_some, Option.some.injEq, exists_eq_left', reduceCtorEq, false_or,
    PortsMissing]
  rcases getPort x.source p sourcePort with _ | sourcePort
  · simp
  rcases getPort x.target q targetPort with _ | targetPort
  · simp
  simp

/-- Exchanging the items and the two ends of the section exchanges the ports. -/
def MirrorSymmetric (ctx : Context L B P ι F) (item target : Item Q) (d : Declaration) : Prop :=
  select ctx target item d.mirror = (select ctx item target d).map Prod.swap

theorem query_mirror (item target : Item Q) (d : Declaration) :
    query ctx target item d.mirror = (query ctx item target d).mirror := by
  simp only [query, Query.mirror, withEnd_mirror, toEnd_mirror]

/-- **A section is selected for alike from either side** when both ends come to a pattern or neither
does, or when something is missing anyway. -/
theorem mirrorSymmetric_iff (ctx : Context L B P ι F) (item target : Item Q) (d : Declaration) :
    MirrorSymmetric ctx item target d ↔
      (MeetsPattern ctx (query ctx item target d) ↔
        MeetsPattern ctx (query ctx item target d).mirror) ∨
      Missing ctx (query ctx item target d) := by
  have hnames : cascade .keys .keys ctx (query ctx item target d).mirror = _ :=
    cascade_mirror .keys .keys _
  rw [MirrorSymmetric, select, select, query_mirror, ← cascade_keys_eq_none_iff]
  generalize query ctx item target d = x at hnames ⊢
  by_cases hhere : MeetsPattern ctx x
  · rw [cascade_values_of_meets hhere, Option.map_none]
    by_cases hthere : MeetsPattern ctx x.mirror
    · rw [cascade_values_of_meets hthere]
      exact iff_of_true rfl (Or.inl (iff_of_true hhere hthere))
    · rw [cascade_values hthere, hnames, Option.map_eq_none_iff]
      exact ⟨Or.inr, fun h => h.resolve_left fun h => hthere (h.1 hhere)⟩
  · rw [cascade_values hhere]
    by_cases hthere : MeetsPattern ctx x.mirror
    · rw [cascade_values_of_meets hthere, eq_comm, Option.map_eq_none_iff]
      exact ⟨Or.inr, fun h => h.resolve_left fun h => hhere (h.2 hthere)⟩
    · rw [cascade_values hthere, hnames]
      exact iff_of_true rfl (Or.inl (iff_of_false hhere hthere))

/-! ## A post with two ports -/

def standContext : Context Unit Unit Unit Str Unit :=
  ⟨"//stand".toList, ⟨[], trivial⟩, Dict.empty, fun _ => none⟩

def post : Item Nat :=
  ⟨Dict.ofPairs [("top-a".toList, 0), ("base".toList, 1)], Dict.empty, true⟩

def plate : Item Nat :=
  ⟨Dict.ofPairs [("hole".toList, 2)], Dict.empty, true⟩

/-- `withPort: "top*"` -/
def topSection : Declaration :=
  .connect ⟨none, none, some "top*".toList, none, none, none⟩

/-- The pattern that one port of the post matches finds it from the side of the plate, and raises
from its own. -/
theorem not_mirrorSymmetric_post :
    Symmetric standContext.mates ∧
      post.ports.keys.filter (fnmatch · "top*".toList) = ["top-a".toList] ∧
      select standContext post plate topSection = none ∧
      select standContext plate post topSection.mirror =
        some (⟨none, some "hole".toList, some 2⟩, ⟨none, some "top-a".toList, some 0⟩) ∧
      ¬ MirrorSymmetric standContext post plate topSection := by
  have hhere : select standContext post plate topSection = none := by decide
  have hthere : select standContext plate post topSection.mirror =
      some (⟨none, some "hole".toList, some 2⟩, ⟨none, some "top-a".toList, some 0⟩) := by decide
  refine ⟨fun _ _ => rfl, by decide, hhere, hthere, ?_⟩
  rw [MirrorSymmetric, hhere, hthere]
  decide

end PartCAD.Endpoints
