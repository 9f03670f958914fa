import PartCAD.Convert.Interfaces
import PartCAD.Lib.Forest

/-!
# The ASSY file of a URDF assembly

The links of the table are listed, each after the link that it hangs from.  A link that hangs from none
is placed by a location, and any other is connected, by the pair of its joint, to the one it hangs from.

* `urdfToAssy` : the document, the parts and the interfaces;
* `urdfToAssy_spec` : **what is written** about every link.
-/

namespace PartCAD.Convert

open PartCAD.Lib PartCAD.Geometry

/-- What a part implements: a plug at its own origin, or instances of a socket. -/
abbrev Entries (P : Type) : Type := Dict Str (Option (Dict Str P))

/-- `connect`.  What is written has no `toParams`. -/
structure Connect (R : Type) where
  with_ : Str
  name : Str
  to_ : Str
  toInstance : Str
  toParams : Dict Str R

inductive Placing (P R : Type) where
  | location (location : P)
  | connect (connect : Connect R)

/-- A node of the document. -/
structure AssyNode (P R : Type) where
  part : Str
  name : Str
  placing : Placing P R

/-- A part that is written, with what it implements. -/
structure Part (P : Type) where
  path : Str
  entries : Entries P

/-- What `urdf_to_assy` writes. -/
structure Converted (P R V : Type) where
  links : List (AssyNode P R)
  parts : Dict Str (Part P)
  interfaces : Dict Str (InterfaceConfig P R V)

section

variable {L P R V : Type}

/-- `link.get("parent")` -/
def parentOf (links : Dict Str (LinkRecord P)) (linkName : Str) : Option Str :=
  (links.get? linkName).bind LinkRecord.parent

/-- `link_order`.  The links that hang from one keep the order of the table. -/
def linkOrder (links : Dict Str (LinkRecord P)) : List Str := preorder links.keys (parentOf links)

/-- The parent, when it is in the table. -/
def attachedTo (links : Dict Str (LinkRecord P)) (linkName : Str) : Option Str :=
  above links.keys (parentOf links) linkName

/-- `effective_joint`; `none` is a `KeyError`. -/
def effectiveJoint (joints : Dict Str (JointRecord R V)) (record : LinkRecord P) :
    Option (Option (JointRecord R V)) :=
  (record.joints.mapM joints.get?).map List.getLast?

variable (links : Dict Str (LinkRecord P)) (joints : Dict Str (JointRecord R V))

/-- The loop that collects the joints. -/
def addUsedJoint (usedJoints : List Str) (linkName : Str) : Option (List Str) := do
  let record ← links.get? linkName
  let joint ← effectiveJoint joints record
  match joint, attachedTo links linkName with
  | some joint, some _ => some (usedJoints ++ [joint.name])
  | _, _ => some usedJoints

/-- `implements[name][interface] = entry` -/
def setEntry (implements : Dict Str (Entries P)) (linkName interfaceName : Str)
    (entry : Option (Dict Str P)) : Option (Dict Str (Entries P)) :=
  (implements.get? linkName).map fun entries =>
    implements.set linkName (entries.set interfaceName entry)

/-- `implements[name].setdefault(interface, CommentedMap())`; a plug has no instances. -/
def instancesOf (implements : Dict Str (Entries P)) (linkName interfaceName : Str) :
    Option (Dict Str P) := do
  let entries ← implements.get? linkName
  match entries.get? interfaceName with
  | none => some Dict.empty
  | some instances => instances

/-- The loop over the interfaces that the links implement. -/
def addEntries (byJoint : Dict Str (Str × Str)) (implements : Dict Str (Entries P)) (linkName : Str) :
    Option (Dict Str (Entries P)) := do
  let record ← links.get? linkName
  match attachedTo links linkName with
  | none => some implements
  | some parent =>
    let joint ← (← effectiveJoint joints record)
    let (socket, plug) ← byJoint.get? joint.name
    let instances ← instancesOf implements parent socket
    let implements ← setEntry implements parent socket (some (instances.set joint.name record.origin))
    setEntry implements linkName plug none

/-- `"%s/%s" % (assembly_name, link_name)` -/
def partName (assemblyName linkName : Str) : Str := assemblyName ++ '/' :: linkName

/-- The loop that writes the nodes. -/
def assyNode (assemblyName : Str) (byJoint : Dict Str (Str × Str)) (linkName : Str) :
    Option (AssyNode P R) := do
  let record ← links.get? linkName
  let placing ←
    match attachedTo links linkName with
    | none => some (Placing.location record.origin)
    | some parent => do
      let joint ← (← effectiveJoint joints record)
      let (socket, plug) ← byJoint.get? joint.name
      some (Placing.connect ⟨plug, parent, socket, joint.name, Dict.empty⟩)
  some ⟨':' :: partName assemblyName linkName, linkName, placing⟩

/-- `parts`, with what they implement. -/
def partsOf (assemblyName : Str) (ordered : List Str) (implements : Dict Str (Entries P)) :
    Dict Str (Part P) :=
  Dict.ofPairs <| ordered.map fun linkName =>
    (partName assemblyName linkName,
      { path := partName assemblyName linkName ++ ".stl".toList
        entries := (implements.get? linkName).getD Dict.empty })

variable [Field R] [LinearOrder R] [DecidableEq V] (facing : P)

/-- `urdf_to_assy`, up to the writing of the files; `none` is an exception. -/
def urdfToAssy (assemblyName : Str) : Option (Converted P R V) :=
  if links.keys = [] then none
  else do
    let ordered := linkOrder links
    let usedJoints ← ordered.foldlM (addUsedJoint links joints) []
    let built ← buildInterfaces facing assemblyName joints usedJoints
    let implements ← ordered.foldlM (addEntries links joints built.byJoint)
      (Dict.ofPairs (links.keys.map fun linkName => (linkName, Dict.empty)))
    let nodes ← ordered.mapM (assyNode links joints assemblyName built.byJoint)
    some ⟨nodes, partsOf assemblyName ordered implements, built.interfaces⟩

end

/-! ## The links of the table -/

section

variable {L P R V : Type} [Group L] [Field R] (packing : Packing L P) (degrees : R → R)

/-- `joints`: `{joint.name: joint_record(joint) for joint in robot.joints}` -/
def jointTable (robot : Robot L P R V) : Dict Str (JointRecord R V) :=
  Dict.ofPairs (robot.joints.map fun joint => (joint.name, jointRecord degrees joint))

omit [Group L] in
theorem get?_jointTable {robot : Robot L P R V} {joint : Joint L R V} (h : joint ∈ robot.joints) :
    (jointTable degrees robot).get? joint.name = some (jointRecord degrees joint) := by
  have hnames : ((robot.joints.map fun joint => (joint.name, jointRecord degrees joint)).map
      Prod.fst).Nodup := by
    rw [List.map_map]
    exact robot.names
  rw [Dict.get?_eq_some, jointTable, Dict.items_ofPairs hnames]
  exact List.mem_map_of_mem h

/-- A link of the table, as the walk came to it. -/
structure Stands (robot : Robot L P R V) (links : Dict Str (LinkRecord P)) (linkName : Str)
    (place : Place L) (chain : List (Joint L R V)) (record : LinkRecord P) : Prop where
  visit : Visit robot linkName place chain
  get : links.get? linkName = some record
  origin : record.origin = packing.asPacked place.relative
  attached : attachedTo links linkName = place.ancestor
  joint : effectiveJoint (jointTable degrees robot) record =
    some (chain.getLast?.map (jointRecord degrees))

variable {robot : Robot L P R V} {links : Dict Str (LinkRecord P)}
  (hlinks : ∀ linkName record,
    links.get? linkName = some record ↔ Recorded packing robot linkName record)

include hlinks

omit [Field R] in
/-- The link that is noted above another is in the table. -/
theorem ancestor_mem {linkName p : Str} {place : Place L} {chain : List (Joint L R V)}
    (hvisit : Visit robot linkName place chain) (hp : place.ancestor = some p) : p ∈ links.keys := by
  obtain ⟨place', chain', geometry, hvisit', hgeometry, hempty⟩ := hvisit.ancestor_visit hp
  have hget := (hlinks p _).2 ⟨place', chain', geometry, hvisit', hgeometry, hempty, rfl⟩
  exact Dict.mem_keys.2 ⟨_, Dict.get?_eq_some.1 hget⟩

omit [Field R] in
theorem attachedTo_eq {linkName : Str} {place : Place L} {chain : List (Joint L R V)}
    (hvisit : Visit robot linkName place chain) (hmem : linkName ∈ links.keys) :
    attachedTo links linkName = place.ancestor := by
  obtain ⟨record, hrecord⟩ := Dict.mem_keys.1 hmem
  rw [← Dict.get?_eq_some] at hrecord
  obtain ⟨place', chain', geometry, hvisit', -, -, rfl⟩ := (hlinks _ _).1 hrecord
  obtain ⟨rfl, rfl⟩ := hvisit.unique hvisit'
  have hparent : parentOf links linkName = place.ancestor := by
    rw [parentOf, hrecord]
    rfl
  cases hancestor : place.ancestor with
  | none => rw [attachedTo, above, hparent, hancestor, Option.filter_none]
  | some p => simp [attachedTo, above, hparent, hancestor, ancestor_mem packing hlinks hvisit hancestor]

omit [Field R] in
/-- A link is listed once, after the link that it hangs from. -/
theorem linkOrder_spec : (linkOrder links).Perm links.keys ∧
    ParentsFirst links.keys (parentOf links) (linkOrder links) := by
  have hnodup : links.keys.Nodup := links.nodup
  refine ⟨preorder_perm hnodup fun linkName hmem => ?_, preorder_parentsFirst hnodup⟩
  have hroot : ∀ {linkName : Str} {place : Place L} {chain : List (Joint L R V)},
      Visit robot linkName place chain → linkName ∈ links.keys →
        (∀ p, place.ancestor = some p → Hangs links.keys (parentOf links) p) →
          Hangs links.keys (parentOf links) linkName := by
    intro linkName place chain hvisit hmem habove
    have hattached := attachedTo_eq packing hlinks hvisit hmem
    cases hancestor : place.ancestor with
    | none => exact Hangs.root hmem (hattached.trans hancestor)
    | some p => exact Hangs.child hmem (hattached.trans hancestor) (habove p hancestor)
  -- the links above hang, by induction on how the walk came to the link
  have habove : ∀ {linkName : Str} {place : Place L} {chain : List (Joint L R V)},
      Visit robot linkName place chain → ∀ p, place.ancestor = some p →
        Hangs links.keys (parentOf links) p := by
    intro linkName place chain hvisit
    induction hvisit with
    | root => exact fun p hp => absurd hp (by simp [Place.root])
    | @child linkName place chain geometry joint hvisit hgeometry hjoint ih =>
      intro p hp
      have hmem := ancestor_mem packing hlinks (Visit.child hvisit hgeometry hjoint) hp
      cases hempty : geometry.isEmpty with
      | true => exact ih p (by simpa [Place.below, hempty] using hp)
      | false =>
        obtain rfl : linkName = p := by simpa [Place.below, hempty] using hp
        exact hroot hvisit hmem ih
  obtain ⟨record, hrecord⟩ := Dict.mem_keys.1 hmem
  obtain ⟨place, chain, -, hvisit, -⟩ := (hlinks _ _).1 (Dict.get?_eq_some.2 hrecord)
  exact hroot hvisit hmem (habove hvisit)

theorem stands {linkName : Str} {record : LinkRecord P} (hget : links.get? linkName = some record) :
    ∃ place chain, Stands packing degrees robot links linkName place chain record := by
  have hmem : linkName ∈ links.keys := Dict.mem_keys.2 ⟨record, Dict.get?_eq_some.1 hget⟩
  obtain ⟨place, chain, geometry, hvisit, hgeometry, hempty, rfl⟩ := (hlinks _ _).1 hget
  refine ⟨place, chain, hvisit, hget, rfl, attachedTo_eq packing hlinks hvisit hmem, ?_⟩
  have hchain : (chain.map Joint.name).mapM (jointTable degrees robot).get? =
      some (chain.map (jointRecord degrees)) := by
    rw [List.mapM_map]
    exact mapM_some fun joint hjoint => get?_jointTable degrees (hvisit.chain_mem joint hjoint)
  rw [effectiveJoint, linkRecord, hvisit.chain_eq.1, hchain, Option.map_some, List.getLast?_map]

end

/-! ## The joints that are used -/

section

variable {L P R V : Type} [Group L] [Field R] {packing : Packing L P} {degrees : R → R}
  {robot : Robot L P R V} {links : Dict Str (LinkRecord P)}

theorem Stands.last {linkName p : Str} {place : Place L} {chain : List (Joint L R V)}
    {record : LinkRecord P} (h : Stands packing degrees robot links linkName place chain record)
    (hp : place.ancestor = some p) :
    ∃ joint ∈ robot.joints, chain.getLast? = some joint ∧ joint.child = linkName := by
  have hlast := List.getLast?_eq_some_getLast (h.visit.chain_ne_nil hp)
  exact ⟨_, h.visit.chain_mem _ (List.mem_of_getLast? hlast), hlast, h.visit.last_child hlast⟩

theorem addUsedJoint_eq {linkName : Str} {place : Place L} {chain : List (Joint L R V)}
    {record : LinkRecord P} (h : Stands packing degrees robot links linkName place chain record)
    (usedJoints : List Str) :
    addUsedJoint links (jointTable degrees robot) usedJoints linkName =
      some (match chain.getLast?, place.ancestor with
        | some joint, some _ => usedJoints ++ [joint.name]
        | _, _ => usedJoints) := by
  simp only [addUsedJoint, h.get, h.joint, h.attached, Option.bind_eq_bind, Option.bind_some]
  cases chain.getLast? with
  | none => rfl
  | some joint =>
    cases place.ancestor with
    | none => rfl
    | some p => rfl

variable (degrees) in
/-- **The joints that are used** are those by which the links hang. -/
theorem usedJoints_spec (hlinks : ∀ linkName record,
      links.get? linkName = some record ↔ Recorded packing robot linkName record)
    {ordered : List Str} (hordered : ∀ linkName ∈ ordered, linkName ∈ links.keys) :
    ∃ usedJoints, ordered.foldlM (addUsedJoint links (jointTable degrees robot)) [] =
        some usedJoints ∧
      (∀ q ∈ usedJoints, ∃ joint ∈ robot.joints, joint.name = q) ∧
      ∀ linkName ∈ ordered, ∀ place chain record,
        Stands packing degrees robot links linkName place chain record →
          ∀ joint p, chain.getLast? = some joint → place.ancestor = some p →
            joint.name ∈ usedJoints := by
  refine foldlM_spec (P := fun done usedJoints =>
    (∀ q ∈ usedJoints, ∃ joint ∈ robot.joints, joint.name = q) ∧
      ∀ linkName ∈ done, ∀ place chain record,
        Stands packing degrees robot links linkName place chain record →
          ∀ joint p, chain.getLast? = some joint → place.ancestor = some p →
            joint.name ∈ usedJoints) ?_ ?_
  · exact ⟨fun q hq => absurd hq List.not_mem_nil, fun q hq => absurd hq List.not_mem_nil⟩
  · rintro done linkName rest usedJoints hl ⟨hknown, hdone⟩
    have hmem := hordered linkName (by rw [hl]; exact List.mem_append_right _ List.mem_cons_self)
    obtain ⟨record, hrecord⟩ := Dict.mem_keys.1 hmem
    obtain ⟨place, chain, hstands⟩ := stands packing degrees hlinks (Dict.get?_eq_some.2 hrecord)
    refine ⟨_, addUsedJoint_eq hstands usedJoints, ?_, ?_⟩
    · intro q hq
      split at hq
      · rename_i joint p hlast hp
        rcases List.mem_append.1 hq with hq | hq
        · exact hknown q hq
        · have hjoint := hstands.visit.chain_mem joint (List.mem_of_getLast? hlast)
          exact ⟨joint, hjoint, (List.mem_singleton.1 hq).symm⟩
      · exact hknown q hq
    · intro linkName' hmem' place' chain' record' hstands' joint p hlast hp
      rcases List.mem_append.1 hmem' with hold | hnew
      · have huse := hdone linkName' hold place' chain' record' hstands' joint p hlast hp
        split
        · exact List.mem_append_left _ huse
        · exact huse
      · obtain rfl := List.mem_singleton.1 hnew
        obtain ⟨rfl, rfl⟩ := hstands.visit.unique hstands'.visit
        rw [hlast, hp]
        exact List.mem_append_right _ (List.mem_singleton_self _)

/-! ## What the links implement -/

/-- What a link says about an interface. -/
def entryAt (implements : Dict Str (Entries P)) (linkName interfaceName : Str) :
    Option (Option (Dict Str P)) :=
  (implements.get? linkName).bind fun entries => entries.get? interfaceName

theorem setEntry_spec {implements : Dict Str (Entries P)} {linkName : Str}
    (h : linkName ∈ implements.keys) (interfaceName : Str) (entry : Option (Dict Str P)) :
    ∃ implements', setEntry implements linkName interfaceName entry = some implements' ∧
      (∀ n q, entryAt implements' n q =
        if linkName = n ∧ interfaceName = q then some entry else entryAt implements n q) ∧
      ∀ n ∈ implements.keys, n ∈ implements'.keys := by
  obtain ⟨entries, hentries⟩ := Dict.mem_keys.1 h
  rw [← Dict.get?_eq_some] at hentries
  refine ⟨_, by rw [setEntry, hentries]; rfl, fun n q => ?_, fun n hn => ?_⟩
  · unfold entryAt
    by_cases hn : linkName = n
    · subst hn
      rw [Dict.get?_set_self, hentries, Option.bind_some, Option.bind_some, Dict.get?_set]
      simp
    · rw [Dict.get?_set_of_ne _ _ hn, if_neg fun h => hn h.1]
  · rw [Dict.mem_keys_set]
    exact Or.inr hn

variable [LinearOrder R] [DecidableEq V] {facing : P}

/-- A link hangs from another by a joint, whose pair is known. -/
structure Hung (degrees : R → R) (robot : Robot L P R V) (links : Dict Str (LinkRecord P))
    (facing : P) (built : Interfaces P R V) (linkName p : Str) (record : LinkRecord P)
    (joint : Joint L R V) (pair : Str × Str) : Prop where
  get : links.get? linkName = some record
  attached : attachedTo links linkName = some p
  effective : effectiveJoint (jointTable degrees robot) record = some (some (jointRecord degrees joint))
  mem : joint ∈ robot.joints
  child : joint.child = linkName
  byJoint : built.byJoint.get? joint.name = some pair
  isPair : IsPair facing built.interfaces (parametersOf (jointRecord degrees joint)) pair

section

variable {built : Interfaces P R V} {linkName linkName' p p' : Str} {record record' : LinkRecord P}
  {joint joint' : Joint L R V} {pair pair' : Str × Str}

omit [Group L] in
/-- A link hangs in one way. -/
theorem Hung.unique (h : Hung degrees robot links facing built linkName p record joint pair)
    (h' : Hung degrees robot links facing built linkName p' record' joint' pair') :
    p = p' ∧ record = record' ∧ joint = joint' ∧ pair = pair' := by
  have hp := h'.attached
  have hrecord := h'.get
  rw [h.attached] at hp
  rw [h.get] at hrecord
  obtain rfl := joint_eq_of_child h.mem h'.mem (h.child.trans h'.child.symm)
  have hpair := h'.byJoint
  rw [h.byJoint] at hpair
  exact ⟨Option.some.inj hp, Option.some.inj hrecord, rfl, Option.some.inj hpair⟩

omit [Group L] in
/-- Links hang by joints of different names. -/
theorem Hung.name_ne (h : Hung degrees robot links facing built linkName p record joint pair)
    (h' : Hung degrees robot links facing built linkName' p' record' joint' pair')
    (hne : linkName ≠ linkName') : joint.name ≠ joint'.name := by
  intro hname
  obtain rfl := joint_eq_of_name h.mem h'.mem hname
  exact hne (h.child.symm.trans h'.child)

end

/-- What the links that are done implement, and are implemented with. -/
structure Implemented (degrees : R → R) (robot : Robot L P R V) (links : Dict Str (LinkRecord P))
    (facing : P) (built : Interfaces P R V) (done : List Str)
    (implements : Dict Str (Entries P)) : Prop where
  keys : ∀ linkName ∈ links.keys, linkName ∈ implements.keys
  plugs : ∀ linkName q, entryAt implements linkName q = some none →
    ∃ parameters pair, IsPair facing built.interfaces parameters pair ∧ pair.2 = q
  socket : ∀ linkName ∈ done, ∀ p record joint pair,
    Hung degrees robot links facing built linkName p record joint pair →
      ∃ instances, entryAt implements p pair.1 = some (some instances) ∧
        instances.get? joint.name = some record.origin
  plug : ∀ linkName ∈ done, ∀ p record joint pair,
    Hung degrees robot links facing built linkName p record joint pair →
      entryAt implements linkName pair.2 = some none

omit [Group L] in
/-- **One link** that hangs from another. -/
theorem addEntries_hung {built : Interfaces P R V} {linkName p : Str} {record : LinkRecord P}
    {joint : Joint L R V} {pair : Str × Str} {done : List Str} {implements : Dict Str (Entries P)}
    (h : Hung degrees robot links facing built linkName p record joint pair)
    (himplemented : Implemented degrees robot links facing built done implements) :
    ∃ implements', addEntries links (jointTable degrees robot) built.byJoint implements linkName =
        some implements' ∧
      Implemented degrees robot links facing built (done ++ [linkName]) implements' := by
  have hlink : linkName ∈ links.keys := Dict.mem_keys.2 ⟨record, Dict.get?_eq_some.1 h.get⟩
  have hparent : p ∈ links.keys := above_mem h.attached
  -- the link above may have instances of the socket already
  obtain ⟨instances, hinstances, hold⟩ : ∃ instances, instancesOf implements p pair.1 = some instances ∧
      ∀ instances', entryAt implements p pair.1 = some (some instances') → instances' = instances := by
    obtain ⟨entries, hentries⟩ := Dict.mem_keys.1 (himplemented.keys p hparent)
    rw [← Dict.get?_eq_some] at hentries
    have hentry : entryAt implements p pair.1 = entries.get? pair.1 := by
      rw [entryAt, hentries, Option.bind_some]
    cases hget : entries.get? pair.1 with
    | none =>
      refine ⟨Dict.empty, ?_, fun instances' h' => ?_⟩
      · simp only [instancesOf, hentries, hget, Option.bind_eq_bind, Option.bind_some]
      · rw [hentry, hget] at h'
        exact absurd h' (by simp)
    | some entry =>
      cases entry with
      | none =>
        rw [hget] at hentry
        obtain ⟨parameters, pair', hpair', heq⟩ := himplemented.plugs p pair.1 hentry
        exact absurd heq.symm (h.isPair.ne facing hpair')
      | some instances =>
        refine ⟨instances, ?_, fun instances' h' => ?_⟩
        · simp only [instancesOf, hentries, hget, Option.bind_eq_bind, Option.bind_some]
        · rw [hentry, hget] at h'
          exact (Option.some.inj (Option.some.inj h')).symm
  obtain ⟨implements₁, hset₁, hentry₁, hkeys₁⟩ := setEntry_spec (himplemented.keys p hparent) pair.1
    (some (instances.set joint.name record.origin))
  obtain ⟨implements₂, hset₂, hentry₂, hkeys₂⟩ := setEntry_spec
    (hkeys₁ linkName (himplemented.keys linkName hlink)) pair.2 none
  refine ⟨implements₂, ?_, ?_, ?_, ?_, ?_⟩
  · simp only [addEntries, h.get, h.attached, h.effective, jointRecord, h.byJoint, hinstances, hset₁,
      hset₂, Option.bind_eq_bind, Option.bind_some]
  · exact fun q hq => hkeys₂ q (hkeys₁ q (himplemented.keys q hq))
  · intro n q hq
    rw [hentry₂, hentry₁] at hq
    split at hq <;> rename_i hplug
    · exact ⟨_, pair, h.isPair, hplug.2⟩
    · split at hq
      · exact absurd hq (by simp)
      · exact himplemented.plugs n q hq
  · intro n hn p' record' joint' pair' h'
    have hnot : ¬ (linkName = p' ∧ pair.2 = pair'.1) :=
      fun heq => h'.isPair.ne facing h.isPair heq.2.symm
    rw [hentry₂, if_neg hnot, hentry₁]
    by_cases hself : linkName = n
    · subst hself
      obtain ⟨rfl, rfl, rfl, rfl⟩ := h.unique h'
      rw [if_pos ⟨rfl, rfl⟩]
      exact ⟨_, rfl, Dict.get?_set_self _ _ _⟩
    · have hdone : n ∈ done := by simpa [Ne.symm hself] using hn
      obtain ⟨instances', hentry', hget'⟩ := himplemented.socket n hdone p' record' joint' pair' h'
      split <;> rename_i hsame
      · obtain ⟨rfl, hpair⟩ := hsame
        rw [← hpair] at hentry'
        obtain rfl := hold instances' hentry'
        exact ⟨_, rfl, by rw [Dict.get?_set_of_ne _ _ (h.name_ne h' hself), hget']⟩
      · exact ⟨instances', hentry', hget'⟩
  · intro n hn p' record' joint' pair' h'
    rw [hentry₂]
    by_cases hself : linkName = n
    · subst hself
      obtain ⟨rfl, rfl, rfl, rfl⟩ := h.unique h'
      rw [if_pos ⟨rfl, rfl⟩]
    · have hdone : n ∈ done := by simpa [Ne.symm hself] using hn
      have hnot : ¬ (p = n ∧ pair.1 = pair'.2) := fun heq => h.isPair.ne facing h'.isPair heq.2
      rw [if_neg fun heq => hself heq.1, hentry₁, if_neg hnot]
      exact himplemented.plug n hdone p' record' joint' pair' h'

/-- The interfaces that the links implement. -/
theorem implemented_spec (hlinks : ∀ linkName record,
      links.get? linkName = some record ↔ Recorded packing robot linkName record)
    {built : Interfaces P R V} {ordered : List Str}
    (hordered : ∀ linkName ∈ ordered, linkName ∈ links.keys)
    (hpairs : ∀ linkName ∈ ordered, ∀ place chain record,
      Stands packing degrees robot links linkName place chain record →
        ∀ joint p, chain.getLast? = some joint → place.ancestor = some p →
          ∃ pair, Hung degrees robot links facing built linkName p record joint pair) :
    ∃ implements, ordered.foldlM (addEntries links (jointTable degrees robot) built.byJoint)
        (Dict.ofPairs (links.keys.map fun linkName => (linkName, Dict.empty))) = some implements ∧
      Implemented degrees robot links facing built ordered implements := by
  refine foldlM_spec (P := Implemented degrees robot links facing built) ⟨?_, ?_, ?_, ?_⟩ ?_
  · intro linkName hmem
    rw [Dict.ofPairs, Dict.mem_keys_setAll, List.map_map]
    exact Or.inl (by simpa using hmem)
  · intro linkName q hq
    rw [entryAt, Dict.get?_ofPairs_map] at hq
    split at hq
    · exact absurd hq (by simp)
    · exact absurd hq (by simp)
  · exact fun q hq => absurd hq List.not_mem_nil
  · exact fun q hq => absurd hq List.not_mem_nil
  · intro done linkName rest implements hl himplemented
    have hmem : linkName ∈ ordered := by
      rw [hl]
      exact List.mem_append_right _ List.mem_cons_self
    obtain ⟨record, hrecord⟩ := Dict.mem_keys.1 (hordered linkName hmem)
    obtain ⟨place, chain, hstands⟩ := stands packing degrees hlinks (Dict.get?_eq_some.2 hrecord)
    cases hancestor : place.ancestor with
    | some p =>
      obtain ⟨joint, -, hlast, -⟩ := hstands.last hancestor
      obtain ⟨pair, hhung⟩ := hpairs linkName hmem place chain record hstands joint p hlast hancestor
      exact addEntries_hung hhung himplemented
    | none =>
      -- a link that hangs from none implements nothing
      have hfree : ∀ {p record joint pair},
          ¬ Hung degrees robot links facing built linkName p record joint pair := by
        intro p record joint pair h
        have hattached := h.attached
        rw [hstands.attached, hancestor] at hattached
        exact absurd hattached (by simp)
      refine ⟨implements, ?_, himplemented.keys, himplemented.plugs, ?_, ?_⟩
      · simp only [addEntries, hstands.get, hstands.attached, hancestor, Option.bind_eq_bind,
          Option.bind_some]
      · intro n hn p record joint pair h
        rcases List.mem_append.1 hn with hn | hn
        · exact himplemented.socket n hn p record joint pair h
        · exact absurd (List.mem_singleton.1 hn ▸ h) hfree
      · intro n hn p record joint pair h
        rcases List.mem_append.1 hn with hn | hn
        · exact himplemented.plug n hn p record joint pair h
        · exact absurd (List.mem_singleton.1 hn ▸ h) hfree

/-! ## The document -/

/-- The part of a link implements an interface. -/
def Implements (assemblyName : Str) (parts : Dict Str (Part P)) (linkName interfaceName : Str)
    (entry : Option (Dict Str P)) : Prop :=
  ∃ part, parts.get? (partName assemblyName linkName) = some part ∧
    part.entries.get? interfaceName = some entry

/-- What is written about a link. -/
inductive Written (packing : Packing L P) (degrees : R → R) (robot : Robot L P R V) (facing : P)
    (assemblyName : Str) (converted : Converted P R V) (node : AssyNode P R) : Prop where
  | placed {place : Place L} {chain : List (Joint L R V)} :
    Visit robot node.name place chain → place.ancestor = none →
      node.placing = .location (packing.asPacked place.relative) →
        Written packing degrees robot facing assemblyName converted node
  | connected {place : Place L} {chain : List (Joint L R V)} {p : Str} {joint : Joint L R V}
    {pair : Str × Str} {instances : Dict Str P} :
    Visit robot node.name place chain → place.ancestor = some p → chain.getLast? = some joint →
      IsPair facing converted.interfaces (parametersOf (jointRecord degrees joint)) pair →
      node.placing = .connect ⟨pair.2, p, pair.1, joint.name, Dict.empty⟩ →
      Implements assemblyName converted.parts p pair.1 (some instances) →
      instances.get? joint.name = some (packing.asPacked place.relative) →
      Implements assemblyName converted.parts node.name pair.2 none →
        Written packing degrees robot facing assemblyName converted node

omit [Group L] [Field R] [LinearOrder R] [DecidableEq V] in
theorem get?_partsOf (assemblyName : Str) (implements : Dict Str (Entries P)) {ordered : List Str}
    (hnodup : ordered.Nodup) {linkName : Str} (hmem : linkName ∈ ordered) :
    ∃ part, (partsOf assemblyName ordered implements).get? (partName assemblyName linkName) =
        some part ∧
      part.entries = (implements.get? linkName).getD Dict.empty := by
  have hnames : ((ordered.map fun linkName => (partName assemblyName linkName,
      ({ path := partName assemblyName linkName ++ ".stl".toList
         entries := (implements.get? linkName).getD Dict.empty } : Part P))).map Prod.fst).Nodup := by
    rw [List.map_map]
    refine hnodup.map fun a b h => ?_
    exact (List.cons.inj (List.append_cancel_left h)).2
  refine ⟨⟨partName assemblyName linkName ++ ".stl".toList,
    (implements.get? linkName).getD Dict.empty⟩, ?_, rfl⟩
  rw [Dict.get?_eq_some, partsOf, Dict.items_ofPairs hnames]
  exact List.mem_map.2 ⟨linkName, hmem, rfl⟩

variable (degrees) in
/-- **What is written**: the links in their order, each as it hangs. -/
theorem urdfToAssy_spec (hlinks : ∀ linkName record,
      links.get? linkName = some record ↔ Recorded packing robot linkName record)
    (hne : links.keys ≠ []) (facing : P) (assemblyName : Str) :
    ∃ converted, urdfToAssy links (jointTable degrees robot) facing assemblyName = some converted ∧
      converted.links.map AssyNode.name = linkOrder links ∧
      ∀ node ∈ converted.links, node.part = ':' :: partName assemblyName node.name ∧
        (∃ part, converted.parts.get? (partName assemblyName node.name) = some part) ∧
        Written packing degrees robot facing assemblyName converted node := by
  obtain ⟨hperm, -⟩ := linkOrder_spec packing hlinks
  have hordered : ∀ linkName ∈ linkOrder links, linkName ∈ links.keys :=
    fun linkName hmem => hperm.mem_iff.1 hmem
  have hnodup : (linkOrder links).Nodup := hperm.nodup_iff.2 links.nodup
  obtain ⟨usedJoints, hused, hknown, huses⟩ :=
    usedJoints_spec degrees hlinks hordered
  have hjoints : ∀ q ∈ usedJoints, ∃ record, (jointTable degrees robot).get? q = some record := by
    intro q hq
    obtain ⟨joint, hjoint, rfl⟩ := hknown q hq
    exact ⟨_, get?_jointTable degrees hjoint⟩
  obtain ⟨built, hbuild, hbuilt⟩ := buildInterfaces_spec facing assemblyName hjoints
  have hpairs : ∀ linkName ∈ linkOrder links, ∀ place chain record,
      Stands packing degrees robot links linkName place chain record →
        ∀ joint p, chain.getLast? = some joint → place.ancestor = some p →
          ∃ pair, Hung degrees robot links facing built linkName p record joint pair := by
    intro linkName hmem place chain record hstands joint p hlast hancestor
    obtain ⟨record', pair, hrecord', hpair, hisPair⟩ := hbuilt.joints joint.name
      (huses linkName hmem place chain record hstands joint p hlast hancestor)
    have hjoint := hstands.visit.chain_mem joint (List.mem_of_getLast? hlast)
    rw [get?_jointTable degrees hjoint] at hrecord'
    obtain rfl := Option.some.inj hrecord'
    refine ⟨pair, hstands.get, hstands.attached.trans hancestor, ?_, hjoint,
      hstands.visit.last_child hlast, hpair, hisPair⟩
    rw [hstands.joint, hlast]
    rfl
  obtain ⟨implements, himplements, himplemented⟩ := implemented_spec hlinks hordered hpairs
  -- the entries of a link are those of its part
  have hparts : ∀ linkName ∈ linkOrder links, ∀ q entry, entryAt implements linkName q = some entry →
      Implements assemblyName (partsOf assemblyName (linkOrder links) implements) linkName q entry := by
    intro linkName hmem q entry hentry
    obtain ⟨part, hpart, hentries⟩ := get?_partsOf assemblyName implements hnodup hmem
    obtain ⟨entries, hget, hentry⟩ := Option.bind_eq_some_iff.1 hentry
    refine ⟨part, hpart, ?_⟩
    rw [hentries, hget]
    exact hentry
  have hnodes : ∀ linkName ∈ linkOrder links, ∃ node,
      assyNode links (jointTable degrees robot) assemblyName built.byJoint linkName = some node ∧
        (node.name = linkName ∧ node.part = ':' :: partName assemblyName linkName ∧
          ∀ nodes, Written packing degrees robot facing assemblyName
            ⟨nodes, partsOf assemblyName (linkOrder links) implements, built.interfaces⟩ node) := by
    intro linkName hmem
    obtain ⟨record, hrecord⟩ := Dict.mem_keys.1 (hordered linkName hmem)
    obtain ⟨place, chain, hstands⟩ := stands packing degrees hlinks (Dict.get?_eq_some.2 hrecord)
    cases hancestor : place.ancestor with
    | none =>
      refine ⟨⟨':' :: partName assemblyName linkName, linkName, .location record.origin⟩, ?_, rfl, rfl,
        fun nodes => .placed hstands.visit hancestor ?_⟩
      · simp only [assyNode, hstands.get, hstands.attached, hancestor, Option.bind_eq_bind,
          Option.bind_some]
      · rw [hstands.origin]
    | some p =>
      obtain ⟨joint, hjoint, hlast, hchild⟩ := hstands.last hancestor
      obtain ⟨pair, hhung⟩ := hpairs linkName hmem place chain record hstands joint p hlast hancestor
      obtain ⟨instances, hsocket, hinstance⟩ :=
        himplemented.socket linkName hmem p record joint pair hhung
      have hplug := himplemented.plug linkName hmem p record joint pair hhung
      have hp : p ∈ linkOrder links := hperm.mem_iff.2 (above_mem hhung.attached)
      refine ⟨⟨':' :: partName assemblyName linkName, linkName,
        .connect ⟨pair.2, p, pair.1, joint.name, Dict.empty⟩⟩, ?_, rfl, rfl,
        fun nodes => .connected hstands.visit hancestor hlast hhung.isPair rfl
          (hparts p hp _ _ hsocket) ?_ (hparts linkName hmem _ _ hplug)⟩
      · simp only [assyNode, hstands.get, hhung.attached, hhung.effective, jointRecord,
          hhung.byJoint, Option.bind_eq_bind, Option.bind_some]
      · rw [hinstance, hstands.origin]
  obtain ⟨nodes, hmap, hall⟩ := mapM_spec hnodes
  refine ⟨⟨nodes, partsOf assemblyName (linkOrder links) implements, built.interfaces⟩, ?_, ?_, ?_⟩
  · simp only [urdfToAssy, hne, if_false, hused, hbuild, himplements, hmap, Option.bind_eq_bind,
      Option.bind_some]
  · have hnames : nodes.map AssyNode.name = (linkOrder links).map id :=
      map_eq_of_forall₂ hall fun linkName node h => h.1
    exact hnames.trans (List.map_id _)
  · intro node hnode
    obtain ⟨linkName, hmem, rfl, hpart, hwritten⟩ := mem_of_forall₂ hall hnode
    obtain ⟨part, hget, -⟩ := get?_partsOf assemblyName implements hnodup hmem
    exact ⟨hpart, ⟨part, hget⟩, hwritten nodes⟩

end

end PartCAD.Convert
