import PartCAD.Imported.LinkWalk

/-!
# Where the links of a URDF file are placed

A link is come to by a path of joints from the root.  Its node is placed by the origins along the path,
and what is noted about it is stated relative to the nearest link with geometry on the path.

* `Path` : joints that lead on from each other;
* `Nearest` : the nearest link with geometry above;
* `visit_path` : a visit, by the path;
* `walk_nodes` : **the nodes** of a walk;
* `walkUrdf_places` : **the nodes and the table** of a file.
-/

namespace PartCAD.Imported

open PartCAD.Lib PartCAD.Geometry PartCAD.Convert

section

variable {L P R V : Type}

/-! ## Paths -/

/-- Joints from a link to another.  Nothing hangs from a link that the file does not have. -/
inductive Path (robot : Robot L P R V) (a : Str) : List (Joint L R V) → Str → Prop
  | nil : Path robot a [] a
  | snoc {path : List (Joint L R V)} {joint : Joint L R V} :
    Path robot a path joint.parent → (robot.links.get? joint.parent).isSome →
      joint ∈ robot.joints → Path robot a (path ++ [joint]) joint.child

def HasGeometry (robot : Robot L P R V) (linkName : Str) : Prop :=
  ∃ geometry, robot.links.get? linkName = some geometry ∧ geometry ≠ []

/-- The nearest link with geometry above a link, the path to it, and the joints from it on. -/
structure Nearest (robot : Robot L P R V) (path : List (Joint L R V)) (linkName p : Str)
    (before chain : List (Joint L R V)) : Prop where
  split : path = before ++ chain
  above : Path robot robot.root before p
  below : Path robot p chain linkName
  proper : chain ≠ []
  geometry : HasGeometry robot p
  between : ∀ joint ∈ chain.tail, ¬ HasGeometry robot joint.parent

variable {robot : Robot L P R V}

/-- **There is one path to a link.** -/
theorem Path.unique {path path' : List (Joint L R V)} {linkName : Str}
    (h : Path robot robot.root path linkName) (h' : Path robot robot.root path' linkName) :
    path = path' := by
  induction h generalizing path' with
  | nil =>
    generalize hb : robot.root = b at h'
    cases h' with
    | nil => rfl
    | snoc _ _ hjoint => exact absurd hb.symm (hb ▸ child_ne_root hjoint)
  | @snoc path joint _ _ hjoint ih =>
    generalize hb : joint.child = b at h'
    cases h' with
    | nil => exact absurd hb (child_ne_root hjoint)
    | @snoc path' joint' hpath' _ hjoint' =>
      obtain rfl := joint_eq_of_child hjoint hjoint' hb
      rw [ih hpath']

theorem nodup_childMap (robot : Robot L P R V) (linkName : Str) : (robot.childMap linkName).Nodup :=
  (List.Nodup.of_map _ robot.names).filter _

/-- What is above a link that is come to. -/
def Above (robot : Robot L P R V) (path : List (Joint L R V)) (linkName : Str)
    (chain : List (Joint L R V)) : Option Str → Prop
  | none => chain = path ∧ ∀ joint ∈ path, ¬ HasGeometry robot joint.parent
  | some p => ∃ before, Nearest robot path linkName p before chain

theorem Above.skip {path chain : List (Joint L R V)} {joint : Joint L R V} {ancestor : Option Str}
    (h : Above robot path joint.parent chain ancestor) (hjoint : joint ∈ robot.joints)
    (hempty : robot.links.get? joint.parent = some []) :
    Above robot (path ++ [joint]) joint.child (chain ++ [joint]) ancestor := by
  have hnone : ¬ HasGeometry robot joint.parent := by
    rintro ⟨geometry, hgeometry, hne⟩
    rw [hempty] at hgeometry
    exact hne (Option.some.inj hgeometry).symm
  cases ancestor with
  | none =>
    obtain ⟨rfl, habove⟩ := h
    refine ⟨rfl, fun joint' hjoint' => ?_⟩
    rcases List.mem_append.1 hjoint' with hjoint' | hjoint'
    · exact habove joint' hjoint'
    · rwa [List.mem_singleton.1 hjoint']
  | some p =>
    obtain ⟨before, hnear⟩ := h
    refine ⟨before, ?_, hnear.above, .snoc hnear.below ?_ hjoint, by simp, hnear.geometry, ?_⟩
    · rw [hnear.split, List.append_assoc]
    · rw [hempty]
      rfl
    · rw [List.tail_append_of_ne_nil hnear.proper]
      intro joint' hjoint'
      rcases List.mem_append.1 hjoint' with hjoint' | hjoint'
      · exact hnear.between joint' hjoint'
      · rwa [List.mem_singleton.1 hjoint']

variable [Group L]

/-- **A visit, by the path.** -/
theorem visit_path {linkName : Str} {place : Place L} {chain : List (Joint L R V)}
    (h : Visit robot linkName place chain) :
    ∃ path, Path robot robot.root path linkName ∧
      place.absolute = (path.map Joint.origin).prod ∧
        Above robot path linkName chain place.ancestor := by
  induction h with
  | root => exact ⟨[], .nil, rfl, rfl, fun joint hjoint => absurd hjoint List.not_mem_nil⟩
  | @child linkName place chain geometry joint hvisit hgeometry hjoint ih =>
    obtain ⟨path, hpath, habsolute, habove⟩ := ih
    obtain ⟨hmem, rfl⟩ := mem_childMap.1 hjoint
    have hsome : (robot.links.get? joint.parent).isSome := by
      rw [hgeometry]
      rfl
    refine ⟨path ++ [joint], .snoc hpath hsome hmem, ?_, ?_⟩
    · rw [List.map_append, List.prod_append, ← habsolute]
      simp [Place.below]
    · cases hempty : geometry.isEmpty with
      | true =>
        obtain rfl := List.isEmpty_iff.1 hempty
        exact habove.skip hmem hgeometry
      | false =>
        have hne : geometry ≠ [] := fun hnil => by simp [hnil] at hempty
        have hchild : Path robot joint.parent ([] ++ [joint]) joint.child := .snoc .nil hsome hmem
        simp only [Place.below, hempty]
        exact ⟨path, rfl, hpath, hchild, List.cons_ne_nil _ _, ⟨geometry, hgeometry, hne⟩,
          fun joint' hjoint' => absurd hjoint' List.not_mem_nil⟩

theorem path_visit {path : List (Joint L R V)} {linkName : Str}
    (h : Path robot robot.root path linkName) : ∃ place chain, Visit robot linkName place chain := by
  induction h with
  | nil => exact ⟨_, _, .root⟩
  | @snoc path joint _ hsome hjoint ih =>
    obtain ⟨place, chain, hvisit⟩ := ih
    obtain ⟨geometry, hgeometry⟩ := Option.isSome_iff_exists.1 hsome
    exact ⟨_, _, .child hvisit hgeometry (mem_childMap.2 ⟨hjoint, rfl⟩)⟩

/-! ## The nodes -/

variable (packing : Packing L P)

/-- The node of a link with geometry. -/
def nodesOf (linkName : Str) (absolute : L) : List P → List (Str × P)
  | [] => []
  | [shapeOrigin] => [(linkName, packing.asPacked (absolute * packing.unpack shapeOrigin))]
  | _ => [(linkName, packing.asPacked absolute)]

theorem nodes_addNode (linkName : Str) (absolute : L) (geometry : List P) (c : Context P) :
    (addNode packing linkName absolute geometry c).nodes =
      c.nodes ++ nodesOf packing linkName absolute geometry := by
  match geometry with
  | [] => exact (List.append_nil _).symm
  | [_] => rfl
  | _ :: _ :: _ => rfl

theorem nodes_recordLink (linkName : Str) (place : Place L) (geometry : List P) (c : Context P) :
    (recordLink packing linkName place geometry c).nodes = c.nodes := by
  unfold recordLink
  split <;> rfl

/-- A link has one node at most, where its shapes are. -/
theorem nodesOf_spec (linkName : Str) (absolute : L) (geometry : List P) :
    geometry = [] ∧ nodesOf packing linkName absolute geometry = [] ∨
      geometry ≠ [] ∧ ∃ location, nodesOf packing linkName absolute geometry = [(linkName, location)] ∧
        packing.unpack location = absolute * packing.unpack (shapeOrigin packing geometry) := by
  match geometry with
  | [] => exact Or.inl ⟨rfl, rfl⟩
  | [place] => exact Or.inr ⟨List.cons_ne_nil _ _, _, rfl, packing.unpack_asPacked _⟩
  | _ :: _ :: _ =>
    refine Or.inr ⟨List.cons_ne_nil _ _, _, rfl, ?_⟩
    rw [shapeOrigin, packing.unpack_asPacked, packing.unpack_asPacked, mul_one]
    exact fun _ h => by simp at h

/-- A node of a link that is come to by a path that starts so. -/
def NodeBelow (robot : Robot L P R V) (path : List (Joint L R V)) (node : Str × P) : Prop :=
  ∃ rest place chain geometry, Path robot robot.root (path ++ rest) node.1 ∧
    Visit robot node.1 place chain ∧ robot.links.get? node.1 = some geometry ∧
      node ∈ nodesOf packing node.1 place.absolute geometry

/-- What the walk of a link adds: nodes of different links below. -/
structure Adds (robot : Robot L P R V) (path : List (Joint L R V)) (added : List (Str × P)) : Prop where
  distinct : (added.map Prod.fst).Nodup
  below : ∀ node ∈ added, NodeBelow packing robot path node

/-- What the walk of a link has added when it has been to some of the children. -/
structure AddsSome (robot : Robot L P R V) (path : List (Joint L R V)) (linkName : Str)
    (done : List (Joint L R V)) (added : List (Str × P)) : Prop where
  adds : Adds packing robot path added
  whence : ∀ node ∈ added,
    node.1 = linkName ∨ ∃ joint ∈ done, NodeBelow packing robot (path ++ [joint]) node

theorem Adds.nil (path : List (Joint L R V)) : Adds packing robot path [] where
  distinct := List.nodup_nil
  below _ hnode := absurd hnode List.not_mem_nil

theorem NodeBelow.of_child {path : List (Joint L R V)} {joint : Joint L R V} {node : Str × P}
    (h : NodeBelow packing robot (path ++ [joint]) node) : NodeBelow packing robot path node := by
  obtain ⟨rest, place, chain, geometry, hpath, hvisit, hgeometry, hnode⟩ := h
  rw [List.append_assoc] at hpath
  exact ⟨_, place, chain, geometry, hpath, hvisit, hgeometry, hnode⟩

/-- The child that a node is below. -/
theorem NodeBelow.child_unique {path : List (Joint L R V)} {joint joint' : Joint L R V}
    {node node' : Str × P} (h : NodeBelow packing robot (path ++ [joint]) node)
    (h' : NodeBelow packing robot (path ++ [joint']) node') (heq : node.1 = node'.1) :
    joint = joint' := by
  obtain ⟨rest, -, -, -, hpath, -⟩ := h
  obtain ⟨rest', -, -, -, hpath', -⟩ := h'
  have hsame := hpath.unique (heq ▸ hpath')
  rw [List.append_assoc, List.append_assoc] at hsame
  exact (List.cons.inj (List.append_cancel_left hsame)).1

/-- What is below a child is not the link itself. -/
theorem NodeBelow.ne {path : List (Joint L R V)} {joint : Joint L R V} {node : Str × P}
    {linkName : Str} (h : NodeBelow packing robot (path ++ [joint]) node)
    (hpath : Path robot robot.root path linkName) : node.1 ≠ linkName := by
  rintro rfl
  obtain ⟨rest, -, -, -, hbelow, -⟩ := h
  have hlength := congrArg List.length (hpath.unique hbelow)
  rw [List.length_append, List.length_append, List.length_singleton] at hlength
  omega

theorem addsSome_start {linkName : Str} {place : Place L} {chain path : List (Joint L R V)}
    {geometry : List P} (hvisit : Visit robot linkName place chain)
    (hpath : Path robot robot.root path linkName)
    (hgeometry : robot.links.get? linkName = some geometry) :
    AddsSome packing robot path linkName [] (nodesOf packing linkName place.absolute geometry) := by
  have hown : ∀ node ∈ nodesOf packing linkName place.absolute geometry, node.1 = linkName := by
    rcases nodesOf_spec packing linkName place.absolute geometry with ⟨-, hnodes⟩ | ⟨-, _, hnodes, -⟩
    · simp [hnodes]
    · simp [hnodes]
  refine ⟨⟨?_, fun node hnode => ?_⟩, fun node hnode => Or.inl (hown node hnode)⟩
  · rcases nodesOf_spec packing linkName place.absolute geometry with ⟨-, hnodes⟩ | ⟨-, _, hnodes, -⟩
    · simp [hnodes]
    · simp [hnodes]
  · obtain rfl := hown node hnode
    exact ⟨[], place, chain, geometry, by rwa [List.append_nil], hvisit, hgeometry, hnode⟩

/-- One more child. -/
theorem AddsSome.step {path done : List (Joint L R V)} {joint : Joint L R V} {linkName : Str}
    {added more : List (Str × P)} (h : AddsSome packing robot path linkName done added)
    (hpath : Path robot robot.root path linkName) (hnew : joint ∉ done)
    (hmore : Adds packing robot (path ++ [joint]) more) :
    AddsSome packing robot path linkName (done ++ [joint]) (added ++ more) := by
  refine ⟨⟨?_, fun node hnode => ?_⟩, fun node hnode => ?_⟩
  · rw [List.map_append]
    refine h.adds.distinct.append hmore.distinct ?_
    intro name hname hname'
    obtain ⟨node, hnode, rfl⟩ := List.mem_map.1 hname
    obtain ⟨node', hnode', heq⟩ := List.mem_map.1 hname'
    have hbelow := hmore.below node' hnode'
    rcases h.whence node hnode with hown | ⟨joint', hjoint', hbelow'⟩
    · exact hbelow.ne packing hpath (heq.trans hown)
    · obtain rfl := hbelow.child_unique packing hbelow' heq
      exact hnew hjoint'
  · rcases List.mem_append.1 hnode with hnode | hnode
    · exact h.adds.below node hnode
    · exact (hmore.below node hnode).of_child
  · rcases List.mem_append.1 hnode with hnode | hnode
    · rcases h.whence node hnode with hown | ⟨joint', hjoint', hbelow⟩
      · exact Or.inl hown
      · exact Or.inr ⟨joint', List.mem_append_left _ hjoint', hbelow⟩
    · exact Or.inr ⟨joint, List.mem_append_right _ (List.mem_singleton_self _), hmore.below node hnode⟩

/-- What the walk of a link adds to the nodes. -/
theorem adds_walkLink {n : ℕ} {linkName : Str} {place : Place L} {chain path : List (Joint L R V)}
    {visited : List Str} {c c' : Context P} (hvisit : Visit robot linkName place chain)
    (hpath : Path robot robot.root path linkName)
    (hwalk : walkLink packing robot n linkName place visited c = some c') :
    ∃ added, c'.nodes = c.nodes ++ added ∧ Adds packing robot path added := by
  induction n generalizing linkName place chain path visited c c' with
  | zero => exact absurd hwalk (by simp [walkLink])
  | succ n ih =>
    by_cases hnew : linkName ∈ visited
    · rw [walkLink, if_pos hnew] at hwalk
      obtain rfl := Option.some.inj hwalk
      exact ⟨[], (List.append_nil _).symm, Adds.nil packing path⟩
    · cases hgeometry : robot.links.get? linkName with
      | none =>
        rw [walkLink, if_neg hnew, hgeometry] at hwalk
        obtain rfl := Option.some.inj hwalk
        exact ⟨[], (List.append_nil _).symm, Adds.nil packing path⟩
      | some geometry =>
        rw [walkLink_eq packing hnew hgeometry] at hwalk
        have hloop := foldlM_done (P := fun done s => ∃ added, s.nodes = c.nodes ++ added ∧
          AddsSome packing robot path linkName done added) hwalk ?_ ?_
        · obtain ⟨added, hadded, hsome⟩ := hloop
          exact ⟨added, hadded, hsome.adds⟩
        · refine ⟨_, ?_, addsSome_start packing hvisit hpath hgeometry⟩
          rw [nodes_recordLink, nodes_addNode]
        · rintro done joint rest s s' hl ⟨added, hadded, hsome⟩ hstep
          have hjoint : joint ∈ robot.childMap linkName := by
            rw [hl]
            exact List.mem_append_right _ List.mem_cons_self
          obtain ⟨hmem, hparent⟩ := mem_childMap.1 hjoint
          have hnotDone : joint ∉ done := by
            have hnodup := nodup_childMap robot linkName
            rw [hl] at hnodup
            exact fun hdone => (List.nodup_append.1 hnodup).2.2 joint hdone joint List.mem_cons_self rfl
          have hchild : Path robot robot.root (path ++ [joint]) joint.child :=
            .snoc (hparent ▸ hpath) (by rw [hparent, hgeometry]; rfl) hmem
          obtain ⟨more, hmore, hadds⟩ := ih (.child hvisit hgeometry hjoint) hchild hstep
          exact ⟨added ++ more, by rw [hmore, hadded, List.append_assoc],
            hsome.step packing hpath hnotDone hadds⟩

/-- Every link of the table has a node. -/
def TableNodes (c : Context P) : Prop :=
  ∀ linkName, (c.links.get? linkName).isSome → linkName ∈ c.nodes.map Prod.fst

theorem tableNodes_recordLink {linkName : Str} (place : Place L) (absolute : L) (geometry : List P)
    {c : Context P} (h : TableNodes c) :
    TableNodes (recordLink packing linkName place geometry
      (addNode packing linkName absolute geometry c)) := by
  intro q hq
  rw [get?_recordLink, links_addNode] at hq
  rw [nodes_recordLink, nodes_addNode, List.map_append]
  split at hq
  · rename_i hown
    obtain ⟨hempty, rfl⟩ := hown
    apply List.mem_append_right
    rcases nodesOf_spec packing linkName absolute geometry with ⟨rfl, -⟩ | ⟨-, _, hnodes, -⟩
    · exact absurd hempty (by simp)
    · rw [hnodes]
      exact List.mem_cons_self
  · exact List.mem_append_left _ (h q hq)

theorem tableNodes_walkLink {n : ℕ} {linkName : Str} {place : Place L} {visited : List Str}
    {c c' : Context P} (hwalk : walkLink packing robot n linkName place visited c = some c')
    (h : TableNodes c) : TableNodes c' := by
  induction n generalizing linkName place visited c c' with
  | zero => exact absurd hwalk (by simp [walkLink])
  | succ n ih =>
    by_cases hnew : linkName ∈ visited
    · rw [walkLink, if_pos hnew] at hwalk
      exact Option.some.inj hwalk ▸ h
    · cases hgeometry : robot.links.get? linkName with
      | none =>
        rw [walkLink, if_neg hnew, hgeometry] at hwalk
        exact Option.some.inj hwalk ▸ h
      | some geometry =>
        rw [walkLink_eq packing hnew hgeometry] at hwalk
        refine foldlM_done (P := fun _ s => TableNodes s) hwalk
          (tableNodes_recordLink packing place place.absolute geometry h) ?_
        exact fun _ joint _ _ _ _ hs hstep => ih hstep hs

/-- **The nodes of a walk**: each link with geometry that is come to has one. -/
theorem walk_nodes {c : Context P} (hwalk : walk packing robot = some c) :
    (c.nodes.map Prod.fst).Nodup ∧ ∀ node, node ∈ c.nodes ↔
      ∃ place chain geometry, Visit robot node.1 place chain ∧
        robot.links.get? node.1 = some geometry ∧ node ∈ nodesOf packing node.1 place.absolute geometry := by
  obtain ⟨added, hadded, hadds⟩ := adds_walkLink packing .root .nil hwalk
  rw [List.nil_append] at hadded
  rw [hadded]
  refine ⟨hadds.distinct, fun node => ⟨fun hnode => ?_, ?_⟩⟩
  · obtain ⟨rest, place, chain, geometry, -, hvisit, hgeometry, hmem⟩ := hadds.below node hnode
    exact ⟨place, chain, geometry, hvisit, hgeometry, hmem⟩
  · rintro ⟨place, chain, geometry, hvisit, hgeometry, hmem⟩
    have htable : TableNodes c := by
      refine tableNodes_walkLink packing hwalk fun q hq => ?_
      exact absurd hq (by simp)
    obtain ⟨c', hwalk', hlinks⟩ := walk_links packing robot
    obtain rfl := Option.some.inj (hwalk.symm.trans hwalk')
    have hempty : geometry.isEmpty = false := by
      rcases nodesOf_spec packing node.1 place.absolute geometry with ⟨-, hnone⟩ | ⟨hne, -⟩
      · rw [hnone] at hmem
        exact absurd hmem List.not_mem_nil
      · exact List.isEmpty_eq_false_iff.2 hne
    have hrecord := (hlinks node.1 _).2 ⟨place, chain, geometry, hvisit, hgeometry, hempty, rfl⟩
    have hname := htable node.1 (by rw [hrecord]; rfl)
    rw [hadded] at hname
    obtain ⟨node', hnode', heq⟩ := List.mem_map.1 hname
    obtain ⟨rest, place', chain', geometry', -, hvisit', hgeometry', hmem'⟩ := hadds.below node' hnode'
    rw [heq] at hvisit' hgeometry' hmem'
    obtain ⟨rfl, -⟩ := hvisit.unique hvisit'
    rw [hgeometry] at hgeometry'
    obtain rfl := Option.some.inj hgeometry'
    rcases nodesOf_spec packing node.1 place.absolute geometry with ⟨-, hnone⟩ | ⟨-, _, hone, -⟩
    · rw [hnone] at hmem
      exact absurd hmem List.not_mem_nil
    · rw [hone] at hmem hmem'
      rw [List.mem_singleton.1 hmem, ← List.mem_singleton.1 hmem']
      exact hnode'

/-! ## A file -/

/-- An entry of the link table says where the link is: in the frame of the nearest link with geometry
above, or of the root where there is none. -/
def SaysWhere (robot : Robot L P R V) (path : List (Joint L R V)) (linkName : Str)
    (record : LinkRecord P) : Prop :=
  match record.parent with
  | none => (∀ joint ∈ path, ¬ HasGeometry robot joint.parent) ∧
      packing.unpack record.origin = (path.map Joint.origin).prod ∧
        record.joints = path.map Joint.name
  | some p => ∃ before chain, Nearest robot path linkName p before chain ∧
      (before.map Joint.origin).prod * packing.unpack record.origin =
        (path.map Joint.origin).prod ∧
        record.joints = chain.map Joint.name

theorem saysWhere_linkRecord {linkName : Str} {place : Place L} {chain path : List (Joint L R V)}
    (hvisit : Visit robot linkName place chain) (habove : Above robot path linkName chain place.ancestor)
    (geometry : List P) : SaysWhere packing robot path linkName (linkRecord packing place geometry) := by
  obtain ⟨hjoints, hrelative⟩ := hvisit.chain_eq
  unfold SaysWhere
  rw [show (linkRecord packing place geometry).parent = place.ancestor from rfl]
  have horigin : packing.unpack (linkRecord packing place geometry).origin = place.relative :=
    packing.unpack_asPacked _
  rw [horigin, hrelative, show (linkRecord packing place geometry).joints = place.jointChain from rfl,
    hjoints]
  cases hancestor : place.ancestor with
  | none =>
    rw [hancestor] at habove
    obtain ⟨rfl, hnone⟩ := habove
    exact ⟨hnone, rfl, rfl⟩
  | some p =>
    rw [hancestor] at habove
    obtain ⟨before, hnear⟩ := habove
    refine ⟨before, chain, hnear, ?_, rfl⟩
    rw [hnear.split, List.map_append, List.prod_append]

variable (urdf : Urdf L P R V) (ignore : IgnoreCollision)

/-- A link with geometry, and the path by which it is come to. -/
structure Comes (path : List (Joint L R V)) (link : Link P R V) : Prop where
  mem : link ∈ urdf.links
  path : Path (urdf.robot ignore) urdf.root path link.name
  geometry : shapePlaces ignore link ≠ []

/-- What a walk leaves: one node and one entry for each link with geometry that is come to. -/
structure Places (c : WalkContext P R V) : Prop where
  node : ∀ path link, Comes urdf ignore path link →
    ∃ node, c.nodes.filter (fun node => node.link = link.name) = [node] ∧
      packing.unpack node.location = (path.map Joint.origin).prod *
        packing.unpack (shapeOrigin packing (shapePlaces ignore link))
  entry : ∀ path link, Comes urdf ignore path link →
    ∃ entry, c.links.get? link.name = some entry ∧
      SaysWhere packing (urdf.robot ignore) path link.name entry.toLinkRecord
  only_node : ∀ node ∈ c.nodes, ∃ path link, Comes urdf ignore path link ∧ node.link = link.name
  only_entry : ∀ linkName, (c.links.get? linkName).isSome →
    ∃ path link, Comes urdf ignore path link ∧ linkName = link.name

variable {urdf ignore}

omit [Group L] in
theorem linkMap_of_mem {link : Link P R V} (h : link ∈ urdf.links) :
    urdf.linkMap link.name = some link := by
  cases hfind : urdf.linkMap link.name with
  | none => exact absurd (decide_eq_true rfl) (List.find?_eq_none.1 hfind link h)
  | some found =>
    obtain ⟨hname, hmem⟩ := name_of_linkMap hfind
    rw [List.inj_on_of_nodup_map urdf.linkNames hmem h hname]

theorem get?_robot_of_comes {path : List (Joint L R V)} {link : Link P R V}
    (h : Comes urdf ignore path link) :
    (urdf.robot ignore).links.get? link.name = some (shapePlaces ignore link) := by
  rw [get?_robot, linkMap_of_mem h.mem]
  rfl

theorem comes_of_visit {linkName : Str} {place : Place L} {chain : List (Joint L R V)}
    {geometry : List P} (h : Visit (urdf.robot ignore) linkName place chain)
    (hgeometry : (urdf.robot ignore).links.get? linkName = some geometry) (hne : geometry ≠ []) :
    ∃ path link, Comes urdf ignore path link ∧ linkName = link.name := by
  rw [get?_robot] at hgeometry
  obtain ⟨link, hlink, rfl⟩ := Option.map_eq_some_iff.1 hgeometry
  obtain ⟨rfl, hmem⟩ := name_of_linkMap hlink
  obtain ⟨path, hpath, -⟩ := visit_path h
  exact ⟨path, link, ⟨hmem, hpath, hne⟩, rfl⟩

/-- A link that is come to is visited, as its path says. -/
theorem Comes.visit {path : List (Joint L R V)} {link : Link P R V} (h : Comes urdf ignore path link) :
    ∃ place chain, Visit (urdf.robot ignore) link.name place chain ∧
      place.absolute = (path.map Joint.origin).prod ∧
        Above (urdf.robot ignore) path link.name chain place.ancestor := by
  obtain ⟨place, chain, hvisit⟩ := path_visit h.path
  obtain ⟨path', hpath', habsolute, habove⟩ := visit_path hvisit
  obtain rfl := h.path.unique hpath'
  exact ⟨place, chain, hvisit, habsolute, habove⟩

omit [Group L] in
/-- The nodes of the link of a node, when each link has one. -/
theorem filter_link {nodes : List (LinkNode P R V)} (h : (nodes.map LinkNode.link).Nodup)
    {node : LinkNode P R V} (hnode : node ∈ nodes) :
    nodes.filter (fun other => other.link = node.link) = [node] := by
  obtain ⟨before, after, rfl⟩ := List.append_of_mem hnode
  rw [List.map_append, List.map_cons] at h
  obtain ⟨-, hafter, hdisjoint⟩ := List.nodup_append.1 h
  have hbefore : before.filter (fun other => other.link = node.link) = [] := by
    refine List.filter_eq_nil_iff.2 fun other hother heq => ?_
    exact hdisjoint _ (List.mem_map_of_mem hother) _ List.mem_cons_self (of_decide_eq_true heq)
  have hrest : after.filter (fun other => other.link = node.link) = [] := by
    refine List.filter_eq_nil_iff.2 fun other hother heq => ?_
    have hmem := List.mem_map_of_mem (f := LinkNode.link) hother
    rw [of_decide_eq_true heq] at hmem
    exact (List.nodup_cons.1 hafter).1 hmem
  have hself : decide (node.link = node.link) = true := decide_eq_true rfl
  rw [List.filter_append, List.filter_cons, hbefore, hrest, if_pos hself]
  rfl

/-- **The nodes and the table of a file**: the walk ends, and each link with geometry stands where the
joints put it, noted below the nearest one above. -/
theorem walkUrdf_places (packing : Packing L P) (ignore : IgnoreCollision) (urdf : Urdf L P R V) :
    ∃ c, walkUrdf packing ignore urdf = some c ∧ Places packing urdf ignore c := by
  obtain ⟨e, hwalk, hlinks⟩ := walk_links packing (urdf.robot ignore)
  obtain ⟨hdistinct, hnodes⟩ := walk_nodes packing hwalk
  have herase := erase_walkUrdf packing ignore urdf
  rw [hwalk] at herase
  obtain ⟨c, hc, rfl⟩ := Option.map_eq_some_iff.1 herase
  refine ⟨c, hc, ?_, ?_, ?_, ?_⟩
  · intro path link hcomes
    obtain ⟨place, chain, hvisit, habsolute, -⟩ := hcomes.visit
    rcases nodesOf_spec packing link.name place.absolute (shapePlaces ignore link) with
      ⟨hnil, -⟩ | ⟨-, location, hone, hplaced⟩
    · exact absurd hnil hcomes.geometry
    have hmem : (link.name, location) ∈ c.erase.nodes :=
      (hnodes _).2 ⟨place, chain, _, hvisit, get?_robot_of_comes hcomes,
        by rw [hone]; exact List.mem_cons_self⟩
    obtain ⟨node, hnode, heq⟩ := List.mem_map.1 hmem
    obtain ⟨hlink, rfl⟩ := Prod.mk.inj heq
    have hlinks : (c.nodes.map LinkNode.link).Nodup := by
      rwa [show c.erase.nodes.map Prod.fst = c.nodes.map LinkNode.link from List.map_map] at hdistinct
    refine ⟨node, ?_, by rw [hplaced, habsolute]⟩
    rw [← hlink]
    exact filter_link hlinks hnode
  · intro path link hcomes
    obtain ⟨place, chain, hvisit, -, habove⟩ := hcomes.visit
    have hrecord := (hlinks link.name _).2 ⟨place, chain, _, hvisit, get?_robot_of_comes hcomes,
      List.isEmpty_eq_false_iff.2 hcomes.geometry, rfl⟩
    rw [show c.erase.links = c.links.mapValues LinkEntry.toLinkRecord from rfl, Dict.get?_mapValues]
      at hrecord
    obtain ⟨entry, hentry, heq⟩ := Option.map_eq_some_iff.1 hrecord
    refine ⟨entry, hentry, ?_⟩
    rw [heq]
    exact saysWhere_linkRecord packing hvisit habove _
  · intro node hnode
    have hmem : (node.link, node.location) ∈ c.erase.nodes := List.mem_map_of_mem hnode
    obtain ⟨place, chain, geometry, hvisit, hgeometry, hin⟩ := (hnodes _).1 hmem
    refine comes_of_visit hvisit hgeometry ?_
    rintro rfl
    exact absurd hin List.not_mem_nil
  · intro linkName hsome
    obtain ⟨entry, hentry⟩ := Option.isSome_iff_exists.1 hsome
    have hrecord : c.erase.links.get? linkName = some entry.toLinkRecord := by
      rw [show c.erase.links = c.links.mapValues LinkEntry.toLinkRecord from rfl, Dict.get?_mapValues,
        hentry]
      rfl
    obtain ⟨place, chain, geometry, hvisit, hgeometry, hempty, -⟩ := (hlinks _ _).1 hrecord
    exact comes_of_visit hvisit hgeometry (List.isEmpty_eq_false_iff.1 hempty)

end

end PartCAD.Imported
