import Mathlib.Algebra.Group.TypeTags.Basic
import Mathlib.Data.Finset.Card
import PartCAD.Geometry.Packed
import PartCAD.Lib.Dict
import PartCAD.Lib.Loops
import PartCAD.Lib.RootedTree
import PartCAD.Lib.Text

/-!
# Walking a joint tree

The links of a URDF file hang from each other by joints.  They are walked from the root down, and each
link with geometry is noted in a table: the next link with geometry above it, where the link is in the
frame of that one, and the joints in between.

* `walk` : what is noted;
* `Visit` : how a link is come to;
* `walk_links` : **the table** has the links with geometry that are come to, each as it is come to;
* `Visit.reaches` : where a link is, by the link that is noted above it.
-/

namespace PartCAD.Convert

open PartCAD.Lib PartCAD.Geometry

/-! ## Links and joints -/

inductive JointType where
  | unknown | revolute | continuous | prismatic | floating | fixed | planar
  deriving DecidableEq

/-- A joint of a URDF file.  What its motion says besides, the soft limits and what it mimics, stands
under `others`. -/
structure Joint (L R V : Type) where
  name : Str
  type : JointType
  parent : Str
  child : Str
  origin : L
  axis : Option (Vec R)
  lower : Option R
  upper : Option R
  others : Dict Str V
  physics : Dict Str V

/-- The links by their names, with the places of the shapes of each, and the joints, which are a tree:
the link that `get_root` finds hangs from none, and the others from one at most. -/
structure Robot (L P R V : Type) where
  links : Dict Str (List P)
  joints : List (Joint L R V)
  root : Str
  names : (joints.map Joint.name).Nodup
  one_parent : (joints.map Joint.child).Nodup
  root_free : root ∉ joints.map Joint.child

/-- An entry of the link table. -/
structure LinkRecord (P : Type) where
  parent : Option Str
  origin : P
  shapeOrigin : P
  joints : List Str

/-- `context`: the nodes, under the names of their links, and the link table. -/
structure Context (P : Type) where
  nodes : List (Str × P)
  links : Dict Str (LinkRecord P)

/-- What the walk knows about a link when it comes to it: where it is from the next link with geometry
above it, and from the root, the joints from that link on, and that link. -/
structure Place (L : Type) where
  relative : L
  absolute : L
  jointChain : List Str
  ancestor : Option Str

section

variable {L P R V : Type}

/-- The joints by which `robot.child_map` leads on from a link. -/
def Robot.childMap (robot : Robot L P R V) (linkName : Str) : List (Joint L R V) :=
  robot.joints.filter fun joint => joint.parent = linkName

variable {robot : Robot L P R V}

theorem mem_childMap {linkName : Str} {joint : Joint L R V} :
    joint ∈ robot.childMap linkName ↔ joint ∈ robot.joints ∧ joint.parent = linkName := by
  rw [Robot.childMap, List.mem_filter, decide_eq_true_iff]

theorem joint_eq_of_child {joint joint' : Joint L R V} (h : joint ∈ robot.joints)
    (h' : joint' ∈ robot.joints) (heq : joint.child = joint'.child) : joint = joint' :=
  List.inj_on_of_nodup_map robot.one_parent h h' heq

theorem joint_eq_of_name {joint joint' : Joint L R V} (h : joint ∈ robot.joints)
    (h' : joint' ∈ robot.joints) (heq : joint.name = joint'.name) : joint = joint' :=
  List.inj_on_of_nodup_map robot.names h h' heq

theorem child_ne_root {joint : Joint L R V} (h : joint ∈ robot.joints) : joint.child ≠ robot.root :=
  fun heq => robot.root_free (heq ▸ List.mem_map_of_mem h)

/-- The joints as edges, with something about each. -/
def Robot.edges {M : Type} (robot : Robot L P R V) (label : Joint L R V → M) : List (Edge Str M) :=
  robot.joints.map fun joint => ⟨joint.parent, joint.child, label joint⟩

section

variable {M : Type} [Monoid M] {label : Joint L R V → M}

theorem reaches_joint {joint : Joint L R V} (h : joint ∈ robot.joints) {m : M}
    (hm : Reaches (robot.edges label) robot.root joint.parent m) :
    Reaches (robot.edges label) robot.root joint.child (m * label joint) :=
  Reaches.edge (e := ⟨joint.parent, joint.child, label joint⟩) (List.mem_map_of_mem h) hm

/-- **There is one way to a link.** -/
theorem reaches_unique {linkName : Str} {m m' : M}
    (h : Reaches (robot.edges label) robot.root linkName m)
    (h' : Reaches (robot.edges label) robot.root linkName m') : m = m' := by
  refine h.unique ?_ ?_ h'
  · intro e he
    obtain ⟨joint, hjoint, rfl⟩ := List.mem_map.1 he
    exact child_ne_root hjoint
  · intro e he e' he' heq
    obtain ⟨joint, hjoint, rfl⟩ := List.mem_map.1 he
    obtain ⟨joint', hjoint', rfl⟩ := List.mem_map.1 he'
    obtain rfl := joint_eq_of_child hjoint hjoint' heq
    rfl

end

end

section

variable {L P R V : Type} [Group L] (packing : Packing L P)

/-! ## The walk -/

/-- The node of a link: one shape takes the link's place and keeps its own within it, several are
grouped. -/
def addNode (linkName : Str) (absolute : L) (geometry : List P) (c : Context P) : Context P :=
  match geometry with
  | [] => c
  | [shapeOrigin] =>
    { c with
      nodes := c.nodes ++
        [(linkName, packing.asPacked (absolute * packing.unpack shapeOrigin))] }
  | _ => { c with nodes := c.nodes ++ [(linkName, packing.asPacked absolute)] }

/-- Where the item of a link is in the frame of the link. -/
def shapeOrigin : List P → P
  | [shapeOrigin] => shapeOrigin
  | _ => packing.asPacked 1

/-- The entry of a link with geometry. -/
def linkRecord (place : Place L) (geometry : List P) : LinkRecord P where
  parent := place.ancestor
  origin := packing.asPacked place.relative
  shapeOrigin := shapeOrigin packing geometry
  joints := place.jointChain

/-- `record_link`, of a link with geometry. -/
def recordLink (linkName : Str) (place : Place L) (geometry : List P) (c : Context P) : Context P :=
  if geometry.isEmpty then c
  else { c with links := c.links.set linkName (linkRecord packing place geometry) }

/-- Where a joint leads: what is below a link with geometry is stated relative to it, and what is below
another goes on from there. -/
def Place.below (place : Place L) (linkName : Str) (geometry : List P) (joint : Joint L R V) :
    Place L :=
  let (childAncestor, childRelative, chain) :=
    if geometry.isEmpty then (place.ancestor, place.relative, place.jointChain)
    else (some linkName, 1, [])
  { relative := childRelative * joint.origin
    absolute := place.absolute * joint.origin
    jointChain := chain ++ [joint.name]
    ancestor := childAncestor }

variable (robot : Robot L P R V)

/-- `walk_link`.  The number bounds the depth. -/
def walkLink : ℕ → Str → Place L → List Str → Context P → Option (Context P)
  | 0, _, _, _, _ => none
  | n + 1, linkName, place, visited, c =>
    if linkName ∈ visited then some c
    else
      match robot.links.get? linkName with
      | none => some c
      | some geometry =>
        (robot.childMap linkName).foldlM
          (fun c joint =>
            walkLink n joint.child (place.below linkName geometry joint) (linkName :: visited) c)
          (recordLink packing linkName place geometry
            (addNode packing linkName place.absolute geometry c))

/-- Where the root is. -/
def Place.root : Place L := ⟨1, 1, [], none⟩

/-- The walk from the root.  No way has more links than the robot. -/
def walk : Option (Context P) :=
  walkLink packing robot (robot.links.keys.length + 1) robot.root Place.root [] ⟨[], Dict.empty⟩

/-- The walk comes to a link at a place, with joints since the next link with geometry above. -/
inductive Visit : Str → Place L → List (Joint L R V) → Prop
  | root : Visit robot.root Place.root []
  | child {linkName : Str} {place : Place L} {chain : List (Joint L R V)} {geometry : List P}
    {joint : Joint L R V} :
    Visit linkName place chain → robot.links.get? linkName = some geometry →
      joint ∈ robot.childMap linkName →
        Visit joint.child (place.below linkName geometry joint)
          (if geometry.isEmpty then chain ++ [joint] else [joint])

/-- What is noted about a link that is come to and has geometry. -/
def Recorded (linkName : Str) (record : LinkRecord P) : Prop :=
  ∃ place chain geometry, Visit robot linkName place chain ∧
    robot.links.get? linkName = some geometry ∧ geometry.isEmpty = false ∧
      record = linkRecord packing place geometry

variable {robot}

/-! ## Visits -/

namespace Visit

variable {linkName : Str} {place place' : Place L} {chain chain' : List (Joint L R V)}

/-- **A link is come to in one way.** -/
theorem unique (h : Visit robot linkName place chain) (h' : Visit robot linkName place' chain') :
    place = place' ∧ chain = chain' := by
  induction h generalizing place' chain' with
  | root =>
    generalize hb : robot.root = b at h'
    cases h' with
    | root => exact ⟨rfl, rfl⟩
    | child _ _ hjoint => exact absurd hb.symm (child_ne_root (mem_childMap.1 hjoint).1)
  | @child linkName place chain geometry joint hvisit hgeometry hjoint ih =>
    obtain ⟨hmem, rfl⟩ := mem_childMap.1 hjoint
    generalize hb : joint.child = b at h'
    cases h' with
    | root => exact absurd hb (child_ne_root hmem)
    | @child linkName' place' chain' geometry' joint' hvisit' hgeometry' hjoint' =>
      obtain ⟨hmem', rfl⟩ := mem_childMap.1 hjoint'
      obtain rfl := joint_eq_of_child hmem hmem' hb
      obtain ⟨rfl, rfl⟩ := ih hvisit'
      rw [hgeometry] at hgeometry'
      obtain rfl := Option.some.inj hgeometry'
      exact ⟨rfl, rfl⟩

/-- The joints of a chain, by name, and their origins. -/
theorem chain_eq (h : Visit robot linkName place chain) :
    place.jointChain = chain.map Joint.name ∧ place.relative = (chain.map Joint.origin).prod := by
  induction h with
  | root => exact ⟨rfl, rfl⟩
  | @child linkName place chain geometry joint hvisit hgeometry hjoint ih =>
    cases hempty : geometry.isEmpty with
    | false => simp [Place.below, hempty]
    | true => simp [Place.below, hempty, ih.1, ih.2]

theorem chain_mem (h : Visit robot linkName place chain) : ∀ joint ∈ chain, joint ∈ robot.joints := by
  induction h with
  | root => exact fun joint hjoint => absurd hjoint List.not_mem_nil
  | @child linkName place chain geometry joint hvisit hgeometry hjoint ih =>
    obtain ⟨hmem, -⟩ := mem_childMap.1 hjoint
    intro joint' hjoint'
    split at hjoint'
    · rcases List.mem_append.1 hjoint' with hjoint' | hjoint'
      · exact ih joint' hjoint'
      · rwa [List.mem_singleton.1 hjoint']
    · rwa [List.mem_singleton.1 hjoint']

/-- The last joint of a chain leads to the link. -/
theorem last_child (h : Visit robot linkName place chain) {joint : Joint L R V}
    (hlast : chain.getLast? = some joint) : joint.child = linkName := by
  cases h with
  | root => exact absurd hlast (by simp)
  | @child linkName place chain geometry joint' hvisit hgeometry hjoint =>
    split at hlast
    · rw [List.getLast?_concat] at hlast
      rw [Option.some.inj hlast]
    · rw [List.getLast?_singleton] at hlast
      rw [Option.some.inj hlast]

omit [Group L] in
/-- A joint of a chain is the last one or before it. -/
theorem mem_chain {joint : Joint L R V} (hjoint : joint ∈ chain) :
    chain.getLast? = some joint ∨ joint ∈ chain.dropLast := by
  rcases List.eq_nil_or_concat chain with rfl | ⟨chain', last, rfl⟩
  · exact absurd hjoint List.not_mem_nil
  · rw [List.concat_eq_append, List.getLast?_concat, List.dropLast_concat]
    rw [List.concat_eq_append] at hjoint
    rcases List.mem_append.1 hjoint with hjoint | hjoint
    · exact Or.inr hjoint
    · exact Or.inl (congrArg some (List.mem_singleton.1 hjoint).symm)

/-- The links that the other joints of a chain lead to have no geometry. -/
theorem dropLast_child (h : Visit robot linkName place chain) :
    ∀ joint ∈ chain.dropLast, robot.links.get? joint.child = some [] := by
  induction h with
  | root => exact fun joint hjoint => absurd hjoint List.not_mem_nil
  | @child linkName place chain geometry joint hvisit hgeometry hjoint ih =>
    intro joint' hjoint'
    cases hempty : geometry.isEmpty with
    | false => exact absurd hjoint' (by simp [hempty])
    | true =>
      obtain rfl := List.isEmpty_iff.1 hempty
      rw [if_pos hempty, List.dropLast_concat] at hjoint'
      rcases mem_chain hjoint' with hlast | hdrop
      · rw [hvisit.last_child hlast, hgeometry]
      · exact ih joint' hdrop

/-- What is below another link hangs by a joint. -/
theorem chain_ne_nil (h : Visit robot linkName place chain) {p : Str} (hp : place.ancestor = some p) :
    chain ≠ [] := by
  cases h with
  | root => exact absurd hp (by simp [Place.root])
  | @child linkName place chain geometry joint hvisit hgeometry hjoint =>
    split
    · exact List.append_ne_nil_of_right_ne_nil _ (List.cons_ne_nil _ _)
    · exact List.cons_ne_nil _ _

/-- The link above has geometry and is come to. -/
theorem ancestor_visit (h : Visit robot linkName place chain) {p : Str}
    (hp : place.ancestor = some p) :
    ∃ place' chain' geometry, Visit robot p place' chain' ∧ robot.links.get? p = some geometry ∧
      geometry.isEmpty = false := by
  induction h with
  | root => exact absurd hp (by simp [Place.root])
  | @child linkName place chain geometry joint hvisit hgeometry hjoint ih =>
    cases hempty : geometry.isEmpty with
    | true => exact ih (by simpa [Place.below, hempty] using hp)
    | false =>
      obtain rfl : linkName = p := by simpa [Place.below, hempty] using hp
      exact ⟨place, chain, geometry, hvisit, hgeometry, hempty⟩

/-- **Where a link is.**  When the joints of the chain but the last one do not move, it is at its
place below the link that is noted above it, moved by the last joint. -/
theorem reaches {move : Joint L R V → L} (h : Visit robot linkName place chain)
    (hstill : ∀ joint ∈ chain.dropLast, move joint = 1) {p : Str} (hp : place.ancestor = some p)
    {m : L} (hm : Reaches (robot.edges fun joint => joint.origin * move joint) robot.root p m)
    {last : Joint L R V} (hlast : chain.getLast? = some last) :
    Reaches (robot.edges fun joint => joint.origin * move joint) robot.root linkName
      (m * (place.relative * move last)) := by
  induction h generalizing last with
  | root => exact absurd hlast (by simp)
  | @child linkName place chain geometry joint hvisit hgeometry hjoint ih =>
    obtain ⟨hmem, rfl⟩ := mem_childMap.1 hjoint
    cases hempty : geometry.isEmpty with
    | false =>
      obtain rfl : joint.parent = p := by simpa [Place.below, hempty] using hp
      obtain rfl : joint = last := by simpa [hempty] using hlast
      have hstep := reaches_joint hmem hm
      simpa [Place.below, hempty] using hstep
    | true =>
      obtain rfl : joint = last := by simpa [hempty] using hlast
      rw [hempty, if_pos rfl, List.dropLast_concat] at hstill
      have hp : place.ancestor = some p := by simpa [Place.below, hempty] using hp
      have hlast := List.getLast?_eq_some_getLast (hvisit.chain_ne_nil hp)
      set last := chain.getLast (hvisit.chain_ne_nil hp)
      have hparent := ih (fun joint hj => hstill joint (List.dropLast_subset _ hj)) hp hlast
      rw [hstill last (List.mem_of_getLast? hlast), mul_one] at hparent
      have hstep := reaches_joint hmem hparent
      simpa [Place.below, hempty, mul_assoc] using hstep

/-- Where a link is that no link is noted above, when none of the joints on the way moves. -/
theorem reaches_top {move : Joint L R V → L} (h : Visit robot linkName place chain)
    (hstill : ∀ joint ∈ chain, move joint = 1) (hp : place.ancestor = none) :
    Reaches (robot.edges fun joint => joint.origin * move joint) robot.root linkName
      place.relative := by
  induction h with
  | root => exact .root
  | @child linkName place chain geometry joint hvisit hgeometry hjoint ih =>
    obtain ⟨hmem, rfl⟩ := mem_childMap.1 hjoint
    cases hempty : geometry.isEmpty with
    | false => exact absurd hp (by simp [Place.below, hempty])
    | true =>
      rw [hempty, if_pos rfl] at hstill
      have hparent := ih (fun joint hj => hstill joint (List.mem_append_left _ hj))
        (by simpa [Place.below, hempty] using hp)
      have hstep := reaches_joint hmem hparent
      rw [hstill joint (List.mem_append_right _ (List.mem_singleton_self _)), mul_one] at hstep
      simpa [Place.below, hempty] using hstep

end Visit

/-! ## The table -/

theorem walkLink_eq {n : ℕ} {linkName : Str} {place : Place L} {visited : List Str} {c : Context P}
    {geometry : List P} (hnew : linkName ∉ visited) (hgeometry : robot.links.get? linkName = some geometry) :
    walkLink packing robot (n + 1) linkName place visited c =
      (robot.childMap linkName).foldlM
        (fun c joint =>
          walkLink packing robot n joint.child (place.below linkName geometry joint)
            (linkName :: visited) c)
        (recordLink packing linkName place geometry
          (addNode packing linkName place.absolute geometry c)) := by
  rw [walkLink, if_neg hnew, hgeometry]

theorem links_addNode (linkName : Str) (absolute : L) (geometry : List P) (c : Context P) :
    (addNode packing linkName absolute geometry c).links = c.links := by
  unfold addNode
  split <;> rfl

theorem get?_recordLink (linkName : Str) (place : Place L) (geometry : List P) (c : Context P)
    (q : Str) :
    (recordLink packing linkName place geometry c).links.get? q =
      if geometry.isEmpty = false ∧ linkName = q then some (linkRecord packing place geometry)
      else c.links.get? q := by
  unfold recordLink
  cases hempty : geometry.isEmpty with
  | true => simp
  | false => simp [Dict.get?_set]

variable (robot)

/-- Entries are added, each for a link that is come to. -/
structure Grows (c c' : Context P) : Prop where
  sound : ∀ q record, c'.links.get? q = some record →
    c.links.get? q = some record ∨ Recorded packing robot q record
  kept : ∀ q, (c.links.get? q).isSome → (c'.links.get? q).isSome

variable {robot}

theorem Grows.refl (c : Context P) : Grows packing robot c c where
  sound _ _ h := Or.inl h
  kept _ h := h

theorem Grows.trans (c₁ c₂ c₃ : Context P) (h : Grows packing robot c₁ c₂)
    (h' : Grows packing robot c₂ c₃) : Grows packing robot c₁ c₃ where
  sound q record hq := by
    rcases h'.sound q record hq with hq | hq
    · exact h.sound q record hq
    · exact Or.inr hq
  kept q hq := h'.kept q (h.kept q hq)

theorem grows_recordLink {linkName : Str} {place : Place L} {chain : List (Joint L R V)}
    {geometry : List P} (h : Visit robot linkName place chain)
    (hgeometry : robot.links.get? linkName = some geometry) (absolute : L) (c : Context P) :
    Grows packing robot c
      (recordLink packing linkName place geometry (addNode packing linkName absolute geometry c)) where
  sound q record hq := by
    rw [get?_recordLink, links_addNode] at hq
    split at hq <;> rename_i hnew
    · obtain ⟨hempty, rfl⟩ := hnew
      exact Or.inr ⟨place, chain, geometry, h, hgeometry, hempty, (Option.some.inj hq).symm⟩
    · exact Or.inl hq
  kept q hq := by
    rw [get?_recordLink, links_addNode]
    split
    · rfl
    · exact hq

/-- What the walk of a link adds. -/
theorem grows_walkLink {n : ℕ} {linkName : Str} {place : Place L} {chain : List (Joint L R V)}
    {visited : List Str} {c c' : Context P} (h : Visit robot linkName place chain)
    (hwalk : walkLink packing robot n linkName place visited c = some c') :
    Grows packing robot c c' := by
  induction n generalizing linkName place chain visited c c' with
  | zero => exact absurd hwalk (by simp [walkLink])
  | succ n ih =>
    by_cases hnew : linkName ∈ visited
    · rw [walkLink, if_pos hnew] at hwalk
      obtain rfl := Option.some.inj hwalk
      exact Grows.refl packing c
    · cases hgeometry : robot.links.get? linkName with
      | none =>
        rw [walkLink, if_neg hnew, hgeometry] at hwalk
        obtain rfl := Option.some.inj hwalk
        exact Grows.refl packing c
      | some geometry =>
        rw [walkLink_eq packing hnew hgeometry] at hwalk
        have hjoints := foldlM_related (Grows.refl packing) (Grows.trans packing)
          (fun joint hjoint _ _ hstep => ih (Visit.child h hgeometry hjoint) hstep) hwalk
        exact Grows.trans packing _ _ _ (grows_recordLink packing h hgeometry place.absolute c) hjoints

/-- How many joints are above a link. -/
def Depth (robot : Robot L P R V) (linkName : Str) (d : ℕ) : Prop :=
  Reaches (robot.edges fun _ => Multiplicative.ofAdd 1) robot.root linkName (Multiplicative.ofAdd d)

omit [Group L] in
theorem Depth.child {joint : Joint L R V} {d : ℕ} (h : Depth robot joint.parent d)
    (hmem : joint ∈ robot.joints) : Depth robot joint.child (d + 1) :=
  reaches_joint hmem h

omit [Group L] in
theorem Depth.unique {linkName : Str} {d d' : ℕ} (h : Depth robot linkName d)
    (h' : Depth robot linkName d') : d = d' :=
  Multiplicative.ofAdd.injective (reaches_unique h h')

/-- The links above are higher up, so that the walk has not been to the link itself. -/
def Higher (robot : Robot L P R V) (linkName : Str) (visited : List Str) : Prop :=
  ∃ d, Depth robot linkName d ∧ ∀ v ∈ visited, ∃ k < d, Depth robot v k

omit [Group L] in
theorem Higher.notMem {linkName : Str} {visited : List Str} (h : Higher robot linkName visited) :
    linkName ∉ visited := by
  obtain ⟨d, hd, hvisited⟩ := h
  intro hmem
  obtain ⟨k, hk, hdepth⟩ := hvisited linkName hmem
  exact absurd (hd.unique hdepth) hk.ne'

omit [Group L] in
theorem Higher.child {joint : Joint L R V} {visited : List Str}
    (h : Higher robot joint.parent visited) (hmem : joint ∈ robot.joints) :
    Higher robot joint.child (joint.parent :: visited) := by
  obtain ⟨d, hd, hvisited⟩ := h
  refine ⟨d + 1, hd.child hmem, fun v hv => ?_⟩
  rcases List.mem_cons.1 hv with rfl | hv
  · exact ⟨d, d.lt_succ_self, hd⟩
  · obtain ⟨k, hk, hdepth⟩ := hvisited v hv
    exact ⟨k, hk.trans d.lt_succ_self, hdepth⟩

/-- **The walk comes to every visit.** -/
theorem Visit.called {linkName : Str} {place : Place L} {chain : List (Joint L R V)} {c : Context P}
    (h : Visit robot linkName place chain) (hwalk : walk packing robot = some c) :
    ∃ n visited c₁ c₂, walkLink packing robot n linkName place visited c₁ = some c₂ ∧
      Higher robot linkName visited ∧ Grows packing robot c₂ c := by
  induction h with
  | root =>
    exact ⟨_, [], _, c, hwalk, ⟨0, .root, fun v hv => absurd hv List.not_mem_nil⟩,
      Grows.refl packing c⟩
  | @child linkName place chain geometry joint hvisit hgeometry hjoint ih =>
    obtain ⟨n, visited, c₁, c₂, hcall, hhigher, hgrows⟩ := ih
    obtain ⟨hmem, rfl⟩ := mem_childMap.1 hjoint
    cases n with
    | zero => exact absurd hcall (by simp [walkLink])
    | succ n =>
      rw [walkLink_eq packing hhigher.notMem hgeometry] at hcall
      obtain ⟨s₁, s₂, rest, hstep, hsub, hrest⟩ := foldlM_call hjoint hcall
      have hafter := foldlM_related (Grows.refl packing) (Grows.trans packing)
        (fun joint' hjoint' _ _ hstep' =>
          grows_walkLink packing (Visit.child hvisit hgeometry (hsub hjoint')) hstep') hrest
      exact ⟨n, _, s₁, s₂, hstep, hhigher.child hmem, Grows.trans packing _ _ _ hafter hgrows⟩

/-- The walk ends, if it may go deeper than the links that it has not been to. -/
theorem walkLink_terminates {n : ℕ} {linkName : Str} {place : Place L} {visited : List Str}
    (h : (robot.links.keys.toFinset \ visited.toFinset).card < n) (c : Context P) :
    ∃ c', walkLink packing robot n linkName place visited c = some c' := by
  induction n generalizing linkName place visited c with
  | zero => exact absurd h (Nat.not_lt_zero _)
  | succ n ih =>
    by_cases hnew : linkName ∈ visited
    · exact ⟨c, by rw [walkLink, if_pos hnew]⟩
    · cases hgeometry : robot.links.get? linkName with
      | none => exact ⟨c, by rw [walkLink, if_neg hnew, hgeometry]⟩
      | some geometry =>
        rw [walkLink_eq packing hnew hgeometry]
        have hmem : linkName ∈ robot.links.keys :=
          Dict.mem_keys.2 ⟨geometry, Dict.get?_eq_some.1 hgeometry⟩
        have hless : (robot.links.keys.toFinset \ (linkName :: visited).toFinset).card < n := by
          have hlt : (robot.links.keys.toFinset \ (linkName :: visited).toFinset).card <
              (robot.links.keys.toFinset \ visited.toFinset).card := by
            apply Finset.card_lt_card
            rw [List.toFinset_cons]
            refine Finset.ssubset_iff_of_subset ?_ |>.2 ⟨linkName, ?_, ?_⟩
            · exact Finset.sdiff_subset_sdiff subset_rfl (Finset.subset_insert _ _)
            · exact Finset.mem_sdiff.2 ⟨List.mem_toFinset.2 hmem, fun hv => hnew (List.mem_toFinset.1 hv)⟩
            · exact fun hv => (Finset.mem_sdiff.1 hv).2 (Finset.mem_insert_self _ _)
          omega
        exact foldlM_total (fun joint _ c => ih hless c) _

/-- **The link table**: the walk ends, and has noted every link with geometry that it comes to, as it
comes to it. -/
theorem walk_links (robot : Robot L P R V) :
    ∃ c, walk packing robot = some c ∧
      ∀ linkName record, c.links.get? linkName = some record ↔ Recorded packing robot linkName record := by
  have hfuel : (robot.links.keys.toFinset \ ([] : List Str).toFinset).card <
      robot.links.keys.length + 1 := by
    have hcard := robot.links.keys.toFinset_card_le
    rw [List.toFinset_nil, Finset.sdiff_empty]
    omega
  obtain ⟨c, hwalk⟩ : ∃ c, walk packing robot = some c :=
    walkLink_terminates packing hfuel ⟨[], Dict.empty⟩
  refine ⟨c, hwalk, fun linkName record => ⟨fun hrecord => ?_, fun hrecord => ?_⟩⟩
  · have hsound := (grows_walkLink packing Visit.root hwalk).sound linkName record hrecord
    exact hsound.resolve_left (by simp)
  · obtain ⟨place, chain, geometry, hvisit, hgeometry, hempty, rfl⟩ := hrecord
    obtain ⟨n, visited, c₁, c₂, hcall, hhigher, hgrows⟩ := hvisit.called packing hwalk
    cases n with
    | zero => exact absurd hcall (by simp [walkLink])
    | succ n =>
      rw [walkLink_eq packing hhigher.notMem hgeometry] at hcall
      have hjoints := foldlM_related (Grows.refl packing) (Grows.trans packing)
        (fun joint hjoint _ _ hstep =>
          grows_walkLink packing (Visit.child hvisit hgeometry hjoint) hstep) hcall
      have hnoted : (c.links.get? linkName).isSome := by
        refine hgrows.kept _ (hjoints.kept _ ?_)
        rw [get?_recordLink, if_pos ⟨hempty, rfl⟩]
        rfl
      obtain ⟨record, hrecord⟩ := Option.isSome_iff_exists.1 hnoted
      have hsound := (grows_walkLink packing Visit.root hwalk).sound linkName record hrecord
      obtain ⟨place', chain', geometry', hvisit', hgeometry', -, rfl⟩ := hsound.resolve_left (by simp)
      obtain ⟨rfl, -⟩ := hvisit.unique hvisit'
      rw [hgeometry] at hgeometry'
      obtain rfl := Option.some.inj hgeometry'
      exact hrecord

end

end PartCAD.Convert
