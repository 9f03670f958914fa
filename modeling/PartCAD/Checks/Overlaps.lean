import PartCAD.Checks.Remembered
import PartCAD.Lib.Outline

/-!
# Overlaps that a joint expects

A joint names items of the list that it is in.  An overlap names two parts by the ways to them from the
assembly, as texts, and is excused when these end in two names of a joint.

* `Declarations.Joins` : a joint expects two leaves to share space, by where they are;
* `Declarations.Bears` : the ways to two leaves end in names that a joint states;
* `Declarations.Settled` : the two agree, for one joint;
* `excused_iff` : the check is right about every set of joints just when all are settled.
-/

namespace PartCAD.Checks

open PartCAD.Lib PartCAD.Lib.Text PartCAD.Lib.Outline PartCAD.Assembly

variable {F : Type}

/-! ## Places -/

/-- A child, by how it is held and what it is. -/
abbrev Linked := Link × Object

mutual
def Child.outline : Child → Outline Linked
  | .part link object => .leaf (link, object)
  | .assembly link object embedded children => .node (link, object) embedded (outlines children)
def outlines : List Child → List (Outline Linked)
  | [] => []
  | child :: rest => child.outline :: outlines rest
end

def Link.unconnected (link : Link) : Link := { link with connection := none }

mutual
/-- Only the joints at some places. -/
def Child.thin (kept : List ℕ → Bool) (place : List ℕ) : Child → Child
  | .part link object => .part (if kept place then link else link.unconnected) object
  | .assembly link object embedded children =>
    .assembly (if kept place then link else link.unconnected) object embedded
      (thinFrom kept place 0 children)
def thinFrom (kept : List ℕ → Bool) (place : List ℕ) : ℕ → List Child → List Child
  | _, [] => []
  | i, child :: rest => child.thin kept (place ++ [i]) :: thinFrom kept place (i + 1) rest
end

/-- An assembly with only some of its joints. -/
def thin (kept : List ℕ → Bool) (children : List Child) : List Child := thinFrom kept [] 0 children

/-- How an item is held when only some of the joints are there. -/
def linkAt (kept : List ℕ → Bool) (s : Site Linked) : Link :=
  if kept s.own then s.label.1 else s.label.1.unconnected

mutual
theorem connected_thin (kept : List ℕ → Bool) (above : List Linked) (place : List ℕ) :
    ∀ child : Child, (child.thin kept place).connected =
      (if kept place then child.outline.label.1 else child.outline.label.1.unconnected) ::
        (sitesIn above place child.outline).map (linkAt kept)
  | .part link object => rfl
  | .assembly link object embedded children => by
    rw [Child.thin, Child.connected, Child.outline, sitesIn]
    cases embedded with
    | false => rfl
    | true => exact congrArg _ (connectedChildren_thin kept _ place _ 0 children)
theorem connectedChildren_thin (kept : List ℕ → Bool) (above : List Linked) (place : List ℕ)
    (siblings : List (Outline Linked)) : ∀ (i : ℕ) (children : List Child),
      connectedChildren (thinFrom kept place i children) =
        (sitesFrom above place siblings i (outlines children)).map (linkAt kept)
  | _, [] => rfl
  | i, child :: rest => by
    rw [thinFrom, connectedChildren, connected_thin kept above, outlines, sitesFrom, List.map_cons,
      List.map_append, connectedChildren_thin kept above place siblings (i + 1) rest]
    rfl
end

/-! ## What a joint expects -/

/-- What a child is called in the tree: by its label, or else by its name. -/
def nameInTree (child : Linked) : Str :=
  let label := child.1.name.getD child.2.name
  if label ≠ [] then label
  else if child.2.projectName ≠ [] ∧ child.2.name ≠ [] then
    child.2.projectName ++ ':' :: child.2.name
  else child.2.name

/-- One more step on a way. -/
def wayTo (within name : Str) : Str := if within = [] then name else within ++ '/' :: name

/-- How an overlap names a part: `_leaves` -/
def leafPath (l : Leaf Linked) : Str :=
  (l.above ++ [l.label]).foldl (fun within child => wayTo within (nameInTree child)) []

/-- A name of an item. -/
def nameOf (item : Outline Linked) : Option Str := item.label.1.name

/-- What a joint connects its item to: the first of those before it that has the name. -/
def connectedTo (joint : Site Linked) (connection : Connection) : Option ℕ :=
  joint.firstBefore fun item => nameOf item = connection.target

namespace Declarations

variable (d : Declarations F)

/-- A thread is formed, or something snaps in. -/
def forms (link : Link) (connection : Connection) : Bool :=
  (match link.how with
    | some how => how.selfScrew || how.snapIn
    | none => false) ||
    d.cutsItsOwnThread connection.withInterface || d.cutsItsOwnThread connection.toInterface

/-- A joint expects its item to share space with the `j`-th of its siblings: it is connected to that with
a thread or snaps in there, or it says that it interferes with what has that name. -/
def Expects (joint : Site Linked) (j : ℕ) : Prop :=
  ∃ connection, joint.label.1.connection = some connection ∧
    (d.forms joint.label.1 connection ∧ connectedTo joint connection = some j ∨
      ∃ name ∈ connection.interferes, joint.siblings[j]?.bind nameOf = some name)

/-- A joint expects two leaves to share space: one is its item or within it, and the other is one of the
siblings that it expects, or within that. -/
def Joins (joint : Site Linked) (a b : Leaf Linked) : Prop :=
  ∃ j, d.Expects joint j ∧
    (a.Inside joint.own ∧ b.Inside (joint.place ++ [j]) ∨
      a.Inside (joint.place ++ [j]) ∧ b.Inside joint.own)

/-- A name that a joint states for what it expects, where it states what it is connected to. -/
def States (link : Link) (name : Str) : Prop :=
  ∃ connection, link.connection = some connection ∧ connection.target ≠ none ∧
    (name ∈ connection.interferes ∨ d.forms link connection ∧ connection.target = some name)

/-- The ways to two leaves end in the name of a joint's item and in one that the joint states. -/
def Bears (link : Link) (a b : Leaf Linked) : Prop :=
  ∃ own name, link.name = some own ∧ d.States link name ∧
    (nameMatches (leafPath a) own ∧ nameMatches (leafPath b) name ∨
      nameMatches (leafPath a) name ∧ nameMatches (leafPath b) own)

/-- Two leaves are items that a joint expects to share space, both have names, and the joint states what it
is connected to. -/
def Plain (joint : Site Linked) (a b : Leaf Linked) : Prop :=
  (∃ connection, joint.label.1.connection = some connection ∧ connection.target ≠ none) ∧
    (∃ name, a.label.1.name = some name ∧ name ≠ []) ∧ (∃ name, b.label.1.name = some name ∧ name ≠ []) ∧
      ∃ j, d.Expects joint j ∧ (a.place = joint.own ∧ b.place = joint.place ++ [j] ∨
        a.place = joint.place ++ [j] ∧ b.place = joint.own)

/-- **The names of a joint lead to its items**: where two leaves that it expects to share space are not
just these items, the ways to them end in names that it states, and those of no other two do. -/
structure Settled (items : List (Outline Linked)) (joint : Site Linked) : Prop where
  within : ∀ a ∈ leaves items, ∀ b ∈ leaves items, a.place ≠ b.place → d.Joins joint a b →
    ¬ d.Plain joint a b → d.Bears joint.label.1 a b
  elsewhere : ∀ a ∈ leaves items, ∀ b ∈ leaves items, a.place ≠ b.place → ¬ d.Joins joint a b →
    ¬ d.Bears joint.label.1 a b

/-! ## What is excused -/

theorem isExpected_iff {expected : List (Str × Str)} {overlap : Str × Str} :
    isExpected expected overlap ↔ ∃ p ∈ expected,
      nameMatches overlap.1 p.1 ∧ nameMatches overlap.2 p.2 ∨
        nameMatches overlap.1 p.2 ∧ nameMatches overlap.2 p.1 := by
  unfold isExpected
  rw [List.any_eq_true]
  simp only [Bool.or_eq_true, Bool.and_eq_true]

/-- The order of two names does not matter. -/
theorem matches_sortedPair {p q a b : Str} :
    (nameMatches p (sortedPair a b).1 ∧ nameMatches q (sortedPair a b).2 ∨
        nameMatches p (sortedPair a b).2 ∧ nameMatches q (sortedPair a b).1) ↔
      nameMatches p a ∧ nameMatches q b ∨ nameMatches p b ∧ nameMatches q a := by
  unfold sortedPair
  split
  · exact or_comm
  · exact Iff.rfl

/-- What a joint requires, in other words. -/
theorem expectedOf_eq {link : Link} {connection : Connection} {own target : Str}
    (hconnection : link.connection = some connection) (hown : link.name = some own)
    (htarget : connection.target = some target) :
    d.expectedOf link = connection.interferes.map (sortedPair own) ++
      if d.forms link connection then [sortedPair own target] else [] := by
  unfold expectedOf
  rw [hconnection, hown]
  dsimp only
  rw [htarget]
  show (if d.forms link connection then _ else _) = _
  split
  · rfl
  · rw [List.append_nil]

theorem mem_expectedOf {link : Link} {pair : Str × Str} :
    pair ∈ d.expectedOf link ↔
      ∃ own name, link.name = some own ∧ d.States link name ∧ pair = sortedPair own name := by
  constructor
  · intro h
    obtain ⟨connection, hconnection⟩ : ∃ connection, link.connection = some connection := by
      cases hconnection : link.connection with
      | none =>
        unfold expectedOf at h
        rw [hconnection] at h
        cases h
      | some connection => exact ⟨connection, rfl⟩
    obtain ⟨own, hown⟩ : ∃ own, link.name = some own := by
      cases hown : link.name with
      | none =>
        unfold expectedOf at h
        rw [hconnection, hown] at h
        cases h
      | some own => exact ⟨own, rfl⟩
    obtain ⟨target, htarget⟩ : ∃ target, connection.target = some target := by
      cases htarget : connection.target with
      | none =>
        unfold expectedOf at h
        rw [hconnection, hown] at h
        dsimp only at h
        rw [htarget] at h
        cases h
      | some target => exact ⟨target, rfl⟩
    have hstated : connection.target ≠ none := by
      rw [htarget]
      exact Option.some_ne_none target
    rw [expectedOf_eq d hconnection hown htarget] at h
    rcases List.mem_append.1 h with h | h
    · obtain ⟨name, hname, rfl⟩ := List.mem_map.1 h
      exact ⟨own, name, hown, ⟨connection, hconnection, hstated, .inl hname⟩, rfl⟩
    · split at h
      · rename_i hforms
        obtain rfl := List.mem_singleton.1 h
        exact ⟨own, target, hown, ⟨connection, hconnection, hstated, .inr ⟨hforms, htarget⟩⟩, rfl⟩
      · cases h
  · rintro ⟨own, name, hown, ⟨connection, hconnection, hstated, hname⟩, rfl⟩
    obtain ⟨target, htarget⟩ := Option.ne_none_iff_exists'.1 hstated
    rw [expectedOf_eq d hconnection hown htarget]
    rcases hname with hname | ⟨hforms, hname⟩
    · exact List.mem_append_left _ (List.mem_map_of_mem hname)
    · obtain rfl := Option.some.inj (htarget.symm.trans hname)
      rw [if_pos hforms]
      exact List.mem_append_right _ (List.mem_singleton_self _)

/-- **A joint excuses** two leaves whose ways end in names that it states. -/
theorem isExpected_expectedOf (link : Link) (a b : Leaf Linked) :
    isExpected (d.expectedOf link) (leafPath a, leafPath b) ↔ d.Bears link a b := by
  rw [isExpected_iff]
  constructor
  · rintro ⟨pair, hpair, hmatches⟩
    obtain ⟨own, name, hown, hstates, rfl⟩ := (mem_expectedOf d).1 hpair
    exact ⟨own, name, hown, hstates, matches_sortedPair.1 hmatches⟩
  · rintro ⟨own, name, hown, hstates, hmatches⟩
    exact ⟨_, (mem_expectedOf d).2 ⟨own, name, hown, hstates, rfl⟩, matches_sortedPair.2 hmatches⟩

theorem isExpected_flatMap {β : Type} (f : β → List (Str × Str)) (l : List β) (overlap : Str × Str) :
    isExpected (l.flatMap f) overlap ↔ ∃ x ∈ l, isExpected (f x) overlap := by
  simp only [isExpected_iff, List.mem_flatMap]
  constructor
  · rintro ⟨pair, ⟨x, hx, hpair⟩, hmatches⟩
    exact ⟨x, hx, pair, hpair, hmatches⟩
  · rintro ⟨x, hx, pair, hpair, hmatches⟩
    exact ⟨pair, ⟨x, hx, hpair⟩, hmatches⟩

theorem expectedOf_unconnected (link : Link) : d.expectedOf link.unconnected = [] := rfl

/-- **What is excused** in an assembly with some of its joints. -/
theorem isExpected_thin (shape : Shape F) (children : List Child) (kept : List ℕ → Bool)
    (a b : Leaf Linked) :
    isExpected (d.expectedOverlapPairs { shape with children := some (thin kept children) })
        (leafPath a, leafPath b) ↔
      ∃ joint ∈ sites (outlines children), kept joint.own ∧ d.Bears joint.label.1 a b := by
  have hpairs : d.expectedOverlapPairs { shape with children := some (thin kept children) } =
      (sites (outlines children)).flatMap fun joint => d.expectedOf (linkAt kept joint) := by
    unfold expectedOverlapPairs thin sites
    rw [Option.getD_some, connectedChildren_thin kept [] [] (outlines children), List.flatMap_map]
  rw [hpairs, isExpected_flatMap]
  refine exists_congr fun joint => and_congr_right fun _ => ?_
  unfold linkAt
  split
  · rename_i hkept
    simp only [hkept, true_and]
    exact isExpected_expectedOf d joint.label.1 a b
  · rename_i hkept
    rw [expectedOf_unconnected]
    simp [hkept, isExpected]

/-! ## Where the names lead to the items -/

/-- The way to a leaf ends in what the leaf is called. -/
theorem nameMatches_leafPath (l : Leaf Linked) : nameMatches (leafPath l) (nameInTree l.label) := by
  unfold leafPath
  rw [List.foldl_append, List.foldl_cons, List.foldl_nil, wayTo, nameMatches]
  split
  · simp
  · simp

theorem nameInTree_of_name {child : Linked} {name : Str} (h : child.1.name = some name)
    (hne : name ≠ []) : nameInTree child = name := by
  unfold nameInTree
  dsimp only
  rw [h, Option.getD_some, if_pos hne]

theorem matches_of_name {l : Leaf Linked} {name : Str} (h : l.label.1.name = some name)
    (hne : name ≠ []) : nameMatches (leafPath l) name := by
  rw [← nameInTree_of_name h hne]
  exact nameMatches_leafPath l

/-- **Two items that a joint expects to share space** are found by their names. -/
theorem bears_of_plain {items : List (Outline Linked)} {joint : Site Linked} (hjoint : joint ∈ sites items)
    {a b : Leaf Linked} (ha : a ∈ leaves items) (hb : b ∈ leaves items) (h : d.Plain joint a b) :
    d.Bears joint.label.1 a b := by
  obtain ⟨hfound, hsiblings⟩ := get?_of_mem_sites hjoint
  -- what a leaf at a place of the list is called
  have hat : ∀ {l : Leaf Linked}, l ∈ leaves items → ∀ {j : ℕ}, l.place = joint.place ++ [j] →
      joint.siblings[j]? = some (.leaf l.label) := by
    intro l hl j hplace
    rw [← hsiblings, ← hplace]
    exact get?_of_mem_leaves hl
  obtain ⟨⟨connection, hconnection, htarget⟩, hnamea, hnameb, j, hexpects, hplaces⟩ := h
  -- the name that the joint states for the `j`-th
  have hstates : ∀ {l : Leaf Linked}, joint.siblings[j]? = some (.leaf l.label) → ∀ {name : Str},
      l.label.1.name = some name → d.States joint.label.1 name := by
    intro l hl name hname
    obtain ⟨connection', hconnection', hexpects⟩ := hexpects
    obtain rfl := Option.some.inj (hconnection.symm.trans hconnection')
    refine ⟨connection, hconnection, htarget, ?_⟩
    rcases hexpects with ⟨hforms, hto⟩ | ⟨name', hmem, hname'⟩
    · refine .inr ⟨hforms, ?_⟩
      obtain ⟨item, hitem, hnamed⟩ := Site.firstBefore_eq_some hto
      obtain rfl := Option.some.inj (hl.symm.trans hitem)
      rw [← hname]
      exact (of_decide_eq_true hnamed).symm
    · rw [hl, Option.bind_some] at hname'
      obtain rfl := Option.some.inj (hname.symm.trans hname')
      exact .inl hmem
  have hown : ∀ {l : Leaf Linked}, joint.siblings[joint.index]? = some (.leaf l.label) →
      joint.label = l.label := by
    intro l hl
    rw [hfound] at hl
    exact congrArg Outline.label (Option.some.inj hl)
  obtain ⟨namea, hnamea, hnea⟩ := hnamea
  obtain ⟨nameb, hnameb, hneb⟩ := hnameb
  rcases hplaces with ⟨hplacea, hplaceb⟩ | ⟨hplacea, hplaceb⟩
  · refine ⟨namea, nameb, ?_, hstates (hat hb hplaceb) hnameb, .inl ?_⟩
    · rw [hown (hat ha hplacea)]
      exact hnamea
    · exact ⟨matches_of_name hnamea hnea, matches_of_name hnameb hneb⟩
  · refine ⟨nameb, namea, ?_, hstates (hat ha hplacea) hnamea, .inr ?_⟩
    · rw [hown (hat hb hplaceb)]
      exact hnameb
    · exact ⟨matches_of_name hnamea hnea, matches_of_name hnameb hneb⟩

/-- For a joint that is settled, the names say what the places say. -/
theorem Settled.bears_iff {items : List (Outline Linked)} {joint : Site Linked}
    (hjoint : joint ∈ sites items) (h : d.Settled items joint) {a b : Leaf Linked} (ha : a ∈ leaves items)
    (hb : b ∈ leaves items) (hne : a.place ≠ b.place) :
    d.Bears joint.label.1 a b ↔ d.Joins joint a b := by
  constructor
  · intro hbears
    by_contra hjoins
    exact h.elsewhere a ha b hb hne hjoins hbears
  · intro hjoins
    by_cases hplain : d.Plain joint a b
    · exact bears_of_plain d hjoint ha hb hplain
    · exact h.within a ha b hb hne hjoins hplain

theorem joins_congr {joint joint' : Site Linked} (hplace : joint.place = joint'.place)
    (hindex : joint.index = joint'.index) (hsiblings : joint.siblings = joint'.siblings)
    (hitem : joint.item = joint'.item) (a b : Leaf Linked) : d.Joins joint a b ↔ d.Joins joint' a b := by
  have hown : joint.own = joint'.own := by rw [Site.own, Site.own, hplace, hindex]
  have hexpects : ∀ j, d.Expects joint j ↔ d.Expects joint' j := by
    intro j
    unfold Expects connectedTo Site.firstBefore Site.label
    rw [hindex, hsiblings, hitem]
  unfold Joins
  simp only [hexpects, hown, hplace]

end Declarations

/-! ## Two brackets and two screws -/

def objectCalled (name : Str) : Object := ⟨"//shop".toList, name, none, ⟨none, none, 1⟩, .none⟩

/-- A bracket and a screw in a list of their own. -/
def screwedOn (name : Str) (connection : Option Connection) (how : Option How) : Child :=
  .assembly ⟨some name, none, none⟩ (objectCalled ("stand:".toList ++ name)) true
    [.part ⟨some "bracket".toList, none, none⟩ (objectCalled "bracket".toList),
      .part ⟨some "screw".toList, connection, how⟩ (objectCalled "screw".toList)]

/-- On the left the screw cuts a thread in the bracket; on the right nothing is said. -/
def stand : List Child :=
  [screwedOn "left".toList (some ⟨some "bracket".toList, [], none, none⟩) (some ⟨true, false⟩),
    screwedOn "right".toList none none]

end PartCAD.Checks
