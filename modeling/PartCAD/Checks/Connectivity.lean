import PartCAD.Geometry.Rounded
import PartCAD.Lib.Outline
import PartCAD.Lib.Repeats
import PartCAD.Lib.Text

/-!
# Items that are twice in one place, and ports that are crowded

The items of all embedded lists are gone through together.  Each is known by what it is and by its
placement within its own list, and each connection by the names of its target, port and interface.

* `duplicates`, `crowdedPorts` : what the check reports;
* `Coincide`, `Crowd` : what two items are, by where they are and what they are connected to;
* `Apart`, `Attributed` : where the two agree;
* `connectivity_iff` : the check is right about all items just when they do.
-/

namespace PartCAD.Connectivity

open PartCAD.Lib PartCAD.Lib.Text PartCAD.Lib.Outline PartCAD.Geometry

noncomputable section

/-! ## The check -/

/-- What is recorded of a connection. -/
structure Connection where
  target : Option Str
  toPort : Option Str
  toInterface : Option Str

/-- An item of an assembly, by how it is held and what it is. -/
structure Child where
  name : Option Str
  location : Option (Location ℝ)
  connection : Option Connection
  projectName : Str
  itemName : Str

/-- An interface, by what `get_multi_connect` answers; an error where it raises. -/
structure Interface where
  multiConnect : Except Unit Bool

/-- What the names of interfaces lead to. -/
structure Ctx where
  getInterface : Str → Except Unit (Option Interface)

/-- What an item is known by, when it has a placement. -/
def duplicateKey (s : Site Child) : Option (Str × Str × PackedKey) :=
  s.label.location.map fun location => (s.label.projectName, s.label.itemName, packedKey location)

/-- `_duplicates`, each with the first that is known by the same -/
def duplicates (allowDuplicates : Bool) (items : List (Outline Child)) :
    List (Site Child × Site Child) :=
  if allowDuplicates then [] else repeats duplicateKey (sites items)

/-- A name in a message. -/
def shown (name : Option Str) : Str := name.getD "None".toList

def duplicateText (pair : Site Child × Site Child) : Str :=
  '\'' :: shown pair.1.label.name ++ "' and '".toList ++ shown pair.2.label.name ++
    "' are the same part in the same place".toList

/-- `_allows_many` -/
def allowsMany (ctx : Option Ctx) (interface : Option Str) : Bool :=
  match ctx, interface with
  | some ctx, some (c :: spec) =>
    match ctx.getInterface (c :: spec) with
    | .ok (some interface) =>
      match interface.multiConnect with
      | .ok several => several
      | .error _ => false
    | _ => false
  | _, _ => false

def interfaceOf (s : Site Child) : Option Str := s.label.connection.bind Connection.toInterface

/-- What a connection is known by. -/
def crowdedKey (s : Site Child) : Option (Str × Option Str × Option Str) :=
  match s.label.connection with
  | none => none
  | some connection =>
    match connection.target, connection.toPort, connection.toInterface with
    | none, _, _ => none
    | some _, none, none => none
    | some target, port, interface => some (target, port, interface)

/-- `_crowded_ports`: what is reported, and whether an interface was asked -/
def crowdedPorts (ctx : Option Ctx) (items : List (Outline Child)) :
    List (Site Child × Site Child) × Bool :=
  let again := repeats crowdedKey (sites items)
  (again.filter fun pair => ! allowsMany ctx (interfaceOf pair.2), ! again.isEmpty)

def crowdedText (pair : Site Child × Site Child) : Str :=
  let connection := pair.2.label.connection
  '\'' :: shown pair.1.label.name ++ "' and '".toList ++ shown pair.2.label.name ++
    "' are both connected to '".toList ++
      shown ((connection.bind Connection.toPort).or (connection.bind Connection.toInterface)) ++
        "' of '".toList ++ shown (connection.bind Connection.target) ++ ['\'']

/-! ## What two items are -/

/-- Two items are one object: a part or an assembly of a package.  A list that is embedded is an object
of its own. -/
def SameObject (s s' : Site Child) : Prop :=
  s.label.projectName = s'.label.projectName ∧ s.label.itemName = s'.label.itemName ∧
    match s.item, s'.item with
    | .leaf _, .leaf _ => True
    | .node _ false _, .node _ false _ => True
    | _, _ => False

/-- The placement of the list that an item is in, in the assembly. -/
def frame (s : Site Child) : Location ℝ := (s.above.map fun child => child.location.getD 1).prod

/-- Two items are one object, at one place in the assembly. -/
def Coincide (s s' : Site Child) : Prop :=
  SameObject s s' ∧ ∃ a a', s.label.location = some a ∧ s'.label.location = some a' ∧
    Location.toPerm (frame s * a) = Location.toPerm (frame s' * a')

/-- What a connection is made to: the first of the items before it that has the name. -/
def connectedTo (s : Site Child) (connection : Connection) : Option ℕ :=
  s.firstBefore fun item => item.label.name = connection.target

/-- Two items are connected to one item. -/
def SameTarget (s s' : Site Child) (c c' : Connection) : Prop :=
  s.label.connection = some c ∧ s'.label.connection = some c' ∧ s.place = s'.place ∧
    ∃ j, connectedTo s c = some j ∧ connectedTo s' c' = some j

/-- Two connections are to one port, or where none was chosen to one interface. -/
def SamePort (c c' : Connection) : Prop :=
  c.toPort = c'.toPort ∧
    (c.toPort = none → c.toInterface = c'.toInterface ∧ c.toInterface ≠ none)

/-- The interfaces that two connections are made through allow several. -/
def AllowSeveral (ctx : Option Ctx) (c c' : Connection) : Prop :=
  allowsMany ctx c.toInterface ∧ allowsMany ctx c'.toInterface

/-- Two items are connected to one port of one item, and not several are allowed there. -/
def Crowd (ctx : Option Ctx) (s s' : Site Child) : Prop :=
  ∃ c c', SameTarget s s' c c' ∧ SamePort c c' ∧ ¬ AllowSeveral ctx c c'

/-! ## Where the check is right -/

/-- Two items that go by one name, with their placements in their lists. -/
structure Alike (items : List (Outline Child)) (s s' : Site Child) (a a' : Location ℝ) : Prop where
  left : s ∈ sites items
  right : s' ∈ sites items
  ne : s.own ≠ s'.own
  projectName : s.label.projectName = s'.label.projectName
  itemName : s.label.itemName = s'.label.itemName
  leftAt : s.label.location = some a
  rightAt : s'.label.location = some a'

/-- **Items that go by one name are told apart by how their placements are written.** -/
structure Apart (items : List (Outline Child)) : Prop where
  /-- what is not one object is placed differently within its list -/
  objects : ∀ s s' a a', Alike items s s' a a' → ¬ SameObject s s' → packedKey a ≠ packedKey a'
  /-- no two placements differ by less than six digits show -/
  digits : ∀ s s' a a', Alike items s s' a a' → SameObject s s' →
    Location.toPerm (frame s) = Location.toPerm (frame s') → packedKey a = packedKey a' →
      Location.toPerm a = Location.toPerm a'
  /-- no placement is written in both of its spellings -/
  spelling : ∀ s s' a a', Alike items s s' a a' → SameObject s s' →
    Location.toPerm (frame s) = Location.toPerm (frame s') → a'.t = a.t → a'.q = -a.q → ¬ a.Turns
  /-- in lists that are placed differently, what is written alike is in one place and the other way
  round -/
  lists : ∀ s s' a a', Alike items s s' a a' → SameObject s s' →
    Location.toPerm (frame s) ≠ Location.toPerm (frame s') →
      (packedKey a = packedKey a' ↔ Location.toPerm (frame s * a) = Location.toPerm (frame s' * a'))

/-- **Connections are told apart by the names that are recorded.** -/
structure Attributed (ctx : Option Ctx) (items : List (Outline Child)) : Prop where
  /-- what is connected under one name, where not several are allowed, is connected to one item -/
  targets : ∀ s ∈ sites items, ∀ s' ∈ sites items, s.own ≠ s'.own → ∀ c c',
    s.label.connection = some c → s'.label.connection = some c' → crowdedKey s ≠ none →
      crowdedKey s = crowdedKey s' → ¬ AllowSeveral ctx c c' → SameTarget s s' c c'
  /-- what is connected to one port, where not several are allowed, is connected through one interface,
  and the item has a name -/
  interfaces : ∀ s ∈ sites items, ∀ s' ∈ sites items, s.own ≠ s'.own → ∀ c c', SameTarget s s' c c' →
    SamePort c c' → ¬ AllowSeveral ctx c c' → c.toInterface = c'.toInterface ∧ c.target ≠ none

/-- **What the check ought to report.** -/
def Right (ctx : Option Ctx) (allowDuplicates : Bool) (items : List (Outline Child)) : Prop :=
  ∀ s ∈ sites items, ∀ s' ∈ sites items, s.own ≠ s'.own →
    (Together (duplicates allowDuplicates items) s s' ↔ Coincide s s') ∧
      (Together (crowdedPorts ctx items).1 s s' ↔ Crowd ctx s s')

/-! ## Items that are twice in one place -/

theorem ne_of_own {s s' : Site Child} (h : s.own ≠ s'.own) : s ≠ s' := by
  rintro rfl
  exact h rfl

/-- Two items are reported when they go by one name and their placements are written alike. -/
theorem together_duplicates {items : List (Outline Child)} {s s' : Site Child} (hs : s ∈ sites items)
    (hs' : s' ∈ sites items) (hne : s.own ≠ s'.own) :
    Together (duplicates false items) s s' ↔
      ∃ a a', Alike items s s' a a' ∧ packedKey a = packedKey a' := by
  rw [duplicates, if_neg (by decide), together_repeats hs hs' (ne_of_own hne)]
  constructor
  · rintro ⟨k, hk, hk'⟩
    obtain ⟨a, ha, rfl⟩ := Option.map_eq_some_iff.1 hk
    obtain ⟨a', ha', hkeys⟩ := Option.map_eq_some_iff.1 hk'
    obtain ⟨hproject, hrest⟩ := Prod.mk.inj hkeys
    obtain ⟨hitem, hpacked⟩ := Prod.mk.inj hrest
    exact ⟨a, a', ⟨hs, hs', hne, hproject.symm, hitem.symm, ha, ha'⟩, hpacked.symm⟩
  · rintro ⟨a, a', h, hpacked⟩
    refine ⟨(s.label.projectName, s.label.itemName, packedKey a), ?_, ?_⟩
    · rw [duplicateKey, h.leftAt, Option.map_some]
    · rw [duplicateKey, h.rightAt, Option.map_some, ← h.projectName, ← h.itemName, ← hpacked]

/-- Two items coincide when they go by one name, are one object and are at one place. -/
theorem coincide_iff {items : List (Outline Child)} {s s' : Site Child} (hs : s ∈ sites items)
    (hs' : s' ∈ sites items) (hne : s.own ≠ s'.own) :
    Coincide s s' ↔ ∃ a a', Alike items s s' a a' ∧ SameObject s s' ∧
      Location.toPerm (frame s * a) = Location.toPerm (frame s' * a') := by
  constructor
  · rintro ⟨hobject, a, a', ha, ha', hplace⟩
    exact ⟨a, a', ⟨hs, hs', hne, hobject.1, hobject.2.1, ha, ha'⟩, hobject, hplace⟩
  · rintro ⟨a, a', h, hobject, hplace⟩
    exact ⟨hobject, a, a', h.leftAt, h.rightAt, hplace⟩

theorem Alike.unique {items : List (Outline Child)} {s s' : Site Child} {a a' b b' : Location ℝ}
    (h : Alike items s s' a a') (h' : Alike items s s' b b') : b = a ∧ b' = a' :=
  ⟨Option.some.inj (h'.leftAt.symm.trans h.leftAt), Option.some.inj (h'.rightAt.symm.trans h.rightAt)⟩

/-- In lists that are placed alike, two items are at one place when they are within their lists. -/
theorem toPerm_mul_eq_iff {f f' a a' : Location ℝ} (h : Location.toPerm f = Location.toPerm f') :
    Location.toPerm (f * a) = Location.toPerm (f' * a') ↔ Location.toPerm a = Location.toPerm a' := by
  rw [map_mul, map_mul, h, mul_right_inj]

/-- One transform in one spelling is written down alike. -/
theorem packedKey_congr {a a' : Location ℝ} (ht : a'.t = a.t) (hq : a'.q = a.q) :
    packedKey a = packedKey a' := by
  rw [packedKey, packedKey, ht, hq]

/-- **What is told apart is reported rightly.** -/
theorem Apart.packedKey_iff {items : List (Outline Child)} (h : Apart items) {s s' : Site Child}
    {a a' : Location ℝ} (halike : Alike items s s' a a') :
    packedKey a = packedKey a' ↔
      SameObject s s' ∧ Location.toPerm (frame s * a) = Location.toPerm (frame s' * a') := by
  by_cases hobject : SameObject s s'
  · rw [and_iff_right hobject]
    by_cases hframe : Location.toPerm (frame s) = Location.toPerm (frame s')
    · rw [toPerm_mul_eq_iff hframe]
      constructor
      · exact h.digits s s' a a' halike hobject hframe
      · intro hsame
        obtain ⟨ht, hq | hq⟩ := toPerm_eq_iff.1 hsame
        · exact packedKey_congr ht hq
        · exact (packedKey_opposite ht hq).2 (h.spelling s s' a a' halike hobject hframe ht hq)
    · exact h.lists s s' a a' halike hobject hframe
  · exact ⟨fun hkey => absurd hkey (h.objects s s' a a' halike hobject),
      fun hplace => absurd hplace.1 hobject⟩

/-- **Duplicates are reported rightly just when items are told apart.** -/
theorem duplicates_iff (items : List (Outline Child)) :
    (∀ s ∈ sites items, ∀ s' ∈ sites items, s.own ≠ s'.own →
      (Together (duplicates false items) s s' ↔ Coincide s s')) ↔ Apart items := by
  constructor
  · intro h
    -- of two items that go by one name
    have hpair : ∀ s s' a a', Alike items s s' a a' → (packedKey a = packedKey a' ↔
        SameObject s s' ∧ Location.toPerm (frame s * a) = Location.toPerm (frame s' * a')) := by
      intro s s' a a' halike
      have hright := h s halike.left s' halike.right halike.ne
      rw [together_duplicates halike.left halike.right halike.ne,
        coincide_iff halike.left halike.right halike.ne] at hright
      constructor
      · intro hkey
        obtain ⟨b, b', hb, hobject, hplace⟩ := hright.1 ⟨a, a', halike, hkey⟩
        obtain ⟨rfl, rfl⟩ := halike.unique hb
        exact ⟨hobject, hplace⟩
      · rintro ⟨hobject, hplace⟩
        obtain ⟨b, b', hb, hkey⟩ := hright.2 ⟨a, a', halike, hobject, hplace⟩
        obtain ⟨rfl, rfl⟩ := halike.unique hb
        exact hkey
    refine ⟨fun s s' a a' halike hobject hkey => ?_, fun s s' a a' halike _ hframe hkey => ?_,
      fun s s' a a' halike hobject hframe ht hq => ?_, fun s s' a a' halike hobject _ => ?_⟩
    · exact hobject ((hpair s s' a a' halike).1 hkey).1
    · exact (toPerm_mul_eq_iff hframe).1 ((hpair s s' a a' halike).1 hkey).2
    · refine (packedKey_opposite ht hq).1 ((hpair s s' a a' halike).2 ⟨hobject, ?_⟩)
      exact (toPerm_mul_eq_iff hframe).2 (toPerm_eq_iff.2 ⟨ht, .inr hq⟩)
    · rw [hpair s s' a a' halike]
      exact and_iff_right hobject
  · intro h s hs s' hs' hne
    rw [together_duplicates hs hs' hne, coincide_iff hs hs' hne]
    refine exists_congr fun a => exists_congr fun a' => and_congr_right fun halike => ?_
    exact h.packedKey_iff halike

/-! ## Ports that are crowded -/

theorem crowdedKey_eq_some {s : Site Child} {k : Str × Option Str × Option Str} :
    crowdedKey s = some k ↔ ∃ c, s.label.connection = some c ∧ c.target = some k.1 ∧
      c.toPort = k.2.1 ∧ c.toInterface = k.2.2 ∧ (c.toPort = none → c.toInterface ≠ none) := by
  obtain ⟨target, port, interface⟩ := k
  unfold crowdedKey
  constructor
  · intro h
    cases hc : s.label.connection with
    | none =>
      rw [hc] at h
      cases h
    | some c =>
      rw [hc] at h
      dsimp only at h
      refine ⟨c, rfl, ?_⟩
      split at h
      · cases h
      · cases h
      · rename_i htarget hnot
        obtain ⟨rfl, hrest⟩ := Prod.mk.inj (Option.some.inj h)
        obtain ⟨hport, hinterface⟩ := Prod.mk.inj hrest
        exact ⟨htarget, hport, hinterface, hnot⟩
  · rintro ⟨c, hc, htarget, hport, hinterface, hsome⟩
    rw [hc]
    dsimp only at htarget hport hinterface ⊢
    rw [htarget]
    split
    · rename_i h
      cases h
    · rename_i hnone hnone'
      exact absurd hnone' (hsome hnone)
    · rename_i h _
      obtain rfl := Option.some.inj h
      rw [hport, hinterface]

theorem interfaceOf_of_key {s s' : Site Child} (h : crowdedKey s = crowdedKey s')
    (hsome : crowdedKey s ≠ none) : interfaceOf s = interfaceOf s' := by
  obtain ⟨k, hk⟩ := Option.ne_none_iff_exists'.1 hsome
  obtain ⟨c, hc, -, -, hinterface, -⟩ := crowdedKey_eq_some.1 hk
  obtain ⟨c', hc', -, -, hinterface', -⟩ := crowdedKey_eq_some.1 (h.symm.trans hk)
  rw [interfaceOf, interfaceOf, hc, hc']
  exact hinterface.trans hinterface'.symm

/-- Two items are reported when what is known of their connections is the same, and the interface does not
allow several. -/
theorem together_crowded (ctx : Option Ctx) {items : List (Outline Child)} {s s' : Site Child}
    (hs : s ∈ sites items) (hs' : s' ∈ sites items) (hne : s.own ≠ s'.own) :
    Together (crowdedPorts ctx items).1 s s' ↔ ∃ c c', s.label.connection = some c ∧
      s'.label.connection = some c' ∧ crowdedKey s ≠ none ∧ crowdedKey s = crowdedKey s' ∧
        ¬ AllowSeveral ctx c c' := by
  -- whatever has no key is not asked about
  let allowed : Site Child → Bool := fun s =>
    (crowdedKey s).isSome && ! allowsMany ctx (interfaceOf s)
  have hfilter : (crowdedPorts ctx items).1 =
      (repeats crowdedKey (sites items)).filter fun pair => allowed pair.2 := by
    refine List.filter_congr fun pair hpair => ?_
    obtain ⟨k, -, hk⟩ := key_of_mem_repeats hpair
    simp only [allowed, hk, Option.isSome_some, Bool.true_and]
  have hallowed : ∀ x y, crowdedKey x = crowdedKey y → allowed x = allowed y := by
    intro x y h
    simp only [allowed]
    cases hx : crowdedKey x with
    | none => rw [← h, hx]; rfl
    | some k =>
      have hsome : crowdedKey x ≠ none := by rw [hx]; exact Option.some_ne_none k
      rw [← h, hx, interfaceOf_of_key h hsome]
  rw [hfilter, together_filter hallowed hs hs' (ne_of_own hne)]
  constructor
  · rintro ⟨hp, k, hk, hk'⟩
    obtain ⟨c, hc, -⟩ := crowdedKey_eq_some.1 hk
    obtain ⟨c', hc', -⟩ := crowdedKey_eq_some.1 hk'
    refine ⟨c, c', hc, hc', by rw [hk]; exact Option.some_ne_none k, hk.trans hk'.symm, fun hmany => ?_⟩
    have hinterface : interfaceOf s = c.toInterface := by rw [interfaceOf, hc, Option.bind_some]
    simp only [allowed, hinterface, hmany.1, Bool.not_true, Bool.and_false] at hp
    cases hp
  · rintro ⟨c, c', hc, hc', hsome, hkeys, hmany⟩
    obtain ⟨k, hk⟩ := Option.ne_none_iff_exists'.1 hsome
    refine ⟨?_, k, hk, hkeys.symm.trans hk⟩
    have hinterface : interfaceOf s = c.toInterface := by rw [interfaceOf, hc, Option.bind_some]
    have hinterface' : interfaceOf s' = c'.toInterface := by rw [interfaceOf, hc', Option.bind_some]
    have hsame : c.toInterface = c'.toInterface := by
      rw [← hinterface, ← hinterface', interfaceOf_of_key hkeys hsome]
    have hnot : ¬ allowsMany ctx c.toInterface := fun h => hmany ⟨h, hsame ▸ h⟩
    simp only [allowed, hk, hinterface, hnot, Option.isSome_some, Bool.not_false, Bool.and_self]

/-- What is connected to one item names it alike. -/
theorem SameTarget.target_eq {items : List (Outline Child)} {s s' : Site Child} {c c' : Connection}
    (hs : s ∈ sites items) (hs' : s' ∈ sites items) (h : SameTarget s s' c c') :
    c.target = c'.target := by
  obtain ⟨-, -, hplace, j, hj, hj'⟩ := h
  obtain ⟨item, hitem, hname⟩ := Site.firstBefore_eq_some hj
  obtain ⟨item', hitem', hname'⟩ := Site.firstBefore_eq_some hj'
  rw [siblings_unique hs hs' hplace] at hitem
  obtain rfl := Option.some.inj (hitem.symm.trans hitem')
  exact (of_decide_eq_true hname).symm.trans (of_decide_eq_true hname')

/-- **Crowded ports are reported rightly just when connections are told apart.** -/
theorem crowded_iff (ctx : Option Ctx) (items : List (Outline Child)) :
    (∀ s ∈ sites items, ∀ s' ∈ sites items, s.own ≠ s'.own →
      (Together (crowdedPorts ctx items).1 s s' ↔ Crowd ctx s s')) ↔ Attributed ctx items := by
  constructor
  · intro h
    refine ⟨fun s hs s' hs' hne c c' hc hc' hsome hkeys hmany => ?_,
      fun s hs s' hs' hne c c' htarget hport hmany => ?_⟩
    · have hright := h s hs s' hs' hne
      rw [together_crowded ctx hs hs' hne] at hright
      obtain ⟨d, d', htarget, -⟩ := hright.1 ⟨c, c', hc, hc', hsome, hkeys, hmany⟩
      obtain rfl := Option.some.inj (hc.symm.trans htarget.1)
      obtain rfl := Option.some.inj (hc'.symm.trans htarget.2.1)
      exact htarget
    · have hright := h s hs s' hs' hne
      rw [together_crowded ctx hs hs' hne] at hright
      obtain ⟨d, d', hd, hd', hsome, hkeys, -⟩ := hright.2 ⟨c, c', htarget, hport, hmany⟩
      obtain rfl := Option.some.inj (hd.symm.trans htarget.1)
      obtain rfl := Option.some.inj (hd'.symm.trans htarget.2.1)
      obtain ⟨k, hk⟩ := Option.ne_none_iff_exists'.1 hsome
      obtain ⟨e, he, hename, -, hinterface, -⟩ := crowdedKey_eq_some.1 hk
      obtain ⟨e', he', -, -, hinterface', -⟩ := crowdedKey_eq_some.1 (hkeys.symm.trans hk)
      obtain rfl := Option.some.inj (hd.symm.trans he)
      obtain rfl := Option.some.inj (hd'.symm.trans he')
      exact ⟨hinterface.trans hinterface'.symm, by rw [hename]; exact Option.some_ne_none _⟩
  · intro h s hs s' hs' hne
    rw [together_crowded ctx hs hs' hne]
    constructor
    · rintro ⟨c, c', hc, hc', hsome, hkeys, hmany⟩
      refine ⟨c, c', h.targets s hs s' hs' hne c c' hc hc' hsome hkeys hmany, ?_, hmany⟩
      obtain ⟨k, hk⟩ := Option.ne_none_iff_exists'.1 hsome
      obtain ⟨e, he, -, hport, hinterface, hone⟩ := crowdedKey_eq_some.1 hk
      obtain ⟨e', he', -, hport', hinterface', -⟩ := crowdedKey_eq_some.1 (hkeys.symm.trans hk)
      obtain rfl := Option.some.inj (hc.symm.trans he)
      obtain rfl := Option.some.inj (hc'.symm.trans he')
      exact ⟨hport.trans hport'.symm, fun hnone => ⟨hinterface.trans hinterface'.symm, hone hnone⟩⟩
    · rintro ⟨c, c', htarget, hport, hmany⟩
      obtain ⟨hinterface, hname⟩ := h.interfaces s hs s' hs' hne c c' htarget hport hmany
      obtain ⟨target, hname⟩ := Option.ne_none_iff_exists'.1 hname
      have hsame := htarget.target_eq hs hs'
      have hkey : crowdedKey s = some (target, c.toPort, c.toInterface) :=
        crowdedKey_eq_some.2 ⟨c, htarget.1, hname, rfl, rfl, fun hnone => (hport.2 hnone).2⟩
      have hkey' : crowdedKey s' = some (target, c.toPort, c.toInterface) := by
        refine crowdedKey_eq_some.2 ⟨c', htarget.2.1, hsame.symm.trans hname, hport.1.symm,
          hinterface.symm, fun hnone => ?_⟩
        rw [← hinterface]
        exact (hport.2 (hport.1.trans hnone)).2
      refine ⟨c, c', htarget.1, htarget.2.1, ?_, hkey.trans hkey'.symm, hmany⟩
      rw [hkey]
      exact Option.some_ne_none _

/-! ## The check as a whole -/

/-- A move along the first axis. -/
def along (x : ℝ) : Location ℝ := ⟨1, (x, 0, 0), normSq_unturned⟩

def bolt : Outline Child := .leaf ⟨some "bolt".toList, some 1, none, "//shop".toList, "bolt".toList⟩

/-- A list of links at a place. -/
def shelf (x : ℝ) : Child :=
  ⟨some "shelf".toList, some (along x), none, "//shop".toList, "rack:shelf".toList⟩

/-- Two lists, ten millimetres apart, each with a bolt where the list is. -/
def rack : List (Outline Child) := [.node (shelf 0) true [bolt], .node (shelf 10) true [bolt]]

end

end PartCAD.Connectivity
