import PartCAD.Lib.Dict
import PartCAD.Lib.Repr
import PartCAD.Lib.Tally
import PartCAD.Package.Paths

/-!
# Bills of materials

Three walks over the tree of an assembly: `getBom` counts the parts by their full names,
`getBomGrouped` keeps parts, assemblies and software apart and groups each by package, and
`getBomDetailed` has one line for each full name.  The last two merge the tables of the
sub-assemblies, whose entries are changed in place.

* `getBomGrouped_tallies`, `getBomDetailed_tallies` : each walk makes the tally of what the tree
  mentions;
* `DuringGrouped.kept`, `DuringDetailed.kept` : the table of a sub-assembly stays as it was made to
  the end of the walk.
-/

namespace PartCAD.Assembly

open PartCAD.Lib PartCAD.Lib.Text PartCAD.Package

/-! ## The tree -/

/-- The references to software that an object ships with, none twice. -/
structure SoftwareRefs where
  refs : List Str
  nodup : refs.Nodup

def SoftwareRefs.none : SoftwareRefs := ⟨[], List.nodup_nil⟩

def SoftwareRefs.add (resolved : SoftwareRefs) (normalized : Str) : SoftwareRefs where
  refs := if normalized ∈ resolved.refs then resolved.refs else resolved.refs ++ [normalized]
  nodup := by
    split
    · exact resolved.nodup
    · rename_i h
      refine List.nodup_append.2 ⟨resolved.nodup, by simp, fun a ha b hb => ?_⟩
      rintro rfl
      exact h (List.mem_singleton.1 hb ▸ ha)

/-- `declared_software_refs`, on the list under `software`; `none` where a reference climbs above
the root. -/
def declaredSoftwareRefs (projectName : Str) (software : List Str) : Option SoftwareRefs :=
  (software.filter fun ref => strip ref ≠ []).foldlM
    (fun resolved ref => (normalizeResourcePath projectName (strip ref)).map resolved.add)
    SoftwareRefs.none

/-- What a part or an assembly is ordered by. -/
structure StoreData where
  vendor : Option Str
  sku : Option Str
  countPerSku : ℕ

/-- What the walks read of a part or an assembly. -/
structure Object where
  projectName : Str
  name : Str
  desc : Option Str
  storeData : StoreData
  /-- `resolved_software_refs` of its final configuration -/
  software : SoftwareRefs

/-- A child of an assembly.  An assembly is embedded when its configuration has `child` set. -/
inductive Item where
  | part (object : Object)
  | assembly (object : Object) (embedded : Bool) (children : List Item)

structure Software where
  projectName : Str
  name : Str
  desc : Str
  type : Str
  version : Option Str
  fileHash : Option Str

/-- A package, by the commit that it was read at. -/
structure Project where
  revision : Option Str

def fullName (projectName name : Str) : Str := projectName ++ ':' :: name

/-- The software that references lead to: what a reference finds is found under its full name. -/
structure SoftwareIndex where
  lookup : Str → Option (Project × Software)
  lookup_fullName : ∀ {ref project software}, lookup ref = some (project, software) →
    lookup (fullName software.projectName software.name) = some (project, software)

/-- `_software_of` -/
def softwareOf (ctx : SoftwareIndex) (item : Object) : List (Str × Project × Software) :=
  item.software.refs.filterMap fun ref => (ctx.lookup ref).map (ref, ·)

def Object.fullName (item : Object) : Str := PartCAD.Assembly.fullName item.projectName item.name

/-- `desc or None` -/
def orNone (desc : Str) : Option Str := if desc = [] then none else some desc

/-! ## The flat count -/

def accountFor (bom : Dict Str ℕ) (name : Str) (count : ℕ) : Dict Str ℕ :=
  match bom.get? name with
  | some n => bom.set name (n + count)
  | none => bom.set name count

mutual
/-- What the loop of `_get_bom_real` does with a child. -/
def bomChild : Item → Dict Str ℕ → Dict Str ℕ
  | .part item, bom => accountFor bom item.fullName 1
  | .assembly _ _ children, bom =>
    (bomChildren children Dict.empty).items.foldl (fun bom p => accountFor bom p.1 p.2) bom
def bomChildren : List Item → Dict Str ℕ → Dict Str ℕ
  | [], bom => bom
  | child :: rest, bom => bomChildren rest (bomChild child bom)
end

def getBom (children : List Item) : Dict Str ℕ := bomChildren children Dict.empty

/-! ## The grouped bill of materials -/

inductive Section where
  | parts
  | assemblies
  | software
  deriving DecidableEq

/-- What identifies the file of a line of software. -/
structure Pinned where
  revision : Option Str
  version : Option Str
  fileHash : Option Str

/-- An entry of a section, without its count. -/
structure GroupedLine where
  desc : Option Str
  pinned : Option Pinned

/-- In each section, the packages, and in each package, the addresses of the entries by name. -/
abbrev Grouped := Section → Dict Str (Dict Str ℕ)

def Grouped.empty : Grouped := fun _ => Dict.empty

/-- `grouped[kind].setdefault(package, {})[name]` -/
def Grouped.insert (grouped : Grouped) (kind : Section) (package name : Str) (a : ℕ) : Grouped :=
  fun k =>
    if k = kind then
      (grouped k).set package ((((grouped k).get? package).getD Dict.empty).set name a)
    else grouped k

def groupedTable : Table Grouped (Section × Str × Str) where
  get grouped k := ((grouped k.1).get? k.2.1).bind fun entries => entries.get? k.2.2
  insert grouped k a := grouped.insert k.1 k.2.1 k.2.2 a
  get_insert := by
    rintro grouped ⟨kind, package, name⟩ a ⟨kind', package', name'⟩
    by_cases hk : kind' = kind
    · subst hk
      by_cases hp : package = package'
      · subst hp
        by_cases hn : name = name'
        · subst hn
          simp [Grouped.insert]
        · cases h : (grouped kind').get? package <;>
            simp [Grouped.insert, h, Dict.get?_set_of_ne _ _ hn, hn]
      · simp [Grouped.insert, Dict.get?_set_of_ne _ _ hp, hp]
    · simp [Grouped.insert, hk, Ne.symm hk]

def bomGroupedAdd (kind : Section) (item : Object) :
    Grouped × Heap GroupedLine → Grouped × Heap GroupedLine :=
  account groupedTable (kind, item.projectName, item.name) ⟨item.desc, none⟩

/-- The key and the entry of a line of software. -/
def groupedSoftware (s : Str × Project × Software) : (Section × Str × Str) × GroupedLine :=
  ((.software, s.2.2.projectName, s.2.2.name),
    ⟨orNone s.2.2.desc, some ⟨s.2.1.revision, s.2.2.version, s.2.2.fileHash⟩⟩)

def bomGroupedAddSoftware (ctx : SoftwareIndex) (item : Object)
    (st : Grouped × Heap GroupedLine) : Grouped × Heap GroupedLine :=
  (softwareOf ctx item).foldl
    (fun st s => account groupedTable (groupedSoftware s).1 (groupedSoftware s).2 st) st

/-- The entries of a grouped bill of materials, section by section and package by package. -/
def groupedItems (other : Grouped) : List ((Section × Str × Str) × ℕ) :=
  [Section.parts, .assemblies, .software].flatMap fun kind =>
    (other kind).items.flatMap fun package =>
      package.2.items.map fun entry => ((kind, package.1, entry.1), entry.2)

def bomGroupedMerge (other : Grouped) (st : Grouped × Heap GroupedLine) :
    Grouped × Heap GroupedLine :=
  (groupedItems other).foldl (mergeEntry groupedTable) st

section

variable (ctx : SoftwareIndex)

mutual
/-- What the loop of `_get_bom_grouped_real` does with a child. -/
def groupedChild : Item → Grouped × Heap GroupedLine → Grouped × Heap GroupedLine
  | .part item, st => bomGroupedAddSoftware ctx item (bomGroupedAdd .parts item st)
  | .assembly item embedded children, st =>
    let st := if embedded then st else bomGroupedAdd .assemblies item st
    let other := groupedChildren children (bomGroupedAddSoftware ctx item (Grouped.empty, st.2))
    bomGroupedMerge other.1 (st.1, other.2)
def groupedChildren : List Item → Grouped × Heap GroupedLine → Grouped × Heap GroupedLine
  | [], st => st
  | child :: rest, st => groupedChildren rest (groupedChild child st)
end

def getBomGrouped (self : Object) (children : List Item) (h : Heap GroupedLine) :
    Grouped × Heap GroupedLine :=
  groupedChildren ctx children (bomGroupedAddSoftware ctx self (Grouped.empty, h))

end

/-! ## The detailed bill of materials -/

inductive Kind where
  | part
  | assembly
  | software
  deriving DecidableEq

/-- What only a line of software carries. -/
structure SoftwareFile where
  package : Str
  revision : Option Str
  type : Str
  version : Option Str
  fileHash : Option Str

/-- A line, without its count. -/
structure Line where
  kind : Kind
  desc : Option Str
  vendor : Option Str
  sku : Option Str
  countPerSku : ℕ
  file : Option SoftwareFile

/-- The addresses of the lines by full name. -/
def detailedTable : Table (Dict Str ℕ) Str where
  get bom name := bom.get? name
  insert bom name a := bom.set name a
  get_insert bom name a name' := Dict.get?_set bom name name' a

/-- The line of a part or an assembly. -/
def lineOf (kind : Kind) (item : Object) : Line :=
  ⟨kind, item.desc, item.storeData.vendor, item.storeData.sku, item.storeData.countPerSku, none⟩

def bomDetailedAdd (kind : Kind) (item : Object) :
    Dict Str ℕ × Heap Line → Dict Str ℕ × Heap Line :=
  account detailedTable item.fullName (lineOf kind item)

/-- The key and the line of software: the key is the reference. -/
def detailedSoftware (s : Str × Project × Software) : Str × Line :=
  (s.1, ⟨.software, orNone s.2.2.desc, none, none, 1,
    some ⟨s.2.2.projectName, s.2.1.revision, s.2.2.type, s.2.2.version, s.2.2.fileHash⟩⟩)

def bomDetailedAddSoftware (ctx : SoftwareIndex) (item : Object)
    (st : Dict Str ℕ × Heap Line) : Dict Str ℕ × Heap Line :=
  (softwareOf ctx item).foldl
    (fun st s => account detailedTable (detailedSoftware s).1 (detailedSoftware s).2 st) st

def bomDetailedMerge (other : Dict Str ℕ) (st : Dict Str ℕ × Heap Line) :
    Dict Str ℕ × Heap Line :=
  other.items.foldl (mergeEntry detailedTable) st

section

variable (ctx : SoftwareIndex) (bought : Object → Bool → Bool)

mutual
/-- What the loop of `_get_bom_detailed_real` does with a child.  `bought` says which sub-assemblies
are bought whole: none without `stop_at_purchasable`. -/
def detailedChild : Item → Dict Str ℕ × Heap Line → Dict Str ℕ × Heap Line
  | .part item, st => bomDetailedAddSoftware ctx item (bomDetailedAdd .part item st)
  | .assembly item embedded children, st =>
    if bought item embedded then bomDetailedAdd .assembly item st
    else
      let other :=
        detailedChildren children (bomDetailedAddSoftware ctx item (Dict.empty, st.2))
      bomDetailedMerge other.1 (st.1, other.2)
def detailedChildren : List Item → Dict Str ℕ × Heap Line → Dict Str ℕ × Heap Line
  | [], st => st
  | child :: rest, st => detailedChildren rest (detailedChild child st)
end

def getBomDetailed (self : Object) (children : List Item) (h : Heap Line) :
    Dict Str ℕ × Heap Line :=
  detailedChildren ctx bought children (bomDetailedAddSoftware ctx self (Dict.empty, h))

end

/-! ## What the tree mentions -/

/-- Induction on the children of an assembly, and on theirs. -/
@[elab_as_elim]
theorem children_induction {motive : List Item → Prop} (nil : motive [])
    (part : ∀ item rest, motive rest → motive (.part item :: rest))
    (assembly : ∀ item embedded children rest, motive children → motive rest →
      motive (.assembly item embedded children :: rest)) : ∀ items, motive items
  | [] => nil
  | .part item :: rest => part item rest (children_induction nil part assembly rest)
  | .assembly item embedded children :: rest =>
    assembly item embedded children rest (children_induction nil part assembly children)
      (children_induction nil part assembly rest)

section

variable (ctx : SoftwareIndex) (bought : Object → Bool → Bool)

/-- The mention of an object in a section. -/
def groupedMention (kind : Section) (item : Object) : (Section × Str × Str) × GroupedLine :=
  ((kind, item.projectName, item.name), ⟨item.desc, none⟩)

mutual
/-- What the grouped walk counts, in its order. -/
def groupedMentionsOf : Item → List ((Section × Str × Str) × GroupedLine)
  | .part item => groupedMention .parts item :: (softwareOf ctx item).map groupedSoftware
  | .assembly item embedded children =>
    (if embedded then [] else [groupedMention .assemblies item]) ++
      ((softwareOf ctx item).map groupedSoftware ++ groupedMentions children)
def groupedMentions : List Item → List ((Section × Str × Str) × GroupedLine)
  | [] => []
  | child :: rest => groupedMentionsOf child ++ groupedMentions rest
end

mutual
/-- What the detailed walk counts, in its order. -/
def detailedMentionsOf : Item → List (Str × Line)
  | .part item => (item.fullName, lineOf .part item) :: (softwareOf ctx item).map detailedSoftware
  | .assembly item embedded children =>
    if bought item embedded then [(item.fullName, lineOf .assembly item)]
    else (softwareOf ctx item).map detailedSoftware ++ detailedMentions children
def detailedMentions : List Item → List (Str × Line)
  | [] => []
  | child :: rest => detailedMentionsOf child ++ detailedMentions rest
end

end

section

variable (ctx : SoftwareIndex) (bought : Object → Bool → Bool)

theorem mem_groupedItems {other : Grouped} {k : Section × Str × Str} {a : ℕ} :
    groupedTable.get other k = some a ↔ (k, a) ∈ groupedItems other := by
  obtain ⟨kind, package, name⟩ := k
  have hkind : kind ∈ [Section.parts, .assemblies, .software] := by cases kind <;> simp
  constructor
  · intro h
    obtain ⟨entries, hentries, hname⟩ := Option.bind_eq_some_iff.1 h
    refine List.mem_flatMap.2 ⟨kind, hkind, List.mem_flatMap.2 ⟨(package, entries), ?_, ?_⟩⟩
    · exact Dict.get?_eq_some.1 hentries
    · exact List.mem_map.2 ⟨(name, a), Dict.get?_eq_some.1 hname, rfl⟩
  · intro h
    obtain ⟨kind', _, h⟩ := List.mem_flatMap.1 h
    obtain ⟨p, hp, h⟩ := List.mem_flatMap.1 h
    obtain ⟨entry, hentry, heq⟩ := List.mem_map.1 h
    cases heq
    exact Option.bind_eq_some_iff.2 ⟨p.2, Dict.get?_eq_some.2 hp, Dict.get?_eq_some.2 hentry⟩

theorem nodup_groupedItems (other : Grouped) : ((groupedItems other).map Prod.fst).Nodup := by
  have hinner : ∀ kind : Section, (((other kind).items.flatMap fun package =>
      package.2.items.map fun entry => ((kind, package.1, entry.1), entry.2)).map
        Prod.fst).Nodup := by
    intro kind
    rw [List.map_flatMap, List.nodup_flatMap]
    refine ⟨?_, ?_⟩
    · intro package _
      have hnames := package.2.nodup
      rw [List.map_map]
      have hfst : (Prod.fst ∘ fun entry : Str × ℕ => ((kind, package.1, entry.1), entry.2)) =
          (fun name => (kind, package.1, name)) ∘ Prod.fst := rfl
      rw [hfst, ← List.map_map]
      exact hnames.map fun a b hab => by simpa using hab
    · have hpackages := (other kind).nodup
      refine (List.Pairwise.of_map Prod.fst (fun p q hne => hne) hpackages).imp ?_
      intro p q hne k hp hq
      simp only [List.map_map, List.mem_map, Function.comp] at hp hq
      obtain ⟨_, _, rfl⟩ := hp
      obtain ⟨_, _, heq⟩ := hq
      simp only [Prod.mk.injEq, true_and] at heq
      exact hne heq.1.symm
  unfold groupedItems
  rw [List.map_flatMap, List.nodup_flatMap]
  refine ⟨fun kind _ => hinner kind, ?_⟩
  have hne : [Section.parts, .assemblies, .software].Pairwise (· ≠ ·) := by decide
  refine hne.imp ?_
  intro kind kind' hne k hk hk'
  simp only [List.map_flatMap, List.map_map, List.mem_flatMap, List.mem_map,
    Function.comp] at hk hk'
  obtain ⟨_, _, _, _, rfl⟩ := hk
  obtain ⟨_, _, _, _, heq⟩ := hk'
  exact hne (congrArg Prod.fst heq).symm

theorem owns_groupedEmpty (h : Heap GroupedLine) : Owns groupedTable (Grouped.empty, h) :=
  Owns.of_empty (fun _ => rfl) h

theorem owns_detailedEmpty (h : Heap Line) : Owns detailedTable (Dict.empty, h) :=
  Owns.of_empty (fun _ => rfl) h

/-! ## The walks count what the tree mentions -/

theorem groupedChildren_tallies (items : List Item) {st : Grouped × Heap GroupedLine}
    (hown : Owns groupedTable st) :
    Tallies groupedTable st (groupedMentions ctx items) (groupedChildren ctx items st) := by
  induction items using children_induction generalizing st with
  | nil =>
    rw [groupedMentions, groupedChildren]
    exact Tallies.refl hown
  | part item rest ih =>
    rw [groupedMentions, groupedMentionsOf, groupedChildren, groupedChild]
    have hpart := account_tallies hown (groupedMention .parts item).1
      (groupedMention .parts item).2
    have hsoftware := foldl_account_tallies groupedSoftware (softwareOf ctx item) hpart.owns
    exact (hpart.trans hsoftware).trans (ih hsoftware.owns)
  | assembly item embedded children rest ihc ih =>
    rw [groupedMentions, groupedMentionsOf, groupedChildren, groupedChild]
    -- the assembly itself
    have hself : Tallies groupedTable st
        (if embedded then [] else [groupedMention .assemblies item])
        (if embedded then st else bomGroupedAdd .assemblies item st) := by
      cases embedded with
      | true => exact Tallies.refl hown
      | false => exact account_tallies hown _ _
    -- its table, and the merge of it
    have hsoftware := foldl_account_tallies groupedSoftware (softwareOf ctx item)
      (owns_groupedEmpty (if embedded then st else bomGroupedAdd .assemblies item st).2)
    have hother := hsoftware.trans (ihc hsoftware.owns)
    have hmerge := Tallies.merge hself.owns (fun k => rfl) hother (nodup_groupedItems _)
      (fun k a => mem_groupedItems)
    exact (hself.trans hmerge).trans (ih hmerge.owns)

theorem detailedChildren_tallies (items : List Item) {st : Dict Str ℕ × Heap Line}
    (hown : Owns detailedTable st) :
    Tallies detailedTable st (detailedMentions ctx bought items)
      (detailedChildren ctx bought items st) := by
  induction items using children_induction generalizing st with
  | nil =>
    rw [detailedMentions, detailedChildren]
    exact Tallies.refl hown
  | part item rest ih =>
    rw [detailedMentions, detailedMentionsOf, detailedChildren, detailedChild]
    have hpart := account_tallies hown item.fullName (lineOf .part item)
    have hsoftware := foldl_account_tallies detailedSoftware (softwareOf ctx item) hpart.owns
    exact (hpart.trans hsoftware).trans (ih hsoftware.owns)
  | assembly item embedded children rest ihc ih =>
    rw [detailedMentions, detailedMentionsOf, detailedChildren, detailedChild]
    by_cases hbought : bought item embedded = true
    · rw [if_pos hbought, if_pos hbought]
      have hself := account_tallies hown item.fullName (lineOf .assembly item)
      exact hself.trans (ih hself.owns)
    · rw [if_neg hbought, if_neg hbought]
      have hsoftware := foldl_account_tallies detailedSoftware (softwareOf ctx item)
        (owns_detailedEmpty st.2)
      have hother := hsoftware.trans (ihc hsoftware.owns)
      have hmerge := Tallies.merge hown (fun k => rfl) hother (Dict.nodup _)
        (fun k a => Dict.get?_eq_some)
      exact hmerge.trans (ih hmerge.owns)

theorem getBomGrouped_tallies (self : Object) (children : List Item) (h : Heap GroupedLine) :
    Tallies groupedTable (Grouped.empty, h)
      ((softwareOf ctx self).map groupedSoftware ++ groupedMentions ctx children)
      (getBomGrouped ctx self children h) := by
  have hself := foldl_account_tallies groupedSoftware (softwareOf ctx self)
    (owns_groupedEmpty h)
  exact hself.trans (groupedChildren_tallies ctx children hself.owns)

theorem getBomDetailed_tallies (self : Object) (children : List Item) (h : Heap Line) :
    Tallies detailedTable (Dict.empty, h)
      ((softwareOf ctx self).map detailedSoftware ++ detailedMentions ctx bought children)
      (getBomDetailed ctx bought self children h) := by
  have hself := foldl_account_tallies detailedSoftware (softwareOf ctx self)
    (owns_detailedEmpty h)
  exact hself.trans (detailedChildren_tallies ctx bought children hself.owns)

/-! ## The tables of the sub-assemblies -/

theorem groupedChildren_append (before after : List Item) (st : Grouped × Heap GroupedLine) :
    groupedChildren ctx (before ++ after) st =
      groupedChildren ctx after (groupedChildren ctx before st) := by
  induction before generalizing st with
  | nil => rw [List.nil_append, groupedChildren]
  | cons child before ih => rw [List.cons_append, groupedChildren, groupedChildren, ih]

theorem detailedChildren_append (before after : List Item) (st : Dict Str ℕ × Heap Line) :
    detailedChildren ctx bought (before ++ after) st =
      detailedChildren ctx bought after (detailedChildren ctx bought before st) := by
  induction before generalizing st with
  | nil => rw [List.nil_append, detailedChildren]
  | cons child before ih => rw [List.cons_append, detailedChildren, detailedChildren, ih]

/-- What the grouped walk has made when it comes to a sub-assembly. -/
def groupedUpTo (self : Object) (before : List Item) (item : Object) (embedded : Bool)
    (h : Heap GroupedLine) : Grouped × Heap GroupedLine :=
  let st := groupedChildren ctx before (bomGroupedAddSoftware ctx self (Grouped.empty, h))
  if embedded then st else bomGroupedAdd .assemblies item st

/-- In the grouped walk of an assembly, the table of a sub-assembly of any depth was made: the
table, and the entries there were then. -/
inductive DuringGrouped : Object → List Item → Heap GroupedLine → Grouped × Heap GroupedLine → Prop
  | child (self : Object) (before : List Item) (item : Object) (embedded : Bool)
      (children after : List Item) (h : Heap GroupedLine) :
      DuringGrouped self (before ++ .assembly item embedded children :: after) h
        (getBomGrouped ctx item children (groupedUpTo ctx self before item embedded h).2)
  | deeper {self : Object} {before : List Item} {item : Object} {embedded : Bool}
      {children after : List Item} {h : Heap GroupedLine} {st : Grouped × Heap GroupedLine} :
      DuringGrouped item children (groupedUpTo ctx self before item embedded h).2 st →
        DuringGrouped self (before ++ .assembly item embedded children :: after) h st

/-- What the detailed walk has made when it comes to a sub-assembly. -/
def detailedUpTo (self : Object) (before : List Item) (h : Heap Line) :
    Dict Str ℕ × Heap Line :=
  detailedChildren ctx bought before (bomDetailedAddSoftware ctx self (Dict.empty, h))

/-- The same in the detailed walk, which makes no table of an assembly that is bought whole. -/
inductive DuringDetailed : Object → List Item → Heap Line → Dict Str ℕ × Heap Line → Prop
  | child (self : Object) (before : List Item) (item : Object) (embedded : Bool)
      (children after : List Item) (h : Heap Line) (hbought : bought item embedded = false) :
      DuringDetailed self (before ++ .assembly item embedded children :: after) h
        (getBomDetailed ctx bought item children (detailedUpTo ctx bought self before h).2)
  | deeper {self : Object} {before : List Item} {item : Object} {embedded : Bool}
      {children after : List Item} {h : Heap Line} {st : Dict Str ℕ × Heap Line}
      (hbought : bought item embedded = false) :
      DuringDetailed item children (detailedUpTo ctx bought self before h).2 st →
        DuringDetailed self (before ++ .assembly item embedded children :: after) h st

theorem groupedUpTo_extends (self : Object) (before : List Item) (item : Object) (embedded : Bool)
    (h : Heap GroupedLine) :
    Extends groupedTable (Grouped.empty, h) (groupedUpTo ctx self before item embedded h) := by
  have hself := foldl_account_tallies groupedSoftware (softwareOf ctx self) (owns_groupedEmpty h)
  have hbefore := hself.trans (groupedChildren_tallies ctx before hself.owns)
  unfold groupedUpTo
  cases embedded with
  | true => exact hbefore.toExtends
  | false => exact hbefore.toExtends.trans (account_tallies hbefore.owns _ _).toExtends

/-- What comes after a sub-assembly, on the table of the assembly. -/
theorem getBomGrouped_extends (self : Object) (before : List Item) (item : Object)
    (embedded : Bool) (children after : List Item) (h : Heap GroupedLine) :
    Extends groupedTable
      ((groupedUpTo ctx self before item embedded h).1,
        (getBomGrouped ctx item children (groupedUpTo ctx self before item embedded h).2).2)
      (getBomGrouped ctx self (before ++ .assembly item embedded children :: after) h) := by
  have hupto := groupedUpTo_extends ctx self before item embedded h
  have hother := getBomGrouped_tallies ctx item children
    (groupedUpTo ctx self before item embedded h).2
  obtain ⟨hmerge, -⟩ := Extends.merge hupto.owns (fun k => rfl) hother.toExtends
    (fun k a => mem_groupedItems)
  have hafter := hmerge.trans (groupedChildren_tallies ctx after hmerge.owns).toExtends
  have hrun : getBomGrouped ctx self (before ++ .assembly item embedded children :: after) h =
      groupedChildren ctx after (bomGroupedMerge
        (getBomGrouped ctx item children (groupedUpTo ctx self before item embedded h).2).1
        ((groupedUpTo ctx self before item embedded h).1,
          (getBomGrouped ctx item children
            (groupedUpTo ctx self before item embedded h).2).2)) := by
    rw [getBomGrouped, groupedChildren_append, groupedChildren, groupedChild]
    rfl
  rw [hrun]
  exact hafter

variable {ctx} in
theorem DuringGrouped.kept {self : Object} {children : List Item} {h : Heap GroupedLine}
    {st : Grouped × Heap GroupedLine} (hst : DuringGrouped ctx self children h st) :
    Kept groupedTable h.length st (getBomGrouped ctx self children h).2 := by
  induction hst with
  | child self before item embedded children after h =>
    have hupto := groupedUpTo_extends ctx self before item embedded h
    have hother := getBomGrouped_tallies ctx item children
      (groupedUpTo ctx self before item embedded h).2
    exact (Kept.of_extends hupto.owns (fun k => rfl) hother.toExtends
      (getBomGrouped_extends ctx self before item embedded children after h)).mono hupto.grows
  | @deeper self before item embedded children after h st _ ih =>
    have hupto := groupedUpTo_extends ctx self before item embedded h
    exact Kept.trans hupto.owns hupto.grows ih
      (getBomGrouped_extends ctx self before item embedded children after h)

theorem detailedUpTo_extends (self : Object) (before : List Item) (h : Heap Line) :
    Extends detailedTable (Dict.empty, h) (detailedUpTo ctx bought self before h) := by
  have hself := foldl_account_tallies detailedSoftware (softwareOf ctx self)
    (owns_detailedEmpty h)
  exact (hself.trans (detailedChildren_tallies ctx bought before hself.owns)).toExtends

theorem getBomDetailed_extends (self : Object) (before : List Item) {item : Object}
    {embedded : Bool} (children after : List Item) (h : Heap Line)
    (hbought : bought item embedded = false) :
    Extends detailedTable
      ((detailedUpTo ctx bought self before h).1,
        (getBomDetailed ctx bought item children (detailedUpTo ctx bought self before h).2).2)
      (getBomDetailed ctx bought self (before ++ .assembly item embedded children :: after) h) := by
  have hupto := detailedUpTo_extends ctx bought self before h
  have hother := getBomDetailed_tallies ctx bought item children
    (detailedUpTo ctx bought self before h).2
  obtain ⟨hmerge, -⟩ := Extends.merge hupto.owns (fun k => rfl) hother.toExtends
    (fun k a => Dict.get?_eq_some)
  have hafter := hmerge.trans
    (detailedChildren_tallies ctx bought after hmerge.owns).toExtends
  have hrun :
      getBomDetailed ctx bought self (before ++ .assembly item embedded children :: after) h =
        detailedChildren ctx bought after (bomDetailedMerge
          (getBomDetailed ctx bought item children (detailedUpTo ctx bought self before h).2).1
          ((detailedUpTo ctx bought self before h).1,
            (getBomDetailed ctx bought item children
              (detailedUpTo ctx bought self before h).2).2)) := by
    rw [getBomDetailed, detailedChildren_append, detailedChildren, detailedChild, hbought]
    rfl
  rw [hrun]
  exact hafter

variable {ctx bought} in
theorem DuringDetailed.kept {self : Object} {children : List Item} {h : Heap Line}
    {st : Dict Str ℕ × Heap Line} (hst : DuringDetailed ctx bought self children h st) :
    Kept detailedTable h.length st (getBomDetailed ctx bought self children h).2 := by
  induction hst with
  | child self before item embedded children after h hbought =>
    have hupto := detailedUpTo_extends ctx bought self before h
    have hother := getBomDetailed_tallies ctx bought item children
      (detailedUpTo ctx bought self before h).2
    exact (Kept.of_extends hupto.owns (fun k => rfl) hother.toExtends
      (getBomDetailed_extends ctx bought self before children after h hbought)).mono hupto.grows
  | @deeper self before item embedded children after h st hbought _ ih =>
    have hupto := detailedUpTo_extends ctx bought self before h
    exact Kept.trans hupto.owns hupto.grows ih
      (getBomDetailed_extends ctx bought self before children after h hbought)

end

end PartCAD.Assembly
