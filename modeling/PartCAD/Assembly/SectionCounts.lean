import PartCAD.Assembly.BomAgree
import PartCAD.Assembly.Guide
import PartCAD.Lib.Numerals

/-!
# How many of an assembly a build needs

`count_sections` tells every section of a guide how often its assembly has to be built, by looking
its names up in the grouped bill of materials.  That bill counts the tree of the top assembly, where
what is shared is expanded, and leaves out the assemblies that are embedded in files.

* `occurrences_add` : the bill has a declared assembly as often as it occurs in the tree;
* `countSections_spec` : which sections are told how often that is.
-/

namespace PartCAD.Guide

open PartCAD.Lib
open PartCAD.Assembly (Object SoftwareIndex Grouped GroupedLine groupedTable getBomGrouped
  subAssemblies occurrences)

namespace Assemblies

/-! ## The tree of an assembly -/

/-- What a bill of materials reads of the assemblies and of the parts among their children. -/
structure Catalogue (g : Assemblies) where
  object : Fin g.size → Object
  projectName_eq : ∀ a, (object a).projectName = (g.assembly a).projectName
  name_eq : ∀ a, (object a).name = (g.assembly a).name
  part : Fin g.size → ℕ → Object

variable {g : Assemblies}

theorem heldBy_of_mem {a b : Fin g.size} {child : Child g.size}
    (hchild : child ∈ (g.assembly a).children) (h : child.assembly? = some b) :
    HeldBy g.assembly b a :=
  List.mem_filterMap.2 ⟨child, hchild, h⟩

/-- The children of an assembly as the walks meet them: what is shared is walked at every place. -/
def items (c : Catalogue g) (a : Fin g.size) : List PartCAD.Assembly.Item :=
  (g.assembly a).children.zipIdx.attach.map fun p =>
    match _hchild : p.1.1.assembly? with
    | none => .part (c.part a p.1.2)
    | some b => .assembly (c.object b) (g.assembly b).embedded (items c b)
termination_by (wf_heldBy g).wrap a
decreasing_by
  exact heldBy_of_mem (List.mem_of_getElem? (List.mem_zipIdx_iff_getElem?.1 p.2)) _hchild

/-- How often an assembly occurs in the tree of another one, with what is shared expanded. -/
def times (a top : Fin g.size) : ℕ :=
  (if a = top then 1 else 0) +
    (((g.assembly top).children.filterMap Child.assembly?).attach.map fun b => times a b.1).sum
termination_by (wf_heldBy g).wrap top
decreasing_by exact b.2

theorem items_eq (c : Catalogue g) (a : Fin g.size) :
    items c a = (g.assembly a).children.zipIdx.map fun p =>
      match p.1.assembly? with
      | none => .part (c.part a p.2)
      | some b => .assembly (c.object b) (g.assembly b).embedded (items c b) := by
  rw [items]
  conv_rhs => rw [← List.attach_map_subtype_val (g.assembly a).children.zipIdx, List.map_map]
  refine List.map_congr_left fun p _ => ?_
  simp only [Function.comp_apply]
  split
  · rename_i hchild
    rw [hchild]
  · rename_i b hchild
    rw [hchild]

theorem times_eq (a top : Fin g.size) :
    times a top =
      (if a = top then 1 else 0) +
        (((g.assembly top).children.filterMap Child.assembly?).map (times a)).sum := by
  rw [times]
  conv_rhs =>
    rw [← List.attach_map_subtype_val ((g.assembly top).children.filterMap Child.assembly?),
      List.map_map]
  rfl

/-! ## Occurrences -/

/-- What only the assemblies among the children count for. -/
theorem sum_children {α β : Type} (f : α → Option β) (value : β → ℕ) (l : List α) :
    (l.map fun x => (f x).elim 0 value).sum = ((l.filterMap f).map value).sum := by
  induction l with
  | nil => rfl
  | cons x l ih =>
    rw [List.map_cons, List.sum_cons, ih]
    cases hx : f x with
    | none => rw [List.filterMap_cons_none hx, Option.elim_none, Nat.zero_add]
    | some y => rw [List.filterMap_cons_some hx, List.map_cons, List.sum_cons, Option.elim_some]

/-- An assembly occurs where it is held, directly or not. -/
theorem times_pos_iff {a top : Fin g.size} :
    0 < times a top ↔ Relation.ReflTransGen (HeldBy g.assembly) a top := by
  induction top using (wf_heldBy g).induction with
  | _ top ih =>
    rw [times_eq, Nat.add_pos_iff_pos_or_pos, List.sum_pos_iff_exists_pos_nat]
    constructor
    · rintro (hself | ⟨n, hn, hpos⟩)
      · split at hself
        · rename_i heq
          rw [heq]
        · exact absurd hself (Nat.lt_irrefl 0)
      · obtain ⟨b, hb, rfl⟩ := List.mem_map.1 hn
        exact ((ih b hb).1 hpos).tail hb
    · intro h
      rcases Relation.ReflTransGen.cases_tail h with heq | ⟨b, hab, hb⟩
      · exact Or.inl (by rw [if_pos heq.symm]; exact Nat.one_pos)
      · exact Or.inr ⟨times a b, List.mem_map_of_mem hb, (ih b hb).2 hab⟩

/-- An assembly occurs once in its own tree. -/
theorem times_self (a : Fin g.size) : times a a = 1 := by
  rw [times_eq, if_pos rfl, Nat.add_eq_left, List.sum_eq_zero_iff]
  intro n hn
  obtain ⟨b, hb, rfl⟩ := List.mem_map.1 hn
  by_contra hne
  exact g.acyclic a (Relation.TransGen.tail' (times_pos_iff.1 (Nat.pos_of_ne_zero hne)) hb)

variable (c : Catalogue g)

/-- A package has one assembly for a name. -/
theorem id_eq_iff {a b : Fin g.size} (ha : (g.assembly a).embedded = false)
    (hb : (g.assembly b).embedded = false) : (c.object b).id = (c.object a).id ↔ a = b := by
  rw [PartCAD.Assembly.Object.id, PartCAD.Assembly.Object.id, Prod.mk.injEq, c.projectName_eq,
    c.projectName_eq, c.name_eq, c.name_eq]
  constructor
  · rintro ⟨hproject, hname⟩
    exact g.declared a b ha hb hproject.symm hname.symm
  · rintro rfl
    exact ⟨rfl, rfl⟩

theorem subAssemblies_eq (children : List PartCAD.Assembly.Item) :
    subAssemblies children = children.flatMap PartCAD.Assembly.Item.subAssemblies := by
  induction children with
  | nil => rw [subAssemblies, List.flatMap_nil]
  | cons child rest ih => rw [subAssemblies, ih, List.flatMap_cons]

/-- The occurrences of a name below an assembly, child by child. -/
theorem occurrences_items (id : Str × Str) (top : Fin g.size) :
    occurrences id (subAssemblies (items c top)) =
      (((g.assembly top).children.filterMap Child.assembly?).map fun b =>
        (if (g.assembly b).embedded = false ∧ (c.object b).id = id then 1 else 0) +
          occurrences id (subAssemblies (items c b))).sum := by
  rw [← sum_children, items_eq, subAssemblies_eq, occurrences, List.countP_flatMap, List.map_map]
  conv_rhs => rw [← List.zipIdx_map_fst 0 (g.assembly top).children, List.map_map]
  congr 1
  refine List.map_congr_left fun p _ => ?_
  simp only [Function.comp_apply]
  cases hchild : p.1.assembly? with
  | none => rfl
  | some b =>
    rw [Option.elim_some, PartCAD.Assembly.Item.subAssemblies, List.countP_append]
    cases hembedded : (g.assembly b).embedded with
    | true => simp [occurrences]
    | false => simp [occurrences, List.countP_cons]

/-- **A bill has a declared assembly as often as it occurs in the tree**, but for the top itself. -/
theorem occurrences_add {a : Fin g.size} (ha : (g.assembly a).embedded = false)
    (top : Fin g.size) :
    (if a = top then 1 else 0) + occurrences (c.object a).id (subAssemblies (items c top)) =
      times a top := by
  induction top using (wf_heldBy g).induction with
  | _ top ih =>
    rw [occurrences_items, times_eq]
    congr 2
    refine List.map_congr_left fun b hb => ?_
    rw [← ih b hb]
    congr 1
    cases hembedded : (g.assembly b).embedded with
    | true =>
      have hne : a ≠ b := by
        rintro rfl
        rw [ha] at hembedded
        cases hembedded
      rw [if_neg (fun h => absurd h.1 (by simp)), if_neg hne]
    | false => simp only [true_and, id_eq_iff c ha hembedded]

/-! ## Counting the sections -/

/-- The count that a section is told: that of the entry with the names of its assembly, and the
default where there is none. -/
def countOf (st : Grouped × Heap GroupedLine) (object : Object) : ℕ :=
  match view groupedTable st (.assemblies, object.projectName, object.name) with
  | some entry => entry.count
  | none => 1

/-- `count_sections` -/
def countSections (st : Grouped × Heap GroupedLine) (sections : List (Section g.size)) :
    List (Section g.size × ℕ) :=
  sections.map fun s => (s, countOf st (c.object s.assembly))

variable (ctx : SoftwareIndex)

/-- A name is counted as often as the tree has it, and once where it does not. -/
theorem countOf_getBomGrouped (root : Object) (children : List PartCAD.Assembly.Item)
    (h : Heap GroupedLine) (object : Object) :
    countOf (getBomGrouped ctx root children h) object =
      max 1 (occurrences object.id (subAssemblies children)) := by
  have hcount := PartCAD.Assembly.groupedCount_assemblies ctx root children h object.id
  rw [PartCAD.Assembly.groupedCount] at hcount
  have htallies := PartCAD.Assembly.getBomGrouped_tallies ctx root children h
  unfold countOf
  change Tally.times (view groupedTable _ (.assemblies, object.projectName, object.name)) = _
    at hcount
  cases hview : view groupedTable (getBomGrouped ctx root children h)
      (.assemblies, object.projectName, object.name) with
  | none =>
    rw [hview] at hcount
    rw [← hcount]
    rfl
  | some entry =>
    have hmention := hview
    rw [htallies.view_eq, show view groupedTable (Grouped.empty, h) = Tally.empty from rfl,
      Tally.empty_merge] at hmention
    have hpos : 0 < Tally.times (some entry) := by
      rw [← hmention, Tally.times_of, List.countP_pos_iff]
      exact ⟨_, Tally.exists_of_eq_some hmention, decide_eq_true rfl⟩
    rw [hview] at hcount
    rw [← hcount]
    exact (max_eq_right hpos).symm

/-- A name that is counted is that of a declared assembly below the top one. -/
theorem exists_of_occurrences_pos {id : Str × Str} {top : Fin g.size}
    (h : 0 < occurrences id (subAssemblies (items c top))) :
    ∃ b, (g.assembly b).embedded = false ∧ (c.object b).id = id ∧
      Relation.TransGen (HeldBy g.assembly) b top := by
  induction top using (wf_heldBy g).induction with
  | _ top ih =>
    rw [occurrences_items, List.sum_pos_iff_exists_pos_nat] at h
    obtain ⟨n, hn, hpos⟩ := h
    obtain ⟨b, hb, rfl⟩ := List.mem_map.1 hn
    rcases Nat.add_pos_iff_pos_or_pos.1 hpos with hself | hinside
    · split at hself
      · rename_i hdeclared
        exact ⟨b, hdeclared.1, hdeclared.2, .single hb⟩
      · exact absurd hself (Nat.lt_irrefl 0)
    · obtain ⟨d, hdeclared, hid, hd⟩ := ih b hb hinside
      exact ⟨d, hdeclared, hid, hd.tail hb⟩

theorem heldBy_of_uses {a top : Fin g.size} (h : Relation.ReflTransGen g.Uses a top) :
    Relation.ReflTransGen (HeldBy g.assembly) a top := by
  induction h with
  | refl => exact .refl
  | tail _ huses ih => exact ih.trans huses.heldBy.to_reflTransGen

/-- What a declared assembly in the tree of the top one is counted. -/
theorem max_occurrences {a top : Fin g.size} (ha : (g.assembly a).embedded = false)
    (h : Relation.ReflTransGen (HeldBy g.assembly) a top) :
    max 1 (occurrences (c.object a).id (subAssemblies (items c top))) = times a top := by
  have hpos := times_pos_iff.2 h
  have hadd := occurrences_add c ha top
  by_cases htop : a = top
  · subst htop
    rw [if_pos rfl, times_self] at hadd
    rw [times_self]
    omega
  · rw [if_neg htop] at hadd
    omega

/-- **What the sections of a guide are told.**  Where a package declares the assembly, it is how
often it occurs in the tree of the top one.  An embedded assembly is counted once, unless an assembly
that a package declares goes by its names below the top one; then that one is counted. -/
theorem countSections_spec (top : Fin g.size) (h : Heap GroupedLine) :
    ∃ N, ∀ n, N ≤ n → ∃ sections, g.collectSections n top = some sections ∧
      ∀ s count,
        (s, count) ∈ countSections c (getBomGrouped ctx (c.object top) (items c top) h) sections →
          ((g.assembly s.assembly).embedded = false → count = times s.assembly top) ∧
          ((g.assembly s.assembly).embedded = true →
            (∀ b, (g.assembly b).embedded = false →
              (c.object b).id = (c.object s.assembly).id →
                Relation.TransGen (HeldBy g.assembly) b top → count = times b top) ∧
            ((¬ ∃ b, (g.assembly b).embedded = false ∧
              (c.object b).id = (c.object s.assembly).id ∧
                Relation.TransGen (HeldBy g.assembly) b top) → count = 1)) := by
  obtain ⟨N, hN⟩ := exists_inOrder g top
  refine ⟨N, fun n hn => ?_⟩
  obtain ⟨sections, hsections, hinOrder⟩ := hN n hn
  refine ⟨sections, hsections, fun s count hs => ?_⟩
  obtain ⟨s, hmem, heq⟩ := List.mem_map.1 hs
  obtain ⟨rfl, rfl⟩ := Prod.mk.inj heq
  have hreached := heldBy_of_uses ((hinOrder.used s.assembly).1 (List.mem_map_of_mem hmem))
  rw [countOf_getBomGrouped]
  refine ⟨fun hs => max_occurrences c hs hreached, fun _ =>
    ⟨fun b hb hid hheld => ?_, fun hnone => ?_⟩⟩
  · rw [← hid]
    exact max_occurrences c hb hheld.to_reflTransGen
  · rcases Nat.eq_zero_or_pos
        (occurrences (c.object s.assembly).id (subAssemblies (items c top))) with hzero | hpos
    · rw [hzero]
      rfl
    · exact absurd (exists_of_occurrences_pos c hpos) hnone

/-! ## A castle with two towers -/

/-- The castle, its tower, and a list of links in the file of the tower. -/
def castleAssembly : Fin 3 → Assembly 3
  | 0 =>
    ⟨false, "//keep".toList, "castle".toList, [⟨.assembly 1, false⟩, ⟨.assembly 1, false⟩]⟩
  | 1 => ⟨false, "//keep".toList, "tower".toList, [⟨.part, false⟩, ⟨.assembly 2, false⟩]⟩
  | 2 => ⟨true, "//keep".toList, "tower:links".toList, [⟨.part, false⟩, ⟨.part, false⟩]⟩

def castle : Assemblies where
  size := 3
  assembly := castleAssembly
  acyclic := by
    have hlt : ∀ b a, HeldBy castleAssembly b a → a < b := by
      unfold HeldBy
      decide
    have htrans : ∀ b a, Relation.TransGen (HeldBy castleAssembly) b a → a < b := by
      intro b a h
      induction h with
      | single h => exact hlt _ _ h
      | tail _ h ih => exact (hlt _ _ h).trans ih
    exact fun a h => lt_irrefl a (htrans a a h)
  declared := by decide

def castleCatalogue : Catalogue castle where
  object a :=
    { projectName := (castle.assembly a).projectName
      name := (castle.assembly a).name
      desc := none
      storeData := ⟨none, none, 1⟩
      software := .none }
  projectName_eq _ := rfl
  name_eq _ := rfl
  part _ _ :=
    { projectName := "//keep".toList
      name := "brick".toList
      desc := none
      storeData := ⟨none, none, 1⟩
      software := .none }

def noSoftware : SoftwareIndex where
  lookup _ := none
  lookup_fullName h := by cases h

def keep : Fin castle.size := (0 : Fin 3)

def tower : Fin castle.size := (1 : Fin 3)

def towerLinks : Fin castle.size := (2 : Fin 3)

/-- The links of the tower are needed twice, as the tower is, and are counted once. -/
theorem not_counted_castle :
    ∃ sections, castle.collectSections 4 keep = some sections ∧
      ¬ ∀ s count,
        (s, count) ∈ countSections castleCatalogue (getBomGrouped noSoftware
          (castleCatalogue.object keep) (items castleCatalogue keep) []) sections →
            count = times s.assembly keep := by
  refine ⟨_, rfl, fun h => ?_⟩
  have hcount : countOf (getBomGrouped noSoftware (castleCatalogue.object keep)
      (items castleCatalogue keep) []) (castleCatalogue.object towerLinks) = 1 := by
    rw [countOf_getBomGrouped]
    rcases Nat.eq_zero_or_pos (occurrences (castleCatalogue.object towerLinks).id
        (subAssemblies (items castleCatalogue keep))) with hzero | hpos
    · rw [hzero]
      rfl
    · obtain ⟨b, hdeclared, hid, -⟩ := exists_of_occurrences_pos castleCatalogue hpos
      have hother : ∀ b : Fin 3, (castle.assembly b).embedded = false →
          (castleCatalogue.object b).id ≠ (castleCatalogue.object towerLinks).id := by decide
      exact absurd hid (hother b hdeclared)
  have hlinks : countOf _ (castleCatalogue.object towerLinks) = times towerLinks keep :=
    h ⟨towerLinks, towerLinks, false⟩ _ (List.mem_cons_self ..)
  have htower : times towerLinks tower = 1 := by
    rw [times_eq, if_neg (by decide)]
    change 0 + (times towerLinks towerLinks + 0) = 1
    rw [times_self]
  have hkeep : times towerLinks keep = 2 := by
    rw [times_eq, if_neg (by decide)]
    change 0 + (times towerLinks tower + (times towerLinks tower + 0)) = 2
    rw [htower]
  rw [hcount, hkeep] at hlinks
  cases hlinks

end Assemblies

end PartCAD.Guide
