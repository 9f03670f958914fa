import Mathlib.Algebra.Order.BigOperators.Group.List
import Mathlib.Algebra.Order.Ring.Nat
import PartCAD.Assembly.Bom

/-!
# The bills of materials and the tree

What the three walks count, against the leaves, the sub-assemblies and the objects of the tree.

* `bomCount_getBom`, `groupedCount_parts`, `groupedCount_assemblies`, `groupedCount_software` : the
  flat and the grouped counts;
* `detailedCount_part`, `detailedCount_software`, `detailedCount_cases` : the detailed counts, which
  have one line for the parts and the references of one name;
* `bomsAgree_iff` : when the three walks agree.
-/

namespace PartCAD.Assembly

open PartCAD.Lib PartCAD.Lib.Text PartCAD.Package

/-! ## The tree -/

def Object.id (item : Object) : Str × Str := (item.projectName, item.name)

def Software.id (software : Software) : Str × Str := (software.projectName, software.name)

def Software.fullName (software : Software) : Str :=
  PartCAD.Assembly.fullName software.projectName software.name

mutual
def Item.leaves : Item → List Object
  | .part item => [item]
  | .assembly _ _ children => leaves children
/-- The parts of the tree, with multiplicity. -/
def leaves : List Item → List Object
  | [] => []
  | child :: rest => child.leaves ++ leaves rest
end

mutual
def Item.subAssemblies : Item → List Object
  | .part _ => []
  | .assembly item embedded children =>
    (if embedded then [] else [item]) ++ subAssemblies children
/-- The sub-assemblies of the tree that are not embedded, with multiplicity. -/
def subAssemblies : List Item → List Object
  | [] => []
  | child :: rest => child.subAssemblies ++ subAssemblies rest
end

mutual
def Item.objects : Item → List Object
  | .part item => [item]
  | .assembly item _ children => item :: objectsBelow children
/-- The objects below the root, with multiplicity. -/
def objectsBelow : List Item → List Object
  | [] => []
  | child :: rest => child.objects ++ objectsBelow rest
end

def objectsOf (root : Object) (children : List Item) : List Object := root :: objectsBelow children

def occurrences (id : Str × Str) (items : List Object) : ℕ :=
  items.countP fun item => decide (item.id = id)

/-- The object ships with the software. -/
def ships (ctx : SoftwareIndex) (id : Str × Str) (item : Object) : Bool :=
  (softwareOf ctx item).any fun s => decide (s.2.2.id = id)

/-! ## Reading the bills -/

def bomCount (bom : Dict Str ℕ) (name : Str) : ℕ := (bom.get? name).getD 0

def groupedCount (st : Grouped × Heap GroupedLine) (kind : Section) (id : Str × Str) : ℕ :=
  Tally.times (view groupedTable st (kind, id))

/-- The count of the line of a name, where the line is of this kind. -/
def detailedCount (st : Dict Str ℕ × Heap Line) (kind : Kind) (name : Str) : ℕ :=
  match view detailedTable st name with
  | some e => if e.data.kind = kind then e.count else 0
  | none => 0

/-- Nothing is bought whole. -/
def noneBought : Object → Bool → Bool := fun _ _ => false

/-! ## Counting in lists -/

/-- Sums of which one is nowhere above the other agree where they are equal. -/
theorem eq_of_sum_map_eq {α : Type} {f g : α → ℕ} {l : List α} (hle : ∀ x ∈ l, g x ≤ f x)
    (hsum : (l.map f).sum = (l.map g).sum) : ∀ x ∈ l, f x = g x := by
  intro x hx
  by_contra hne
  have hlt : g x < f x := by
    have := hle x hx
    omega
  have hstrict := List.sum_lt_sum g f hle ⟨x, hx, hlt⟩
  omega

theorem countP_eq_sum {α : Type} (p : α → Bool) (l : List α) :
    l.countP p = (l.map fun x => if p x then 1 else 0).sum := by
  induction l with
  | nil => rfl
  | cons a l ih => rw [List.countP_cons, ih, List.map_cons, List.sum_cons, Nat.add_comm]

/-- Two members that alone are counted are one. -/
theorem eq_of_countP_eq_one {α : Type} {p : α → Bool} {l : List α} (h : l.countP p = 1) {x y : α}
    (hx : x ∈ l) (hpx : p x = true) (hy : y ∈ l) (hpy : p y = true) : x = y := by
  rw [List.countP_eq_length_filter, List.length_eq_one_iff] at h
  obtain ⟨z, hz⟩ := h
  have hxz : x ∈ l.filter p := List.mem_filter.2 ⟨hx, hpx⟩
  have hyz : y ∈ l.filter p := List.mem_filter.2 ⟨hy, hpy⟩
  rw [hz, List.mem_singleton] at hxz hyz
  rw [hxz, hyz]

/-! ## The flat count -/

theorem bomCount_accountFor (bom : Dict Str ℕ) (name k : Str) (count : ℕ) :
    bomCount (accountFor bom name count) k = bomCount bom k + if name = k then count else 0 := by
  unfold accountFor bomCount
  by_cases hk : name = k
  · subst hk
    cases h : bom.get? name <;> simp
  · cases h : bom.get? name <;> simp [Dict.get?_set_of_ne _ _ hk, hk]

theorem bomCount_foldl (ps : List (Str × ℕ)) (bom : Dict Str ℕ) (k : Str) :
    bomCount (ps.foldl (fun bom p => accountFor bom p.1 p.2) bom) k =
      bomCount bom k + (ps.map fun p => if p.1 = k then p.2 else 0).sum := by
  induction ps generalizing bom with
  | nil => rfl
  | cons p ps ih =>
    rw [List.foldl_cons, ih, bomCount_accountFor, List.map_cons, List.sum_cons, Nat.add_assoc]

theorem sum_items (bom : Dict Str ℕ) (k : Str) :
    (bom.items.map fun p => if p.1 = k then p.2 else 0).sum = bomCount bom k := by
  have hitems : ∀ items : List (Str × ℕ), (items.map Prod.fst).Nodup →
      (items.map fun p => if p.1 = k then p.2 else 0).sum = (lookupItem k items).getD 0 := by
    intro items
    induction items with
    | nil => exact fun _ => rfl
    | cons p items ih =>
      intro hnodup
      obtain ⟨hp, hrest⟩ := List.nodup_cons.1 hnodup
      rw [List.map_cons, List.sum_cons, ih hrest, lookupItem]
      by_cases hk : p.1 = k
      · subst hk
        have hnone : lookupItem p.1 items = none := lookupItem_eq_none.2 hp
        simp [hnone]
      · simp [hk]
  exact hitems bom.items bom.nodup

theorem bomCount_bomChildren (items : List Item) (bom : Dict Str ℕ) (k : Str) :
    bomCount (bomChildren items bom) k =
      bomCount bom k + (leaves items).countP fun item => item.fullName = k := by
  induction items using children_induction generalizing bom with
  | nil => simp [bomChildren, leaves]
  | part item rest ih =>
    rw [bomChildren, bomChild, leaves, Item.leaves, ih, bomCount_accountFor, List.singleton_append,
      List.countP_cons]
    simp only [decide_eq_true_eq]
    omega
  | assembly item embedded children rest ihc ih =>
    have hempty : bomCount Dict.empty k = 0 := rfl
    rw [bomChildren, bomChild, leaves, Item.leaves, ih, bomCount_foldl, sum_items, ihc,
      List.countP_append, hempty]
    omega

/-- The flat count of a name counts the parts of that name. -/
theorem bomCount_getBom (children : List Item) (k : Str) :
    bomCount (getBom children) k =
      (leaves children).countP fun item => item.fullName = k := by
  rw [getBom, bomCount_bomChildren]
  exact Nat.zero_add _

/-! ## The grouped counts -/

section

variable (ctx : SoftwareIndex)

theorem countP_groupedSoftware (item : Object) (kind : Section) (id : Str × Str) :
    ((softwareOf ctx item).map groupedSoftware).countP (fun m => m.1 = (kind, id)) =
      if kind = .software then (softwareOf ctx item).countP fun s => s.2.2.id = id
      else 0 := by
  have hkey : ∀ s, (groupedSoftware s).1 = (Section.software, s.2.2.id) := fun s => rfl
  rw [List.countP_map]
  by_cases hkind : kind = .software
  · subst hkind
    rw [if_pos rfl]
    refine List.countP_congr fun s _ => ?_
    simp [hkey]
  · rw [if_neg hkind, List.countP_eq_zero]
    intro s _
    simp [hkey, Ne.symm hkind]

theorem countP_groupedMentions (items : List Item) (kind : Section) (id : Str × Str) :
    (groupedMentions ctx items).countP (fun m => m.1 = (kind, id)) =
      match kind with
      | .parts => occurrences id (leaves items)
      | .assemblies => occurrences id (subAssemblies items)
      | .software => ((objectsBelow items).map fun item =>
          (softwareOf ctx item).countP fun s => s.2.2.id = id).sum := by
  have hkey : ∀ kind item, (groupedMention kind item).1 = (kind, item.id) := fun _ _ => rfl
  induction items using children_induction with
  | nil => cases kind <;> rfl
  | part item rest ih =>
    rw [groupedMentions, groupedMentionsOf, List.cons_append, List.countP_cons,
      List.countP_append, ih, countP_groupedSoftware]
    cases kind <;>
      simp [hkey, leaves, Item.leaves, subAssemblies, Item.subAssemblies, objectsBelow,
        Item.objects, occurrences, List.countP_cons]
  | assembly item embedded children rest ihc ih =>
    rw [groupedMentions, groupedMentionsOf, List.countP_append, List.countP_append,
      List.countP_append, ih, ihc, countP_groupedSoftware]
    cases kind with
    | parts => cases embedded <;> simp [hkey, leaves, Item.leaves, occurrences]
    | assemblies =>
      cases embedded with
      | true => simp [subAssemblies, Item.subAssemblies, occurrences]
      | false =>
        simp only [subAssemblies, Item.subAssemblies, occurrences, List.countP_append]
        simp [hkey]
    | software =>
      cases embedded <;> simp [hkey, objectsBelow, Item.objects, Nat.add_assoc]

theorem groupedCount_eq (root : Object) (children : List Item) (h : Heap GroupedLine)
    (kind : Section) (id : Str × Str) :
    groupedCount (getBomGrouped ctx root children h) kind id =
      (((softwareOf ctx root).map groupedSoftware ++ groupedMentions ctx children).countP
        fun m => m.1 = (kind, id)) := by
  have htallies := getBomGrouped_tallies ctx root children h
  have hempty : view groupedTable (Grouped.empty, h) = Tally.empty := rfl
  rw [groupedCount, htallies.view_eq, hempty, Tally.empty_merge, Tally.times_of]

theorem groupedCount_parts (root : Object) (children : List Item) (h : Heap GroupedLine)
    (id : Str × Str) :
    groupedCount (getBomGrouped ctx root children h) .parts id =
      occurrences id (leaves children) := by
  rw [groupedCount_eq, List.countP_append, countP_groupedSoftware, countP_groupedMentions]
  simp

theorem groupedCount_assemblies (root : Object) (children : List Item) (h : Heap GroupedLine)
    (id : Str × Str) :
    groupedCount (getBomGrouped ctx root children h) .assemblies id =
      occurrences id (subAssemblies children) := by
  rw [groupedCount_eq, List.countP_append, countP_groupedSoftware, countP_groupedMentions]
  simp

/-- The grouped count of software counts the references to it. -/
theorem groupedCount_software (root : Object) (children : List Item) (h : Heap GroupedLine)
    (id : Str × Str) :
    groupedCount (getBomGrouped ctx root children h) .software id =
      ((objectsOf root children).map fun item =>
        (softwareOf ctx item).countP fun s => s.2.2.id = id).sum := by
  rw [groupedCount_eq, List.countP_append, countP_groupedSoftware, countP_groupedMentions]
  rfl

/-! ## The detailed counts -/

/-- How many references of the tree are spelled in this way. -/
def referencesTo (name : Str) (items : List Object) : ℕ :=
  (items.map fun item => (softwareOf ctx item).countP fun s => decide (s.1 = name)).sum

theorem countP_detailedMentions (items : List Item) (name : Str) :
    (detailedMentions ctx noneBought items).countP (fun m => m.1 = name) =
      (leaves items).countP (fun item => item.fullName = name) +
        referencesTo ctx name (objectsBelow items) := by
  have hsoftware : ∀ item,
      ((softwareOf ctx item).map detailedSoftware).countP (fun m => m.1 = name) =
        (softwareOf ctx item).countP fun s => s.1 = name := by
    intro item
    rw [List.countP_map]
    rfl
  unfold referencesTo
  induction items using children_induction with
  | nil => rfl
  | part item rest ih =>
    rw [detailedMentions, detailedMentionsOf, List.cons_append, List.countP_cons,
      List.countP_append, ih, hsoftware, leaves, Item.leaves, objectsBelow, Item.objects,
      List.singleton_append, List.countP_cons, List.singleton_append, List.map_cons, List.sum_cons]
    simp only [decide_eq_true_eq]
    omega
  | assembly item embedded children rest ihc ih =>
    rw [detailedMentions, detailedMentionsOf, noneBought, if_neg Bool.false_ne_true,
      List.countP_append, List.countP_append, ih, ihc, hsoftware, leaves, Item.leaves, objectsBelow,
      Item.objects, List.countP_append, List.cons_append, List.map_cons, List.sum_cons,
      List.map_append, List.sum_append]
    omega

/-- A mention is of a part of the tree, or a reference of an object of the tree. -/
theorem mem_detailedMentions {items : List Item} {name : Str} {line : Line}
    (h : (name, line) ∈ detailedMentions ctx noneBought items) :
    (line.kind = .part ∧ ∃ p ∈ leaves items, p.fullName = name) ∨
      (line.kind = .software ∧ ∃ item ∈ objectsBelow items, ∃ s ∈ softwareOf ctx item,
        s.1 = name) := by
  have hsoftware : ∀ item, (name, line) ∈ (softwareOf ctx item).map detailedSoftware →
      line.kind = .software ∧ ∃ s ∈ softwareOf ctx item, s.1 = name := by
    intro item hmem
    obtain ⟨s, hs, heq⟩ := List.mem_map.1 hmem
    cases heq
    exact ⟨rfl, s, hs, rfl⟩
  induction items using children_induction with
  | nil => simp [detailedMentions] at h
  | part item rest ih =>
    rw [detailedMentions, detailedMentionsOf, List.cons_append, List.mem_cons, List.mem_append] at h
    rw [leaves, Item.leaves, objectsBelow, Item.objects]
    rcases h with heq | hmem | hmem
    · cases heq
      exact Or.inl ⟨rfl, item, by simp, rfl⟩
    · obtain ⟨hkind, s, hs, hname⟩ := hsoftware item hmem
      exact Or.inr ⟨hkind, item, by simp, s, hs, hname⟩
    · rcases ih hmem with ⟨hkind, p, hp, hname⟩ | ⟨hkind, o, ho, hs⟩
      · exact Or.inl ⟨hkind, p, by simp [hp], hname⟩
      · exact Or.inr ⟨hkind, o, by simp [ho], hs⟩
  | assembly item embedded children rest ihc ih =>
    rw [detailedMentions, detailedMentionsOf, noneBought, if_neg Bool.false_ne_true,
      List.mem_append, List.mem_append] at h
    rw [leaves, Item.leaves, objectsBelow, Item.objects]
    rcases h with (hmem | hmem) | hmem
    · obtain ⟨hkind, s, hs, hname⟩ := hsoftware item hmem
      exact Or.inr ⟨hkind, item, by simp, s, hs, hname⟩
    · rcases ihc hmem with ⟨hkind, p, hp, hname⟩ | ⟨hkind, o, ho, hs⟩
      · exact Or.inl ⟨hkind, p, by simp [hp], hname⟩
      · exact Or.inr ⟨hkind, o, by simp [ho], hs⟩
    · rcases ih hmem with ⟨hkind, p, hp, hname⟩ | ⟨hkind, o, ho, hs⟩
      · exact Or.inl ⟨hkind, p, by simp [hp], hname⟩
      · exact Or.inr ⟨hkind, o, by simp [ho], hs⟩

/-- The mentions of the detailed walk, the software of the root included. -/
theorem detailedView_eq (root : Object) (children : List Item) (h : Heap Line) :
    view detailedTable (getBomDetailed ctx noneBought root children h) =
      Tally.of ((softwareOf ctx root).map detailedSoftware ++
        detailedMentions ctx noneBought children) := by
  have htallies := getBomDetailed_tallies ctx noneBought root children h
  have hempty : view detailedTable ((Dict.empty : Dict Str ℕ), h) = Tally.empty := rfl
  rw [htallies.view_eq, hempty, Tally.empty_merge]

variable (root : Object) (children : List Item) (h : Heap Line) (name : Str)

/-- The line of a name counts the parts of that name and the references spelled so, and is of the
kind of one of them. -/
theorem detailedView_cases :
    (view detailedTable (getBomDetailed ctx noneBought root children h) name).elim
      ((leaves children).countP (fun item => item.fullName = name) +
        referencesTo ctx name (objectsOf root children) = 0)
      fun e => e.count = (leaves children).countP (fun item => item.fullName = name) +
          referencesTo ctx name (objectsOf root children) ∧
        ((e.data.kind = .part ∧ ∃ p ∈ leaves children, p.fullName = name) ∨
          (e.data.kind = .software ∧ ∃ item ∈ objectsOf root children,
            ∃ s ∈ softwareOf ctx item, s.1 = name)) := by
  have htimes := Tally.times_of ((softwareOf ctx root).map detailedSoftware ++
    detailedMentions ctx noneBought children) name
  have hself : ((softwareOf ctx root).map detailedSoftware).countP
      (fun m => m.1 = name) = (softwareOf ctx root).countP fun s => s.1 = name := by
    rw [List.countP_map]
    rfl
  have hsum : referencesTo ctx name (objectsOf root children) =
      (softwareOf ctx root).countP (fun s => s.1 = name) +
        referencesTo ctx name (objectsBelow children) := rfl
  rw [List.countP_append, hself, countP_detailedMentions] at htimes
  rw [detailedView_eq]
  cases hview : Tally.of ((softwareOf ctx root).map detailedSoftware ++
      detailedMentions ctx noneBought children) name with
  | none =>
    rw [hview] at htimes
    have hzero : Tally.times (none : Option (Entry Line)) = 0 := rfl
    show _ = 0
    omega
  | some e =>
    rw [hview] at htimes
    have hcount : Tally.times (some e) = e.count := rfl
    refine ⟨by omega, ?_⟩
    rcases List.mem_append.1 (Tally.exists_of_eq_some hview) with hmem | hmem
    · obtain ⟨s, hs, heq⟩ := List.mem_map.1 hmem
      have hname : (detailedSoftware s).1 = name := congrArg Prod.fst heq
      have hdata : (detailedSoftware s).2 = e.data := congrArg Prod.snd heq
      refine Or.inr ⟨?_, root, by simp [objectsOf], s, hs, hname⟩
      rw [← hdata]
      rfl
    · rcases mem_detailedMentions ctx hmem with hpart | ⟨hkind, item, hitem, hs⟩
      · exact Or.inl hpart
      · exact Or.inr ⟨hkind, item, by simp [objectsOf, hitem], hs⟩

theorem detailedCount_cases (kind : Kind) :
    detailedCount (getBomDetailed ctx noneBought root children h) kind name = 0 ∨
      detailedCount (getBomDetailed ctx noneBought root children h) kind name =
        (leaves children).countP (fun item => item.fullName = name) +
          referencesTo ctx name (objectsOf root children) := by
  have hcases := detailedView_cases ctx root children h name
  unfold detailedCount
  cases hview : view detailedTable (getBomDetailed ctx noneBought root children h) name with
  | none => exact Or.inl rfl
  | some e =>
    rw [hview] at hcases
    show (if e.data.kind = kind then e.count else 0) = 0 ∨
      (if e.data.kind = kind then e.count else 0) = _
    split
    · exact Or.inr hcases.1
    · exact Or.inl rfl

/-- Where no reference is spelled like a part, the line is of the part. -/
theorem detailedCount_part
    (hnone : ∀ item ∈ objectsOf root children, ∀ s ∈ softwareOf ctx item, s.1 ≠ name) :
    detailedCount (getBomDetailed ctx noneBought root children h) .part name =
        (leaves children).countP (fun item => item.fullName = name) ∧
      detailedCount (getBomDetailed ctx noneBought root children h) .software name = 0 := by
  have hrefs : referencesTo ctx name (objectsOf root children) = 0 := by
    refine List.sum_eq_zero fun n hn => ?_
    obtain ⟨item, hitem, rfl⟩ := List.mem_map.1 hn
    refine List.countP_eq_zero.2 fun s hs => ?_
    simpa using hnone item hitem s hs
  have hcases := detailedView_cases ctx root children h name
  unfold detailedCount
  cases hview : view detailedTable (getBomDetailed ctx noneBought root children h) name with
  | none =>
    rw [hview] at hcases
    have hzero := (Nat.add_eq_zero_iff.1 hcases).1
    exact ⟨hzero.symm, rfl⟩
  | some e =>
    rw [hview] at hcases
    obtain ⟨hcount, ⟨hkind, _⟩ | ⟨_, item, hitem, s, hs, hname⟩⟩ := hcases
    · rw [hrefs, Nat.add_zero] at hcount
      simp [hkind, hcount]
    · exact absurd hname (hnone item hitem s hs)

/-- Where no part has the name, the line is of the software. -/
theorem detailedCount_software (hnone : ∀ p ∈ leaves children, p.fullName ≠ name) :
    detailedCount (getBomDetailed ctx noneBought root children h) .software name =
      referencesTo ctx name (objectsOf root children) := by
  have hparts : (leaves children).countP (fun item => item.fullName = name) = 0 := by
    refine List.countP_eq_zero.2 fun p hp => ?_
    simpa using hnone p hp
  have hcases := detailedView_cases ctx root children h name
  rw [hparts, Nat.zero_add] at hcases
  unfold detailedCount
  cases hview : view detailedTable (getBomDetailed ctx noneBought root children h) name with
  | none =>
    rw [hview] at hcases
    exact hcases.symm
  | some e =>
    rw [hview] at hcases
    obtain ⟨hcount, ⟨_, p, hp, hname⟩ | ⟨hkind, _⟩⟩ := hcases
    · exact absurd hname (hnone p hp)
    · simp [hkind, hcount]

end

/-! ## References and the software they lead to -/

section

variable {ctx : SoftwareIndex}

theorem lookup_of_mem {item : Object} {s : Str × Project × Software}
    (h : s ∈ softwareOf ctx item) : s.1 ∈ item.software.refs ∧ ctx.lookup s.1 = some s.2 := by
  obtain ⟨ref, href, hs⟩ := List.mem_filterMap.1 h
  obtain ⟨found, hfound, rfl⟩ := Option.map_eq_some_iff.1 hs
  exact ⟨href, hfound⟩

theorem fullName_of_id {a b : Software} (h : a.id = b.id) : a.fullName = b.fullName := by
  obtain ⟨hproject, hname⟩ := Prod.mk.inj h
  rw [Software.fullName, Software.fullName, hproject, hname]

/-- A reference that is spelled as the full name of software leads to it. -/
theorem id_of_spelled {ref : Str} {project : Project} {software : Software}
    (h : ctx.lookup ref = some (project, software)) {item : Object}
    {s : Str × Project × Software} (hs : s ∈ softwareOf ctx item)
    (hspelled : s.1 = software.fullName) : s.2.2.id = software.id := by
  have hfound := (lookup_of_mem hs).2
  have hfull : ctx.lookup software.fullName = some (project, software) := ctx.lookup_fullName h
  rw [hspelled, hfull] at hfound
  rw [← Option.some.inj hfound]

variable (ctx) in
/-- No object has a reference twice. -/
theorem countP_spelled_le (item : Object) (name : Str) :
    (softwareOf ctx item).countP (fun s => s.1 = name) ≤ 1 := by
  have hrefs : ∀ refs : List Str, ((refs.filterMap fun ref =>
      (ctx.lookup ref).map (ref, ·)).countP fun s => s.1 = name) ≤
        refs.countP fun ref => ref = name := by
    intro refs
    induction refs with
    | nil => exact Nat.le_refl _
    | cons ref refs ih =>
      cases hfound : ctx.lookup ref with
      | none =>
        rw [List.filterMap_cons_none (by simp [hfound]), List.countP_cons]
        omega
      | some found =>
        simp only [List.filterMap_cons, hfound, Option.map_some, List.countP_cons,
          decide_eq_true_eq]
        omega
  have hone : item.software.refs.countP (fun ref => ref = name) ≤ 1 := by
    have hcount := List.nodup_iff_count_le_one.1 item.software.nodup name
    rw [List.count_eq_countP] at hcount
    refine Nat.le_trans (Nat.le_of_eq (List.countP_congr fun ref _ => ?_)) hcount
    simp
  exact Nat.le_trans (hrefs _) hone

theorem ships_iff {id : Str × Str} {item : Object} :
    ships ctx id item = true ↔ ∃ s ∈ softwareOf ctx item, s.2.2.id = id := by
  simp [ships]

variable (ctx) in
theorem le_countP_of_ships (id : Str × Str) (item : Object) :
    (if ships ctx id item then 1 else 0) ≤
      (softwareOf ctx item).countP fun s => s.2.2.id = id := by
  split
  · rename_i hships
    obtain ⟨s, hs, hid⟩ := ships_iff.1 hships
    exact List.countP_pos_iff.2 ⟨s, hs, by simpa using hid⟩
  · exact Nat.zero_le _

end

/-! ## When the walks agree -/

section

variable (ctx : SoftwareIndex) (root : Object) (children : List Item)

/-- What the three walks are to count, and that the tables of the sub-assemblies are kept. -/
structure BomsAgree (h : Heap GroupedLine) (h' : Heap Line) : Prop where
  parts : ∀ p ∈ leaves children,
    bomCount (getBom children) p.fullName = occurrences p.id (leaves children) ∧
    groupedCount (getBomGrouped ctx root children h) .parts p.id =
      occurrences p.id (leaves children) ∧
    detailedCount (getBomDetailed ctx noneBought root children h') .part p.fullName =
      occurrences p.id (leaves children)
  software : ∀ {ref project software}, ctx.lookup ref = some (project, software) →
    groupedCount (getBomGrouped ctx root children h) .software software.id =
      (objectsOf root children).countP (ships ctx software.id) ∧
    detailedCount (getBomDetailed ctx noneBought root children h') .software software.fullName =
      (objectsOf root children).countP (ships ctx software.id)
  assemblies : ∀ id, groupedCount (getBomGrouped ctx root children h) .assemblies id =
    occurrences id (subAssemblies children)
  groupedKept : ∀ {st}, DuringGrouped ctx root children h st →
    view groupedTable (st.1, (getBomGrouped ctx root children h).2) = view groupedTable st
  detailedKept : ∀ {st}, DuringDetailed ctx noneBought root children h' st →
    view detailedTable (st.1, (getBomDetailed ctx noneBought root children h').2) =
      view detailedTable st

/-- A full name stands for one thing: no two different parts of the tree have it, no reference is
spelled like a part, and software is referred to by its full name. -/
structure NamesApart : Prop where
  parts : ∀ p ∈ leaves children, ∀ q ∈ leaves children, p.fullName = q.fullName → p.id = q.id
  software : ∀ p ∈ leaves children, ∀ item ∈ objectsOf root children,
    ∀ s ∈ softwareOf ctx item, s.1 ≠ p.fullName
  spelled : ∀ item ∈ objectsOf root children, ∀ s ∈ softwareOf ctx item, s.1 = s.2.2.fullName

variable {ctx root children}

theorem fullName_of_item_id {p q : Object} (h : p.id = q.id) : p.fullName = q.fullName := by
  obtain ⟨hproject, hname⟩ := Prod.mk.inj h
  rw [Object.fullName, Object.fullName, hproject, hname]

/-- Where software is referred to by its full name, each object that ships it has one reference. -/
theorem NamesApart.countP_eq (hN : NamesApart ctx root children) {ref : Str} {project : Project}
    {software : Software} (h : ctx.lookup ref = some (project, software)) {item : Object}
    (hitem : item ∈ objectsOf root children) :
    (softwareOf ctx item).countP (fun s => s.2.2.id = software.id) =
        (softwareOf ctx item).countP (fun s => s.1 = software.fullName) ∧
      (softwareOf ctx item).countP (fun s => s.1 = software.fullName) =
        if ships ctx software.id item then 1 else 0 := by
  have hsame : (softwareOf ctx item).countP (fun s => s.2.2.id = software.id) =
      (softwareOf ctx item).countP (fun s => s.1 = software.fullName) := by
    refine List.countP_congr fun s hs => ?_
    simp only [decide_eq_true_eq]
    constructor
    · intro hid
      rw [hN.spelled item hitem s hs, fullName_of_id hid]
    · intro hspelled
      exact id_of_spelled h hs hspelled
  refine ⟨hsame, ?_⟩
  have hle := countP_spelled_le ctx item software.fullName
  have hge := le_countP_of_ships ctx software.id item
  rw [hsame] at hge
  by_cases hships : ships ctx software.id item = true
  · rw [if_pos hships] at hge ⊢
    omega
  · rw [if_neg hships, ← hsame]
    refine List.countP_eq_zero.2 fun s hs => ?_
    intro hid
    exact hships (ships_iff.2 ⟨s, hs, by simpa using hid⟩)

theorem NamesApart.bomsAgree (hN : NamesApart ctx root children) (h : Heap GroupedLine)
    (h' : Heap Line) : BomsAgree ctx root children h h' where
  parts := by
    intro p hp
    have hname : (leaves children).countP (fun item => item.fullName = p.fullName) =
        occurrences p.id (leaves children) := by
      refine List.countP_congr fun q hq => ?_
      simp only [decide_eq_true_eq]
      exact ⟨fun heq => hN.parts q hq p hp heq, fullName_of_item_id⟩
    refine ⟨?_, groupedCount_parts ctx root children h p.id, ?_⟩
    · rw [bomCount_getBom, hname]
    · rw [(detailedCount_part ctx root children h' p.fullName (hN.software p hp)).1, hname]
  software := by
    intro ref project software hfound
    have hships : ((objectsOf root children).map fun item =>
        (softwareOf ctx item).countP fun s => s.1 = software.fullName).sum =
          (objectsOf root children).countP (ships ctx software.id) := by
      rw [countP_eq_sum]
      refine congrArg List.sum (List.map_congr_left fun item hitem => ?_)
      exact (hN.countP_eq hfound hitem).2
    refine ⟨?_, ?_⟩
    · rw [groupedCount_software, ← hships]
      refine congrArg List.sum (List.map_congr_left fun item hitem => ?_)
      exact (hN.countP_eq hfound hitem).1
    · by_cases hnone : ∀ item ∈ objectsOf root children, ∀ s ∈ softwareOf ctx item,
          s.1 ≠ software.fullName
      · -- nothing refers to it
        rw [(detailedCount_part ctx root children h' software.fullName hnone).2, ← hships]
        refine (List.sum_eq_zero fun n hn => ?_).symm
        obtain ⟨item, hitem, rfl⟩ := List.mem_map.1 hn
        refine List.countP_eq_zero.2 fun s hs => ?_
        simpa using hnone item hitem s hs
      · rw [not_forall] at hnone
        obtain ⟨item, hnone⟩ := hnone
        simp only [not_forall, not_not] at hnone
        obtain ⟨hitem, s, hs, hspelled⟩ := hnone
        have hparts : ∀ p ∈ leaves children, p.fullName ≠ software.fullName := by
          intro p hp heq
          exact hN.software p hp item hitem s hs (hspelled.trans heq.symm)
        rw [detailedCount_software ctx root children h' software.fullName hparts, ← hships]
        rfl
  assemblies id := groupedCount_assemblies ctx root children h id
  groupedKept hst := hst.kept.view_eq
  detailedKept hst := hst.kept.view_eq

section

variable {h : Heap GroupedLine} {h' : Heap Line}

/-- The flat count of a part counts every part of its full name. -/
theorem BomsAgree.countP_fullName (hB : BomsAgree ctx root children h h') {p : Object}
    (hp : p ∈ leaves children) :
    (leaves children).countP (fun item => item.fullName = p.fullName) =
      occurrences p.id (leaves children) := by
  rw [← (hB.parts p hp).1, bomCount_getBom]

theorem BomsAgree.id_eq (hB : BomsAgree ctx root children h h') {p q : Object}
    (hp : p ∈ leaves children) (hq : q ∈ leaves children) (heq : p.fullName = q.fullName) :
    p.id = q.id := by
  have hcount := hB.countP_fullName hp
  rw [occurrences, countP_eq_sum, countP_eq_sum] at hcount
  have hpoint := eq_of_sum_map_eq (fun item _ => ?_) hcount q hq
  · by_contra hne
    simp [heq, Ne.symm hne] at hpoint
  · by_cases hid : item.id = p.id
    · simp [hid, fullName_of_item_id hid]
    · simp [hid]

theorem referencesTo_pos {item : Object} (hitem : item ∈ objectsOf root children)
    {s : Str × Project × Software} (hs : s ∈ softwareOf ctx item) :
    0 < referencesTo ctx s.1 (objectsOf root children) := by
  have hpos : 0 < (softwareOf ctx item).countP fun s' => s'.1 = s.1 :=
    List.countP_pos_iff.2 ⟨s, hs, by simp⟩
  exact Nat.lt_of_lt_of_le hpos (List.le_sum_of_mem (List.mem_map.2 ⟨item, hitem, rfl⟩))

/-- A reference that is spelled like a part would be counted with it. -/
theorem BomsAgree.ne_fullName (hB : BomsAgree ctx root children h h') {p : Object}
    (hp : p ∈ leaves children) {item : Object} (hitem : item ∈ objectsOf root children)
    {s : Str × Project × Software} (hs : s ∈ softwareOf ctx item) : s.1 ≠ p.fullName := by
  intro heq
  have hpos := referencesTo_pos hitem hs
  rw [heq] at hpos
  have hocc : 0 < occurrences p.id (leaves children) :=
    List.countP_pos_iff.2 ⟨p, hp, by simp⟩
  have hdetailed := (hB.parts p hp).2.2
  have hname := hB.countP_fullName hp
  rcases detailedCount_cases ctx root children h' p.fullName .part with hzero | hall
  · omega
  · omega

/-- Where the detailed count of software is that of the objects that ship it, they all refer to it
by its full name. -/
theorem BomsAgree.referencesTo_eq (hB : BomsAgree ctx root children h h') {ref : Str}
    {project : Project} {software : Software} (hfound : ctx.lookup ref = some (project, software))
    (hpos : 0 < (objectsOf root children).countP (ships ctx software.id)) :
    referencesTo ctx software.fullName (objectsOf root children) =
      (objectsOf root children).countP (ships ctx software.id) := by
  have hdetailed := (hB.software hfound).2
  by_cases hparts : ∀ p ∈ leaves children, p.fullName ≠ software.fullName
  · rw [← hdetailed, detailedCount_software ctx root children h' _ hparts]
  · simp only [not_forall, not_not] at hparts
    obtain ⟨p, hp, heq⟩ := hparts
    have hnone : ∀ item ∈ objectsOf root children, ∀ s ∈ softwareOf ctx item,
        s.1 ≠ software.fullName := fun item hitem s hs => heq ▸ hB.ne_fullName hp hitem hs
    have hzero := (detailedCount_part ctx root children h' _ hnone).2
    omega

theorem BomsAgree.spelled (hB : BomsAgree ctx root children h h') {item : Object}
    (hitem : item ∈ objectsOf root children) {s : Str × Project × Software}
    (hs : s ∈ softwareOf ctx item) : s.1 = s.2.2.fullName := by
  have hfound : ctx.lookup s.1 = some (s.2.1, s.2.2) := (lookup_of_mem hs).2
  have hships : ships ctx s.2.2.id item = true := ships_iff.2 ⟨s, hs, rfl⟩
  have hpos : 0 < (objectsOf root children).countP (ships ctx s.2.2.id) :=
    List.countP_pos_iff.2 ⟨item, hitem, hships⟩
  -- the object has one reference that is spelled as the full name
  have hspelled : (softwareOf ctx item).countP (fun s' => s'.1 = s.2.2.fullName) = 1 := by
    have hsum := hB.referencesTo_eq hfound hpos
    rw [referencesTo, countP_eq_sum] at hsum
    have hpoint := eq_of_sum_map_eq (fun item' _ => ?_) hsum.symm item hitem
    · rw [if_pos hships] at hpoint
      exact hpoint.symm
    · have hle := countP_spelled_le ctx item' s.2.2.fullName
      by_cases hships' : ships ctx s.2.2.id item' = true
      · rwa [if_pos hships']
      · rw [if_neg hships', Nat.le_zero, List.countP_eq_zero]
        intro s' hs' hname
        have hid := id_of_spelled hfound hs' (by simpa using hname)
        exact hships' (ships_iff.2 ⟨s', hs', hid⟩)
  -- and one reference to the software
  have hone : (softwareOf ctx item).countP (fun s' => s'.2.2.id = s.2.2.id) = 1 := by
    have hsum := (hB.software hfound).1
    rw [groupedCount_software, countP_eq_sum] at hsum
    have hpoint := eq_of_sum_map_eq (fun item' _ => le_countP_of_ships ctx _ item') hsum item hitem
    rw [hpoint, if_pos hships]
  obtain ⟨s', hs', hname⟩ := List.countP_pos_iff.1 (Nat.lt_of_lt_of_eq Nat.one_pos hspelled.symm)
  have hname' : s'.1 = s.2.2.fullName := by simpa using hname
  have hid := id_of_spelled hfound hs' hname'
  rw [eq_of_countP_eq_one hone hs (by simp) hs' (by simpa using hid), hname']
  exact fullName_of_id hid.symm

end

/-- **The three bills of materials.** They agree with the tree exactly when a full name stands for
one thing. -/
theorem bomsAgree_iff (ctx : SoftwareIndex) (root : Object) (children : List Item)
    (h : Heap GroupedLine) (h' : Heap Line) :
    BomsAgree ctx root children h h' ↔ NamesApart ctx root children := by
  constructor
  · intro hB
    refine ⟨?_, ?_, ?_⟩
    · intro p hp q hq heq
      exact hB.id_eq hp hq heq
    · intro p hp item hitem s hs
      exact hB.ne_fullName hp hitem hs
    · intro item hitem s hs
      exact hB.spelled hitem hs
  · intro hN
    exact hN.bomsAgree h h'

end

/-! ## A part and a firmware of one name -/

/-- A package with a firmware `fw`. -/
def boardIndex : SoftwareIndex where
  lookup ref :=
    if ref = "//p:fw".toList then
      some (⟨none⟩, ⟨"//p".toList, "fw".toList, [], "raw".toList, none, none⟩)
    else none
  lookup_fullName := by
    intro ref project software h
    split at h
    · obtain ⟨-, rfl⟩ := Prod.mk.inj (Option.some.inj h)
      rw [← h]
      rfl
    · cases h

def plain (name : Str) (refs : List Str) (h : refs.Nodup) : Object :=
  ⟨"//p".toList, name, none, ⟨none, none, 1⟩, ⟨refs, h⟩⟩

/-- A board that ships with the firmware `fw`, next to a part of the same name. -/
theorem not_bomsAgree_fw : ¬ BomsAgree boardIndex (plain "kit".toList [] List.nodup_nil)
    [.part (plain "board".toList ["//p:fw".toList] (List.nodup_singleton _)),
      .part (plain "fw".toList [] List.nodup_nil)] [] [] := by
  intro hB
  have hfw := (hB.parts (plain "fw".toList [] List.nodup_nil) (by simp [leaves, Item.leaves])).2.2
  have hgot : detailedCount (getBomDetailed boardIndex noneBought
      (plain "kit".toList [] List.nodup_nil)
      [.part (plain "board".toList ["//p:fw".toList] (List.nodup_singleton _)),
        .part (plain "fw".toList [] List.nodup_nil)] []) .part "//p:fw".toList = 0 := rfl
  have hmeant : occurrences (plain "fw".toList [] List.nodup_nil).id
      (leaves [.part (plain "board".toList ["//p:fw".toList] (List.nodup_singleton _)),
        .part (plain "fw".toList [] List.nodup_nil)]) = 1 := rfl
  rw [hmeant] at hfw
  exact absurd (hgot.symm.trans hfw) (by decide)

end PartCAD.Assembly
