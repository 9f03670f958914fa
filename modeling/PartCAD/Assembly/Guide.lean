import Mathlib.Data.Fintype.EquivFin
import PartCAD.Lib.PostOrder
import PartCAD.Lib.Text

/-!
# The sections of an assembly guide

The guide of an assembly has a section for every assembly that has to be built.  An assembly that
holds nothing but one embedded assembly is documented by what that one holds.

* `stepSource` : the assembly whose children are put together;
* `collectSections` : the sections, in the order of the guide;
* `collectSections_spec` : every assembly has one section, after those of what it uses.
-/

namespace PartCAD.Guide

open PartCAD.Lib

/-! ## Assemblies -/

/-- What a child is: a part, or an assembly by its number. -/
inductive Item (n : ℕ) where
  | part
  | assembly (a : Fin n)

/-- A child, and whether it is connected to another one. -/
structure Child (n : ℕ) where
  item : Item n
  connected : Bool

structure Assembly (n : ℕ) where
  /-- `config.get("child", False)`: it is embedded in the file of another one. -/
  embedded : Bool
  projectName : Str
  name : Str
  children : List (Child n)

/-- The children of a child that are assemblies. -/
def Child.assembly? {n : ℕ} (child : Child n) : Option (Fin n) :=
  match child.item with
  | .part => none
  | .assembly a => some a

/-- `for child in children: if isinstance(child.item, Assembly)` -/
def forAssemblies {n : ℕ} {σ : Type} (body : Fin n → σ → Option σ) (children : List (Child n))
    (st : σ) : Option σ :=
  children.foldlM
    (fun st child =>
      match child.item with
      | .part => some st
      | .assembly b => body b st) st

/-- One assembly is a child of the other. -/
def HeldBy {n : ℕ} (assembly : Fin n → Assembly n) (b a : Fin n) : Prop :=
  b ∈ (assembly a).children.filterMap Child.assembly?

/-- A finite number of assemblies, once instantiated.  None holds itself, and a package has one
assembly for a name. -/
structure Assemblies where
  size : ℕ
  assembly : Fin size → Assembly size
  acyclic : ∀ a, ¬ Relation.TransGen (HeldBy assembly) a a
  declared : ∀ a b, (assembly a).embedded = false → (assembly b).embedded = false →
    (assembly a).projectName = (assembly b).projectName → (assembly a).name = (assembly b).name →
    a = b

inductive Key (n : ℕ) where
  | identity (a : Fin n)
  | named (projectName name : Str)
  deriving DecidableEq

namespace Assemblies

variable (g : Assemblies)

/-- `_assembly_key` -/
def assemblyKey (a : Fin g.size) : Key g.size :=
  if (g.assembly a).embedded then .identity a
  else .named (g.assembly a).projectName (g.assembly a).name

/-- The only child of an assembly, if that is an embedded assembly and not connected. -/
def wrapped (a : Fin g.size) : Option (Fin g.size) :=
  match (g.assembly a).children with
  | [⟨.assembly b, connected⟩] =>
    if (g.assembly b).embedded ∧ connected = false then some b else none
  | _ => none

/-- `_step_source`.  The number bounds the loop. -/
def stepSource : ℕ → Fin g.size → Option (Fin g.size)
  | 0, _ => none
  | n + 1, a =>
    match g.wrapped a with
    | some b => stepSource n b
    | none => some a

/-- An assembly, the one that holds its steps, and whether it is the top one. -/
structure Section (n : ℕ) where
  assembly : Fin n
  content : Fin n
  top : Bool

/-- `_collect_section`.  The numbers bound the loops of `_step_source` and the depth. -/
def collectSection (loops : ℕ) :
    ℕ → Fin g.size → Bool → List (Section g.size) × List (Key g.size) →
      Option (List (Section g.size) × List (Key g.size))
  | 0, _, _, _ => none
  | n + 1, a, top, (nodes, seen) =>
    if g.assemblyKey a ∈ seen then some (nodes, seen)
    else
      (g.stepSource loops a).bind fun content =>
        (forAssemblies (fun b st => collectSection loops n b false st) (g.assembly content).children
          (nodes, g.assemblyKey a :: seen)).map fun st => (st.1 ++ [⟨a, content, top⟩], st.2)

/-- `collect_sections_async`, without what is measured for the sections. -/
def collectSections (n : ℕ) (a : Fin g.size) : Option (List (Section g.size)) :=
  (g.collectSection n n a true ([], [])).map Prod.fst

/-! ## What a section has to come after -/

/-- One assembly is documented by what the other holds. -/
def WrappedBy (b a : Fin g.size) : Prop := g.wrapped a = some b

/-- One assembly is looked through on the way from the other to its steps. -/
def LookedThrough (b a : Fin g.size) : Prop := Relation.TransGen g.WrappedBy b a

/-- The one assembly holds the steps of the other. -/
def Documents (c a : Fin g.size) : Prop :=
  Relation.ReflTransGen g.WrappedBy c a ∧ g.wrapped c = none

/-- One assembly is put into the other in one of its steps. -/
def Uses (b a : Fin g.size) : Prop := ∃ c, g.Documents c a ∧ HeldBy g.assembly b c

/-- What a guide has to be: a section for everything that is used, once and after all that it uses
itself, and the one of the top assembly last. -/
structure InOrder (top : Fin g.size) (sections : List (Section g.size)) : Prop where
  once : (sections.map Section.assembly).Nodup
  used : ∀ a, a ∈ sections.map Section.assembly ↔ Relation.ReflTransGen g.Uses a top
  reached : ∀ a, Relation.ReflTransGen (HeldBy g.assembly) a top →
    a ∈ sections.map Section.assembly ∨
      ∃ b ∈ sections.map Section.assembly, g.LookedThrough a b
  after : ∀ front s back, sections = front ++ s :: back →
    ∀ b, Relation.TransGen g.Uses b s.assembly → b ∈ front.map Section.assembly
  documented : ∀ s ∈ sections, g.Documents s.content s.assembly
  last : ∃ front content, sections = front ++ [⟨top, content, true⟩] ∧ ∀ s ∈ front, s.top = false

variable {g}

/-! ## Looking through -/

theorem heldBy_of_wrapped {a b : Fin g.size} (h : g.wrapped a = some b) :
    HeldBy g.assembly b a := by
  unfold wrapped at h
  split at h
  · rename_i c connected hchildren
    obtain ⟨-, h⟩ := Option.ite_none_right_eq_some.1 h
    obtain rfl := Option.some.inj h
    rw [HeldBy, hchildren]
    exact List.mem_singleton_self c
  · exact absurd h (by simp)

/-- The one that is looked through is all that the assembly holds. -/
theorem eq_of_heldBy_of_wrapped {a b c : Fin g.size} (h : g.wrapped a = some b)
    (hc : HeldBy g.assembly c a) : c = b := by
  unfold wrapped at h
  split at h
  · rename_i d connected hchildren
    obtain ⟨-, h⟩ := Option.ite_none_right_eq_some.1 h
    obtain rfl := Option.some.inj h
    rw [HeldBy, hchildren] at hc
    exact List.mem_singleton.1 hc
  · exact absurd h (by simp)

/-- What holds what is well-founded. -/
theorem wf_heldBy (g : Assemblies) : WellFounded (HeldBy g.assembly) := by
  have hirrefl : Std.Irrefl (Relation.TransGen (HeldBy g.assembly)) := ⟨g.acyclic⟩
  have hwf : WellFounded (Relation.TransGen (HeldBy g.assembly)) :=
    Finite.wellFounded_of_trans_of_irrefl _
  exact Subrelation.wf (fun h => Relation.TransGen.single h) hwf

/-- The loop ends, at the assembly that holds the steps. -/
theorem exists_stepSource (a : Fin g.size) :
    ∃ c N, (∀ n, N ≤ n → g.stepSource n a = some c) ∧ g.Documents c a := by
  induction a using (wf_heldBy g).induction with
  | _ a ih =>
    cases hwrapped : g.wrapped a with
    | none =>
      refine ⟨a, 1, fun n hn => ?_, Relation.ReflTransGen.refl, hwrapped⟩
      obtain ⟨n, rfl⟩ : ∃ m, n = m + 1 := ⟨n - 1, by omega⟩
      rw [stepSource, hwrapped]
    | some b =>
      obtain ⟨c, N, hc, hchain, hend⟩ := ih b (heldBy_of_wrapped hwrapped)
      refine ⟨c, N + 1, fun n hn => ?_, hchain.tail hwrapped, hend⟩
      obtain ⟨n, rfl⟩ : ∃ m, n = m + 1 := ⟨n - 1, by omega⟩
      rw [stepSource, hwrapped]
      exact hc n (by omega)

/-- One bound for the loops of all assemblies. -/
theorem exists_content (g : Assemblies) :
    ∃ (content : Fin g.size → Fin g.size) (N : ℕ),
      (∀ n, N ≤ n → ∀ a, g.stepSource n a = some (content a)) ∧ ∀ a, g.Documents (content a) a := by
  choose content bound hsteps hdoc using exists_stepSource (g := g)
  have hbound : ∀ a ∈ List.finRange g.size,
      ∃ N, ∀ n, N ≤ n → g.stepSource n a = some (content a) := fun a _ => ⟨bound a, hsteps a⟩
  obtain ⟨N, hN⟩ := PostOrder.exists_bound hbound
  exact ⟨content, N, fun n hn a => hN a (List.mem_finRange a) n hn, hdoc⟩

/-- Only one assembly holds the steps of another. -/
theorem Documents.unique {a c c' : Fin g.size} (h : g.Documents c a) (h' : g.Documents c' a) :
    c = c' := by
  obtain ⟨hchain, hend⟩ := h
  induction hchain with
  | refl =>
    rcases Relation.ReflTransGen.cases_tail h'.1 with heq | ⟨b, -, hb⟩
    · exact heq
    · rw [WrappedBy, hend] at hb
      exact absurd hb (by simp)
  | @tail b a _ hb ih =>
    rcases Relation.ReflTransGen.cases_tail h'.1 with heq | ⟨b', hchain', hb'⟩
    · obtain rfl := heq
      have hnone := h'.2
      rw [hb] at hnone
      exact absurd hnone (by simp)
    · have hbb : b = b' := Option.some.inj (hb.symm.trans hb')
      exact ih ⟨hbb ▸ hchain', h'.2⟩

/-- What is wrapped is held. -/
theorem heldBy_of_wrappedBy {a b : Fin g.size} (h : Relation.ReflTransGen g.WrappedBy b a) :
    Relation.ReflTransGen (HeldBy g.assembly) b a :=
  Relation.ReflTransGen.mono (fun _ _ => heldBy_of_wrapped) b a h

/-- What is used is held, directly or not. -/
theorem Uses.heldBy {a b : Fin g.size} (h : g.Uses b a) :
    Relation.TransGen (HeldBy g.assembly) b a := by
  obtain ⟨c, ⟨hchain, -⟩, hb⟩ := h
  exact Relation.TransGen.head' hb (heldBy_of_wrappedBy hchain)

/-- What an assembly holds is used by it, or looked through. -/
theorem uses_or_lookedThrough {a b : Fin g.size} (h : HeldBy g.assembly b a) :
    g.Uses b a ∨ g.WrappedBy b a := by
  cases hwrapped : g.wrapped a with
  | none => exact Or.inl ⟨a, ⟨Relation.ReflTransGen.refl, hwrapped⟩, h⟩
  | some c =>
    obtain rfl := eq_of_heldBy_of_wrapped hwrapped h
    exact Or.inr hwrapped

/-- The steps of the one that is looked through are those of the assembly. -/
theorem Uses.of_lookedThrough {a b c : Fin g.size} (h : g.Uses b c)
    (hc : Relation.ReflTransGen g.WrappedBy c a) : g.Uses b a := by
  obtain ⟨d, ⟨hchain, hend⟩, hb⟩ := h
  exact ⟨d, ⟨hchain.trans hc, hend⟩, hb⟩

/-- **What the top assembly holds**, directly or not, is used, or looked through from something that
is. -/
theorem reached_of_heldBy {a top : Fin g.size}
    (h : Relation.ReflTransGen (HeldBy g.assembly) a top) :
    ∃ b, Relation.ReflTransGen g.Uses b top ∧ Relation.ReflTransGen g.WrappedBy a b := by
  induction h using Relation.ReflTransGen.head_induction_on with
  | refl => exact ⟨top, Relation.ReflTransGen.refl, Relation.ReflTransGen.refl⟩
  | @head b c hbc _ ih =>
    obtain ⟨d, hd, hcd⟩ := ih
    rcases uses_or_lookedThrough hbc with huses | hwrapped
    · exact ⟨b, Relation.ReflTransGen.head (huses.of_lookedThrough hcd) hd,
        Relation.ReflTransGen.refl⟩
    · exact ⟨d, hd, Relation.ReflTransGen.head hwrapped hcd⟩

/-! ## The walk -/

/-- An assembly a package declares is known by its names, any other one by its identity. -/
theorem assemblyKey_inj {a b : Fin g.size} (h : g.assemblyKey a = g.assemblyKey b) : a = b := by
  unfold assemblyKey at h
  split at h <;> split at h
  · exact Key.identity.inj h
  · exact absurd h (by simp)
  · exact absurd h (by simp)
  · rename_i ha hb
    obtain ⟨hproject, hname⟩ := Key.named.inj h
    exact g.declared a b (by simpa using ha) (by simpa using hb) hproject hname

/-- The assemblies among the children of the one with the steps. -/
def usesOf (content : Fin g.size → Fin g.size) (a : Fin g.size) : List (Fin g.size) :=
  (g.assembly (content a)).children.filterMap Child.assembly?

/-- The section of an assembly that is not the top one. -/
def sectionOf (content : Fin g.size → Fin g.size) (a : Fin g.size) : Section g.size :=
  ⟨a, content a, false⟩

theorem usedBy_iff {content : Fin g.size → Fin g.size} (hdoc : ∀ a, g.Documents (content a) a)
    {a b : Fin g.size} : PostOrder.UsedBy (usesOf content) b a ↔ g.Uses b a := by
  constructor
  · exact fun h => ⟨content a, hdoc a, h⟩
  · rintro ⟨c, hc, hb⟩
    rw [(hc.unique (hdoc a))] at hb
    exact hb

theorem wf_usedBy {content : Fin g.size → Fin g.size} (hdoc : ∀ a, g.Documents (content a) a) :
    WellFounded (PostOrder.UsedBy (usesOf content)) :=
  Subrelation.wf (fun h => ((usedBy_iff hdoc).1 h).heldBy) (wf_heldBy g).transGen

/-- Only the children that are assemblies count. -/
theorem forAssemblies_eq {n : ℕ} {σ : Type} (body : Fin n → σ → Option σ)
    (children : List (Child n)) (st : σ) :
    forAssemblies body children st =
      (children.filterMap Child.assembly?).foldlM (fun st b => body b st) st := by
  unfold forAssemblies
  induction children generalizing st with
  | nil => rfl
  | cons child children ih =>
    obtain ⟨item, connected⟩ := child
    cases item with
    | part =>
      rw [List.foldlM_cons, List.filterMap_cons_none rfl, ← ih]
      rfl
    | assembly b =>
      have hchild : Child.assembly? ⟨.assembly b, connected⟩ = some b := rfl
      rw [List.foldlM_cons, List.filterMap_cons_some hchild, List.foldlM_cons]
      cases hbody : body b st with
      | none =>
        simp only [hbody]
        rfl
      | some st' =>
        simp only [hbody]
        exact ih st'

/-- What is done for each of a list, seen through a translation of the state. -/
theorem foldlM_map {α σ τ : Type} (f : α → σ → Option σ) (f' : α → τ → Option τ) (t : τ → σ)
    (h : ∀ a st, f a (t st) = (f' a st).map t) (as : List α) (st : τ) :
    as.foldlM (fun st a => f a st) (t st) = (as.foldlM (fun st a => f' a st) st).map t := by
  induction as generalizing st with
  | nil => rfl
  | cons a as ih =>
    rw [List.foldlM_cons, List.foldlM_cons, h]
    cases hstep : f' a st with
    | none => rfl
    | some st' => exact ih st'

/-- The sections of a list of assemblies. -/
def sectionsOf (content : Fin g.size → Fin g.size)
    (st : List (Fin g.size) × List (Key g.size)) : List (Section g.size) × List (Key g.size) :=
  (st.1.map (sectionOf content), st.2)

/-- The walk below an assembly that is not the top one lists what the general one does. -/
theorem collectSection_eq {loops : ℕ} {content : Fin g.size → Fin g.size}
    (hsteps : ∀ a, g.stepSource loops a = some (content a)) (n : ℕ) (a : Fin g.size)
    (st : List (Fin g.size) × List (Key g.size)) :
    g.collectSection loops n a false (sectionsOf content st) =
      (PostOrder.collect (usesOf content) g.assemblyKey n a st).map (sectionsOf content) := by
  induction n generalizing a st with
  | zero => rfl
  | succ n ih =>
    obtain ⟨nodes, seen⟩ := st
    rw [sectionsOf, collectSection, PostOrder.collect]
    by_cases hknown : g.assemblyKey a ∈ seen
    · rw [if_pos hknown, if_pos hknown]
      rfl
    · rw [if_neg hknown, if_neg hknown, hsteps a, Option.bind_some,
        forAssemblies_eq]
      rw [show ((nodes, seen).1.map (sectionOf content), g.assemblyKey a :: (nodes, seen).2) =
        sectionsOf content (nodes, g.assemblyKey a :: seen) from rfl]
      rw [foldlM_map (fun b st => g.collectSection loops n b false st)
        (PostOrder.collect (usesOf content) g.assemblyKey n) (sectionsOf content) (ih · ·)]
      rw [Option.map_map, Option.map_map]
      congr 1
      funext st
      simp [sectionsOf, sectionOf]

/-- The walk from the top assembly, which is the last to be listed. -/
theorem collectSections_eq {n : ℕ} {content : Fin g.size → Fin g.size}
    (hsteps : ∀ a, g.stepSource n a = some (content a)) {top : Fin g.size}
    {nodes : List (Fin g.size)} {seen : List (Key g.size)}
    (hcollect : PostOrder.collect (usesOf content) g.assemblyKey n top ([], []) =
      some (nodes, seen)) :
    ∃ front, nodes = front ++ [top] ∧
      g.collectSections n top =
        some (front.map (sectionOf content) ++ [⟨top, content top, true⟩]) := by
  cases n with
  | zero => exact absurd hcollect (by simp [PostOrder.collect])
  | succ n =>
    rw [PostOrder.collect, if_neg List.not_mem_nil] at hcollect
    obtain ⟨⟨front, seen'⟩, hfold, heq⟩ := Option.map_eq_some_iff.1 hcollect
    refine ⟨front, (congrArg Prod.fst heq).symm, ?_⟩
    rw [collectSections, collectSection, if_neg List.not_mem_nil, hsteps top, Option.bind_some,
      forAssemblies_eq]
    rw [show (([] : List (Section g.size)), [g.assemblyKey top]) =
      sectionsOf content ([], [g.assemblyKey top]) from rfl]
    rw [foldlM_map (fun b st => g.collectSection (n + 1) n b false st)
      (PostOrder.collect (usesOf content) g.assemblyKey n) (sectionsOf content)
      (collectSection_eq hsteps n)]
    rw [show (g.assembly (content top)).children.filterMap Child.assembly? =
      usesOf content top from rfl, hfold]
    rfl

/-! ## The guide -/

theorem map_assembly_sectionOf (content : Fin g.size → Fin g.size) (as : List (Fin g.size)) :
    (as.map (sectionOf content)).map Section.assembly = as := by
  rw [List.map_map]
  exact List.map_id as

/-- Everything that something listed uses, directly or not, is listed before it. -/
theorem mem_of_uses {content : Fin g.size → Fin g.size} (hdoc : ∀ a, g.Documents (content a) a)
    {nodes : List (Fin g.size)} {seen : List (Key g.size)}
    (hlisted : PostOrder.Listed (usesOf content) g.assemblyKey nodes seen)
    {front back : List (Fin g.size)} {a b : Fin g.size} (hnodes : nodes = front ++ a :: back)
    (h : Relation.TransGen g.Uses b a) : b ∈ front := by
  induction h using Relation.TransGen.head_induction_on with
  | single huses => exact hlisted.after front a back hnodes _ ((usedBy_iff hdoc).2 huses)
  | @head c d hcd _ ih =>
    obtain ⟨front', back', hfront⟩ := List.append_of_mem ih
    have hsplit : nodes = front' ++ d :: (back' ++ a :: back) := by
      rw [hnodes, hfront, List.append_assoc, List.cons_append]
    have hc : c ∈ front' := hlisted.after front' d _ hsplit _ ((usedBy_iff hdoc).2 hcd)
    rw [hfront]
    exact List.mem_append_left _ hc

/-- What is listed, and with which content, says what the guide is. -/
theorem inOrder_of_listed {content : Fin g.size → Fin g.size}
    (hdoc : ∀ a, g.Documents (content a) a) {top : Fin g.size} {front : List (Fin g.size)}
    {seen : List (Key g.size)}
    (hlisted : PostOrder.Listed (usesOf content) g.assemblyKey (front ++ [top]) seen)
    (hmem : ∀ b, b ∈ front ++ [top] ↔ PostOrder.Below (usesOf content) b top) :
    g.InOrder top (front.map (sectionOf content) ++ [⟨top, content top, true⟩]) := by
  have hassemblies : (front.map (sectionOf content) ++
      [(⟨top, content top, true⟩ : Section g.size)]).map Section.assembly = front ++ [top] := by
    rw [List.map_append, map_assembly_sectionOf, List.map_singleton]
  have hrel : PostOrder.UsedBy (usesOf content) = g.Uses := by
    funext b a
    exact propext (usedBy_iff hdoc)
  have hused : ∀ a, a ∈ front ++ [top] ↔ Relation.ReflTransGen g.Uses a top := by
    intro a
    rw [hmem a, PostOrder.Below, hrel]
  refine ⟨?_, ?_, ?_, ?_, ?_, ⟨front.map (sectionOf content), content top, rfl, ?_⟩⟩
  · rw [hassemblies]
    exact hlisted.nodup
  · rw [hassemblies]
    exact hused
  · rw [hassemblies]
    intro a ha
    obtain ⟨b, hb, hab⟩ := reached_of_heldBy ha
    rcases Relation.reflTransGen_iff_eq_or_transGen.1 hab with heq | hchain
    · rw [← heq]
      exact Or.inl ((hused b).2 hb)
    · exact Or.inr ⟨b, (hused b).2 hb, hchain⟩
  · intro before s back heq b hb
    have hnodes := congrArg (List.map Section.assembly) heq
    rw [hassemblies, List.map_append, List.map_cons] at hnodes
    exact mem_of_uses hdoc hlisted hnodes hb
  · intro s hs
    rcases List.mem_append.1 hs with hs | hs
    · obtain ⟨a, -, rfl⟩ := List.mem_map.1 hs
      exact hdoc a
    · rw [List.mem_singleton.1 hs]
      exact hdoc top
  · intro s hs
    obtain ⟨a, -, rfl⟩ := List.mem_map.1 hs
    rfl

/-- Collecting the sections ends, and they are in order. -/
theorem exists_inOrder (g : Assemblies) (top : Fin g.size) :
    ∃ N, ∀ n, N ≤ n → ∃ sections, g.collectSections n top = some sections ∧
      g.InOrder top sections := by
  obtain ⟨content, N, hsteps, hdoc⟩ := exists_content g
  obtain ⟨M, hM⟩ := PostOrder.collect_spec (fun _ _ => assemblyKey_inj) (wf_usedBy hdoc) top
  refine ⟨max N M, fun n hn => ?_⟩
  obtain ⟨nodes, seen, hcollect, hlisted, hmem, -⟩ := hM n (by omega)
  obtain ⟨front, rfl, hsections⟩ := collectSections_eq (hsteps n (by omega)) hcollect
  exact ⟨_, hsections, inOrder_of_listed hdoc hlisted hmem⟩

/-- **The sections of a guide.**  Collecting them ends, and every assembly the top one holds has one
section, unless it is looked through; it comes after those of all that it uses, and the one of the
top assembly is last. -/
theorem collectSections_spec (g : Assemblies) (top : Fin g.size) :
    ∃ N, ∀ n, N ≤ n → ∃ sections, g.collectSections n top = some sections ∧
      g.InOrder top sections :=
  exists_inOrder g top

end Assemblies

end PartCAD.Guide
