import Mathlib.Algebra.Group.Defs
import Mathlib.Data.List.Count
import Mathlib.Data.List.Nodup
import Mathlib.Tactic.Common

/-!
# Trees by their edges

A tree is a list of nodes and a list of edges from a parent to a child.  The labels along the edges
are multiplied from the root down.

* `Reaches` : a node is reached from the root, with the product of the labels on the way;
* `Reaches.unique` : there is one way to a node;
* `RootedTree` : every node but the root has one parent, and all are reached from the root;
* `RootedTree.root_unique` : there is one root;
* `Grown` : how a tree is put together, one node after the other.
-/

namespace PartCAD.Lib

/-- From a parent to a child, with a label. -/
structure Edge (α M : Type) where
  parent : α
  child : α
  label : M

variable {α M : Type} [Monoid M]

/-- There is a way from the root to the node, with the labels on it. -/
inductive Reaches (edges : List (Edge α M)) (root : α) : α → M → Prop
  | root : Reaches edges root root 1
  | edge {e : Edge α M} {m : M} :
    e ∈ edges → Reaches edges root e.parent m → Reaches edges root e.child (m * e.label)

theorem Reaches.mono {edges edges' : List (Edge α M)} {root a : α} {m : M}
    (hsub : ∀ e ∈ edges, e ∈ edges') (h : Reaches edges root a m) : Reaches edges' root a m := by
  induction h with
  | root => exact .root
  | edge he _ ih => exact .edge (hsub _ he) ih

/-- **There is one way to a node**, when no edge leads to the root and one at most to any other. -/
theorem Reaches.unique {edges : List (Edge α M)} {root : α} (hroot : ∀ e ∈ edges, e.child ≠ root)
    (hone : ∀ e ∈ edges, ∀ e' ∈ edges, e.child = e'.child → e = e') {a : α} {m m' : M}
    (ha : Reaches edges root a m) (ha' : Reaches edges root a m') : m = m' := by
  induction ha generalizing m' with
  | root =>
    generalize hb : root = b at ha'
    cases ha' with
    | root => rfl
    | edge he _ => exact absurd hb.symm (hroot _ he)
  | @edge e m he hparent ih =>
    generalize hb : e.child = b at ha'
    cases ha' with
    | root => exact absurd hb (hroot e he)
    | @edge e' m' he' hparent' =>
      obtain rfl := hone e he e' he' hb
      rw [ih hparent']

/-- A tree that hangs from one node. -/
structure RootedTree [DecidableEq α] (root : α) (nodes : List α) (edges : List (Edge α M)) : Prop where
  distinct : nodes.Nodup
  root_mem : root ∈ nodes
  ends : ∀ e ∈ edges, e.parent ∈ nodes ∧ e.child ∈ nodes
  root_free : ∀ e ∈ edges, e.child ≠ root
  one_parent : ∀ a ∈ nodes, a ≠ root → edges.countP (fun e => e.child = a) = 1
  reached : ∀ a ∈ nodes, ∃ m, Reaches edges root a m

/-- A tree hangs from one node only. -/
theorem RootedTree.root_unique [DecidableEq α] {root root' : α} {nodes : List α}
    {edges : List (Edge α M)} (h : RootedTree root nodes edges) (h' : RootedTree root' nodes edges) :
    root = root' := by
  by_contra hne
  have hcount := h.one_parent root' h'.root_mem (Ne.symm hne)
  have hpos : 0 < edges.countP fun e => decide (e.child = root') := by omega
  obtain ⟨e, he, hchild⟩ := List.countP_pos_iff.1 hpos
  exact h'.root_free e he (of_decide_eq_true hchild)

/-- Put together from the root on: every edge came with its child. -/
structure Grown (root : α) (nodes : List α) (edges : List (Edge α M)) : Prop where
  distinct : nodes.Nodup
  children : nodes = root :: edges.map Edge.child
  parents : ∀ e ∈ edges, e.parent ∈ nodes
  reached : ∀ a ∈ nodes, ∃ m, Reaches edges root a m

namespace Grown

variable {root : α} {nodes : List α} {edges : List (Edge α M)}

/-- The root alone. -/
theorem single (root : α) : Grown root [root] ([] : List (Edge α M)) where
  distinct := List.nodup_singleton root
  children := rfl
  parents _ he := absurd he List.not_mem_nil
  reached a ha := by
    obtain rfl := List.mem_singleton.1 ha
    exact ⟨1, .root⟩

/-- A new node below one that is there. -/
theorem add (h : Grown root nodes edges) {e : Edge α M} (hparent : e.parent ∈ nodes)
    (hchild : e.child ∉ nodes) : Grown root (nodes ++ [e.child]) (edges ++ [e]) := by
  have hsub : ∀ d ∈ edges, d ∈ edges ++ [e] := fun d hd => List.mem_append_left _ hd
  refine ⟨?_, ?_, ?_, ?_⟩
  · refine h.distinct.append (List.nodup_singleton _) ?_
    rw [List.disjoint_singleton]
    exact hchild
  · rw [h.children, List.map_append, List.cons_append]
    rfl
  · intro d hd
    rcases List.mem_append.1 hd with hd | hd
    · exact List.mem_append_left _ (h.parents d hd)
    · obtain rfl := List.mem_singleton.1 hd
      exact List.mem_append_left _ hparent
  · intro a ha
    rcases List.mem_append.1 ha with ha | ha
    · obtain ⟨m, hm⟩ := h.reached a ha
      exact ⟨m, hm.mono hsub⟩
    · obtain rfl := List.mem_singleton.1 ha
      obtain ⟨m, hm⟩ := h.reached e.parent hparent
      exact ⟨m * e.label, .edge (List.mem_append_right _ (List.mem_singleton_self e)) (hm.mono hsub)⟩

theorem root_mem (h : Grown root nodes edges) : root ∈ nodes := by
  rw [h.children]
  exact List.mem_cons_self

theorem child_mem (h : Grown root nodes edges) {e : Edge α M} (he : e ∈ edges) : e.child ∈ nodes := by
  rw [h.children]
  exact List.mem_cons_of_mem _ (List.mem_map_of_mem he)

theorem mem_of_reaches (h : Grown root nodes edges) {a : α} {m : M} (ha : Reaches edges root a m) :
    a ∈ nodes := by
  cases ha with
  | root => exact h.root_mem
  | edge he _ => exact h.child_mem he

theorem nodup_cons (h : Grown root nodes edges) : (root :: edges.map Edge.child).Nodup :=
  h.children ▸ h.distinct

theorem root_free (h : Grown root nodes edges) {e : Edge α M} (he : e ∈ edges) : e.child ≠ root := by
  intro heq
  have hmem : e.child ∈ edges.map Edge.child := List.mem_map_of_mem he
  exact (List.nodup_cons.1 h.nodup_cons).1 (heq ▸ hmem)

theorem edge_unique (h : Grown root nodes edges) {e e' : Edge α M} (he : e ∈ edges) (he' : e' ∈ edges)
    (heq : e.child = e'.child) : e = e' :=
  List.inj_on_of_nodup_map (List.nodup_cons.1 h.nodup_cons).2 he he' heq

/-- There is one way to a node. -/
theorem reaches_unique (h : Grown root nodes edges) {a : α} {m m' : M}
    (ha : Reaches edges root a m) (ha' : Reaches edges root a m') : m = m' :=
  ha.unique (fun _ he => h.root_free he) (fun _ he _ he' => h.edge_unique he he') ha'

/-- **What was grown is a tree.** -/
theorem rootedTree [DecidableEq α] (h : Grown root nodes edges) : RootedTree root nodes edges where
  distinct := h.distinct
  root_mem := h.root_mem
  ends e he := ⟨h.parents e he, h.child_mem he⟩
  root_free _ he := h.root_free he
  one_parent a ha hne := by
    have hmem : a ∈ edges.map Edge.child := by
      rw [h.children] at ha
      exact (List.mem_cons.1 ha).resolve_left hne
    have hcount := List.count_eq_one_of_mem (List.nodup_cons.1 h.nodup_cons).2 hmem
    rw [List.count, List.countP_map] at hcount
    rw [← hcount]
    refine List.countP_congr fun e _ => ?_
    simp
  reached := h.reached

end Grown

end PartCAD.Lib
