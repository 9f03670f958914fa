import Mathlib.Data.List.Nodup
import Mathlib.Data.List.Perm.Subperm
import Mathlib.Tactic.Common

/-!
# Forests by their parents

A forest is a list of nodes, some of which name a parent.  A node whose parent is not among the nodes
is a root.  The nodes are listed with a stack: the top is taken off and listed, and its children are
put on.

* `Hangs` : a node is a root, or below a node that hangs;
* `preorder_perm` : every node is listed, once;
* `preorder_parentsFirst` : a node is listed after its parent.
-/

namespace PartCAD.Lib

variable {α : Type} [DecidableEq α]

section

variable (nodes : List α) (parent : α → Option α)

/-- The parent, when it is one of the nodes. -/
def above (a : α) : Option α := (parent a).filter (· ∈ nodes)

def roots : List α := nodes.filter fun a => above nodes parent a = none

def childrenOf (p : α) : List α := nodes.filter fun a => above nodes parent a = some p

/-- Listing with a stack, for a number of nodes. -/
def visit (children : α → List α) : ℕ → List α → List α → List α
  | 0, _, ordered => ordered
  | _ + 1, [], ordered => ordered
  | n + 1, a :: stack, ordered => visit children n (children a ++ stack) (ordered ++ [a])

def preorder : List α := visit (childrenOf nodes parent) nodes.length (roots nodes parent) []

/-- Every node is below a root. -/
inductive Hangs : α → Prop
  | root {a : α} : a ∈ nodes → above nodes parent a = none → Hangs a
  | child {a p : α} : a ∈ nodes → above nodes parent a = some p → Hangs p → Hangs a

/-- No node stands before its parent. -/
def ParentsFirst (ordered : List α) : Prop :=
  ∀ l a r, ordered = l ++ a :: r → ∀ p, above nodes parent a = some p → p ∈ l

/-- Part of the nodes are listed, and the nodes on the stack come next. -/
structure Visiting (ordered stack : List α) : Prop where
  nodup : (ordered ++ stack).Nodup
  known : ∀ a ∈ ordered ++ stack, a ∈ nodes
  starts : ∀ a ∈ nodes, above nodes parent a = none → a ∈ ordered ++ stack
  closed : ∀ p ∈ ordered, ∀ a ∈ nodes, above nodes parent a = some p → a ∈ ordered ++ stack
  parents : ∀ a ∈ stack, ∀ p, above nodes parent a = some p → p ∈ ordered
  first : ParentsFirst nodes parent ordered

end

variable {nodes : List α} {parent : α → Option α}

theorem above_mem {a p : α} (h : above nodes parent a = some p) : p ∈ nodes := by
  unfold above at h
  exact of_decide_eq_true (Option.filter_eq_some_iff.1 h).2

theorem mem_childrenOf {a p : α} :
    a ∈ childrenOf nodes parent p ↔ a ∈ nodes ∧ above nodes parent a = some p := by
  rw [childrenOf, List.mem_filter, decide_eq_true_iff]

theorem mem_roots {a : α} : a ∈ roots nodes parent ↔ a ∈ nodes ∧ above nodes parent a = none := by
  rw [roots, List.mem_filter, decide_eq_true_iff]

/-- One more node at the end, whose parent is there. -/
theorem ParentsFirst.concat {ordered : List α} (h : ParentsFirst nodes parent ordered) {a : α}
    (ha : ∀ p, above nodes parent a = some p → p ∈ ordered) :
    ParentsFirst nodes parent (ordered ++ [a]) := by
  intro l b r heq p hp
  rcases List.eq_nil_or_concat r with rfl | ⟨r, c, rfl⟩
  · obtain ⟨rfl, hb⟩ := List.append_inj' heq rfl
    obtain rfl : a = b := List.head_eq_of_cons_eq hb
    exact ha p hp
  · have hsplit : ordered ++ [a] = (l ++ b :: r) ++ [c] := by
      rw [heq, List.concat_eq_append, List.append_assoc, List.cons_append]
    obtain ⟨rfl, -⟩ := List.append_inj' hsplit rfl
    exact h l b r rfl p hp

theorem ParentsFirst.mem {ordered : List α} (h : ParentsFirst nodes parent ordered) {a p : α}
    (ha : a ∈ ordered) (hp : above nodes parent a = some p) : p ∈ ordered := by
  obtain ⟨l, r, rfl⟩ := List.append_of_mem ha
  exact List.mem_append_left _ (h l a r rfl p hp)

namespace Visiting

theorem start (hnodes : nodes.Nodup) : Visiting nodes parent [] (roots nodes parent) where
  nodup := hnodes.filter _
  known _ ha := (mem_roots.1 ha).1
  starts _ ha hroot := mem_roots.2 ⟨ha, hroot⟩
  closed _ hp := absurd hp List.not_mem_nil
  parents a ha p hp := by
    rw [(mem_roots.1 ha).2] at hp
    exact absurd hp (by simp)
  first l a r heq := absurd heq (by simp)

/-- The children of the node on top are new. -/
theorem disjoint_children {ordered stack : List α} {a : α}
    (h : Visiting nodes parent ordered (a :: stack)) :
    (ordered ++ a :: stack).Disjoint (childrenOf nodes parent a) := by
  have hfresh : a ∉ ordered := fun ha => (List.disjoint_of_nodup_append h.nodup) ha List.mem_cons_self
  intro c hc hchild
  obtain ⟨-, hparent⟩ := mem_childrenOf.1 hchild
  rcases List.mem_append.1 hc with hc | hc
  · exact hfresh (h.first.mem hc hparent)
  · exact hfresh (h.parents c hc a hparent)

/-- **Listing one node.** -/
theorem step (hnodes : nodes.Nodup) {ordered stack : List α} {a : α}
    (h : Visiting nodes parent ordered (a :: stack)) :
    Visiting nodes parent (ordered ++ [a]) (childrenOf nodes parent a ++ stack) := by
  have hperm : (ordered ++ [a] ++ (childrenOf nodes parent a ++ stack)).Perm
      (ordered ++ a :: stack ++ childrenOf nodes parent a) := by
    rw [List.append_assoc, List.singleton_append, List.append_assoc]
    refine List.Perm.append_left ordered ?_
    rw [List.cons_append]
    exact (List.perm_append_comm).cons a
  have hmem : ∀ {b}, b ∈ ordered ++ [a] ++ (childrenOf nodes parent a ++ stack) ↔
      b ∈ ordered ++ a :: stack ∨ b ∈ childrenOf nodes parent a := by
    intro b
    rw [hperm.mem_iff, List.mem_append]
  refine ⟨?_, ?_, ?_, ?_, ?_, ?_⟩
  · exact hperm.nodup_iff.2 (h.nodup.append (hnodes.filter _) h.disjoint_children)
  · intro b hb
    rcases hmem.1 hb with hb | hb
    · exact h.known b hb
    · exact (mem_childrenOf.1 hb).1
  · intro b hb hroot
    exact hmem.2 (Or.inl (h.starts b hb hroot))
  · intro p hp b hb hparent
    rcases List.mem_append.1 hp with hp | hp
    · exact hmem.2 (Or.inl (h.closed p hp b hb hparent))
    · obtain rfl := List.mem_singleton.1 hp
      exact hmem.2 (Or.inr (mem_childrenOf.2 ⟨hb, hparent⟩))
  · intro b hb p hparent
    rcases List.mem_append.1 hb with hb | hb
    · have heq := (mem_childrenOf.1 hb).2
      rw [hparent] at heq
      obtain rfl := Option.some.inj heq
      exact List.mem_append_right _ (List.mem_singleton_self _)
    · exact List.mem_append_left _ (h.parents b (List.mem_cons_of_mem _ hb) p hparent)
  · exact h.first.concat fun p hp => h.parents a List.mem_cons_self p hp

/-- The stack is empty at the end. -/
theorem run (hnodes : nodes.Nodup) {n : ℕ} {ordered stack : List α}
    (h : Visiting nodes parent ordered stack) (hn : nodes.length ≤ ordered.length + n) :
    Visiting nodes parent (visit (childrenOf nodes parent) n stack ordered) [] := by
  induction n generalizing ordered stack with
  | zero =>
    -- all nodes are listed, so that none is on the stack
    have hlength := (List.subperm_of_subset h.nodup h.known).length_le
    rw [List.length_append] at hlength
    obtain rfl : stack = [] := List.length_eq_zero_iff.1 (by omega)
    exact h
  | succ n ih =>
    cases stack with
    | nil => exact h
    | cons a stack =>
      refine ih (h.step hnodes) ?_
      rw [List.length_append, List.length_singleton]
      omega

/-- What hangs from a root is listed. -/
theorem mem_of_hangs {ordered : List α} (h : Visiting nodes parent ordered []) {a : α}
    (ha : Hangs nodes parent a) : a ∈ ordered := by
  induction ha with
  | root hmem hroot => exact List.append_nil ordered ▸ h.starts _ hmem hroot
  | child hmem hparent _ ih => exact List.append_nil ordered ▸ h.closed _ ih _ hmem hparent

end Visiting

theorem visiting_preorder (hnodes : nodes.Nodup) :
    Visiting nodes parent (preorder nodes parent) [] :=
  (Visiting.start hnodes).run hnodes (Nat.le_add_left _ _)

/-- **Every node is listed**, once. -/
theorem preorder_perm (hnodes : nodes.Nodup) (hforest : ∀ a ∈ nodes, Hangs nodes parent a) :
    (preorder nodes parent).Perm nodes := by
  have hvisiting : Visiting nodes parent (preorder nodes parent) [] := visiting_preorder hnodes
  refine (List.perm_ext_iff_of_nodup ?_ hnodes).2 fun a => ⟨?_, ?_⟩
  · exact List.append_nil (preorder nodes parent) ▸ hvisiting.nodup
  · exact fun ha => hvisiting.known a (List.mem_append_left _ ha)
  · exact fun ha => hvisiting.mem_of_hangs (hforest a ha)

/-- **Parents are listed first.** -/
theorem preorder_parentsFirst (hnodes : nodes.Nodup) :
    ParentsFirst nodes parent (preorder nodes parent) :=
  (visiting_preorder hnodes).first

end PartCAD.Lib
