import Mathlib.Logic.Relation
import Mathlib.Algebra.BigOperators.Group.List.Basic
import PartCAD.Lib.Text

/-!
# Walking a tree, level by level

The nodes of a tree are taken from the front of a queue, and the children of each go to its end.

* `walk` : the nodes in the order in which they are met;
* `forall_walk` : what holds of every node that is met holds of a node and of what is met below its
  children.
-/

namespace PartCAD.Lib.BreadthFirst

variable {T : Type} (children : T → List T)

/-- The nodes that are met, at most so many. -/
def walkFrom : ℕ → List T → List T
  | 0, _ => []
  | _ + 1, [] => []
  | n + 1, node :: todo => node :: walkFrom n (todo ++ children node)

/-- One is the other, or a node below it. -/
def Under (x t : T) : Prop := Relation.ReflTransGen (fun a b => b ∈ children a) t x

variable {children}

theorem under_iff {x t : T} : Under children x t ↔ x = t ∨ ∃ c ∈ children t, Under children x c := by
  constructor
  · intro h
    rcases Relation.ReflTransGen.cases_head h with rfl | ⟨c, hc, h⟩
    · exact .inl rfl
    · exact .inr ⟨c, hc, h⟩
  · rintro (rfl | ⟨c, hc, h⟩)
    · exact Relation.ReflTransGen.refl
    · exact Relation.ReflTransGen.head hc h

variable (size : T → ℕ)

/-- The sizes of what is in the queue. -/
def total (todo : List T) : ℕ := (todo.map size).sum

theorem total_append (s t : List T) : total size (s ++ t) = total size s + total size t := by
  rw [total, total, total, List.map_append, List.sum_append]

/-- **Every node is met**, when there is time for all of them. -/
theorem mem_walkFrom (hsize : ∀ t, total size (children t) < size t) {n : ℕ} {todo : List T}
    (hn : total size todo ≤ n) {x : T} :
    x ∈ walkFrom children n todo ↔ ∃ t ∈ todo, Under children x t := by
  induction n generalizing todo with
  | zero =>
    cases todo with
    | nil => simp [walkFrom]
    | cons t todo =>
      have hpos := hsize t
      have htotal : total size (t :: todo) = size t + total size todo := by
        rw [total, List.map_cons, List.sum_cons, total]
      omega
  | succ n ih =>
    cases todo with
    | nil => simp [walkFrom]
    | cons t todo =>
      have hpos := hsize t
      have htotal : total size (t :: todo) = size t + total size todo := by
        rw [total, List.map_cons, List.sum_cons, total]
      have hrest : total size (todo ++ children t) ≤ n := by
        rw [total_append]
        omega
      rw [walkFrom, List.mem_cons, ih hrest]
      constructor
      · rintro (rfl | ⟨s, hs, hx⟩)
        · exact ⟨x, List.mem_cons_self, Relation.ReflTransGen.refl⟩
        · rcases List.mem_append.1 hs with hs | hs
          · exact ⟨s, List.mem_cons_of_mem _ hs, hx⟩
          · exact ⟨t, List.mem_cons_self, under_iff.2 (.inr ⟨s, hs, hx⟩)⟩
      · rintro ⟨s, hs, hx⟩
        rcases List.mem_cons.1 hs with rfl | hs
        · rcases under_iff.1 hx with rfl | ⟨c, hc, hx⟩
          · exact .inl rfl
          · exact .inr ⟨c, List.mem_append_right _ hc, hx⟩
        · exact .inr ⟨s, List.mem_append_left _ hs, hx⟩

/-- The nodes of a tree. -/
def walk (children : T → List T) (size : T → ℕ) (t : T) : List T := walkFrom children (size t) [t]

theorem mem_walk (hsize : ∀ t, total size (children t) < size t) {x t : T} :
    x ∈ walk children size t ↔ Under children x t := by
  have hone : total size [t] = size t := by rw [total, List.map_singleton, List.sum_singleton]
  have hn : total size [t] ≤ size t := Nat.le_of_eq hone
  rw [walk, mem_walkFrom size hsize hn]
  simp

/-- **Node by node**: what holds of all nodes holds of the first, and below each of its children. -/
theorem forall_walk (hsize : ∀ t, total size (children t) < size t) {P : T → Prop} {t : T} :
    (∀ x ∈ walk children size t, P x) ↔
      P t ∧ ∀ c ∈ children t, ∀ x ∈ walk children size c, P x := by
  simp only [mem_walk size hsize]
  constructor
  · intro h
    refine ⟨h t Relation.ReflTransGen.refl, ?_⟩
    intro c hc x hx
    exact h x (under_iff.2 (.inr ⟨c, hc, hx⟩))
  · rintro ⟨ht, h⟩ x hx
    rcases under_iff.1 hx with rfl | ⟨c, hc, hx⟩
    · exact ht
    · exact h c hc x hx

end PartCAD.Lib.BreadthFirst
