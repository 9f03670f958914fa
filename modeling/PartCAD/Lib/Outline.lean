import Mathlib.Data.List.Basic
import Mathlib.Tactic.Common

/-!
# Items in containers

An outline is a list of items, some of which hold others.  An item that holds others may be embedded:
then what it holds is listed with what is around it.  A place is the way to an item, as the positions in
the lists on the way.

* `sites` : every item that is listed, with the list that it is in and what that list is within;
* `leaves` : every item that holds nothing, embedded or not;
* `get?_of_mem_sites`, `get?_of_mem_leaves` : both are found at their places;
* `site_unique` : nothing is listed twice.
-/

namespace PartCAD.Lib

/-- An item. -/
inductive Outline (α : Type) where
  | leaf (label : α)
  | node (label : α) (embedded : Bool) (items : List (Outline α))

/-- An item that is listed. -/
structure Site (α : Type) where
  /-- what it is within, the outermost first -/
  above : List α
  /-- the place of the list -/
  place : List ℕ
  siblings : List (Outline α)
  index : ℕ
  item : Outline α

/-- An item that holds nothing. -/
structure Leaf (α : Type) where
  above : List α
  place : List ℕ
  label : α

namespace Outline

variable {α : Type}

def label : Outline α → α
  | .leaf a => a
  | .node a _ _ => a

def items : Outline α → List (Outline α)
  | .leaf _ => []
  | .node _ _ items => items

mutual
/-- What is listed within an item. -/
def sitesIn (above : List α) (place : List ℕ) : Outline α → List (Site α)
  | .leaf _ => []
  | .node a embedded items => if embedded then sitesFrom (above ++ [a]) place items 0 items else []
/-- What is listed from the `i`-th of some siblings on. -/
def sitesFrom (above : List α) (place : List ℕ) (siblings : List (Outline α)) :
    ℕ → List (Outline α) → List (Site α)
  | _, [] => []
  | i, item :: rest =>
    ⟨above, place, siblings, i, item⟩ ::
      (sitesIn above (place ++ [i]) item ++ sitesFrom above place siblings (i + 1) rest)
end

/-- Every item that is listed. -/
def sites (items : List (Outline α)) : List (Site α) := sitesFrom [] [] items 0 items

mutual
/-- The leaves of an item. -/
def leavesIn (above : List α) (place : List ℕ) : Outline α → List (Leaf α)
  | .leaf a => [⟨above, place, a⟩]
  | .node a _ items => leavesFrom (above ++ [a]) place 0 items
/-- The leaves of some siblings, the first of which is the `i`-th. -/
def leavesFrom (above : List α) (place : List ℕ) : ℕ → List (Outline α) → List (Leaf α)
  | _, [] => []
  | i, item :: rest => leavesIn above (place ++ [i]) item ++ leavesFrom above place (i + 1) rest
end

def leaves (items : List (Outline α)) : List (Leaf α) := leavesFrom [] [] 0 items

/-- What is at a place. -/
def get? : List (Outline α) → List ℕ → Option (Outline α)
  | _, [] => none
  | items, [i] => items[i]?
  | items, i :: place => items[i]?.bind fun item => get? item.items place

end Outline

/-- Where an item is. -/
def Site.own {α : Type} (s : Site α) : List ℕ := s.place ++ [s.index]

/-- The first of the siblings before an item that has a property. -/
def Site.firstBefore {α : Type} (s : Site α) (p : Outline α → Bool) : Option ℕ :=
  (s.siblings.take s.index).findIdx? p

/-- What is known of an item. -/
def Site.label {α : Type} (s : Site α) : α := s.item.label

/-- A leaf is the item at a place, or is within it. -/
def Leaf.Inside {α : Type} (l : Leaf α) (place : List ℕ) : Prop := place.IsPrefix l.place

instance {α : Type} (l : Leaf α) (place : List ℕ) : Decidable (l.Inside place) :=
  inferInstanceAs (Decidable (place.IsPrefix l.place))

theorem Site.firstBefore_eq_some {α : Type} {s : Site α} {p : Outline α → Bool} {j : ℕ}
    (h : s.firstBefore p = some j) : ∃ item, s.siblings[j]? = some item ∧ p item := by
  obtain ⟨hlt, hp, -⟩ := List.findIdx?_eq_some_iff_getElem.1 h
  rw [List.getElem_take] at hp
  exact ⟨_, List.getElem?_eq_getElem _, hp⟩

namespace Outline

variable {α : Type}

/-! ## Places -/

theorem get?_cons (items : List (Outline α)) (i : ℕ) {place : List ℕ} (h : place ≠ []) :
    get? items (i :: place) = items[i]?.bind fun item => get? item.items place := by
  cases place with
  | nil => exact absurd rfl h
  | cons j place => rfl

/-- A site is in the list at the place `within` of some items, itself at the index that it has there. -/
structure At (items : List (Outline α)) (within : List ℕ) (s : Site α) : Prop where
  found : s.siblings[s.index]? = some s.item
  siblings : ∀ j, get? items (within ++ [j]) = s.siblings[j]?

theorem At.within {items : List (Outline α)} {i : ℕ} {item : Outline α} {way : List ℕ} {s : Site α}
    (h : At item.items way s) (hitem : items[i]? = some item) : At items (i :: way) s := by
  refine ⟨h.found, fun j => ?_⟩
  rw [List.cons_append, get?_cons _ _ (by simp), hitem, Option.bind_some, h.siblings]

mutual
theorem at_of_mem_sitesIn {above : List α} {place : List ℕ} {s : Site α} :
    ∀ item : Outline α, s ∈ sitesIn above place item →
      ∃ way, s.place = place ++ way ∧ At item.items way s
  | .leaf _, h => nomatch h
  | .node a embedded items, h => by
    rw [sitesIn] at h
    split at h
    · exact at_of_mem_sitesFrom items 0 items rfl h
    · cases h
theorem at_of_mem_sitesFrom {above : List α} {place : List ℕ} {s : Site α}
    (siblings : List (Outline α)) : ∀ (i : ℕ) (rest : List (Outline α)), siblings.drop i = rest →
      s ∈ sitesFrom above place siblings i rest →
        ∃ way, s.place = place ++ way ∧ At siblings way s
  | _, [], _, h => nomatch h
  | i, item :: rest, hrest, h => by
    have hitem : siblings[i]? = some item := by
      rw [← List.head?_drop, hrest]
      rfl
    rw [sitesFrom] at h
    rcases List.mem_cons.1 h with rfl | h
    · exact ⟨[], (List.append_nil _).symm, hitem, fun j => rfl⟩
    · rcases List.mem_append.1 h with h | h
      · obtain ⟨way, hplace, hat⟩ := at_of_mem_sitesIn item h
        exact ⟨i :: way, by rw [hplace, List.append_assoc, List.singleton_append], hat.within hitem⟩
      · refine at_of_mem_sitesFrom siblings (i + 1) rest ?_ h
        rw [← List.tail_drop, hrest]
        rfl
end

/-- **An item is where it is listed**, and so are its siblings. -/
theorem get?_of_mem_sites {items : List (Outline α)} {s : Site α} (h : s ∈ sites items) :
    s.siblings[s.index]? = some s.item ∧ ∀ j, get? items (s.place ++ [j]) = s.siblings[j]? := by
  obtain ⟨way, hplace, hfound, hsiblings⟩ := at_of_mem_sitesFrom items 0 items rfl h
  rw [List.nil_append] at hplace
  subst hplace
  exact ⟨hfound, hsiblings⟩

/-- Items of one list have the same siblings. -/
theorem siblings_unique {items : List (Outline α)} {s s' : Site α} (h : s ∈ sites items)
    (h' : s' ∈ sites items) (hplace : s.place = s'.place) : s.siblings = s'.siblings :=
  List.ext_getElem? fun j => by
    rw [← (get?_of_mem_sites h).2, ← (get?_of_mem_sites h').2, hplace]

/-- **An item is listed once**: what is listed at one place is one item, among the same siblings. -/
theorem site_unique {items : List (Outline α)} {s s' : Site α} (h : s ∈ sites items)
    (h' : s' ∈ sites items) (hown : s.own = s'.own) :
    s.place = s'.place ∧ s.index = s'.index ∧ s.siblings = s'.siblings ∧ s.item = s'.item := by
  obtain ⟨hplace, hindex⟩ := List.append_inj' hown rfl
  have hindex : s.index = s'.index := List.singleton_inj.1 hindex
  have hsame := siblings_unique h h' hplace
  refine ⟨hplace, hindex, hsame, Option.some.inj ?_⟩
  rw [← (get?_of_mem_sites h).1, ← (get?_of_mem_sites h').1, hsame, hindex]

mutual
theorem get?_of_mem_leavesIn {above : List α} {place : List ℕ} {l : Leaf α} :
    ∀ item : Outline α, l ∈ leavesIn above place item →
      item = .leaf l.label ∧ l.place = place ∨
        ∃ way, way ≠ [] ∧ l.place = place ++ way ∧ get? item.items way = some (.leaf l.label)
  | .leaf a, h => by
    obtain rfl := List.mem_singleton.1 h
    exact .inl ⟨rfl, rfl⟩
  | .node a embedded items, h => .inr (get?_of_mem_leavesFrom items 0 items rfl h)
theorem get?_of_mem_leavesFrom {above : List α} {place : List ℕ} {l : Leaf α}
    (siblings : List (Outline α)) : ∀ (i : ℕ) (rest : List (Outline α)), siblings.drop i = rest →
      l ∈ leavesFrom above place i rest →
        ∃ way, way ≠ [] ∧ l.place = place ++ way ∧ get? siblings way = some (.leaf l.label)
  | _, [], _, h => nomatch h
  | i, item :: rest, hrest, h => by
    have hitem : siblings[i]? = some item := by
      rw [← List.head?_drop, hrest]
      rfl
    rw [leavesFrom] at h
    rcases List.mem_append.1 h with h | h
    · rcases get?_of_mem_leavesIn item h with ⟨hleaf, hplace⟩ | ⟨way, hne, hplace, hget⟩
      · exact ⟨[i], List.cons_ne_nil _ _, hplace, hitem.trans (congrArg some hleaf)⟩
      · refine ⟨i :: way, List.cons_ne_nil _ _, ?_, ?_⟩
        · rw [hplace, List.append_assoc, List.singleton_append]
        · rw [get?_cons _ _ hne, hitem, Option.bind_some, hget]
    · refine get?_of_mem_leavesFrom siblings (i + 1) rest ?_ h
      rw [← List.tail_drop, hrest]
      rfl
end

/-- **A leaf is at its place.** -/
theorem get?_of_mem_leaves {items : List (Outline α)} {l : Leaf α} (h : l ∈ leaves items) :
    get? items l.place = some (.leaf l.label) := by
  obtain ⟨way, -, hplace, hget⟩ := get?_of_mem_leavesFrom items 0 items rfl h
  rw [List.nil_append] at hplace
  rwa [hplace]

end Outline

end PartCAD.Lib
