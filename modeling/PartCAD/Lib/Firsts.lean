import Mathlib.Data.List.Induction
import Mathlib.Data.List.Nodup
import Mathlib.Tactic.Common

/-!
# The first thing of each key

* `firstBy` : what is left of a list when only the first thing of each key is kept;
* `find?_firstBy` : a search by the key finds the same.
-/

namespace PartCAD.Lib

variable {α κ : Type} [DecidableEq κ] (key : α → κ)

/-- The first thing of each key, in the order of the list. -/
def firstBy (l : List α) : List α :=
  l.foldl (fun firsts a => if key a ∈ firsts.map key then firsts else firsts ++ [a]) []

theorem firstBy_concat (l : List α) (a : α) :
    firstBy key (l ++ [a]) =
      if key a ∈ (firstBy key l).map key then firstBy key l else firstBy key l ++ [a] := by
  rw [firstBy, List.foldl_append]
  rfl

theorem mem_of_mem_firstBy {l : List α} {a : α} (h : a ∈ firstBy key l) : a ∈ l := by
  induction l using List.reverseRecOn with
  | nil => exact h
  | append_singleton l b ih =>
    rw [firstBy_concat] at h
    split at h
    · exact List.mem_append_left _ (ih h)
    · rcases List.mem_append.1 h with h | h
      · exact List.mem_append_left _ (ih h)
      · exact List.mem_append_right _ h

theorem nodup_firstBy (l : List α) : ((firstBy key l).map key).Nodup := by
  induction l using List.reverseRecOn with
  | nil => exact List.nodup_nil
  | append_singleton l a ih =>
    rw [firstBy_concat]
    split
    · exact ih
    · rename_i hnew
      rw [List.map_append]
      exact ih.append (List.nodup_singleton _) (List.disjoint_singleton.2 hnew)

theorem find?_key {l : List α} {k : κ} {a : α} (h : l.find? (fun b => key b = k) = some a) :
    key a = k ∧ a ∈ l := by
  have hkey := List.find?_some h
  exact ⟨of_decide_eq_true hkey, List.mem_of_find?_eq_some h⟩

theorem find?_isSome_iff {l : List α} {k : κ} :
    (l.find? fun b => key b = k).isSome ↔ k ∈ l.map key := by
  simp [List.find?_isSome]

/-- What stands for a thing, among those that are kept. -/
theorem find?_of_mem {l : List α} {a : α} (h : a ∈ l) :
    ∃ first, l.find? (fun b => key b = key a) = some first ∧ key first = key a := by
  obtain ⟨first, hfirst⟩ := Option.isSome_iff_exists.1
    ((find?_isSome_iff key).2 (List.mem_map_of_mem (f := key) h))
  exact ⟨first, hfirst, (find?_key key hfirst).1⟩

/-- What comes later is not the first of a key that is there. -/
theorem find?_append_of_mem {l : List α} {a : α} (h : a ∈ l) (l' : List α) :
    (l ++ l').find? (fun b => key b = key a) = l.find? fun b => key b = key a := by
  obtain ⟨first, hfirst, -⟩ := find?_of_mem key h
  rw [List.find?_append, hfirst]
  rfl

/-- One more thing whose key is there already. -/
theorem find?_concat_of_some {l : List α} {a first : α}
    (h : l.find? (fun b => key b = key a) = some first) (k : κ) :
    (l ++ [a]).find? (fun b => key b = k) = l.find? fun b => key b = k := by
  rw [List.find?_append]
  by_cases hk : key a = k
  · subst hk
    rw [h]
    rfl
  · rw [List.find?_cons_of_neg (by simpa using hk), List.find?_nil, Option.or_none]

/-- One more thing whose key is new. -/
theorem find?_concat_of_none {l : List α} {a : α} (h : l.find? (fun b => key b = key a) = none) (k : κ) :
    (l ++ [a]).find? (fun b => key b = k) =
      if key a = k then some a else l.find? fun b => key b = k := by
  rw [List.find?_append]
  split
  · rename_i hk
    subst hk
    rw [h, List.find?_cons_of_pos (by simp), Option.none_or]
  · rename_i hk
    rw [List.find?_cons_of_neg (by simpa using hk), List.find?_nil, Option.or_none]

/-- **A search by the key** finds the same. -/
theorem find?_firstBy (l : List α) (k : κ) :
    (firstBy key l).find? (fun a => key a = k) = l.find? fun a => key a = k := by
  induction l using List.reverseRecOn generalizing k with
  | nil => rfl
  | append_singleton l a ih =>
    rw [firstBy_concat]
    split
    · rename_i hmem
      obtain ⟨first, hfirst⟩ := Option.isSome_iff_exists.1 ((find?_isSome_iff key).2 hmem)
      rw [ih] at hfirst
      rw [ih, find?_concat_of_some key hfirst]
    · rw [List.find?_append, List.find?_append, ih]

theorem firstBy_concat_of_some {l : List α} {a first : α}
    (h : l.find? (fun b => key b = key a) = some first) : firstBy key (l ++ [a]) = firstBy key l := by
  rw [firstBy_concat, if_pos]
  rw [← find?_isSome_iff, find?_firstBy, h]
  rfl

theorem firstBy_concat_of_none {l : List α} {a : α} (h : l.find? (fun b => key b = key a) = none) :
    firstBy key (l ++ [a]) = firstBy key l ++ [a] := by
  rw [firstBy_concat, if_neg]
  rw [← find?_isSome_iff, find?_firstBy, h]
  exact Bool.false_ne_true

end PartCAD.Lib
