import Mathlib.Data.List.Basic
import Mathlib.Data.List.Induction
import Mathlib.Tactic.Common

/-!
# Keeping what lies in nothing else

Items are taken one after the other, and one is kept where none that is kept already contains it.

* `keep` : what is kept;
* `exists_mem_keep` : each item lies in one that is kept;
* `pairwise_keep` : no item that is kept contains one that is kept later.
-/

namespace PartCAD.Lib.Outermost

variable {α : Type} (C : α → α → Prop) [DecidableRel C]

/-- One item more. -/
def keepNext (kept : List α) (a : α) : List α := if ∃ outer ∈ kept, C outer a then kept else kept ++ [a]

def keep (l : List α) : List α := l.foldl (keepNext C) []

theorem keep_concat (l : List α) (a : α) : keep C (l ++ [a]) = keepNext C (keep C l) a := by
  rw [keep, List.foldl_append]
  rfl

theorem keep_sublist (l : List α) : (keep C l).Sublist l := by
  induction l using List.reverseRecOn with
  | nil => exact List.Sublist.refl _
  | append_singleton l a ih =>
    rw [keep_concat, keepNext]
    split
    · exact ih.trans (List.sublist_append_left l [a])
    · exact ih.append (List.Sublist.refl _)

/-- An item is kept, or lies in one that was kept before. -/
theorem exists_mem_keep (hrefl : ∀ a, C a a) {l : List α} {a : α} (h : a ∈ l) : ∃ k ∈ keep C l, C k a := by
  induction l using List.reverseRecOn with
  | nil => cases h
  | append_singleton l b ih =>
    rw [keep_concat, keepNext]
    split
    · next hb =>
      rcases List.mem_append.mp h with h | h
      · exact ih h
      · rwa [List.mem_singleton.mp h]
    · rcases List.mem_append.mp h with h | h
      · obtain ⟨k, hk, hC⟩ := ih h
        exact ⟨k, List.mem_append_left _ hk, hC⟩
      · exact ⟨a, List.mem_append_right _ h, hrefl a⟩

theorem pairwise_keep (l : List α) : (keep C l).Pairwise fun a b => ¬ C a b := by
  induction l using List.reverseRecOn with
  | nil => exact List.Pairwise.nil
  | append_singleton l a ih =>
    rw [keep_concat, keepNext]
    split
    · exact ih
    · next hnot =>
      refine List.pairwise_append.mpr ⟨ih, List.pairwise_singleton _ _, fun b hb c hc => ?_⟩
      rw [List.mem_singleton.mp hc]
      exact fun hC => hnot ⟨b, hb, hC⟩

/-- What is kept of the first items comes first. -/
theorem keep_append (l l' : List α) : ∃ more, keep C (l ++ l') = keep C l ++ more ∧ more.Sublist l' := by
  induction l' using List.reverseRecOn with
  | nil => exact ⟨[], by rw [List.append_nil, List.append_nil], List.Sublist.refl _⟩
  | append_singleton l' a ih =>
    obtain ⟨more, hkeep, hmore⟩ := ih
    rw [← List.append_assoc, keep_concat, keepNext]
    split
    · exact ⟨more, hkeep, hmore.trans (List.sublist_append_left l' [a])⟩
    · exact ⟨more ++ [a], by rw [hkeep, List.append_assoc], hmore.append (List.Sublist.refl _)⟩

/-- No item that comes before one that is kept contains it. -/
theorem not_contains_of_mem_keep (hrefl : ∀ a, C a a) (htrans : ∀ a b c, C a b → C b c → C a c)
    {l l' : List α} {a b : α} (ha : a ∈ keep C (l ++ l')) (hnot : a ∉ l) (hb : b ∈ l) : ¬ C b a := by
  intro hC
  obtain ⟨more, hkeep, -⟩ := keep_append C l l'
  have hpairwise := pairwise_keep C (l ++ l')
  rw [hkeep] at ha hpairwise
  obtain ⟨k, hk, hkb⟩ := exists_mem_keep C hrefl hb
  rcases List.mem_append.mp ha with ha | ha
  · exact hnot ((keep_sublist C l).subset ha)
  · exact (List.pairwise_append.mp hpairwise).2.2 k hk a ha (htrans _ _ _ hkb hC)

end PartCAD.Lib.Outermost
