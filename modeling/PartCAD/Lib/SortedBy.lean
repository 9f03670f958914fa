import Mathlib.Data.List.Sort
import Mathlib.Order.Defs.LinearOrder
import Mathlib.Tactic.Common

/-!
# Sorting by a key

A sort by a key is stable: it leaves items with one key in the order in which they came.

* `sortBy` : the sort;
* `sortBy_first` : of the items with one key, the first one comes first;
* `map_sortBy_perm_iff` : **when the order in which the items come does not matter**.
-/

namespace PartCAD.Lib

section

variable {α κ β : Type} [LinearOrder κ] (key : α → κ)

/-- `sorted(items, key)` -/
def sortBy (l : List α) : List α := l.mergeSort fun a b => decide (key a ≤ key b)

theorem sortBy_perm (l : List α) : (sortBy key l).Perm l := List.mergeSort_perm l _

theorem trans_key (a b c : α) (hab : decide (key a ≤ key b) = true) (hbc : decide (key b ≤ key c) = true) :
    decide (key a ≤ key c) = true :=
  decide_eq_true ((of_decide_eq_true hab).trans (of_decide_eq_true hbc))

theorem total_key (a b : α) : (decide (key a ≤ key b) || decide (key b ≤ key a)) = true := by
  rw [Bool.or_eq_true, decide_eq_true_eq, decide_eq_true_eq]
  exact le_total _ _

theorem pairwise_sortBy (l : List α) : (sortBy key l).Pairwise fun a b => key a ≤ key b := by
  have h := List.pairwise_mergeSort (trans_key key) (total_key key) l
  exact h.imp fun hle => of_decide_eq_true hle

/-- The first item comes behind those with a smaller key. -/
theorem exists_sortBy_cons (a : α) (l : List α) : ∃ front back, sortBy key (a :: l) = front ++ a :: back ∧
    (front ++ back).Perm l ∧ ∀ b ∈ front, key b < key a := by
  obtain ⟨front, back, hcons, hrest, hfront⟩ :=
    List.mergeSort_cons (trans_key key) (total_key key) a l
  refine ⟨front, back, hcons, hrest ▸ List.mergeSort_perm l _, fun b hb => ?_⟩
  have hnot := hfront b hb
  rwa [Bool.not_eq_true', decide_eq_false_iff_not, not_le] at hnot

/-- **Of the items with one key, the first one comes first**, behind those with a smaller key. -/
theorem sortBy_first (a : α) (l : List α) :
    (sortBy key (a :: l))[l.countP fun b => decide (key b < key a)]? = some a := by
  obtain ⟨front, back, hsorted, hperm, hfront⟩ := exists_sortBy_cons key a l
  have hlt : ∀ b ∈ front, decide (key b < key a) = true := fun b hb => decide_eq_true (hfront b hb)
  have hge : ∀ b ∈ back, ¬ decide (key b < key a) = true := by
    intro b hb
    have hpairs := pairwise_sortBy key (a :: l)
    rw [hsorted] at hpairs
    have hle : key a ≤ key b := (List.pairwise_cons.1 (List.pairwise_append.1 hpairs).2.1).1 b hb
    rw [decide_eq_true_eq]
    exact not_lt.2 hle
  have hcount : (l.countP fun b => decide (key b < key a)) = front.length := by
    rw [← hperm.countP_eq, List.countP_append, List.countP_eq_length.2 hlt, List.countP_eq_zero.2 hge]
    exact Nat.add_zero _
  rw [hsorted, hcount, List.getElem?_append_right (le_refl _), Nat.sub_self]
  rfl

variable {key}

/-- Items that have the same values in another order, when the value of an item has its key. -/
theorem map_sortBy_of_map_perm {f : α → β} {k : β → κ} (hk : ∀ a, key a = k (f a)) {l l' : List α}
    (h : ∀ a ∈ l, ∀ b ∈ l, key a = key b → f a = f b) (hperm : (l'.map f).Perm (l.map f)) :
    (sortBy key l').map f = (sortBy key l).map f := by
  have hpairs {s : List α} : ((sortBy key s).map f).Pairwise fun p q => k p ≤ k q := by
    refine List.pairwise_map.2 ((pairwise_sortBy key s).imp fun hle => ?_)
    rwa [← hk, ← hk]
  have hsame : ((sortBy key l').map f).Perm ((sortBy key l).map f) :=
    (((sortBy_perm key l').map f).trans hperm).trans ((sortBy_perm key l).map f).symm
  refine List.Perm.eq_of_pairwise ?_ hpairs hpairs hsame
  intro p q hp hq hpq hqp
  obtain ⟨a, ha, rfl⟩ := List.mem_map.1 (hsame.mem_iff.1 hp)
  obtain ⟨b, hb, rfl⟩ := List.mem_map.1 hq
  have hkey : key a = key b := by
    rw [hk, hk]
    exact le_antisymm hpq hqp
  exact h a ((sortBy_perm key l).mem_iff.1 ha) b ((sortBy_perm key l).mem_iff.1 hb) hkey

/-- Items with one key that have one value. -/
theorem map_sortBy_of_perm {f : α → β} {l l' : List α}
    (h : ∀ a ∈ l, ∀ b ∈ l, key a = key b → f a = f b) (hperm : l'.Perm l) :
    (sortBy key l').map f = (sortBy key l).map f := by
  have hpaired : (sortBy key l').map (fun a => (key a, f a)) = (sortBy key l).map fun a => (key a, f a) :=
    @map_sortBy_of_map_perm _ _ _ _ _ _ Prod.fst (fun _ => rfl) _ _
      (fun a ha b hb hkey => Prod.ext hkey (h a ha b hb hkey)) (hperm.map _)
  have hvalues := congrArg (List.map Prod.snd) hpaired
  rwa [List.map_map, List.map_map] at hvalues

/-- **The order of the items does not matter** when items with one key have one value. -/
theorem map_sortBy_perm_iff {f : α → β} {l : List α} :
    (∀ l', l'.Perm l → (sortBy key l').map f = (sortBy key l).map f) ↔
      ∀ a ∈ l, ∀ b ∈ l, key a = key b → f a = f b := by
  classical
  refine ⟨?_, fun h l' => map_sortBy_of_perm h⟩
  intro h a ha b hb hkey
  -- each of the two may come first
  have hfirst : ∀ c ∈ l,
      ((sortBy key l).map f)[l.countP fun x => decide (key x < key c)]? = some (f c) := by
    intro c hc
    have hperm : (c :: l.erase c).Perm l := (List.perm_cons_erase hc).symm
    have hcount : (l.countP fun x => decide (key x < key c)) =
        (l.erase c).countP fun x => decide (key x < key c) := by
      rw [← hperm.countP_eq, List.countP_cons, if_neg (by simp), Nat.add_zero]
    rw [← h _ hperm, List.getElem?_map, hcount, sortBy_first]
    rfl
  have hfa := hfirst a ha
  rw [hkey, hfirst b hb] at hfa
  exact (Option.some.inj hfa).symm

end

end PartCAD.Lib
