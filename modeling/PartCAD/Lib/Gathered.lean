import Mathlib.Order.Bounds.Basic
import Mathlib.Order.Lattice
import PartCAD.Lib.Dict

/-!
# Items gathered by a key

A dictionary that is built from one item after the other: the first item with a key makes its value,
and each further one adds to it.

* `Dict.gathered` : the dictionary;
* `Dict.get?_gathered` : **a value is made of the items with its key**, in their order;
* `isGreatest_foldl_max` : the greatest item of a list.
-/

namespace PartCAD.Lib

/-! ## The greatest and the least -/

theorem isGreatest_foldl_max {α : Type} [LinearOrder α] (a : α) (l : List α) :
    IsGreatest {b | b ∈ a :: l} (l.foldl max a) := by
  induction l generalizing a with
  | nil => exact ⟨by simp, by simp [upperBounds]⟩
  | cons b l ih =>
    obtain ⟨hmem, hle⟩ := ih (max a b)
    rw [List.foldl_cons]
    have hmax : max a b ≤ l.foldl max (max a b) := hle List.mem_cons_self
    constructor
    · rcases List.mem_cons.1 hmem with h | h
      · rw [h]
        rcases le_total a b with hab | hab
        · simp [max_eq_right hab]
        · simp [max_eq_left hab]
      · simp [h]
    · intro c hc
      rcases List.mem_cons.1 hc with rfl | hc
      · exact (le_max_left _ _).trans hmax
      · rcases List.mem_cons.1 hc with rfl | hc
        · exact (le_max_right _ _).trans hmax
        · exact hle (List.mem_cons_of_mem _ hc)

theorem isLeast_foldl_min {α : Type} [LinearOrder α] (a : α) (l : List α) :
    IsLeast {b | b ∈ a :: l} (l.foldl min a) :=
  @isGreatest_foldl_max αᵒᵈ _ a l

namespace Dict

variable {α β κ : Type} [DecidableEq κ] (key : α → κ) (new : α → β) (add : β → α → β)

/-- One item more. -/
def gatherStep (d : Dict κ β) (a : α) : Dict κ β :=
  match d.get? (key a) with
  | none => d.set (key a) (new a)
  | some b => d.set (key a) (add b a)

def gathered (l : List α) : Dict κ β := l.foldl (gatherStep key new add) empty

/-- What is made of items with one key. -/
def made (l : List α) : Option β :=
  match l with
  | [] => none
  | a :: l => some (l.foldl add (new a))

variable {key new add}

theorem get?_gatherStep (d : Dict κ β) (a : α) (k : κ) :
    (gatherStep key new add d a).get? k =
      if key a = k then some (((d.get? k).map fun b => add b a).getD (new a)) else d.get? k := by
  unfold gatherStep
  split
  · rename_i hnone
    rw [get?_set]
    split
    · rename_i hk
      rw [← hk, hnone]
      rfl
    · rfl
  · rename_i b hb
    rw [get?_set]
    split
    · rename_i hk
      rw [← hk, hb]
      rfl
    · rfl

theorem get?_foldl_gatherStep (l : List α) (d : Dict κ β) (k : κ) :
    (l.foldl (gatherStep key new add) d).get? k =
      match d.get? k with
      | some b => some ((l.filter fun a => key a = k).foldl add b)
      | none => made new add (l.filter fun a => key a = k) := by
  induction l generalizing d with
  | nil =>
    cases hd : d.get? k with
    | none => simpa [made] using hd
    | some b => simpa using hd
  | cons a l ih =>
    rw [List.foldl_cons, ih, get?_gatherStep]
    by_cases hk : key a = k
    · rw [if_pos hk, List.filter_cons_of_pos (by simpa using hk)]
      cases d.get? k with
      | none => rfl
      | some b => rfl
    · rw [if_neg hk, List.filter_cons_of_neg (by simpa using hk)]

/-- **A value is made of the items with its key.** -/
theorem get?_gathered (l : List α) (k : κ) :
    (gathered key new add l).get? k = made new add (l.filter fun a => key a = k) :=
  get?_foldl_gatherStep l empty k

theorem exists_made {l : List α} {a : α} (h : a ∈ l) :
    ∃ b, made new add (l.filter fun c => key c = key a) = some b := by
  have hmem : a ∈ l.filter fun c => key c = key a := List.mem_filter.2 ⟨h, by simp⟩
  cases hl : l.filter fun c => key c = key a with
  | nil =>
    rw [hl] at hmem
    cases hmem
  | cons b rest => exact ⟨_, rfl⟩

theorem mem_keys_gathered {l : List α} {k : κ} :
    k ∈ (gathered key new add l).keys ↔ ∃ a ∈ l, key a = k := by
  rw [mem_keys_iff_isSome, get?_gathered]
  constructor
  · intro h
    cases hl : l.filter fun a => key a = k with
    | nil =>
      rw [hl] at h
      cases h
    | cons a rest =>
      have ha : a ∈ l.filter fun a => key a = k := hl ▸ List.mem_cons_self
      exact ⟨a, (List.mem_filter.1 ha).1, by simpa using (List.mem_filter.1 ha).2⟩
  · rintro ⟨a, ha, rfl⟩
    obtain ⟨b, hb⟩ := @exists_made α β κ _ key new add l a ha
    rw [hb]
    rfl

/-- The value of the first item comes first. -/
theorem items_gathered_cons (a : α) (l : List α) :
    ∃ b rest, (gathered key new add (a :: l)).items = (key a, b) :: rest := by
  suffices hrun : ∀ (l : List α) (d : Dict κ β), (∃ b rest, d.items = (key a, b) :: rest) →
      ∃ b rest, (l.foldl (gatherStep key new add) d).items = (key a, b) :: rest from
    hrun l _ ⟨new a, [], rfl⟩
  intro l
  induction l with
  | nil => exact fun d h => h
  | cons c l ih =>
    rintro d ⟨b, rest, hd⟩
    refine ih _ ?_
    have hset : ∀ v, ∃ b' rest', (d.set (key c) v).items = (key a, b') :: rest' := by
      intro v
      have hitems : (d.set (key c) v).items = setItem (key c) v d.items := rfl
      rw [hitems, hd, setItem]
      split
      · rename_i hk
        exact ⟨v, rest, by rw [hk]⟩
      · exact ⟨b, _, rfl⟩
    unfold gatherStep
    split
    · exact hset _
    · exact hset _

theorem mem_tail {d : Dict κ β} {k : κ} {v : β} {items : List (κ × β)} (h : d.items = (k, v) :: items)
    {p : κ × β} : p ∈ items ↔ p.1 ≠ k ∧ d.get? p.1 = some p.2 := by
  have hnodup := d.nodup
  rw [h, List.map_cons, List.nodup_cons] at hnodup
  rw [get?_eq_some, h, List.mem_cons]
  constructor
  · intro hp
    refine ⟨?_, Or.inr hp⟩
    rintro rfl
    exact hnodup.1 (List.mem_map.2 ⟨p, hp, rfl⟩)
  · rintro ⟨hk, hp⟩
    rcases hp with hp | hp
    · exact absurd (congrArg Prod.fst hp) hk
    · exact hp

/-- Dictionaries with one first key that agree on the others. -/
theorem tail_perm {d e : Dict κ β} {k : κ} {v w : β} {items items' : List (κ × β)}
    (hd : d.items = (k, v) :: items) (he : e.items = (k, w) :: items')
    (h : ∀ q, q ≠ k → d.get? q = e.get? q) : items.Perm items' := by
  have hnodup : ∀ {d : Dict κ β} {v items}, d.items = (k, v) :: items → items.Nodup := by
    intro d v items hitems
    have hkeys := d.nodup
    rw [hitems, List.map_cons, List.nodup_cons] at hkeys
    exact hkeys.2.of_map _
  refine (List.perm_ext_iff_of_nodup (hnodup hd) (hnodup he)).2 fun p => ?_
  rw [mem_tail hd, mem_tail he]
  exact and_congr_right fun hp => by rw [h p.1 hp]

end Dict

end PartCAD.Lib
