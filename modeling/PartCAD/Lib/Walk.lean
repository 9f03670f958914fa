import PartCAD.Lib.Dict

/-!
# Walking levels, the nearest first

A list of levels is asked for a list of keys.  What a level answers is kept, and only the keys that
it has no answer for go on to the next level.

* `get?_walk` : a key gets the answer of the first level that has one for it;
* `mem_walk_snd` : the keys left over are those that no level answers.
-/

namespace PartCAD.Lib.Walk

open PartCAD.Lib

variable {β κ α : Type} [DecidableEq κ]

/-- One level: its answers go into `found`; the keys without one are left over. -/
def walkLevel (answer : κ → Option α) : List κ → Dict κ α → Dict κ α × List κ
  | [], found => (found, [])
  | k :: pending, found =>
    match answer k with
    | none => ((walkLevel answer pending found).1, k :: (walkLevel answer pending found).2)
    | some v => walkLevel answer pending (found.set k v)

/-- The levels one after the other, until no key is left over. -/
def walk (ask : β → List κ → κ → Option α) :
    List β → List κ → Dict κ α → Dict κ α × List κ
  | [], pending, found => (found, pending)
  | b :: levels, pending, found =>
    if pending = [] then (found, [])
    else
      let level := walkLevel (ask b pending) pending found
      walk ask levels level.2 level.1

theorem get?_walkLevel (answer : κ → Option α) (pending : List κ) (found : Dict κ α) (k : κ) :
    (walkLevel answer pending found).1.get? k =
      if k ∈ pending then (answer k).or (found.get? k) else found.get? k := by
  induction pending generalizing found with
  | nil => rfl
  | cons q pending ih =>
    cases hq : answer q with
    | none =>
      simp only [walkLevel, hq, ih]
      by_cases hk : k = q
      · subst hk
        simp [hq]
      · simp [hk]
    | some v =>
      simp only [walkLevel, hq, ih, Dict.get?_set]
      by_cases hk : q = k
      · subst hk
        simp [hq]
      · simp [hk, Ne.symm hk]

theorem mem_walkLevel_snd (answer : κ → Option α) (pending : List κ) (found : Dict κ α) (k : κ) :
    k ∈ (walkLevel answer pending found).2 ↔ k ∈ pending ∧ answer k = none := by
  induction pending generalizing found with
  | nil => simp [walkLevel]
  | cons q pending ih =>
    cases hq : answer q with
    | none =>
      simp only [walkLevel, hq, List.mem_cons, ih]
      constructor
      · rintro (rfl | ⟨hk, hnone⟩)
        · exact ⟨Or.inl rfl, hq⟩
        · exact ⟨Or.inr hk, hnone⟩
      · rintro ⟨rfl | hk, hnone⟩
        · exact Or.inl rfl
        · exact Or.inr ⟨hk, hnone⟩
    | some v =>
      simp only [walkLevel, hq, List.mem_cons, ih]
      constructor
      · rintro ⟨hk, hnone⟩
        exact ⟨Or.inr hk, hnone⟩
      · rintro ⟨rfl | hk, hnone⟩
        · rw [hq] at hnone
          exact absurd hnone (by simp)
        · exact ⟨hk, hnone⟩

section

variable {ask : β → List κ → κ → Option α} {answer : β → κ → Option α}
  (hask : ∀ b pending k, k ∈ pending → ask b pending k = answer b k)

include hask

/-- **The nearest level with an answer for a key gives it.** -/
theorem get?_walk (levels : List β) (pending : List κ) (found : Dict κ α) (k : κ) :
    (walk ask levels pending found).1.get? k =
      if k ∈ pending then (levels.findSome? (answer · k)).or (found.get? k) else found.get? k := by
  induction levels generalizing pending found with
  | nil => simp [walk]
  | cons b levels ih =>
    by_cases hp : pending = []
    · simp [walk, hp]
    · simp only [walk, hp, if_false, ih, get?_walkLevel, mem_walkLevel_snd]
      by_cases hk : k ∈ pending
      · rw [hask b pending k hk]
        cases ha : answer b k with
        | none => simp [hk, ha]
        | some v => simp [hk, ha]
      · simp [hk]

/-- A key is left over when no level has an answer for it. -/
theorem mem_walk_snd (levels : List β) (pending : List κ) (found : Dict κ α) (k : κ) :
    k ∈ (walk ask levels pending found).2 ↔
      k ∈ pending ∧ levels.findSome? (answer · k) = none := by
  induction levels generalizing pending found with
  | nil => simp [walk]
  | cons b levels ih =>
    by_cases hp : pending = []
    · simp [walk, hp]
    · simp only [walk, hp, if_false, ih, mem_walkLevel_snd]
      by_cases hk : k ∈ pending
      · rw [hask b pending k hk]
        cases ha : answer b k with
        | none => simp [hk, ha]
        | some v => simp [ha]
      · simp [hk]

end

end PartCAD.Lib.Walk
