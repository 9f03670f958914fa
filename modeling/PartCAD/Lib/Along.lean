import Mathlib.Data.List.Basic
import Mathlib.Tactic.Common

/-!
# Along a list

What holds of each item of a list in view of the items before it, and lists that are made of pieces.

* `Along` : it holds of each item;
* `along_flatMap` : **it holds along the pieces** when it does along each piece, after those before it;
* `map_eq_of_flatMap` : pieces that each start with a mark are told from what they make.
-/

namespace PartCAD.Lib

variable {α β : Type}

/-- It holds of each item, in view of those before it, which come after `past`. -/
def Along (P : List α → α → Prop) (past l : List α) : Prop :=
  ∀ before a after, l = before ++ a :: after → P (past ++ before) a

section

variable {P : List α → α → Prop} {past : List α}

theorem along_nil : Along P past [] := by
  intro before a after h
  exact absurd h (by simp)

theorem along_cons {a : α} {l : List α} : Along P past (a :: l) ↔ P past a ∧ Along P (past ++ [a]) l := by
  constructor
  · intro h
    constructor
    · have ha := h [] a l rfl
      rwa [List.append_nil] at ha
    · intro before b after hl
      have hb := h (a :: before) b after (by rw [hl]; rfl)
      rwa [List.append_cons] at hb
  · rintro ⟨ha, hl⟩ before b after heq
    cases before with
    | nil =>
      obtain ⟨rfl, -⟩ := List.cons_eq_cons.1 heq
      rwa [List.append_nil]
    | cons c before =>
      obtain ⟨rfl, rfl⟩ := List.cons_eq_cons.1 heq
      have hb := hl before b after rfl
      rwa [← List.append_cons] at hb

theorem along_append {l l' : List α} : Along P past (l ++ l') ↔ Along P past l ∧ Along P (past ++ l) l' := by
  induction l generalizing past with
  | nil =>
    rw [List.nil_append, List.append_nil]
    exact ⟨fun h => ⟨along_nil, h⟩, fun h => h.2⟩
  | cons a l ih =>
    rw [List.cons_append, along_cons, along_cons, ih, ← List.append_cons, and_assoc]

/-- **Along pieces**: along each one of them, after those before it. -/
theorem along_flatMap {g : β → List α} {front l : List β} :
    Along P (past ++ front.flatMap g) (l.flatMap g) ↔
      Along (fun before b => Along P (past ++ before.flatMap g) (g b)) front l := by
  induction l generalizing front with
  | nil => exact ⟨fun _ => along_nil, fun _ => along_nil⟩
  | cons b l ih =>
    have hfront : past ++ (front ++ [b]).flatMap g = past ++ front.flatMap g ++ g b := by
      rw [List.flatMap_append, List.flatMap_singleton, List.append_assoc]
    rw [List.flatMap_cons, along_append, along_cons, ← ih, hfront]

/-- What the items before cannot take away. -/
theorem along_of_forall (hmono : ∀ past more a, P past a → P (past ++ more) a) {l : List α} (h : ∀ a ∈ l, P past a) :
    Along P past l := by
  rintro before a after rfl
  exact hmono past before a (h a (by simp))

theorem along_congr {Q : List α → α → Prop} {l : List α}
    (h : ∀ before, ∀ a ∈ l, P before a ↔ Q before a) : Along P past l ↔ Along Q past l := by
  constructor
  · rintro hP before a after rfl
    exact (h _ a (by simp)).1 (hP before a after rfl)
  · rintro hQ before a after rfl
    exact (h _ a (by simp)).2 (hQ before a after rfl)

end

/-! ## Pieces that start with a mark -/

section

variable {mark : α → Bool} {g : β → List α}
  (hg : ∀ b, ∃ a rest, g b = a :: rest ∧ mark a = true ∧ ∀ c ∈ rest, mark c = false)

include hg

/-- A piece ends where the next mark is. -/
theorem head_of_flatMap {b b' : β} {l l' : List β} (h : (b :: l).flatMap g = (b' :: l').flatMap g) :
    g b = g b' ∧ l.flatMap g = l'.flatMap g := by
  have hnext : ∀ k : List β, ∀ c ∈ (k.flatMap g).head?, mark c = true := by
    intro k c hc
    cases k with
    | nil => cases hc
    | cons d k =>
      obtain ⟨a, rest, hd, ha, -⟩ := hg d
      rw [List.flatMap_cons, hd, List.cons_append] at hc
      obtain rfl : a = c := by simpa using hc
      exact ha
  have hspan : ∀ (rest : List α) (k : List β), (∀ c ∈ rest, mark c = false) →
      (rest ++ k.flatMap g).takeWhile (fun c => !mark c) = rest := by
    intro rest k hrest
    rw [List.takeWhile_append_of_pos (fun c hc => by simp [hrest c hc])]
    have hnil : (k.flatMap g).takeWhile (fun c => !mark c) = [] := by
      cases hk : k.flatMap g with
      | nil => rfl
      | cons c tail =>
        have hc := hnext k c (by rw [hk]; rfl)
        exact List.takeWhile_cons_of_neg (by simp [hc])
    rw [hnil, List.append_nil]
  obtain ⟨a, rest, ha, -, hrest⟩ := hg b
  obtain ⟨a', rest', ha', -, hrest'⟩ := hg b'
  rw [List.flatMap_cons, List.flatMap_cons, ha, ha', List.cons_append, List.cons_append] at h
  obtain ⟨rfl, htail⟩ := List.cons_eq_cons.1 h
  have heq := congrArg (List.takeWhile fun c => !mark c) htail
  rw [hspan rest l hrest, hspan rest' l' hrest'] at heq
  subst heq
  exact ⟨ha.trans ha'.symm, List.append_cancel_left htail⟩

/-- **The pieces are told from what they make.** -/
theorem map_eq_of_flatMap {l l' : List β} (h : l.flatMap g = l'.flatMap g) : l.map g = l'.map g := by
  have hne : ∀ (b : β) (k : List β), (b :: k).flatMap g ≠ [] := by
    intro b k hk
    obtain ⟨a, rest, hb, -⟩ := hg b
    rw [List.flatMap_cons, hb] at hk
    cases hk
  induction l generalizing l' with
  | nil =>
    cases l' with
    | nil => rfl
    | cons b' l' => exact absurd h.symm (hne b' l')
  | cons b l ih =>
    cases l' with
    | nil => exact absurd h (hne b l)
    | cons b' l' =>
      obtain ⟨hb, hl⟩ := head_of_flatMap hg h
      rw [List.map_cons, List.map_cons, hb, ih hl]

end

end PartCAD.Lib
