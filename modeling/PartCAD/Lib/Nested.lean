import Mathlib.Data.List.Perm.Subperm
import PartCAD.Lib.Dict

/-!
# Nested dictionaries

Trees of dictionaries and lists over scalars that Python can compare.

* `same` : Python's `==`, for which the keys of a dictionary have no order;
* `same_refl` : what is well formed is the same as itself;
* `same_dict_iff` : **two dictionaries are the same** if they have the same keys with the same values.
-/

namespace PartCAD.Lib

/-- A tree.  A dictionary is the list of its items. -/
inductive Nested (κ S : Type) where
  | scalar (s : S)
  | list (vs : List (Nested κ S))
  | dict (items : List (κ × Nested κ S))

namespace Nested

variable {κ S : Type}

/-- Induction on a tree, with the trees in a list and those in a dictionary. -/
@[elab_as_elim]
theorem induction {motive : Nested κ S → Prop} (scalar : ∀ s, motive (.scalar s))
    (list : ∀ vs, (∀ v ∈ vs, motive v) → motive (.list vs))
    (dict : ∀ items : List (κ × Nested κ S), (∀ p ∈ items, motive p.2) → motive (.dict items))
    (v : Nested κ S) : motive v :=
  @Nested.rec κ S motive (fun vs => ∀ v ∈ vs, motive v) (fun items => ∀ p ∈ items, motive p.2)
    (fun p => motive p.2) scalar list dict (by simp)
    (fun _ _ hv hvs => List.forall_mem_cons.2 ⟨hv, hvs⟩) (by simp)
    (fun _ _ hp hps => List.forall_mem_cons.2 ⟨hp, hps⟩) (fun _ _ hv => hv) v

/-- No dictionary has a key twice. -/
inductive WellFormed : Nested κ S → Prop
  | scalar (s : S) : WellFormed (.scalar s)
  | list {vs : List (Nested κ S)} : (∀ v ∈ vs, WellFormed v) → WellFormed (.list vs)
  | dict {items : List (κ × Nested κ S)} :
    (items.map Prod.fst).Nodup → (∀ p ∈ items, WellFormed p.2) → WellFormed (.dict items)

variable [DecidableEq κ] [BEq S]

mutual

/-- `v == w` -/
def same : Nested κ S → Nested κ S → Bool
  | .scalar s, .scalar t => s == t
  | .list vs, .list ws => sameList vs ws
  | .dict xs, .dict ys => decide (xs.length = ys.length) && sameItems xs ys
  | _, _ => false

@[grind =]
def sameList : List (Nested κ S) → List (Nested κ S) → Bool
  | [], [] => true
  | v :: vs, w :: ws => same v w && sameList vs ws
  | _, _ => false

/-- The items of a dictionary are in the other one. -/
@[grind =]
def sameItems : List (κ × Nested κ S) → List (κ × Nested κ S) → Bool
  | [], _ => true
  | (k, x) :: xs, ys =>
    (match lookupItem k ys with
    | some y => same x y
    | none => false) && sameItems xs ys

end

theorem sameItems_iff {xs ys : List (κ × Nested κ S)} : sameItems xs ys = true ↔
    ∀ p ∈ xs, ∃ y, lookupItem p.1 ys = some y ∧ same p.2 y = true := by
  induction xs with
  | nil => simp [sameItems]
  | cons p xs ih =>
    obtain ⟨k, x⟩ := p
    rw [sameItems, Bool.and_eq_true, ih, List.forall_mem_cons]
    cases lookupItem k ys with
    | none => simp
    | some y => simp

theorem length_of_sameList : ∀ {vs ws : List (Nested κ S)}, sameList vs ws = true →
    vs.length = ws.length
  | [], [], _ => rfl
  | v :: vs, w :: ws, h => by
    rw [sameList, Bool.and_eq_true] at h
    rw [List.length_cons, List.length_cons, length_of_sameList h.2]

/-- What is well formed is the same as itself. -/
theorem same_refl [ReflBEq S] (v : Nested κ S) (h : v.WellFormed) : same v v = true := by
  induction v using Nested.induction with
  | scalar s =>
    rw [same]
    exact BEq.refl s
  | list vs ih =>
    rw [same]
    cases h with
    | list hvs =>
      induction vs with
      | nil => rfl
      | cons v vs ihvs =>
        rw [List.forall_mem_cons] at ih hvs
        rw [sameList, Bool.and_eq_true]
        exact ⟨ih.1 hvs.1, ihvs ih.2 hvs.2⟩
  | dict items ih =>
    cases h with
    | dict hnodup hitems =>
      rw [same, Bool.and_eq_true]
      refine ⟨decide_eq_true rfl, sameItems_iff.2 fun p hp => ?_⟩
      exact ⟨p.2, lookupItem_of_mem hnodup hp, ih p hp (hitems p hp)⟩

theorem lookupItem_eq_none_of_same {xs ys : List (κ × Nested κ S)} (hxs : (xs.map Prod.fst).Nodup)
    (hlength : xs.length = ys.length) (hitems : sameItems xs ys = true) {k : κ}
    (hk : lookupItem k xs = none) : lookupItem k ys = none := by
  rw [lookupItem_eq_none] at hk ⊢
  have hsub : xs.map Prod.fst ⊆ ys.map Prod.fst := by
    intro q hq
    obtain ⟨p, hp, rfl⟩ := List.mem_map.1 hq
    obtain ⟨y, hy, -⟩ := sameItems_iff.1 hitems p hp
    exact List.mem_map.2 ⟨(p.1, y), mem_of_lookupItem hy, rfl⟩
  have hperm := (hxs.subperm hsub).perm_of_length_le (by simp [hlength])
  exact fun hmem => hk (hperm.mem_iff.2 hmem)

/-- **Two dictionaries are the same** if they have the same keys with the same values. -/
theorem same_dict_iff {xs ys : List (κ × Nested κ S)} (hxs : (xs.map Prod.fst).Nodup)
    (hys : (ys.map Prod.fst).Nodup) : same (.dict xs) (.dict ys) = true ↔
      (∀ k, lookupItem k xs = none ↔ lookupItem k ys = none) ∧
        ∀ k x y, lookupItem k xs = some x → lookupItem k ys = some y → same x y = true := by
  rw [same, Bool.and_eq_true, decide_eq_true_iff]
  constructor
  · rintro ⟨hlength, hitems⟩
    refine ⟨fun k => ⟨lookupItem_eq_none_of_same hxs hlength hitems, fun hk => ?_⟩, fun k x y hx hy => ?_⟩
    · by_contra hne
      obtain ⟨x, hx⟩ := Option.ne_none_iff_exists'.1 hne
      obtain ⟨y, hy, -⟩ := sameItems_iff.1 hitems (k, x) (mem_of_lookupItem hx)
      exact absurd (hk.symm.trans hy) (Option.some_ne_none y).symm
    · obtain ⟨y', hy', hsame⟩ := sameItems_iff.1 hitems (k, x) (mem_of_lookupItem hx)
      exact Option.some.inj (hy'.symm.trans hy) ▸ hsame
  · rintro ⟨hnone, hvalues⟩
    have hmem : ∀ k, k ∈ xs.map Prod.fst ↔ k ∈ ys.map Prod.fst := by
      intro k
      have hk := hnone k
      rw [lookupItem_eq_none, lookupItem_eq_none] at hk
      exact not_iff_not.1 hk
    have hperm := (List.perm_ext_iff_of_nodup hxs hys).2 hmem
    refine ⟨by simpa using hperm.length_eq, sameItems_iff.2 fun p hp => ?_⟩
    have hx := lookupItem_of_mem hxs hp
    have hne : lookupItem p.1 ys ≠ none := fun hy => absurd ((hnone p.1).2 hy) (by simp [hx])
    obtain ⟨y, hy⟩ := Option.ne_none_iff_exists'.1 hne
    exact ⟨y, hy, hvalues p.1 p.2 y hx hy⟩

end Nested

end PartCAD.Lib
