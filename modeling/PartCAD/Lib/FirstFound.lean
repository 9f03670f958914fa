import Mathlib.Data.List.Basic
import Mathlib.Logic.Relation
import Mathlib.Tactic.Common

/-!
# The first one found on the way up

A depth-first search upwards, in the order of the parents, for the first that has a value.  What was
passed once is not passed again.

* `Silent`, `First` : nothing, and what, is found above;
* `find_spec` : **the search finds it**, where nothing is above itself;
* `find_ends` : over finitely many keys the search ends.
-/

namespace PartCAD.Lib.FirstFound

variable {K V : Type} (parents : K → List K) (hit : K → Option V)

/-- `b` is a parent of `a`. -/
def Parent (a b : K) : Prop := b ∈ parents a

/-- Neither this nor anything above has a value. -/
def Silent (k : K) : Prop := ∀ j, Relation.ReflTransGen (Parent parents) k j → hit j = none

/-- The value that comes first: that of the thing itself, or what comes first above the first of its
parents with one. -/
inductive First : K → V → Prop
  | own {k : K} {v : V} : hit k = some v → First k v
  | up {k p : K} {front back : List K} {v : V} : hit k = none → parents k = front ++ p :: back →
    (∀ q ∈ front, Silent parents hit q) → First p v → First k v

/-- The parents one after the other, until one finds something. -/
@[grind =]
def findIn (get : K → List K → Option (Option V × List K)) :
    List K → List K → Option (Option V × List K)
  | [], seen => some (none, seen)
  | p :: ps, seen =>
    match get p seen with
    | none => none
    | some (some v, seen) => some (some v, seen)
    | some (none, seen) => findIn get ps seen

/-- The search, with what has been passed.  The number bounds its depth. -/
@[grind =]
def find [DecidableEq K] : ℕ → K → List K → Option (Option V × List K)
  | 0, _, _ => none
  | n + 1, k, seen =>
    match hit k with
    | some v => some (some v, seen)
    | none => if k ∈ seen then some (none, seen) else findIn (find n) (parents k) (k :: seen)

variable {parents hit}

theorem Silent.parent {k p : K} (h : Silent parents hit k) (hp : p ∈ parents k) :
    Silent parents hit p :=
  fun j hj => h j (.head hp hj)

theorem silent_of_parents {k : K} (hk : hit k = none) (h : ∀ p ∈ parents k, Silent parents hit p) :
    Silent parents hit k := by
  intro j hj
  rcases Relation.ReflTransGen.cases_head hj with rfl | ⟨p, hp, hj⟩
  · exact hk
  · exact h p hp j hj

theorem First.not_silent {k : K} {v : V} (h : First parents hit k v) : ¬ Silent parents hit k := by
  induction h with
  | own hk =>
    intro hsilent
    rw [hsilent _ .refl] at hk
    cases hk
  | up _ hparents _ _ ih =>
    intro hsilent
    refine ih (hsilent.parent ?_)
    rw [hparents]
    exact List.mem_append_right _ List.mem_cons_self

theorem First.exists_hit {k : K} {v : V} (h : First parents hit k v) : ∃ j, hit j = some v := by
  induction h with
  | own hk => exact ⟨_, hk⟩
  | up _ _ _ _ ih => exact ih

/-- One value comes first. -/
theorem First.unique {k : K} {v w : V} (hv : First parents hit k v) (hw : First parents hit k w) :
    v = w := by
  induction hv with
  | own hk =>
    cases hw with
    | own hk' => exact Option.some.inj (hk.symm.trans hk')
    | up hnone _ _ _ =>
      rw [hk] at hnone
      cases hnone
  | @up k p front back v hnone hparents hfront hfirst ih =>
    cases hw with
    | own hk =>
      rw [hk] at hnone
      cases hnone
    | @up _ p' front' back' _ _ hparents' hfront' hfirst' =>
      -- the first parent that is not silent is one
      rw [hparents] at hparents'
      rcases List.append_eq_append_iff.1 hparents' with ⟨mid, rfl, hback⟩ | ⟨mid, rfl, hback⟩
      · cases mid with
        | nil =>
          obtain ⟨rfl, -⟩ := List.cons.inj hback
          exact ih hfirst'
        | cons q mid =>
          obtain ⟨rfl, -⟩ := List.cons.inj hback
          exact absurd (hfront' _ (List.mem_append_right _ List.mem_cons_self)) hfirst.not_silent
      · cases mid with
        | nil =>
          obtain ⟨rfl, -⟩ := List.cons.inj hback
          exact ih hfirst'
        | cons q mid =>
          obtain ⟨rfl, -⟩ := List.cons.inj hback
          exact absurd (hfront _ (List.mem_append_right _ List.mem_cons_self)) hfirst'.not_silent

/-- What a search says. -/
def Says (parents : K → List K) (hit : K → Option V) (k : K) (seen : List K) :
    Option V × List K → Prop
  | (some v, _) => First parents hit k v
  | (none, seen') => Silent parents hit k ∧
      ∀ s ∈ seen', s ∈ seen ∨ Relation.ReflTransGen (Parent parents) k s

variable [DecidableEq K]

/-- What the search finds is the value of something. -/
theorem hit_of_find {n : ℕ} {k : K} {seen seen' : List K} {v : V}
    (h : find parents hit n k seen = some (some v, seen')) : ∃ j, hit j = some v := by
  induction n generalizing k seen seen' with
  | zero => cases h
  | succ n ih =>
    rw [find] at h
    cases hk : hit k with
    | some w =>
      rw [hk] at h
      cases h
      exact ⟨k, hk⟩
    | none =>
      rw [hk] at h
      dsimp only at h
      split at h
      · cases h
      · generalize k :: seen = seen₁ at h
        generalize parents k = ps at h
        induction ps generalizing seen₁ with
        | nil => cases h
        | cons p ps ihps =>
          rw [findIn] at h
          split at h
          · cases h
          · rename_i hget
            cases h
            exact ih hget
          · exact ihps _ h

/-- Where nothing is found, there is no value at the start. -/
theorem hit_of_find_none {n : ℕ} {k : K} {seen seen' : List K}
    (h : find parents hit n k seen = some (none, seen')) : hit k = none := by
  cases n with
  | zero => cases h
  | succ n =>
    rw [find] at h
    split at h
    · cases h
    · assumption

/-- **The search finds what comes first.**  What was passed before has nothing to give, or lies below. -/
theorem find_spec {known : List K} (hknown : ∀ k ∈ known, ∀ p ∈ parents k, p ∈ known)
    (hacyclic : ∀ k ∈ known, ¬ Relation.TransGen (Parent parents) k k) {n : ℕ} {k : K} (hkn : k ∈ known)
    {seen : List K} (hseen : ∀ s ∈ seen, Silent parents hit s ∨ Relation.TransGen (Parent parents) s k)
    {r : Option V × List K} (h : find parents hit n k seen = some r) : Says parents hit k seen r := by
  induction n generalizing k seen r with
  | zero => cases h
  | succ n ih =>
    rw [find] at h
    cases hk : hit k with
    | some v =>
      rw [hk] at h
      obtain rfl := Option.some.inj h
      exact .own hk
    | none =>
      rw [hk] at h
      dsimp only at h
      split at h
      · rename_i hmem
        obtain rfl := Option.some.inj h
        exact ⟨(hseen k hmem).resolve_right (hacyclic k hkn), fun s hs => .inl hs⟩
      · -- the parents in front are silent
        have hloop : ∀ ps front seen₁, parents k = front ++ ps →
            (∀ q ∈ front, Silent parents hit q) →
              (∀ s ∈ seen₁, s ∈ seen ∨ s = k ∨ ∃ q ∈ front, Relation.ReflTransGen (Parent parents) q s) →
                findIn (find parents hit n) ps seen₁ = some r → Says parents hit k seen r := by
          intro ps
          induction ps with
          | nil =>
            intro front seen₁ hparents hfront hseen₁ hr
            obtain rfl := Option.some.inj hr
            rw [List.append_nil] at hparents
            refine ⟨silent_of_parents hk fun p hp => hfront p (hparents ▸ hp), fun s hs => ?_⟩
            rcases hseen₁ s hs with hs | rfl | ⟨q, hq, hqs⟩
            · exact .inl hs
            · exact .inr .refl
            · exact .inr (.head (hparents ▸ hq : q ∈ parents k) hqs)
          | cons p ps ihps =>
            intro front seen₁ hparents hfront hseen₁ hr
            have hp : p ∈ parents k := by
              rw [hparents]
              exact List.mem_append_right _ List.mem_cons_self
            have hbelow : ∀ s ∈ seen₁,
                Silent parents hit s ∨ Relation.TransGen (Parent parents) s p := by
              intro s hs
              rcases hseen₁ s hs with hs | rfl | ⟨q, hq, hqs⟩
              · rcases hseen s hs with hs | hs
                · exact .inl hs
                · exact .inr (hs.tail hp)
              · exact .inr (.single hp)
              · exact .inl fun j hj => hfront q hq j (hqs.trans hj)
            rw [findIn] at hr
            cases hget : find parents hit n p seen₁ with
            | none =>
              rw [hget] at hr
              cases hr
            | some r' =>
              have hsays := ih (hknown k hkn p hp) hbelow hget
              obtain ⟨found, seen₂⟩ := r'
              rw [hget] at hr
              cases found with
              | some v =>
                obtain rfl := Option.some.inj hr
                exact .up hk hparents hfront hsays
              | none =>
                obtain ⟨hsilent, hnew⟩ := hsays
                refine ihps (front ++ [p]) seen₂ (by rw [hparents, List.append_assoc]; rfl) ?_ ?_ hr
                · intro q hq
                  rcases List.mem_append.1 hq with hq | hq
                  · exact hfront q hq
                  · obtain rfl := List.mem_singleton.1 hq
                    exact hsilent
                · intro s hs
                  rcases hnew s hs with hs | hps
                  · rcases hseen₁ s hs with hs | rfl | ⟨q, hq, hqs⟩
                    · exact .inl hs
                    · exact .inr (.inl rfl)
                    · exact .inr (.inr ⟨q, List.mem_append_left _ hq, hqs⟩)
                  · exact .inr (.inr ⟨p, List.mem_append_right _ (List.mem_singleton_self p), hps⟩)
        exact hloop (parents k) [] (k :: seen) rfl (fun q hq => by cases hq)
          (fun s hs => (List.mem_cons.1 hs).elim (fun hs => .inr (.inl hs)) .inl) h

/-- How many keys have not been passed. -/
def unseen (known seen : List K) : ℕ := (known.filter fun k => k ∉ seen).length

theorem unseen_le {known seen seen' : List K} (h : seen ⊆ seen') : unseen known seen' ≤ unseen known seen := by
  refine (List.monotone_filter_right known fun k hk => ?_).length_le
  rw [decide_eq_true_iff] at hk ⊢
  exact fun hmem => hk (h hmem)

theorem unseen_cons_lt {known seen : List K} {k : K} (hk : k ∈ known) (hnew : k ∉ seen) :
    unseen known (k :: seen) < unseen known seen := by
  induction known with
  | nil => cases hk
  | cons j known ih =>
    unfold unseen
    by_cases hj : j = k
    · subst hj
      have hle : unseen known (j :: seen) ≤ unseen known seen :=
        unseen_le fun s hs => List.mem_cons_of_mem _ hs
      unfold unseen at hle
      rw [List.filter_cons_of_neg (by simp), List.filter_cons_of_pos (by simpa using hnew),
        List.length_cons]
      omega
    · have hlt := ih ((List.mem_cons.1 hk).resolve_left (Ne.symm hj))
      unfold unseen at hlt
      rw [List.filter_cons, List.filter_cons]
      simp only [List.mem_cons, hj, false_or] at hlt ⊢
      split
      · rw [List.length_cons, List.length_cons]
        omega
      · exact hlt

/-- **The search ends**, where the parents are among finitely many keys. -/
theorem find_ends {known : List K} (hknown : ∀ k ∈ known, ∀ p ∈ parents k, p ∈ known) {n : ℕ} {k : K}
    (hk : k ∈ known) {seen : List K} (hn : unseen known seen < n) :
    ∃ r, find parents hit n k seen = some r ∧ seen ⊆ r.2 := by
  induction n generalizing k seen with
  | zero => omega
  | succ n ih =>
    rw [find]
    cases hit k with
    | some v => exact ⟨_, rfl, fun s hs => hs⟩
    | none =>
      dsimp only
      split
      · exact ⟨_, rfl, fun s hs => hs⟩
      · rename_i hnew
        have hlt := unseen_cons_lt hk hnew
        have hloop : ∀ ps seen₁, (∀ p ∈ ps, p ∈ known) → k :: seen ⊆ seen₁ →
            ∃ r, findIn (find parents hit n) ps seen₁ = some r ∧ k :: seen ⊆ r.2 := by
          intro ps
          induction ps with
          | nil => exact fun seen₁ _ hsub => ⟨_, rfl, hsub⟩
          | cons p ps ihps =>
            intro seen₁ hps hsub
            rw [List.forall_mem_cons] at hps
            have hle : unseen known seen₁ ≤ unseen known (k :: seen) := unseen_le hsub
            have hn₁ : unseen known seen₁ < n := by omega
            obtain ⟨⟨found, seen₂⟩, hget, hkept⟩ := ih hps.1 hn₁
            rw [findIn, hget]
            cases found with
            | some v => exact ⟨_, rfl, fun s hs => hkept (hsub hs)⟩
            | none => exact ihps seen₂ hps.2 fun s hs => hkept (hsub hs)
        obtain ⟨r, hr, hsub⟩ := hloop (parents k) (k :: seen) (hknown k hk) (fun s hs => hs)
        exact ⟨r, hr, fun s hs => hsub (List.mem_cons_of_mem _ hs)⟩

end PartCAD.Lib.FirstFound
