import Mathlib.Data.List.Basic
import Mathlib.Data.List.Nodup
import Mathlib.Data.List.Perm.Subperm
import Mathlib.Logic.Relation
import Mathlib.Tactic.Common

/-!
# Walks that end where a name comes up again

Each stop of a walk ends it, breaks it, or has a name and says where to go next, which may not be
there.  The names that came up are kept, and the walk ends at one that came up before.

* `Chased` : the stops that a walk comes to;
* `chase_chased` : from a stop that the walk comes to, it goes on as from the start;
* `chase_terminates` : **over finitely many names, every walk ends**;
* `end_unique`, `not_cycle` : where a chain ends, it ends there only, and is no ring.
-/

namespace PartCAD.Lib

/-- What there is at a stop. -/
inductive Look (K E A : Type) where
  | stop
  | fail (e : E)
  | go (name : K) (next : Except E A)

/-- How a walk ends: at a stop that it can end at, where a name comes up again, or where it breaks. -/
inductive ChaseEnd (K E A : Type) where
  | ended (names : List K) (a : A)
  | again (name : K) (a : A)
  | failed (e : E)

section

variable {K E A : Type} (look : A → Look K E A)

/-- The stops that a walk comes to, with the names that came up before, the last one first. -/
inductive Chased (start : A) : List K → A → Prop
  | start : Chased start [] start
  | go {names : List K} {a a' : A} {name : K} :
    Chased start names a → look a = .go name (.ok a') → name ∉ names → Chased start (name :: names) a'

variable {look}

theorem Chased.nodup {start a : A} {names : List K} (h : Chased look start names a) : names.Nodup := by
  induction h with
  | start => exact List.nodup_nil
  | go _ _ hfresh ih => exact List.nodup_cons.2 ⟨hfresh, ih⟩

variable [DecidableEq K]

variable (look) in
@[grind =]
def chase : ℕ → List K → A → Option (ChaseEnd K E A)
  | 0, _, _ => none
  | fuel + 1, names, a =>
    match look a with
    | .stop => some (.ended names a)
    | .fail e => some (.failed e)
    | .go name next =>
      if name ∈ names then some (.again name a)
      else
        match next with
        | .error e => some (.failed e)
        | .ok a' => chase fuel (name :: names) a'

/-- **A walk goes on** from a stop that it comes to. -/
theorem chase_chased {start a : A} {names : List K} (h : Chased look start names a) (fuel : ℕ) :
    chase look (fuel + names.length) [] start = chase look fuel names a := by
  induction h generalizing fuel with
  | start => rfl
  | go _ hlook hfresh ih =>
    rw [List.length_cons, ← Nat.add_assoc, Nat.add_right_comm, ih (fuel + 1), chase, hlook]
    dsimp only
    rw [if_neg hfresh]

/-- What the end of a walk says of its way. -/
def EndOf (look : A → Look K E A) (start : A) : ChaseEnd K E A → Prop
  | .ended names a => Chased look start names a ∧ look a = .stop
  | .again name a => ∃ names next, Chased look start names a ∧ look a = .go name next ∧ name ∈ names
  | .failed e => ∃ names a, Chased look start names a ∧ (look a = .fail e ∨ ∃ name, look a = .go name (.error e))

theorem endOf_chase {start : A} {fuel : ℕ} {names : List K} {a : A} {result : ChaseEnd K E A}
    (hchased : Chased look start names a) (h : chase look fuel names a = some result) :
    EndOf look start result := by
  induction fuel generalizing names a with
  | zero => cases h
  | succ fuel ih =>
    rw [chase] at h
    cases hlook : look a with
    | stop =>
      rw [hlook] at h
      obtain rfl := Option.some.inj h
      exact ⟨hchased, hlook⟩
    | fail e =>
      rw [hlook] at h
      obtain rfl := Option.some.inj h
      exact ⟨names, a, hchased, .inl hlook⟩
    | go name next =>
      rw [hlook] at h
      dsimp only at h
      split at h
      · rename_i hmem
        obtain rfl := Option.some.inj h
        exact ⟨names, next, hchased, hlook, hmem⟩
      · rename_i hfresh
        cases next with
        | error e =>
          obtain rfl := Option.some.inj h
          exact ⟨names, a, hchased, .inr ⟨name, hlook⟩⟩
        | ok a' => exact ih (.go hchased hlook hfresh) h

/-- More fuel does not change the end. -/
theorem chase_mono {fuel fuel' : ℕ} (hle : fuel ≤ fuel') {names : List K} {a : A}
    {result : ChaseEnd K E A} (h : chase look fuel names a = some result) :
    chase look fuel' names a = some result := by
  induction fuel generalizing fuel' names a with
  | zero => cases h
  | succ fuel ih =>
    obtain ⟨n, rfl⟩ : ∃ n, fuel' = n + 1 := ⟨fuel' - 1, by omega⟩
    rw [chase] at h ⊢
    cases hlook : look a with
    | stop => rw [hlook] at h; exact h
    | fail e => rw [hlook] at h; exact h
    | go name next =>
      rw [hlook] at h
      dsimp only at h ⊢
      split at h
      · rename_i hmem
        rw [if_pos hmem]
        exact h
      · rename_i hfresh
        rw [if_neg hfresh]
        cases next with
        | error e => exact h
        | ok a' => exact ih (by omega) h

theorem chase_unique {fuel fuel' : ℕ} {names : List K} {a : A} {result result' : ChaseEnd K E A}
    (h : chase look fuel names a = some result) (h' : chase look fuel' names a = some result') :
    result = result' := by
  have hmax := chase_mono (Nat.le_max_left fuel fuel') h
  have hmax' := chase_mono (Nat.le_max_right fuel fuel') h'
  exact Option.some.inj (hmax.symm.trans hmax')

/-- **Over finitely many names** every walk ends. -/
theorem chase_terminates {start : A} (known : List K)
    (hnames : ∀ names a name next, Chased look start names a → look a = .go name next → name ∈ known) :
    ∃ fuel result, chase look fuel [] start = some result := by
  -- by how many names have not come up
  have hgo : ∀ n names a, Chased look start names a → names ⊆ known →
      known.length ≤ names.length + n → ∃ fuel result, chase look fuel names a = some result := by
    intro n
    induction n with
    | zero =>
      intro names a hchased hsub hle
      refine ⟨1, ?_⟩
      rw [chase]
      cases hlook : look a with
      | stop => exact ⟨_, rfl⟩
      | fail e => exact ⟨_, rfl⟩
      | go name next =>
        have hmem : name ∈ names := by
          have hperm := (hchased.nodup.subperm hsub).perm_of_length_le (by omega)
          exact hperm.mem_iff.2 (hnames names a name next hchased hlook)
        dsimp only
        rw [if_pos hmem]
        exact ⟨_, rfl⟩
    | succ n ih =>
      intro names a hchased hsub hle
      cases hlook : look a with
      | stop => exact ⟨1, _, by rw [chase, hlook]⟩
      | fail e => exact ⟨1, _, by rw [chase, hlook]⟩
      | go name next =>
        by_cases hmem : name ∈ names
        · exact ⟨1, _, by rw [chase, hlook]; exact if_pos hmem⟩
        · cases next with
          | error e => exact ⟨1, _, by rw [chase, hlook]; exact if_neg hmem⟩
          | ok a' =>
            have hin := hnames names a name _ hchased hlook
            obtain ⟨fuel, result, hresult⟩ := ih (name :: names) a' (.go hchased hlook hmem)
              (List.cons_subset.2 ⟨hin, hsub⟩) (by rw [List.length_cons]; omega)
            refine ⟨fuel + 1, result, ?_⟩
            rw [chase, hlook]
            exact (if_neg hmem).trans hresult
  exact hgo known.length [] start .start (List.nil_subset _) (by omega)

end

/-! ## Chains -/

section

variable {A : Type} (next : A → Option A)

/-- What one comes to on the way. -/
def OnChain (a b : A) : Prop := Relation.ReflTransGen (fun a b => next a = some b) a b

/-- The chain comes back to where it has been. -/
def Circular (a : A) : Prop :=
  ∃ b, OnChain next a b ∧ Relation.TransGen (fun a b => next a = some b) b b

variable {next}

/-- From a place where a chain goes on, it goes on to what it ends at. -/
theorem OnChain.tail {a b c : A} (hb : OnChain next a b) (hend : next b = none) (hc : next a = some c) :
    OnChain next c b := by
  rcases Relation.ReflTransGen.cases_head hb with rfl | ⟨d, hd, hrest⟩
  · rw [hend] at hc
    cases hc
  · obtain rfl : c = d := Option.some.inj (hc.symm.trans hd)
    exact hrest

/-- What a chain comes to leads to its end. -/
theorem OnChain.end_of {a b c : A} (hb : OnChain next a b) (hend : next b = none) (hc : OnChain next a c) :
    OnChain next c b := by
  induction hc with
  | refl => exact hb
  | tail _ hstep ih => exact ih.tail hend hstep

/-- **A chain ends at one place.** -/
theorem end_unique {a b c : A} (hb : OnChain next a b) (hendb : next b = none) (hc : OnChain next a c)
    (hendc : next c = none) : b = c := by
  rcases Relation.ReflTransGen.cases_head (hb.end_of hendb hc) with h | ⟨d, hd, -⟩
  · exact h.symm
  · rw [hendc] at hd
    cases hd

/-- **A chain that ends is no ring.** -/
theorem not_cycle {a b : A} (hb : OnChain next a b) (hend : next b = none) : ¬ Circular next a := by
  rintro ⟨c, hc, hring⟩
  have hcb : OnChain next c b := hb.end_of hend hc
  -- along the way to the end, the ring goes on
  have hkeeps : ∀ d, OnChain next c d → Relation.TransGen (fun a b => next a = some b) d d := by
    intro d hd
    induction hd with
    | refl => exact hring
    | tail _ hstep ih =>
      obtain ⟨e, he, hback⟩ := Relation.TransGen.head'_iff.1 ih
      obtain rfl := Option.some.inj (he.symm.trans hstep)
      exact Relation.TransGen.tail' hback hstep
  obtain ⟨d, hd, -⟩ := Relation.TransGen.head'_iff.1 (hkeeps b hcb)
  rw [hend] at hd
  cases hd

end

end PartCAD.Lib
