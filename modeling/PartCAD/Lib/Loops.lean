import Mathlib.Data.List.Forall2
import Mathlib.Data.List.Nodup
import Mathlib.Data.List.Perm.Subperm
import Mathlib.Tactic.Common

/-!
# Loops

A loop over a list, from state to state, that ends where a step fails; and a loop that counts up to a
number that is free.

* `foldlM_spec` : what holds of the part that is done holds of the whole;
* `foldlM_total`, `foldlM_related` : what each step does, the loop does;
* `foldlM_done` : what the steps of a loop that ends keep;
* `foldlM_map` : a loop seen through a function of its state;
* `foldlM_call` : each step of a loop that ends was taken;
* `mapM_spec` : what holds of each result of a loop;
* `firstIndex_free` : the number that is counted up to is free, when each thing that is there takes one
  number at most.
-/

namespace PartCAD.Lib

variable {α σ : Type} {f : σ → α → Option σ}

/-- **A loop by what is done.** -/
theorem foldlM_spec {P : List α → σ → Prop} {l : List α} {s : σ} (hinit : P [] s)
    (hstep : ∀ done a rest s, l = done ++ a :: rest → P done s →
      ∃ s', f s a = some s' ∧ P (done ++ [a]) s') :
    ∃ s', l.foldlM f s = some s' ∧ P l s' := by
  have hrun : ∀ (rest done : List α) (s : σ), l = done ++ rest → P done s →
      ∃ s', rest.foldlM f s = some s' ∧ P l s' := by
    intro rest
    induction rest with
    | nil =>
      intro done s hl hs
      rw [List.append_nil] at hl
      exact ⟨s, rfl, hl ▸ hs⟩
    | cons a rest ih =>
      intro done s hl hs
      obtain ⟨s₁, hf, hs₁⟩ := hstep done a rest s hl hs
      obtain ⟨s', hrest, hs'⟩ := ih (done ++ [a]) s₁ (by rw [hl, List.append_assoc]; rfl) hs₁
      refine ⟨s', ?_, hs'⟩
      rw [List.foldlM_cons, hf]
      exact hrest
  exact hrun l [] s rfl hinit

/-- A loop of steps that do not fail. -/
theorem foldlM_total {l : List α} (h : ∀ a ∈ l, ∀ s, ∃ s', f s a = some s') (s : σ) :
    ∃ s', l.foldlM f s = some s' := by
  obtain ⟨s', hfold, -⟩ := foldlM_spec (P := fun _ _ => True) (l := l) (s := s) trivial
    fun done a rest s hl _ => by
      obtain ⟨s', hs'⟩ := h a (by rw [hl]; exact List.mem_append_right _ List.mem_cons_self) s
      exact ⟨s', hs', trivial⟩
  exact ⟨s', hfold⟩

theorem foldlM_related {R : σ → σ → Prop} (hrefl : ∀ s, R s s)
    (htrans : ∀ s₁ s₂ s₃, R s₁ s₂ → R s₂ s₃ → R s₁ s₃) {l : List α}
    (h : ∀ a ∈ l, ∀ s s', f s a = some s' → R s s') {s s' : σ} (hfold : l.foldlM f s = some s') :
    R s s' := by
  induction l generalizing s with
  | nil =>
    obtain rfl : s = s' := by simpa using hfold
    exact hrefl s
  | cons a l ih =>
    obtain ⟨s₁, hstep, hrest⟩ := Option.bind_eq_some_iff.1 hfold
    have hl := ih (fun b hb => h b (List.mem_cons_of_mem a hb)) hrest
    exact htrans s s₁ s' (h a List.mem_cons_self s s₁ hstep) hl

/-- What the steps of a loop that ends keep, by what is done. -/
theorem foldlM_done {P : List α → σ → Prop} {l : List α} {s s' : σ} (hfold : l.foldlM f s = some s')
    (hinit : P [] s)
    (hstep : ∀ done a rest s s', l = done ++ a :: rest → P done s → f s a = some s' →
      P (done ++ [a]) s') : P l s' := by
  have hrun : ∀ (rest done : List α) (s : σ), l = done ++ rest → rest.foldlM f s = some s' →
      P done s → P l s' := by
    intro rest
    induction rest with
    | nil =>
      intro done s hl hs hdone
      obtain rfl : s = s' := by simpa using hs
      rw [List.append_nil] at hl
      exact hl ▸ hdone
    | cons a rest ih =>
      intro done s hl hs hdone
      obtain ⟨s₁, hf, hrest⟩ := Option.bind_eq_some_iff.1 hs
      have happend : l = (done ++ [a]) ++ rest := by rw [hl, List.append_assoc]; rfl
      exact ih (done ++ [a]) s₁ happend hrest (hstep done a rest s s₁ hl hdone hf)
  exact hrun l [] s rfl hfold hinit

/-- A loop seen through a function of its state. -/
theorem foldlM_map {τ : Type} {g : τ → α → Option τ} {h : σ → τ} {l : List α}
    (hstep : ∀ a ∈ l, ∀ s, (f s a).map h = g (h s) a) (s : σ) :
    (l.foldlM f s).map h = l.foldlM g (h s) := by
  induction l generalizing s with
  | nil => rfl
  | cons a l ih =>
    have hrest := ih fun b hb => hstep b (List.mem_cons_of_mem a hb)
    rw [List.foldlM_cons, List.foldlM_cons, ← hstep a List.mem_cons_self]
    cases f s a with
    | none => rfl
    | some s₁ => exact hrest s₁

/-- A loop with one more step. -/
theorem foldlM_concat (f : σ → α → Option σ) (l : List α) (a : α) (s : σ) :
    (l ++ [a]).foldlM f s = (l.foldlM f s).bind fun s => f s a := by
  rw [List.foldlM_append]
  show (l.foldlM f s).bind _ = _
  congr 1
  funext s'
  exact bind_pure _

/-- A step of a loop, with what comes after it. -/
theorem foldlM_call {l : List α} {a : α} (ha : a ∈ l) {s s' : σ} (hfold : l.foldlM f s = some s') :
    ∃ s₁ s₂ rest, f s₁ a = some s₂ ∧ rest ⊆ l ∧ rest.foldlM f s₂ = some s' := by
  induction l generalizing s with
  | nil => exact absurd ha List.not_mem_nil
  | cons b l ih =>
    obtain ⟨s₁, hstep, hrest⟩ := Option.bind_eq_some_iff.1 hfold
    rcases List.mem_cons.1 ha with rfl | ha
    · exact ⟨s, s₁, l, hstep, List.subset_cons_self a l, hrest⟩
    · obtain ⟨s₂, s₃, rest, hcall, hsub, hend⟩ := ih ha hrest
      exact ⟨s₂, s₃, rest, hcall, List.Subset.trans hsub (List.subset_cons_self b l), hend⟩

/-! ## One result for each -/

section

variable {β : Type} {g : α → Option β}

/-- What holds of each result. -/
theorem mapM_spec {P : α → β → Prop} {l : List α} (h : ∀ a ∈ l, ∃ b, g a = some b ∧ P a b) :
    ∃ bs, l.mapM g = some bs ∧ List.Forall₂ P l bs := by
  induction l with
  | nil => exact ⟨[], rfl, .nil⟩
  | cons a l ih =>
    obtain ⟨b, hb, hab⟩ := h a List.mem_cons_self
    obtain ⟨bs, hbs, hall⟩ := ih fun a' ha' => h a' (List.mem_cons_of_mem a ha')
    refine ⟨b :: bs, ?_, .cons hab hall⟩
    rw [List.mapM_cons, hb, hbs]
    rfl

/-- Each result comes from something. -/
theorem mem_of_forall₂ {P : α → β → Prop} {l : List α} {bs : List β} (h : List.Forall₂ P l bs) {b : β}
    (hb : b ∈ bs) : ∃ a ∈ l, P a b := by
  induction h with
  | nil => exact absurd hb List.not_mem_nil
  | @cons a b' l bs hab _ ih =>
    rcases List.mem_cons.1 hb with rfl | hb
    · exact ⟨a, List.mem_cons_self, hab⟩
    · obtain ⟨a', ha', hab'⟩ := ih hb
      exact ⟨a', List.mem_cons_of_mem a ha', hab'⟩

/-- Results from which one can tell what they come from. -/
theorem map_eq_of_forall₂ {γ : Type} {P : α → β → Prop} {l : List α} {bs : List β} {f : α → γ}
    {f' : β → γ} (h : List.Forall₂ P l bs) (hf : ∀ a b, P a b → f' b = f a) :
    bs.map f' = l.map f := by
  induction h with
  | nil => rfl
  | cons hab _ ih => rw [List.map_cons, List.map_cons, hf _ _ hab, ih]

theorem mapM_some {f : α → β} {l : List α} (h : ∀ a ∈ l, g a = some (f a)) :
    l.mapM g = some (l.map f) := by
  obtain ⟨bs, hbs, hall⟩ := mapM_spec fun a ha => ⟨f a, h a ha, rfl⟩
  have hmap : bs.map id = l.map f := map_eq_of_forall₂ hall fun a b hab => hab.symm
  rw [hbs, ← hmap, List.map_id]

end

/-! ## Counting up -/

/-- The first number from one on that is not taken, if it is found in as many steps. -/
def firstIndex (taken : ℕ → Bool) : ℕ → ℕ → ℕ
  | 0, k => k
  | n + 1, k => if taken k then firstIndex taken n (k + 1) else k

/-- When the loop ends with a number that is taken, so are all that it tried. -/
theorem taken_of_firstIndex {taken : ℕ → Bool} {n k : ℕ} (h : taken (firstIndex taken n k) = true) :
    ∀ i ≤ n, taken (k + i) = true := by
  induction n generalizing k with
  | zero =>
    intro i hi
    obtain rfl : i = 0 := by omega
    exact h
  | succ n ih =>
    intro i hi
    cases hk : taken k with
    | false =>
      rw [firstIndex, hk, if_neg Bool.false_ne_true, hk] at h
      exact absurd h Bool.false_ne_true
    | true =>
      rw [firstIndex, if_pos hk] at h
      cases i with
      | zero => exact hk
      | succ i =>
        have hnext := ih (k := k + 1) h i (by omega)
        rwa [show k + (i + 1) = k + 1 + i by omega]

/-- **A free number is found**: more numbers are tried than there are things that could take them. -/
theorem firstIndex_free {taken : ℕ → Bool} {things : List α} (takes : α → ℕ → Prop)
    (htaken : ∀ k, taken k = true → ∃ a ∈ things, takes a k)
    (hone : ∀ a k k', takes a k → takes a k' → k = k') :
    taken (firstIndex taken things.length 0) = false := by
  by_contra hend
  have hall := taken_of_firstIndex (Bool.of_not_eq_false hend)
  have hthing : ∀ i, ∃ a, i ≤ things.length → a ∈ things ∧ takes a i := by
    intro i
    by_cases hi : i ≤ things.length
    · obtain ⟨a, hmem, htakes⟩ := htaken i (by simpa using hall i hi)
      exact ⟨a, fun _ => ⟨hmem, htakes⟩⟩
    · obtain ⟨a, -⟩ := htaken 0 (hall 0 (Nat.zero_le _))
      exact ⟨a, fun h => absurd h hi⟩
  choose thing hthing using hthing
  have hlow : ∀ {i}, i ∈ List.range (things.length + 1) → i ≤ things.length := by
    intro i hi
    have h := List.mem_range.1 hi
    omega
  have hnodup : ((List.range (things.length + 1)).map thing).Nodup := by
    refine List.Nodup.map_on (fun i hi j hj heq => ?_) List.nodup_range
    have hj' := (hthing j (hlow hj)).2
    rw [← heq] at hj'
    exact hone _ _ _ (hthing i (hlow hi)).2 hj'
  have hsub : (List.range (things.length + 1)).map thing ⊆ things := by
    intro a ha
    obtain ⟨i, hi, rfl⟩ := List.mem_map.1 ha
    exact (hthing i (hlow hi)).1
  have hlength := (List.subperm_of_subset hnodup hsub).length_le
  rw [List.length_map, List.length_range] at hlength
  omega

end PartCAD.Lib
