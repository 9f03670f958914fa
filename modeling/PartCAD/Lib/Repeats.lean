import PartCAD.Lib.Dict

/-!
# Things that come again

A list is gone through with the first thing of every key.  What has the key of an earlier thing is listed
with the first that has it.

* `Together` : two things are listed with one another, or with the same thing;
* `together_filter`, `together_repeats` : these are those that have one key.
-/

namespace PartCAD.Lib

variable {α κ : Type} [DecidableEq κ] (key : α → Option κ)

/-- What comes again in a list, each with the first of its key. -/
@[grind =]
def repeatsFrom (seen : Dict κ α) : List α → List (α × α)
  | [] => []
  | a :: rest =>
    match key a with
    | none => repeatsFrom seen rest
    | some k =>
      match seen.get? k with
      | some first => (first, a) :: repeatsFrom seen rest
      | none => repeatsFrom (seen.set k a) rest

def repeats (l : List α) : List (α × α) := repeatsFrom key Dict.empty l

/-- Two things are listed with one another, or with the same thing. -/
def Together (pairs : List (α × α)) (a b : α) : Prop :=
  (a, b) ∈ pairs ∨ (b, a) ∈ pairs ∨ ∃ first, (first, a) ∈ pairs ∧ (first, b) ∈ pairs

variable {key}

/-- What is listed has the key of what it is listed with. -/
theorem key_of_mem_repeatsFrom {a b : α} {l : List α} : ∀ {seen : Dict κ α},
    (∀ k first, seen.get? k = some first → key first = some k) → (a, b) ∈ repeatsFrom key seen l →
      ∃ k, key a = some k ∧ key b = some k := by
  induction l with
  | nil => exact fun _ h => nomatch h
  | cons x rest ih =>
    intro seen hseen h
    rw [repeatsFrom] at h
    cases hkey : key x with
    | none =>
      rw [hkey] at h
      exact ih hseen h
    | some k =>
      rw [hkey] at h
      dsimp only at h
      cases hfirst : seen.get? k with
      | some first =>
        rw [hfirst] at h
        rcases List.mem_cons.1 h with heq | h
        · obtain ⟨rfl, rfl⟩ := Prod.mk.inj heq
          exact ⟨k, hseen k _ hfirst, hkey⟩
        · exact ih hseen h
      | none =>
        rw [hfirst] at h
        refine ih (fun k' first hget => ?_) h
        rw [Dict.get?_set] at hget
        split at hget
        · rename_i hsame
          obtain rfl := Option.some.inj hget
          rw [hkey, hsame]
        · exact hseen k' first hget

/-- What has a key that has been seen is listed with what has been seen first. -/
theorem mem_repeatsFrom_of_seen {a first : α} {k : κ} {l : List α} : ∀ {seen : Dict κ α},
    seen.get? k = some first → a ∈ l → key a = some k → (first, a) ∈ repeatsFrom key seen l := by
  induction l with
  | nil => exact fun _ h => nomatch h
  | cons x rest ih =>
    intro seen hseen ha hkey
    rw [repeatsFrom]
    rcases List.mem_cons.1 ha with rfl | ha
    · rw [hkey]
      dsimp only
      rw [hseen]
      exact List.mem_cons_self
    · cases hx : key x with
      | none => exact ih hseen ha hkey
      | some k' =>
        dsimp only
        cases hfirst : seen.get? k' with
        | some first' => exact List.mem_cons_of_mem _ (ih hseen ha hkey)
        | none =>
          refine ih ?_ ha hkey
          rw [Dict.get?_set, if_neg, hseen]
          rintro rfl
          rw [hseen] at hfirst
          cases hfirst

/-- Of a key there is a first, and all others are listed with it. -/
theorem exists_first {k : κ} {l : List α} : ∀ {seen : Dict κ α}, seen.get? k = none →
    (∃ a ∈ l, key a = some k) → ∃ first ∈ l, key first = some k ∧
      ∀ a ∈ l, key a = some k → a = first ∨ (first, a) ∈ repeatsFrom key seen l := by
  induction l with
  | nil => exact fun _ ⟨_, h, _⟩ => nomatch h
  | cons x rest ih =>
    intro seen hseen hsome
    by_cases hx : key x = some k
    · refine ⟨x, List.mem_cons_self, hx, fun a ha hkey => ?_⟩
      rcases List.mem_cons.1 ha with rfl | ha
      · exact .inl rfl
      · right
        rw [repeatsFrom, hx]
        dsimp only
        rw [hseen]
        exact mem_repeatsFrom_of_seen (by rw [Dict.get?_set_self]) ha hkey
    · have hrest : ∃ a ∈ rest, key a = some k := by
        obtain ⟨a, ha, hkey⟩ := hsome
        rcases List.mem_cons.1 ha with rfl | ha
        · exact absurd hkey hx
        · exact ⟨a, ha, hkey⟩
      -- what comes first changes nothing of `k`
      have hstep : ∃ seen' : Dict κ α, seen'.get? k = none ∧
          ∀ pair ∈ repeatsFrom key seen' rest, pair ∈ repeatsFrom key seen (x :: rest) := by
        rw [repeatsFrom]
        cases hkey : key x with
        | none => exact ⟨seen, hseen, fun _ h => h⟩
        | some k' =>
          dsimp only
          cases hfirst : seen.get? k' with
          | some first => exact ⟨seen, hseen, fun _ h => List.mem_cons_of_mem _ h⟩
          | none =>
            refine ⟨seen.set k' x, ?_, fun _ h => h⟩
            rw [Dict.get?_set, if_neg, hseen]
            rintro rfl
            exact hx hkey
      obtain ⟨seen', hseen', hmore⟩ := hstep
      obtain ⟨first, hmem, hkey, hall⟩ := ih hseen' hrest
      refine ⟨first, List.mem_cons_of_mem _ hmem, hkey, fun a ha hkeya => ?_⟩
      rcases List.mem_cons.1 ha with rfl | ha
      · exact absurd hkeya hx
      · exact (hall a ha hkeya).imp_right (hmore _)

theorem key_of_mem_repeats {a b : α} {l : List α} (h : (a, b) ∈ repeats key l) :
    ∃ k, key a = some k ∧ key b = some k :=
  key_of_mem_repeatsFrom (fun k first hget => by
    rw [Dict.get?_empty] at hget
    cases hget) h

/-- **What is listed together has one key**, also when only what has a property of the key is listed. -/
theorem together_filter {l : List α} {p : α → Bool} (hp : ∀ x y, key x = key y → p x = p y) {a b : α}
    (ha : a ∈ l) (hb : b ∈ l) (hne : a ≠ b) :
    Together ((repeats key l).filter fun pair => p pair.2) a b ↔
      p a ∧ ∃ k, key a = some k ∧ key b = some k := by
  have hkeys : ∀ {x y}, (x, y) ∈ (repeats key l).filter (fun pair => p pair.2) →
      p y ∧ ∃ k, key x = some k ∧ key y = some k := by
    intro x y h
    obtain ⟨hmem, hpy⟩ := List.mem_filter.1 h
    exact ⟨hpy, key_of_mem_repeats hmem⟩
  constructor
  · rintro (h | h | ⟨first, hfa, hfb⟩)
    · obtain ⟨hpb, k, hka, hkb⟩ := hkeys h
      exact ⟨(hp a b (hka.trans hkb.symm)).trans hpb, k, hka, hkb⟩
    · obtain ⟨hpa, k, hkb, hka⟩ := hkeys h
      exact ⟨hpa, k, hka, hkb⟩
    · obtain ⟨hpa, k, hfirst, hka⟩ := hkeys hfa
      obtain ⟨-, k', hfirst', hkb⟩ := hkeys hfb
      obtain rfl := Option.some.inj (hfirst.symm.trans hfirst')
      exact ⟨hpa, k, hka, hkb⟩
  · rintro ⟨hpa, k, hka, hkb⟩
    obtain ⟨first, -, -, hall⟩ : ∃ first ∈ l, key first = some k ∧
        ∀ x ∈ l, key x = some k → x = first ∨ (first, x) ∈ repeatsFrom key Dict.empty l :=
      exists_first (Dict.get?_empty k) ⟨a, ha, hka⟩
    have hlist : ∀ {x}, key x = some k → (first, x) ∈ repeatsFrom key Dict.empty l →
        (first, x) ∈ (repeats key l).filter fun pair => p pair.2 := fun hx hmem =>
      List.mem_filter.2 ⟨hmem, (hp _ a (hx.trans hka.symm)).trans hpa⟩
    rcases hall a ha hka with rfl | hfa
    · rcases hall b hb hkb with rfl | hfb
      · exact absurd rfl hne
      · exact .inl (hlist hkb hfb)
    · rcases hall b hb hkb with rfl | hfb
      · exact .inr (.inl (hlist hka hfa))
      · exact .inr (.inr ⟨first, hlist hka hfa, hlist hkb hfb⟩)

theorem together_repeats {l : List α} {a b : α} (ha : a ∈ l) (hb : b ∈ l) (hne : a ≠ b) :
    Together (repeats key l) a b ↔ ∃ k, key a = some k ∧ key b = some k := by
  let p : α → Bool := fun _ => true
  have hall : (repeats key l).filter (fun pair => p pair.2) = repeats key l := List.filter_true _
  rw [← hall, together_filter (p := p) (fun _ _ _ => rfl) ha hb hne]
  exact and_iff_right rfl

end PartCAD.Lib
