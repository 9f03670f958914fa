import Mathlib.Algebra.Ring.Nat
import Mathlib.Data.Nat.Notation
import Mathlib.Logic.Relation

/-!
# Runs

A system steps from state to state on events, and not every event is possible in every state.

* `Run.invariant` : what every step keeps holds after every run;
* `run_after` : a run by its events;
* `Steps.add_le` : steps that lower a measure;
* `getElem?_set_cases`, `getElem?_concat_cases` : the parties after a step;
* `countP_set`, `countP_flatMap_set`, `eq_of_countP_le_one` : counts over the parties of a system;
* `not_transGen_self` : parties that wait only for lower ones do not wait for themselves.
-/

namespace PartCAD.Lib

structure System (S E : Type) where
  init : S
  step : S → E → Option S

/-- The states that are reached by steps of which each meets a condition. -/
inductive Run {S E : Type} (sys : System S E) (ok : S → E → Prop) : S → Prop where
  | init : Run sys ok sys.init
  | step {s s' : S} {e : E} : Run sys ok s → ok s e → sys.step s e = some s' → Run sys ok s'

section

variable {S E : Type} {sys : System S E} {ok : S → E → Prop}

/-- **Invariants.** -/
theorem Run.invariant {P : S → Prop} (hinit : P sys.init)
    (hstep : ∀ s e s', P s → ok s e → sys.step s e = some s' → P s') {s : S} (h : Run sys ok s) :
    P s := by
  induction h with
  | init => exact hinit
  | step _ hok hs ih => exact hstep _ _ _ ih hok hs

/-- What meets a condition meets a weaker one. -/
theorem Run.mono {ok' : S → E → Prop} (hok : ∀ s e, ok s e → ok' s e) {s : S} (h : Run sys ok s) :
    Run sys ok' s := by
  induction h with
  | init => exact .init
  | step _ h hs ih => exact .step ih (hok _ _ h) hs

/-- The state after some events, if each is possible and meets the condition where it happens. -/
def System.after (sys : System S E) (ok : S → E → Prop) [∀ s e, Decidable (ok s e)]
    (events : List E) : Option S :=
  events.foldlM (fun s e => if ok s e then sys.step s e else none) sys.init

/-- **A run by its events.** -/
theorem run_after [∀ s e, Decidable (ok s e)] {events : List E} {t : S}
    (h : sys.after ok events = some t) : Run sys ok t := by
  have hrun : ∀ (events : List E) (s : S), Run sys ok s →
      events.foldlM (fun s e => if ok s e then sys.step s e else none) s = some t →
        Run sys ok t := by
    intro events
    induction events with
    | nil =>
      intro s hs heq
      obtain rfl : s = t := by simpa using heq
      exact hs
    | cons e events ih =>
      intro s hs heq
      obtain ⟨s', hstep, hrest⟩ := Option.bind_eq_some_iff.1 heq
      obtain ⟨hok, hstep⟩ := Option.ite_none_right_eq_some.1 hstep
      exact ih s' (Run.step hs hok hstep) hrest
  exact hrun events sys.init Run.init h

/-- So many steps, on events of a kind, lead from one state to another. -/
inductive Steps (sys : System S E) (kind : E → Prop) : ℕ → S → S → Prop where
  | refl {s : S} : Steps sys kind 0 s s
  | step {n : ℕ} {s t u : S} {e : E} : Steps sys kind n s t → kind e → sys.step t e = some u →
      Steps sys kind (n + 1) s u

variable {kind : E → Prop}

/-- Steps go on with a run. -/
theorem Steps.run {n : ℕ} {s t : S} (h : Steps sys kind n s t) (hs : Run sys (fun _ _ => True) s) :
    Run sys (fun _ _ => True) t := by
  induction h with
  | refl => exact hs
  | step _ _ hstep ih => exact .step (ih hs) trivial hstep

/-- **Steps that lower a measure** are no more than it. -/
theorem Steps.add_le {m : S → ℕ}
    (hlower : ∀ s e s', Run sys (fun _ _ => True) s → kind e → sys.step s e = some s' → m s' < m s)
    {n : ℕ} {s t : S} (h : Steps sys kind n s t) (hs : Run sys (fun _ _ => True) s) :
    n + m t ≤ m s := by
  induction h with
  | refl => omega
  | step hsteps hkind hstep ih =>
    have hlt := hlower _ _ _ (hsteps.run hs) hkind hstep
    have hle := ih hs
    omega

end

/-! ## Parties

The parties of a system are a list, and a step is one of them getting on. -/

/-- Who is where after one party has got on. -/
theorem getElem?_set_cases {α : Type} {parties : List α} {i j : ℕ} {p p' : α}
    (h : (parties.set i p')[j]? = some p) : (j = i ∧ p = p') ∨ (j ≠ i ∧ parties[j]? = some p) := by
  rw [List.getElem?_set] at h
  by_cases hij : i = j
  · rw [if_pos hij] at h
    split at h
    · exact Or.inl ⟨hij.symm, (Option.some.inj h).symm⟩
    · exact absurd h (by simp)
  · rw [if_neg hij] at h
    exact Or.inr ⟨fun hji => hij hji.symm, h⟩

/-- Who is where after a party has come in. -/
theorem getElem?_concat_cases {α : Type} {parties : List α} {j : ℕ} {p p' : α}
    (h : (parties ++ [p'])[j]? = some p) :
    (j = parties.length ∧ p = p') ∨ (j < parties.length ∧ parties[j]? = some p) := by
  rcases Nat.lt_trichotomy j parties.length with hlt | heq | hgt
  · rw [List.getElem?_append_left hlt] at h
    exact Or.inr ⟨hlt, h⟩
  · subst heq
    exact Or.inl ⟨rfl, by simpa using h.symm⟩
  · rw [List.getElem?_eq_none (by simp; omega)] at h
    exact absurd h (by simp)

section

variable {α : Type} (q : α → Bool)

theorem countP_set {parties : List α} {i : ℕ} {p : α} (hp : parties[i]? = some p) (p' : α) :
    (parties.set i p').countP q + (q p).toNat = parties.countP q + (q p').toNat := by
  obtain ⟨hi, rfl⟩ := List.getElem?_eq_some_iff.1 hp
  rw [List.countP_set hi]
  have hmem : parties[i] ∈ parties := List.getElem_mem hi
  cases hq : q parties[i] with
  | false =>
    cases q p' with
    | false => simp
    | true => simp
  | true =>
    have hpos : 0 < parties.countP q := List.countP_pos_iff.2 ⟨_, hmem, hq⟩
    cases q p' with
    | false => simp; omega
    | true => simp; omega

/-- What is left to do, when one party has got on. -/
theorem sum_map_set_lt {m : α → ℕ} {parties : List α} {i : ℕ} {p p' : α}
    (hp : parties[i]? = some p) (hlt : m p' < m p) :
    ((parties.set i p').map m).sum < (parties.map m).sum := by
  induction parties generalizing i with
  | nil => cases hp
  | cons a parties ih =>
    cases i with
    | zero =>
      obtain rfl : a = p := by simpa using hp
      simp only [List.set_cons_zero, List.map_cons, List.sum_cons]
      omega
    | succ i =>
      have hrest := ih (i := i) (by simpa using hp)
      simp only [List.set_cons_succ, List.map_cons, List.sum_cons]
      omega

/-- Of what the parties have, when one gets something else. -/
theorem countP_flatMap_set {β : Type} (f : β → List α) {parties : List β} {i : ℕ} {p : β}
    (hp : parties[i]? = some p) (p' : β) :
    ((parties.set i p').flatMap f).countP q + (f p).countP q =
      (parties.flatMap f).countP q + (f p').countP q := by
  induction parties generalizing i with
  | nil => cases hp
  | cons a parties ih =>
    cases i with
    | zero =>
      obtain rfl : a = p := by simpa using hp
      simp only [List.set_cons_zero, List.flatMap_cons, List.countP_append]
      omega
    | succ i =>
      have hrest := ih (i := i) (by simpa using hp)
      simp only [List.set_cons_succ, List.flatMap_cons, List.countP_append]
      omega

variable {q}

/-- Of a kind of which there is one at most, two are the same. -/
theorem eq_of_countP_le_one {parties : List α} {i j : ℕ} {p p' : α} (h : parties.countP q ≤ 1)
    (hp : parties[i]? = some p) (hp' : parties[j]? = some p') (hq : q p = true)
    (hq' : q p' = true) : i = j := by
  induction parties generalizing i j with
  | nil => exact absurd hp (by simp)
  | cons a parties ih =>
    rw [List.countP_cons] at h
    cases i with
    | zero =>
      cases j with
      | zero => rfl
      | succ j =>
        obtain rfl : a = p := by simpa using hp
        have hpos : 0 < parties.countP q :=
          List.countP_pos_iff.2 ⟨p', List.mem_of_getElem? hp', hq'⟩
        rw [if_pos hq] at h
        omega
    | succ i =>
      cases j with
      | zero =>
        obtain rfl : a = p' := by simpa using hp'
        have hpos : 0 < parties.countP q :=
          List.countP_pos_iff.2 ⟨p, List.mem_of_getElem? hp, hq⟩
        rw [if_pos hq'] at h
        omega
      | succ j => exact congrArg Nat.succ (ih (by omega) hp hp')

end

/-- A relation that goes down in rank has no cycle. -/
theorem not_transGen_self {α : Type} {r : α → α → Prop} {rank : α → ℕ}
    (h : ∀ a b, r a b → rank b < rank a) (a : α) : ¬ Relation.TransGen r a a := by
  have hdown : ∀ b, Relation.TransGen r a b → rank b < rank a := by
    intro b hab
    induction hab with
    | single hab => exact h _ _ hab
    | tail _ hbc ih => exact Nat.lt_trans (h _ _ hbc) ih
  intro hcycle
  exact Nat.lt_irrefl _ (hdown a hcycle)

end PartCAD.Lib
