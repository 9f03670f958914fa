import PartCAD.Lib.Program
import PartCAD.Lib.Run

/-!
# Programs side by side

Several programs share a world.  They take turns at their calls in any order, and any of them may be
left where it is for good.

* `Guarantees` : what a program does to the world at each of its calls and how it ends, where the
  others do to the world only what it relies on;
* `guarantees_bind`, `guarantees_tryCatch`, `guarantees_perform` : **the rules**;
* `pool` : the programs as a system;
* `step_guarantees` : they are kept to it, where none does what another one does not rely on;
* `pool_invariant` : what all of them keep.
-/

namespace PartCAD.Lib

namespace Program

section

variable {C : Type} {A : C → Type} {E α β σ F : Type}
  (effect : (c : C) → σ → F → Option (Except E (A c) × σ))
  (ok : C → σ → F → Prop) (R G : σ → σ → Prop)

/-- **The program changes the world as `G` says, and ends with `Q`, or raises with `X`**, if the
fates of its calls are `ok` and the others change the world as `R` says. -/
def Guarantees (Q : α → σ → Prop) (X : E → σ → Prop) : Program C A E α → σ → Prop
  | .done a, s => Q a s
  | .raised e, s => X e s
  | .call c k, s =>
    ∀ t, Relation.ReflTransGen R s t → ∀ f r u, ok c t f → effect c t f = some (r, u) →
      G t u ∧ (k r).Guarantees Q X u

variable {effect ok R G} {Q Q' : α → σ → Prop} {X X' : E → σ → Prop}

theorem Guarantees.mono (hQ : ∀ a s, Q a s → Q' a s) (hX : ∀ e s, X e s → X' e s)
    {p : Program C A E α} {s : σ} (h : p.Guarantees effect ok R G Q X s) :
    p.Guarantees effect ok R G Q' X' s := by
  induction p generalizing s with
  | done a => exact hQ a s h
  | raised e => exact hX e s h
  | call c k ih =>
    intro t ht f r u hf hr
    exact ⟨(h t ht f r u hf hr).1, ih r (h t ht f r u hf hr).2⟩

/-- Less may be allowed, and less relied on. -/
theorem Guarantees.weaken {ok' : C → σ → F → Prop} {R' G' : σ → σ → Prop}
    (hok : ∀ c s f, ok' c s f → ok c s f) (hR : ∀ s t, R' s t → R s t) (hG : ∀ s t, G s t → G' s t)
    {p : Program C A E α} {s : σ} (h : p.Guarantees effect ok R G Q X s) :
    p.Guarantees effect ok' R' G' Q X s := by
  induction p generalizing s with
  | done a => exact h
  | raised e => exact h
  | call c k ih =>
    intro t ht f r u hf hr
    obtain ⟨hstep, hrest⟩ := h t (Relation.ReflTransGen.mono hR s t ht) f r u (hok c t f hf) hr
    exact ⟨hG t u hstep, ih r hrest⟩

@[simp] theorem guarantees_pure {a : α} {s : σ} :
    (pure a : Program C A E α).Guarantees effect ok R G Q X s ↔ Q a s :=
  Iff.rfl

@[simp] theorem guarantees_raised {e : E} {s : σ} :
    (raised e : Program C A E α).Guarantees effect ok R G Q X s ↔ X e s :=
  Iff.rfl

/-- **One after the other.** -/
theorem guarantees_bind {Q : β → σ → Prop} {p : Program C A E α} {f : α → Program C A E β} {s : σ} :
    (p >>= f).Guarantees effect ok R G Q X s ↔
      p.Guarantees effect ok R G (fun a => (f a).Guarantees effect ok R G Q X) X s := by
  change (p.bind f).Guarantees effect ok R G Q X s ↔ _
  induction p generalizing s with
  | done a => exact Iff.rfl
  | raised e => exact Iff.rfl
  | call c k ih =>
    constructor
    · intro h t ht f r u hf hr
      exact ⟨(h t ht f r u hf hr).1, (ih r).1 (h t ht f r u hf hr).2⟩
    · intro h t ht f r u hf hr
      exact ⟨(h t ht f r u hf hr).1, (ih r).2 (h t ht f r u hf hr).2⟩

/-- **A handler takes over where the program raises.** -/
theorem guarantees_tryCatch {p : Program C A E α} {handler : E → Program C A E α} {s : σ} :
    (p.tryCatch handler).Guarantees effect ok R G Q X s ↔
      p.Guarantees effect ok R G Q (fun e => (handler e).Guarantees effect ok R G Q X) s := by
  induction p generalizing s with
  | done a => exact Iff.rfl
  | raised e => exact Iff.rfl
  | call c k ih =>
    constructor
    · intro h t ht f r u hf hr
      exact ⟨(h t ht f r u hf hr).1, (ih r).1 (h t ht f r u hf hr).2⟩
    · intro h t ht f r u hf hr
      exact ⟨(h t ht f r u hf hr).1, (ih r).2 (h t ht f r u hf hr).2⟩

/-- What the others do not change still holds after they have been at it. -/
theorem stable {P : σ → Prop} (hstable : ∀ s t, P s → R s t → P t) {s t : σ}
    (h : Relation.ReflTransGen R s t) (hs : P s) : P t := by
  induction h with
  | refl => exact hs
  | tail _ hstep ih => exact hstable _ _ ih hstep

/-- **One call**, made where `P` holds whatever the others do. -/
theorem guarantees_perform {P : σ → Prop} (hstable : ∀ s t, P s → R s t → P t) {c : C}
    {Q : A c → σ → Prop} {s : σ} (hs : P s)
    (h : ∀ t f r u, P t → ok c t f → effect c t f = some (r, u) → G t u ∧ Reply Q X r u) :
    (perform c : Program C A E (A c)).Guarantees effect ok R G Q X s := by
  intro t ht f r u hf hr
  have hreply := h t f r u (stable hstable ht hs) hf hr
  cases r with
  | ok a => exact hreply
  | error e => exact hreply

end

end Program

/-! ## Pools -/

open Program

section

variable {C : Type} {A : C → Type} {E α σ F : Type}

/-- The programs take turns: the one with the given number gets on by one call. -/
def pool (effect : (c : C) → σ → F → Option (Except E (A c) × σ)) (programs : List (Program C A E α))
    (s : σ) : System (List (Program C A E α) × σ) (ℕ × F) where
  init := (programs, s)
  step st e :=
    (st.1[e.1]?).bind fun p =>
      (advance effect e.2 (p, st.2)).map fun next => (st.1.set e.1 next.1, next.2)

/-- The fate of the call that a program makes is `ok`. -/
def Allowed (ok : ℕ → C → σ → F → Prop) (st : List (Program C A E α) × σ) (e : ℕ × F) : Prop :=
  ∀ p c, st.1[e.1]? = some p → p.pending = some c → ok e.1 c st.2 e.2

variable {effect : (c : C) → σ → F → Option (Except E (A c) × σ)}
  {programs : List (Program C A E α)} {s : σ} {ok : ℕ → C → σ → F → Prop}
  {R G : ℕ → σ → σ → Prop} {Q : ℕ → α → σ → Prop} {X : ℕ → E → σ → Prop}

theorem pool_step_eq_some {st st' : List (Program C A E α) × σ} {i : ℕ} {f : F} :
    (pool effect programs s).step st (i, f) = some st' ↔
      ∃ p p', st.1[i]? = some p ∧ advance effect f (p, st.2) = some (p', st'.2) ∧
        st'.1 = st.1.set i p' := by
  constructor
  · intro h
    obtain ⟨p, hp, h⟩ := Option.bind_eq_some_iff.1 h
    obtain ⟨⟨p', u⟩, hadvance, rfl⟩ := Option.map_eq_some_iff.1 h
    exact ⟨p, p', hp, hadvance, rfl⟩
  · rintro ⟨p, p', hp, hadvance, hst⟩
    obtain ⟨ps, u⟩ := st'
    dsimp only at hst hadvance
    subst hst
    change (st.1[i]?).bind _ = _
    rw [hp, Option.bind_some, hadvance]
    rfl

/-- What every program of a pool guarantees, and that no one does what another does not rely on. -/
structure Compatible (effect : (c : C) → σ → F → Option (Except E (A c) × σ))
    (ok : ℕ → C → σ → F → Prop) (R G : ℕ → σ → σ → Prop) (Q : ℕ → α → σ → Prop)
    (X : ℕ → E → σ → Prop) (programs : List (Program C A E α)) (s : σ) : Prop where
  guarantees : ∀ (i : ℕ) (p : Program C A E α), programs[i]? = some p →
    p.Guarantees effect (ok i) (R i) (G i) (Q i) (X i) s
  others : ∀ i j, i < programs.length → j < programs.length → i ≠ j → ∀ t u, G j t u → R i t u

/-- A program that is kept to what it guarantees, since some state that the others have left. -/
def KeptTo (effect : (c : C) → σ → F → Option (Except E (A c) × σ)) (ok : ℕ → C → σ → F → Prop)
    (R G : ℕ → σ → σ → Prop) (Q : ℕ → α → σ → Prop) (X : ℕ → E → σ → Prop) (i : ℕ)
    (p : Program C A E α) (s : σ) : Prop :=
  ∃ t, Relation.ReflTransGen (R i) t s ∧ p.Guarantees effect (ok i) (R i) (G i) (Q i) (X i) t

/-- The program that makes the call. -/
theorem KeptTo.advance {i : ℕ} {p p' : Program C A E α} {t u : σ} {f : F}
    (h : KeptTo effect ok R G Q X i p t) (hf : ∀ c, p.pending = some c → ok i c t f)
    (hadvance : Program.advance effect f (p, t) = some (p', u)) :
    G i t u ∧ p'.Guarantees effect (ok i) (R i) (G i) (Q i) (X i) u := by
  cases p with
  | done a => exact absurd hadvance (by simp [Program.advance])
  | raised e => exact absurd hadvance (by simp [Program.advance])
  | call c k =>
    obtain ⟨t₀, ht, hp⟩ := h
    obtain ⟨⟨r, v⟩, heffect, heq⟩ := Option.map_eq_some_iff.1 hadvance
    obtain ⟨rfl, rfl⟩ := Prod.mk.inj heq
    exact hp t ht f r v (hf c rfl) heffect

theorem length_pool {st : List (Program C A E α) × σ}
    (h : Run (pool effect programs s) (Allowed ok) st) : st.1.length = programs.length := by
  refine h.invariant (P := fun st => st.1.length = programs.length) rfl ?_
  rintro st ⟨i, f⟩ st' hlength - hstep
  obtain ⟨p, p', -, -, hst⟩ := pool_step_eq_some.1 hstep
  rw [hst, List.length_set, hlength]

theorem kept_run (hcompatible : Compatible effect ok R G Q X programs s)
    {st : List (Program C A E α) × σ} (h : Run (pool effect programs s) (Allowed ok) st) :
    ∀ i p, st.1[i]? = some p → KeptTo effect ok R G Q X i p st.2 := by
  induction h with
  | init => exact fun i p hp => ⟨s, .refl, hcompatible.guarantees i p hp⟩
  | @step st st' e hrun hok hstep ih =>
    obtain ⟨i, f⟩ := e
    obtain ⟨p, p', hp, hadvance, hst⟩ := pool_step_eq_some.1 hstep
    obtain ⟨hG, hguarantees⟩ := (ih i p hp).advance (fun c hc => hok p c hp hc) hadvance
    intro j q hq
    rw [hst] at hq
    rcases getElem?_set_cases hq with ⟨rfl, rfl⟩ | ⟨hji, hq⟩
    · exact ⟨st'.2, .refl, hguarantees⟩
    · obtain ⟨t, ht, hguarantees⟩ := ih j q hq
      have hlength := length_pool hrun
      have hi := (List.getElem?_eq_some_iff.1 hp).1
      have hj := (List.getElem?_eq_some_iff.1 hq).1
      rw [hlength] at hi hj
      exact ⟨t, ht.tail (hcompatible.others j i hj hi hji _ _ hG), hguarantees⟩

/-- **Every step of a pool**: the program changes the world as it guarantees, and if it ends it does so
as it guarantees. -/
theorem step_guarantees (hcompatible : Compatible effect ok R G Q X programs s)
    {st st' : List (Program C A E α) × σ} (h : Run (pool effect programs s) (Allowed ok) st) {i : ℕ}
    {f : F} (hok : Allowed ok st (i, f))
    (hstep : (pool effect programs s).step st (i, f) = some st') :
    G i st.2 st'.2 ∧ ∀ p', st'.1[i]? = some p' →
      p'.Guarantees effect (ok i) (R i) (G i) (Q i) (X i) st'.2 := by
  obtain ⟨p, p', hp, hadvance, hst⟩ := pool_step_eq_some.1 hstep
  have hkept := kept_run hcompatible h i p hp
  obtain ⟨hG, hguarantees⟩ := hkept.advance (fun c hc => hok p c hp hc) hadvance
  refine ⟨hG, fun q hq => ?_⟩
  rw [hst] at hq
  rcases getElem?_set_cases hq with ⟨-, rfl⟩ | ⟨hne, -⟩
  · exact hguarantees
  · exact absurd rfl hne

/-- **What every program keeps holds after every run.** -/
theorem pool_invariant (hcompatible : Compatible effect ok R G Q X programs s) {I : σ → Prop}
    (hI : ∀ i t u, G i t u → I t → I u) (hs : I s) {st : List (Program C A E α) × σ}
    (h : Run (pool effect programs s) (Allowed ok) st) : I st.2 := by
  induction h with
  | init => exact hs
  | @step st st' e hrun hok hstep ih =>
    exact hI e.1 _ _ (step_guarantees hcompatible hrun hok hstep).1 ih

end

end PartCAD.Lib
