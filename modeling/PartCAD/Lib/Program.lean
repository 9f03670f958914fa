/-!
# Programs that make calls

A program runs by calling out: each call answers or raises, and changes the world meanwhile.  What a
call does is not up to the program, so a run is told the fate of each of its calls.

* `Program` : what is left of a program, with `Program.tryCatch` for its handlers;
* `Program.Ensures` : how every run ends, and what holds whenever it makes a call;
* `ensures_bind`, `ensures_tryCatch`, `ensures_perform` : **the rules**;
* `Ensures.advance` : a run is kept to it, call by call.
-/

namespace PartCAD.Lib

inductive Program (C : Type) (A : C → Type) (E α : Type) where
  | done (a : α)
  | raised (e : E)
  | call (c : C) (k : Except E (A c) → Program C A E α)

namespace Program

variable {C : Type} {A : C → Type} {E α β : Type}

def bind : Program C A E α → (α → Program C A E β) → Program C A E β
  | .done a, f => f a
  | .raised e, _ => .raised e
  | .call c k, f => .call c fun r => (k r).bind f

instance : Monad (Program C A E) where
  pure := .done
  bind := bind

def tryCatch : Program C A E α → (E → Program C A E α) → Program C A E α
  | .done a, _ => .done a
  | .raised e, handler => handler e
  | .call c k, handler => .call c fun r => (k r).tryCatch handler

def perform (c : C) : Program C A E (A c) :=
  .call c fun r =>
    match r with
    | .ok a => .done a
    | .error e => .raised e

/-- The call it has come to. -/
def pending : Program C A E α → Option C
  | .call c _ => some c
  | _ => none

section

variable {σ F : Type} (effect : (c : C) → σ → F → Option (Except E (A c) × σ))

/-- The call it has come to meets its fate. -/
def advance (f : F) : Program C A E α × σ → Option (Program C A E α × σ)
  | (.call c k, s) => (effect c s f).map fun rs => (k rs.1, rs.2)
  | _ => none

variable (ok : C → σ → F → Prop) (I : C → σ → Prop)

/-- **Every run ends with `Q`, or raises with `X`, and meets `I` whenever it makes a call**, if the
fates of its calls are `ok`. -/
def Ensures (Q : α → σ → Prop) (X : E → σ → Prop) : Program C A E α → σ → Prop
  | .done a, s => Q a s
  | .raised e, s => X e s
  | .call c k, s =>
    I c s ∧ ∀ f r s', ok c s f → effect c s f = some (r, s') → (k r).Ensures Q X s'

/-- What a call must answer. -/
def Reply (Q : α → σ → Prop) (X : E → σ → Prop) : Except E α → σ → Prop
  | .ok a => Q a
  | .error e => X e

variable {effect ok I} {Q Q' : α → σ → Prop} {X X' : E → σ → Prop}

theorem Ensures.mono (hQ : ∀ a s, Q a s → Q' a s) (hX : ∀ e s, X e s → X' e s)
    {p : Program C A E α} {s : σ} (h : p.Ensures effect ok I Q X s) :
    p.Ensures effect ok I Q' X' s := by
  induction p generalizing s with
  | done a => exact hQ a s h
  | raised e => exact hX e s h
  | call c k ih => exact ⟨h.1, fun f r s' hf hr => ih r (h.2 f r s' hf hr)⟩

@[simp] theorem ensures_pure {a : α} {s : σ} :
    (pure a : Program C A E α).Ensures effect ok I Q X s ↔ Q a s :=
  Iff.rfl

@[simp] theorem ensures_raised {e : E} {s : σ} :
    (raised e : Program C A E α).Ensures effect ok I Q X s ↔ X e s :=
  Iff.rfl

/-- **One after the other.** -/
theorem ensures_bind {Q : β → σ → Prop} {p : Program C A E α} {f : α → Program C A E β} {s : σ} :
    (p >>= f).Ensures effect ok I Q X s ↔
      p.Ensures effect ok I (fun a => (f a).Ensures effect ok I Q X) X s := by
  change (p.bind f).Ensures effect ok I Q X s ↔ _
  induction p generalizing s with
  | done a => exact Iff.rfl
  | raised e => exact Iff.rfl
  | call c k ih =>
    exact and_congr_right fun _ =>
      forall_congr' fun _ => forall_congr' fun r => forall_congr' fun _ =>
        forall_congr' fun _ => forall_congr' fun _ => ih r

/-- **A handler takes over where the program raises.** -/
theorem ensures_tryCatch {p : Program C A E α} {handler : E → Program C A E α} {s : σ} :
    (p.tryCatch handler).Ensures effect ok I Q X s ↔
      p.Ensures effect ok I Q (fun e => (handler e).Ensures effect ok I Q X) s := by
  induction p generalizing s with
  | done a => exact Iff.rfl
  | raised e => exact Iff.rfl
  | call c k ih =>
    exact and_congr_right fun _ =>
      forall_congr' fun _ => forall_congr' fun r => forall_congr' fun _ =>
        forall_congr' fun _ => forall_congr' fun _ => ih r

/-- **One call.** -/
theorem ensures_perform {c : C} {Q : A c → σ → Prop} {s : σ} (hI : I c s)
    (h : ∀ f r s', ok c s f → effect c s f = some (r, s') → Reply Q X r s') :
    (perform c : Program C A E (A c)).Ensures effect ok I Q X s := by
  refine ⟨hI, fun f r s' hf hr => ?_⟩
  cases r with
  | ok a => exact h f _ s' hf hr
  | error e => exact h f _ s' hf hr

/-- A run is kept to it. -/
theorem Ensures.advance {p p' : Program C A E α} {s s' : σ} {f : F}
    (h : p.Ensures effect ok I Q X s) (hf : ∀ c, p.pending = some c → ok c s f)
    (hstep : Program.advance effect f (p, s) = some (p', s')) :
    p'.Ensures effect ok I Q X s' := by
  cases p with
  | done a => exact absurd hstep (by simp [Program.advance])
  | raised e => exact absurd hstep (by simp [Program.advance])
  | call c k =>
    obtain ⟨⟨r, t⟩, heffect, heq⟩ := Option.map_eq_some_iff.1 hstep
    obtain ⟨rfl, rfl⟩ := Prod.mk.inj heq
    exact h.2 f r t (hf c rfl) heffect

theorem Ensures.invariant {c : C} {k : Except E (A c) → Program C A E α} {s : σ}
    (h : (call c k).Ensures effect ok I Q X s) : I c s :=
  h.1

end

end Program

end PartCAD.Lib
