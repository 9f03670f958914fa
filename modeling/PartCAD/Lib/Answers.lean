import Mathlib.Data.List.Forall2
import PartCAD.Lib.Program

/-!
# Programs whose calls are answered

The calls of a program are answered by something that may remember: an answer may depend on a state,
and change it.

* `Program.runWith`, `Program.value` : a run with such answers, and one with answers that depend on
  the call alone;
* `runWith_returns` : **what the answers keep, the run keeps**;
* `Propagates.returns_ok` : a program that lets no call raise ends well on answers alone;
* `Alike.value_eq` : programs that differ in their calls only, and whose calls are answered alike, end
  alike;
* `gather` : calls made together, none of which stops another.
-/

namespace PartCAD.Lib.Program

variable {C A E α β σ : Type}

/-! ## Runs -/

/-- How a program ends, and in which state; `none` where a call has no answer. -/
def runWith (f : C → σ → Option (Except E A × σ)) :
    Program C (fun _ => A) E α → σ → Option (Except E α × σ)
  | .done a, s => some (.ok a, s)
  | .raised e, s => some (.error e, s)
  | .call c k, s => (f c s).bind fun rs => (k rs.1).runWith f rs.2

/-- How a program ends if each call has one answer. -/
def value (f : C → Option (Except E A)) : Program C (fun _ => A) E α → Option (Except E α)
  | .done a => some (.ok a)
  | .raised e => some (.error e)
  | .call c k => (f c).bind fun r => (k r).value f

/-- A program may end so, if its calls may be answered so. -/
def Returns (V : C → Except E A → Prop) : Program C (fun _ => A) E α → Except E α → Prop
  | .done a, r => r = .ok a
  | .raised e, r => r = .error e
  | .call c k, r => ∃ x, V c x ∧ (k x).Returns V r

/-- The calls that a program may come to. -/
def Calls : Program C (fun _ => A) E α → C → Prop
  | .call c k, c' => c' = c ∨ ∃ x, (k x).Calls c'
  | _, _ => False

/-- **What the answers keep, the run keeps**, and it ends as the answers have it. -/
theorem runWith_returns {f : C → σ → Option (Except E A × σ)} {V : C → Except E A → Prop}
    {I : σ → Prop} {p : Program C (fun _ => A) E α}
    (hf : ∀ c s r s', p.Calls c → I s → f c s = some (r, s') → V c r ∧ I s')
    {s s' : σ} {r : Except E α} (hs : I s) (hrun : p.runWith f s = some (r, s')) :
    p.Returns V r ∧ I s' := by
  induction p generalizing s with
  | done a =>
    obtain ⟨rfl, rfl⟩ : .ok a = r ∧ s = s' := by simpa [runWith] using hrun
    exact ⟨rfl, hs⟩
  | raised e =>
    obtain ⟨rfl, rfl⟩ : .error e = r ∧ s = s' := by simpa [runWith] using hrun
    exact ⟨rfl, hs⟩
  | call c k ih =>
    obtain ⟨⟨x, t⟩, hc, hrest⟩ := Option.bind_eq_some_iff.1 hrun
    obtain ⟨hx, ht⟩ := hf c s x t (.inl rfl) hs hc
    obtain ⟨hret, hI⟩ := ih x (fun c' s r s' hc' => hf c' s r s' (.inr ⟨x, hc'⟩)) ht hrest
    exact ⟨⟨x, hx, hret⟩, hI⟩

theorem Returns.mono {V V' : C → Except E A → Prop} (hV : ∀ c x, V c x → V' c x)
    {p : Program C (fun _ => A) E α} {r : Except E α} (h : p.Returns V r) : p.Returns V' r := by
  induction p with
  | done a => exact h
  | raised e => exact h
  | call c k ih =>
    obtain ⟨x, hx, hrest⟩ := h
    exact ⟨x, hV c x hx, ih x hrest⟩

theorem returns_bind_ok {V : C → Except E A → Prop} {p : Program C (fun _ => A) E α}
    {f : α → Program C (fun _ => A) E β} {b : β} (h : (p.bind f).Returns V (.ok b)) :
    ∃ a, p.Returns V (.ok a) ∧ (f a).Returns V (.ok b) := by
  induction p with
  | done a => exact ⟨a, rfl, h⟩
  | raised e => cases h
  | call c k ih =>
    obtain ⟨x, hx, hrest⟩ := h
    obtain ⟨a, ha, hf⟩ := ih x hrest
    exact ⟨a, ⟨x, hx, ha⟩, hf⟩

/-! ## Calls that raise -/

/-- No such program ends well after a call has raised. -/
def Propagates : Program C (fun _ => A) E α → Prop
  | .call _ k => (∀ e V a, ¬ (k (.error e)).Returns V (.ok a)) ∧ ∀ a, (k (.ok a)).Propagates
  | _ => True

/-- **Where a program ends well, its calls did.** -/
theorem Propagates.returns_ok {V : C → Except E A → Prop} {p : Program C (fun _ => A) E α}
    (hp : p.Propagates) {a : α} (h : p.Returns V (.ok a)) :
    p.Returns (fun c x => V c x ∧ ∃ b, x = .ok b) (.ok a) := by
  induction p with
  | done b => exact h
  | raised e => exact h
  | call c k ih =>
    obtain ⟨x, hx, hrest⟩ := h
    cases x with
    | error e => exact absurd hrest (hp.1 e V a)
    | ok b => exact ⟨.ok b, ⟨hx, b, rfl⟩, ih _ (hp.2 b) hrest⟩

theorem Propagates.bind {p : Program C (fun _ => A) E α} {f : α → Program C (fun _ => A) E β}
    (hp : p.Propagates) (hf : ∀ a, (f a).Propagates) : (p.bind f).Propagates := by
  induction p with
  | done a => exact hf a
  | raised e => trivial
  | call c k ih =>
    refine ⟨fun e V b hret => ?_, fun a => ih _ (hp.2 a)⟩
    obtain ⟨a, ha, -⟩ := returns_bind_ok hret
    exact hp.1 e V a ha

theorem returns_bind {V : C → Except E A → Prop} {p : Program C (fun _ => A) E α}
    {f : α → Program C (fun _ => A) E β} {a : α} {r : Except E β} (hp : p.Returns V (.ok a))
    (hf : (f a).Returns V r) : (p.bind f).Returns V r := by
  induction p with
  | done b =>
    obtain rfl : a = b := Except.ok.inj hp
    exact hf
  | raised e => cases hp
  | call c k ih =>
    obtain ⟨x, hx, hrest⟩ := hp
    exact ⟨x, hx, ih x hrest⟩

theorem Propagates.of_bind_done {p : Program C (fun _ => A) E α} {f : α → β}
    (h : (p.bind fun a => .done (f a)).Propagates) : p.Propagates := by
  induction p with
  | done a => trivial
  | raised e => trivial
  | call c k ih =>
    exact ⟨fun e V a hret => h.1 e V (f a) (returns_bind hret rfl), fun a => ih _ (h.2 a)⟩

/-! ## Answers with fuel -/

theorem value_mono {f g : C → Option (Except E A)} (h : ∀ c r, f c = some r → g c = some r)
    {p : Program C (fun _ => A) E α} {r : Except E α} (hp : p.value f = some r) :
    p.value g = some r := by
  induction p with
  | done a => exact hp
  | raised e => exact hp
  | call c k ih =>
    obtain ⟨x, hc, hrest⟩ := Option.bind_eq_some_iff.1 hp
    exact Option.bind_eq_some_iff.2 ⟨x, h c x hc, ih x hrest⟩

/-- What is only handed on is handed on. -/
theorem bind_bind_done {p : Program C (fun _ => A) E α} {f : α → β} {g : β → α}
    (h : ∀ a, g (f a) = a) : ((p.bind fun a => .done (f a)).bind fun b => .done (g b)) = p := by
  induction p with
  | done a => exact congrArg Program.done (h a)
  | raised e => rfl
  | call c k ih => exact congrArg (Program.call c) (funext fun x => ih x)

theorem value_bind_done {f : C → Option (Except E A)} {p : Program C (fun _ => A) E α} (g : α → β) :
    (p.bind fun a => .done (g a)).value f = (p.value f).map fun r => r.map g := by
  induction p with
  | done a => rfl
  | raised e => rfl
  | call c k ih =>
    simp only [bind, value, Option.map_bind]
    exact Option.bind_congr fun x _ => ih x

/-- What each call ends as with enough fuel, the program ends as with enough fuel. -/
theorem exists_value_of_returns {f : ℕ → C → Option (Except E A)}
    (hmono : ∀ m n c r, m ≤ n → f m c = some r → f n c = some r)
    {p : Program C (fun _ => A) E α} {r : Except E α}
    (h : p.Returns (fun c x => ∃ n, f n c = some x) r) : ∃ n, p.value (f n) = some r := by
  induction p with
  | done a => exact ⟨0, congrArg some h.symm⟩
  | raised e => exact ⟨0, congrArg some h.symm⟩
  | call c k ih =>
    obtain ⟨x, ⟨m, hc⟩, hrest⟩ := h
    obtain ⟨n, hn⟩ := ih x hrest
    refine ⟨max m n, Option.bind_eq_some_iff.2 ⟨x, hmono _ _ _ _ (Nat.le_max_left m n) hc, ?_⟩⟩
    exact value_mono (fun c r => hmono _ _ c r (Nat.le_max_right m n)) hn

/-! ## Programs that differ in their calls -/

/-- Programs that do the same but for their calls, which are paired. -/
inductive Alike (R : C → C → Prop) :
    Program C (fun _ => A) E α → Program C (fun _ => A) E α → Prop where
  | done (a : α) : Alike R (.done a) (.done a)
  | raised (e : E) : Alike R (.raised e) (.raised e)
  | call {c c' : C} {k k' : Except E A → Program C (fun _ => A) E α} :
    R c c' → (∀ x, Alike R (k x) (k' x)) → Alike R (.call c k) (.call c' k')

section

variable {R : C → C → Prop}

/-- **Programs that are alike end alike**, if the calls of a pair are answered alike. -/
theorem Alike.value_eq {f g : C → Option (Except E A)} (hR : ∀ c c', R c c' → f c = g c')
    {p q : Program C (fun _ => A) E α} (h : Alike R p q) : p.value f = q.value g := by
  induction h with
  | done a => rfl
  | raised e => rfl
  | call hc _ ih =>
    simp only [value]
    rw [hR _ _ hc]
    exact Option.bind_congr fun x _ => ih x

theorem Alike.bind {p q : Program C (fun _ => A) E α} {f g : α → Program C (fun _ => A) E β}
    (h : Alike R p q) (hfg : ∀ a, Alike R (f a) (g a)) : Alike R (p.bind f) (q.bind g) := by
  induction h with
  | done a => exact hfg a
  | raised e => exact .raised e
  | call hc _ ih => exact .call hc ih

end

theorem calls_bind {p : Program C (fun _ => A) E α} {f : α → Program C (fun _ => A) E β} {c : C}
    (h : (p.bind f).Calls c) : p.Calls c ∨ ∃ a, (f a).Calls c := by
  induction p with
  | done a => exact .inr ⟨a, h⟩
  | raised e => exact h.elim
  | call c' k ih =>
    obtain hc | ⟨x, hx⟩ := h
    · exact .inl (.inl hc)
    · exact (ih x hx).imp_left fun hx => .inr ⟨x, hx⟩

theorem calls_of_calls {p : Program C (fun _ => A) E α} {f : α → Program C (fun _ => A) E β} {c : C}
    (h : p.Calls c) : (p.bind f).Calls c := by
  induction p with
  | done a => exact h.elim
  | raised e => exact h.elim
  | call c' k ih => exact h.imp_right fun ⟨x, hx⟩ => ⟨x, ih x hx⟩

/-! ## Calls made together -/

/-- `asyncio.gather` : every call is made, and then one that raised raises. -/
def gather : List C → Program C (fun _ => A) E (List A)
  | [] => .done []
  | c :: cs => .call c fun r => (gather cs).bind fun rest =>
      match r with
      | .ok a => .done (a :: rest)
      | .error e => .raised e

theorem calls_gather {cs : List C} {c : C} (h : (gather cs : Program C (fun _ => A) E _).Calls c) :
    c ∈ cs := by
  induction cs with
  | nil => exact h.elim
  | cons c' cs ih =>
    obtain rfl | ⟨x, hx⟩ := h
    · exact List.mem_cons_self
    · obtain hx | ⟨rest, hx⟩ := calls_bind hx
      · exact List.mem_cons_of_mem _ (ih hx)
      · cases x <;> exact hx.elim

theorem propagates_gather (cs : List C) : (gather cs : Program C (fun _ => A) E _).Propagates := by
  induction cs with
  | nil => trivial
  | cons c cs ih =>
    refine ⟨fun e V a hret => ?_, fun a => ih.bind fun rest => trivial⟩
    obtain ⟨rest, -, hraise⟩ := returns_bind_ok hret
    cases hraise

theorem alike_gather {R : C → C → Prop} {cs cs' : List C} (h : List.Forall₂ R cs cs') :
    Alike R (gather cs : Program C (fun _ => A) E _) (gather cs') := by
  induction h with
  | nil => exact .done []
  | cons hc _ ih =>
    refine .call hc fun x => ih.bind fun rest => ?_
    cases x with
    | ok a => exact .done _
    | error e => exact .raised e

end PartCAD.Lib.Program
