import Mathlib.Data.List.Basic
import Mathlib.Logic.Function.Basic
import Mathlib.Tactic.Common

/-!
# Objects that are made when they are first asked for

An object starts bare, and takes in its entries one after the other.  An entry that asks has its target
made first, unless that has been begun already, and an entry can refuse what it finds.

* `make` : making an object; `Takes` : what it does;
* `make_ne_deep` : over finitely many objects, **making one ends**;
* `Takes.finished` : what comes of a new object;
* `make_ne_refused`, `make_ne_ok_of_loud` : **when something is refused**, where only an object that is
  its own target refuses, and only what is not quiet.
-/

namespace PartCAD.Lib

/-- How objects of type `V` are made: their entries, and what each takes from its target. -/
structure Maker (K V C : Type) where
  entries : K → List C
  target : C → K
  asks : C → Bool
  bare : K → V
  take : K → C → V → V → Option V

namespace Maker

/-- Why nothing is made: the depth is used up, or an entry refuses. -/
inductive Stop where
  | deep
  | refused
  deriving DecidableEq

variable {K V C : Type} [DecidableEq K] (m : Maker K V C)

/-- An object as it is by now. -/
def value (st : K → Option V) (k : K) : V := (st k).getD (m.bare k)

/-- The target of an entry that asks. -/
def askTarget (get : K → (K → Option V) → Except Stop (K → Option V)) (st : K → Option V) (c : C) :
    Except Stop (K → Option V) :=
  if m.asks c then get (m.target c) st else .ok st

/-- One entry. -/
def takeIn (get : K → (K → Option V) → Except Stop (K → Option V)) (k : K) (st : K → Option V) (c : C) :
    Except Stop (K → Option V) :=
  m.askTarget get st c >>= fun st =>
    match m.take k c (m.value st k) (m.value st (m.target c)) with
    | none => .error .refused
    | some v => .ok (Function.update st k (some v))

/-- Making an object.  The number bounds the depth. -/
def make : ℕ → K → (K → Option V) → Except Stop (K → Option V)
  | 0, k, st => if (st k).isSome then .ok st else .error .deep
  | n + 1, k, st =>
    if (st k).isSome then .ok st
    else (m.entries k).foldlM (m.takeIn (make n) k) (Function.update st k (some (m.bare k)))

/-- Taking in some entries goes from one state to another. -/
inductive Takes : K → List C → (K → Option V) → (K → Option V) → Prop
  | nil {k : K} {st : K → Option V} : Takes k [] st st
  | plain {k : K} {c : C} {cs : List C} {st st' : K → Option V} {v : V} :
    (m.asks c = true → (st (m.target c)).isSome) →
    m.take k c (m.value st k) (m.value st (m.target c)) = some v →
    Takes k cs (Function.update st k (some v)) st' → Takes k (c :: cs) st st'
  /-- The target is made first. -/
  | first {k : K} {c : C} {cs : List C} {st st₁ st' : K → Option V} {v : V} :
    m.asks c = true → st (m.target c) = none →
    Takes (m.target c) (m.entries (m.target c))
      (Function.update st (m.target c) (some (m.bare (m.target c)))) st₁ →
    m.take k c (m.value st₁ k) (m.value st₁ (m.target c)) = some v →
    Takes k cs (Function.update st₁ k (some v)) st' → Takes k (c :: cs) st st'

variable {m}

omit [DecidableEq K] in
theorem value_of_eq {st : K → Option V} {k : K} {v : V} (h : st k = some v) : m.value st k = v := by
  rw [value, h]
  rfl

theorem bind_eq_ok {α β : Type} {x : Except Stop α} {f : α → Except Stop β} {b : β} :
    x >>= f = .ok b ↔ ∃ a, x = .ok a ∧ f a = .ok b := by
  cases x with
  | error e =>
    constructor
    · intro h
      cases h
    · rintro ⟨a, h, -⟩
      cases h
  | ok a =>
    constructor
    · intro h
      exact ⟨a, rfl, h⟩
    · rintro ⟨a', h, h'⟩
      cases h
      exact h'

theorem bind_eq_error {α β : Type} {x : Except Stop α} {f : α → Except Stop β} {e : Stop} :
    x >>= f = .error e ↔ x = .error e ∨ ∃ a, x = .ok a ∧ f a = .error e := by
  cases x with
  | error e' =>
    constructor
    · intro h
      cases h
      exact .inl rfl
    · rintro (h | ⟨a, h, -⟩)
      · cases h
        rfl
      · cases h
  | ok a =>
    constructor
    · intro h
      exact .inr ⟨a, rfl, h⟩
    · rintro (h | ⟨a', h, h'⟩)
      · cases h
      · cases h
        exact h'

/-- One entry, once its target is there. -/
theorem takeIn_eq_ok {get : K → (K → Option V) → Except Stop (K → Option V)} {k : K}
    {st st' : K → Option V} {c : C} : m.takeIn get k st c = .ok st' ↔
      ∃ st₁ v, m.askTarget get st c = .ok st₁ ∧
        m.take k c (m.value st₁ k) (m.value st₁ (m.target c)) = some v ∧
          st' = Function.update st₁ k (some v) := by
  rw [takeIn, bind_eq_ok]
  constructor
  · rintro ⟨st₁, hget, h⟩
    split at h
    · cases h
    · rename_i v hv
      cases h
      exact ⟨st₁, v, hget, hv, rfl⟩
  · rintro ⟨st₁, v, hget, hv, rfl⟩
    refine ⟨st₁, hget, ?_⟩
    rw [hv]

theorem takeIn_eq_error {get : K → (K → Option V) → Except Stop (K → Option V)} {k : K}
    {st : K → Option V} {c : C} {e : Stop} : m.takeIn get k st c = .error e ↔
      m.askTarget get st c = .error e ∨
        ∃ st₁, m.askTarget get st c = .ok st₁ ∧
          m.take k c (m.value st₁ k) (m.value st₁ (m.target c)) = none ∧ e = .refused := by
  rw [takeIn, bind_eq_error]
  refine or_congr Iff.rfl (exists_congr fun st₁ => and_congr Iff.rfl ?_)
  constructor
  · intro h
    split at h
    · rename_i hnone
      cases h
      exact ⟨hnone, rfl⟩
    · cases h
  · rintro ⟨hnone, rfl⟩
    rw [hnone]

/-- Nothing is done for what is there, and the entries are taken in for what is not. -/
theorem make_eq_ok {n : ℕ} {k : K} {st st' : K → Option V} (h : m.make n k st = .ok st') :
    (st k).isSome ∧ st' = st ∨
      st k = none ∧ m.Takes k (m.entries k) (Function.update st k (some (m.bare k))) st' := by
  induction n generalizing k st st' with
  | zero =>
    rw [make] at h
    split at h
    · rename_i hmade
      cases h
      exact .inl ⟨hmade, rfl⟩
    · cases h
  | succ n ih =>
    rw [make] at h
    split at h
    · rename_i hmade
      cases h
      exact .inl ⟨hmade, rfl⟩
    · rename_i hfresh
      refine .inr ⟨Option.not_isSome_iff_eq_none.1 hfresh, ?_⟩
      clear hfresh
      generalize Function.update st k (some (m.bare k)) = st₀ at h
      generalize m.entries k = cs at h ⊢
      induction cs generalizing st₀ with
      | nil =>
        cases h
        exact .nil
      | cons c cs ihcs =>
        rw [List.foldlM_cons, bind_eq_ok] at h
        obtain ⟨st₂, hstep, h⟩ := h
        obtain ⟨st₁, v, hget, hv, rfl⟩ := takeIn_eq_ok.1 hstep
        have hrest := ihcs _ h
        unfold askTarget at hget
        split at hget
        · rename_i hasks
          rcases ih hget with ⟨hmade, rfl⟩ | ⟨hnone, htakes⟩
          · exact .plain (fun _ => hmade) hv hrest
          · exact .first hasks hnone htakes hv hrest
        · rename_i hasks
          cases hget
          exact .plain (fun h => absurd h hasks) hv hrest

/-! ## What stays -/

theorem Takes.mono {k : K} {cs : List C} {st st' : K → Option V} (h : m.Takes k cs st st') {j : K}
    (hj : (st j).isSome) : (st' j).isSome := by
  have hupdate : ∀ {st : K → Option V} {k : K} {v : V}, (st j).isSome →
      (Function.update st k (some v) j).isSome := by
    intro st k v hj
    by_cases hk : j = k
    · subst hk
      rw [Function.update_self]
      rfl
    · rw [Function.update_of_ne hk]
      exact hj
  induction h with
  | nil => exact hj
  | plain _ _ _ ih => exact ih (hupdate hj)
  | first _ _ _ _ _ ih₁ ih => exact ih (hupdate (ih₁ (hupdate hj)))

/-- What is there stays as it is, but for the object itself. -/
theorem Takes.kept {k : K} {cs : List C} {st st' : K → Option V} (h : m.Takes k cs st st') {j : K}
    {v : V} (hjk : j ≠ k) (hj : st j = some v) : st' j = some v := by
  induction h with
  | nil => exact hj
  | plain _ _ _ ih => exact ih hjk (by rwa [Function.update_of_ne hjk])
  | @first k c cs st st₁ st' w _ hnone _ _ _ ih₁ ih =>
    have hjt : j ≠ m.target c := by
      rintro rfl
      rw [hnone] at hj
      cases hj
    have hj₁ := ih₁ hjt (by rwa [Function.update_of_ne hjt])
    exact ih hjk (by rwa [Function.update_of_ne hjk])

/-- The target that is made on the way is another object. -/
theorem Takes.kept_self {k t : K} {cs : List C} {st st' : K → Option V} {v w : V}
    (h : m.Takes t cs (Function.update st t (some w)) st') (hk : st k = some v) (ht : st t = none) :
    st' k = some v := by
  have hkt : k ≠ t := by
    rintro rfl
    rw [ht] at hk
    cases hk
  exact h.kept hkt (by rwa [Function.update_of_ne hkt])

/-- What was asked is there. -/
theorem Takes.asked {k : K} {cs : List C} {st st' : K → Option V} (h : m.Takes k cs st st') {c : C}
    (hc : c ∈ cs) (hasks : m.asks c = true) : (st' (m.target c)).isSome := by
  induction h with
  | nil => cases hc
  | @plain k d cs st st' v hmade hv hrest ih =>
    rcases List.mem_cons.1 hc with rfl | hc
    · refine hrest.mono ?_
      by_cases hk : m.target c = k
      · rw [hk, Function.update_self]
        rfl
      · rw [Function.update_of_ne hk]
        exact hmade hasks
    · exact ih hc
  | @first k d cs st st₁ st' v _ hnone htakes hv hrest _ ih =>
    rcases List.mem_cons.1 hc with rfl | hc
    · refine hrest.mono ?_
      by_cases hk : m.target c = k
      · rw [hk, Function.update_self]
        rfl
      · rw [Function.update_of_ne hk]
        exact htakes.mono (by rw [Function.update_self]; rfl)
    · exact ih hc

theorem Takes.append {k : K} {front back : List C} {st st' : K → Option V}
    (h : m.Takes k (front ++ back) st st') : ∃ mid, m.Takes k front st mid ∧ m.Takes k back mid st' := by
  induction front generalizing st with
  | nil => exact ⟨st, .nil, h⟩
  | cons c front ih =>
    cases h with
    | plain hmade hv hrest =>
      obtain ⟨mid, hfront, hback⟩ := ih hrest
      exact ⟨mid, .plain hmade hv hfront, hback⟩
    | first hasks hnone htakes hv hrest =>
      obtain ⟨mid, hfront, hback⟩ := ih hrest
      exact ⟨mid, .first hasks hnone htakes hv hfront, hback⟩

/-- **What comes of the entries**, for the object and for those that are made on the way. -/
theorem Takes.finished {P : K → List C → V → Prop} (hbare : ∀ k, P k [] (m.bare k))
    (htake : ∀ k front c back v w v', m.entries k = front ++ c :: back → P k front v →
      m.take k c v w = some v' → P k (front ++ [c]) v')
    {k : K} {cs : List C} {st st' : K → Option V} (h : m.Takes k cs st st') {front : List C} {v : V}
    (hentries : m.entries k = front ++ cs) (hk : st k = some v) (hP : P k front v) :
    (∃ v', st' k = some v' ∧ P k (front ++ cs) v') ∧
      ∀ j v', j ≠ k → st j = none → st' j = some v' → P j (m.entries j) v' := by
  induction h generalizing front v with
  | nil =>
    rw [List.append_nil]
    refine ⟨⟨v, hk, hP⟩, fun j v' _ hnone hj => ?_⟩
    rw [hnone] at hj
    cases hj
  | @plain k c cs st st' w hmade hw hrest ih =>
    rw [value_of_eq hk] at hw
    have hP' := htake k front c cs v _ w hentries hP hw
    have hrest' : m.entries k = (front ++ [c]) ++ cs := by
      rw [hentries, List.append_assoc]
      rfl
    have h := ih hrest' (Function.update_self _ _ _) hP'
    rw [List.append_assoc] at h
    refine ⟨h.1, fun j v' hjk hnone hj => h.2 j v' hjk ?_ hj⟩
    rwa [Function.update_of_ne hjk]
  | @first k c cs st st₁ st' w hasks hnone htakes hw hrest ih₁ ih =>
    have hk₁ := htakes.kept_self hk hnone
    rw [value_of_eq hk₁] at hw
    have hP' := htake k front c cs v _ w hentries hP hw
    have hrest' : m.entries k = (front ++ [c]) ++ cs := by
      rw [hentries, List.append_assoc]
      rfl
    have h := ih hrest' (Function.update_self _ _ _) hP'
    rw [List.append_assoc] at h
    have h₁ := ih₁ (List.nil_append _).symm (Function.update_self _ _ _) (hbare _)
    refine ⟨h.1, fun j v' hjk hj hj' => ?_⟩
    cases hj₁ : st₁ j with
    | none => exact h.2 j v' hjk (by rwa [Function.update_of_ne hjk]) hj'
    | some u =>
      -- made on the way to the target
      have hju := hrest.kept hjk (v := u) (by rwa [Function.update_of_ne hjk])
      obtain rfl := Option.some.inj (hju.symm.trans hj')
      by_cases hjt : j = m.target c
      · subst hjt
        obtain ⟨u', hu', hPu⟩ := h₁.1
        obtain rfl := Option.some.inj (hu'.symm.trans hj₁)
        exact hPu
      · exact h₁.2 j u hjt (by rwa [Function.update_of_ne hjt]) hj₁

/-- Everything that is there is finished. -/
def Finished (m : Maker K V C) (P : K → List C → V → Prop) (st : K → Option V) : Prop :=
  ∀ k v, st k = some v → P k (m.entries k) v

theorem Finished.make {P : K → List C → V → Prop} (hbare : ∀ k, P k [] (m.bare k))
    (htake : ∀ k front c back v w v', m.entries k = front ++ c :: back → P k front v →
      m.take k c v w = some v' → P k (front ++ [c]) v')
    {n : ℕ} {k : K} {st st' : K → Option V} (hst : m.Finished P st) (h : m.make n k st = .ok st') :
    m.Finished P st' ∧ ∃ v, st' k = some v := by
  rcases make_eq_ok h with ⟨hmade, rfl⟩ | ⟨hnone, htakes⟩
  · exact ⟨hst, Option.isSome_iff_exists.1 hmade⟩
  · obtain ⟨⟨v, hv, hP⟩, hnew⟩ :=
      htakes.finished hbare htake (List.nil_append _).symm (Function.update_self _ _ _) (hbare k)
    refine ⟨fun j u hj => ?_, v, hv⟩
    by_cases hjk : j = k
    · subst hjk
      obtain rfl := Option.some.inj (hv.symm.trans hj)
      exact hP
    · cases hold : st j with
      | none => exact hnew j u hjk (by rwa [Function.update_of_ne hjk]) hj
      | some w =>
        have hkept := htakes.kept hjk (v := w) (by rwa [Function.update_of_ne hjk])
        obtain rfl := Option.some.inj (hkept.symm.trans hj)
        exact hst j w hold

/-! ## Making ends -/

/-- How many objects are not there yet. -/
def fresh (known : List K) (st : K → Option V) : ℕ :=
  (known.filter fun k => (st k).isNone).length

omit [DecidableEq K] in
theorem fresh_le {known : List K} {st st' : K → Option V}
    (h : ∀ k, (st k).isSome → (st' k).isSome) : fresh known st' ≤ fresh known st := by
  refine (List.monotone_filter_right known fun k hk => ?_).length_le
  by_contra hsome
  have hsome' : (st k).isSome := by
    simpa [Option.isSome_iff_ne_none] using hsome
  have hst' := h k hsome'
  rw [Option.isNone_iff_eq_none] at hk
  rw [hk] at hst'
  cases hst'

theorem fresh_update_lt {known : List K} {st : K → Option V} {k : K} {v : V} (hk : k ∈ known)
    (hnone : st k = none) : fresh known (Function.update st k (some v)) < fresh known st := by
  induction known with
  | nil => cases hk
  | cons j known ih =>
    unfold fresh
    by_cases hjk : j = k
    · subst hjk
      have hrest : fresh known (Function.update st j (some v)) ≤ fresh known st := by
        refine fresh_le fun i hi => ?_
        by_cases hij : i = j
        · subst hij
          rw [Function.update_self]
          rfl
        · rwa [Function.update_of_ne hij]
      unfold fresh at hrest
      rw [List.filter_cons_of_neg (by rw [Function.update_self]; simp),
        List.filter_cons_of_pos (by rw [hnone]; rfl), List.length_cons]
      omega
    · have hmem : k ∈ known := (List.mem_cons.1 hk).resolve_left fun h => hjk h.symm
      have hlt := ih hmem
      unfold fresh at hlt
      rw [List.filter_cons, List.filter_cons, Function.update_of_ne hjk]
      split
      · rw [List.length_cons, List.length_cons]
        omega
      · exact hlt

/-- **Making an object ends**, where the targets are among finitely many objects. -/
theorem make_ne_deep {known : List K} (hknown : ∀ k ∈ known, ∀ c ∈ m.entries k, m.target c ∈ known)
    {n : ℕ} {k : K} (hk : k ∈ known) {st : K → Option V} (hn : fresh known st ≤ n) :
    m.make n k st ≠ .error .deep := by
  induction n generalizing k st with
  | zero =>
    have hmade : (st k).isSome := by
      by_contra hnone
      have hlt := fresh_update_lt (v := m.bare k) hk (Option.not_isSome_iff_eq_none.1 hnone)
      omega
    rw [make, if_pos hmade]
    exact fun h => by cases h
  | succ n ih =>
    rw [make]
    split
    · exact fun h => by cases h
    · rename_i hfresh
      have hlt := fresh_update_lt (v := m.bare k) hk (Option.not_isSome_iff_eq_none.1 hfresh)
      have hle : fresh known (Function.update st k (some (m.bare k))) ≤ n := by omega
      clear hlt hn hfresh
      have htargets := hknown k hk
      generalize Function.update st k (some (m.bare k)) = st₀ at hle
      generalize m.entries k = cs at htargets
      induction cs generalizing st₀ with
      | nil => exact fun h => by cases h
      | cons c cs ihcs =>
        rw [List.forall_mem_cons] at htargets
        rw [List.foldlM_cons, Ne, bind_eq_error, not_or]
        constructor
        · rw [takeIn_eq_error, not_or]
          constructor
          · unfold askTarget
            split
            · exact ih htargets.1 hle
            · exact fun h => by cases h
          · rintro ⟨_, _, _, h⟩
            cases h
        · rintro ⟨st₂, hstep, hrest⟩
          obtain ⟨st₁, v, hget, -, rfl⟩ := takeIn_eq_ok.1 hstep
          refine ihcs _ (Nat.le_trans (fresh_le fun j hj => ?_) hle) htargets.2 hrest
          have hj₁ : (st₁ j).isSome := by
            unfold askTarget at hget
            split at hget
            · rcases make_eq_ok hget with ⟨-, rfl⟩ | ⟨-, htakes⟩
              · exact hj
              · refine htakes.mono ?_
                by_cases hjt : j = m.target c
                · subst hjt
                  rw [Function.update_self]
                  rfl
                · rwa [Function.update_of_ne hjt]
            · cases hget
              exact hj
          by_cases hjk : j = k
          · subst hjk
            rw [Function.update_self]
            rfl
          · rwa [Function.update_of_ne hjk]

/-! ## What is refused -/

/-- Where things get loud: an object does by an entry that asks a loud one, and it refuses to take what is
loud from itself through an entry of some kind. -/
structure Refusing (m : Maker K V C) (quiet : V → Prop) (named : C → Prop) : Prop where
  spreads : ∀ {k c v w v'}, m.take k c v w = some v' →
    (quiet v' ↔ quiet v ∧ (m.asks c = true → quiet w))
  refuses : ∀ {k c v w}, m.take k c v w = none ↔ m.target c = k ∧ named c ∧ ¬ quiet w

/-- Something loud is below the object, and `a` is not on the way. -/
inductive LoudBesides (m : Maker K V C) (quiet : V → Prop) (a : K) : K → Prop
  | here {k : K} : k ≠ a → ¬ quiet (m.bare k) → LoudBesides m quiet a k
  | via {k : K} {c : C} : k ≠ a → c ∈ m.entries k → m.asks c = true →
    LoudBesides m quiet a (m.target c) → LoudBesides m quiet a k

/-- Where an object has come to an entry, it is loud by then. -/
def LoudBefore (m : Maker K V C) (quiet : V → Prop) (k : K) (front : List C) : Prop :=
  ¬ quiet (m.bare k) ∨ ∃ d ∈ front, m.asks d = true ∧ LoudBesides m quiet k (m.target d)

/-- No object is its own target, through an entry that would be refused. -/
def Still (m : Maker K V C) (quiet : V → Prop) (named : C → Prop) (k : K) : Prop :=
  ∀ front c back, m.entries k = front ++ c :: back → m.target c = k → named c →
    ¬ LoudBefore m quiet k front

/-- As long as `a` is quiet, what is loud has it from elsewhere. -/
def Traced (m : Maker K V C) (quiet : V → Prop) (a : K) (st : K → Option V) : Prop :=
  (∀ v, st a = some v → quiet v) →
    ∀ k v, k ≠ a → st k = some v → ¬ quiet v → LoudBesides m quiet a k

variable {quiet : V → Prop} {named : C → Prop}

theorem Traced.bare {a k : K} {st : K → Option V} (h : Traced m quiet a st) (hk : st k = none) :
    Traced m quiet a (Function.update st k (some (m.bare k))) := by
  intro hquiet j v hja hj hloud
  have hold : ∀ v, st a = some v → quiet v := by
    intro v hv
    by_cases hak : a = k
    · rw [hak, hk] at hv
      cases hv
    · exact hquiet v (by rwa [Function.update_of_ne hak])
  by_cases hjk : j = k
  · subst hjk
    rw [Function.update_self] at hj
    obtain rfl := Option.some.inj hj
    exact .here hja hloud
  · rw [Function.update_of_ne hjk] at hj
    exact h hold j v hja hj hloud

/-- One entry, once its target is there. -/
theorem Traced.take (hrefusing : m.Refusing quiet named) {a k : K} {c : C} {st : K → Option V} {v v' : V}
    (h : Traced m quiet a st) (hc : c ∈ m.entries k) (hk : st k = some v)
    (hmade : m.asks c = true → (st (m.target c)).isSome)
    (htake : m.take k c v (m.value st (m.target c)) = some v') :
    Traced m quiet a (Function.update st k (some v')) := by
  have hspreads := hrefusing.spreads htake
  intro hquiet j u hja hj hloud
  by_cases hak : a = k
  · -- `a` has become no louder
    subst hak
    rw [Function.update_of_ne hja] at hj
    have hv' := hquiet v' (Function.update_self _ _ _)
    refine h (fun w hw => ?_) j u hja hj hloud
    obtain rfl := Option.some.inj (hk.symm.trans hw)
    exact (hspreads.1 hv').1
  · have hold : ∀ w, st a = some w → quiet w := by
      intro w hw
      exact hquiet w (by rwa [Function.update_of_ne hak])
    by_cases hjk : j = k
    · subst hjk
      rw [Function.update_self] at hj
      obtain rfl := Option.some.inj hj
      by_cases hv : quiet v
      · rw [hspreads, not_and_or] at hloud
        obtain ⟨hasks, hw⟩ := Classical.not_imp.1 (hloud.resolve_left (not_not.2 hv))
        obtain ⟨w, htarget⟩ := Option.isSome_iff_exists.1 (hmade hasks)
        rw [value_of_eq htarget] at hw
        have hne : m.target c ≠ a := by
          intro heq
          exact hw (hold w (heq ▸ htarget))
        exact .via hja hc hasks (h hold _ w hne htarget hw)
      · exact h hold j v hja hk hv
    · rw [Function.update_of_ne hjk] at hj
      exact h hold j u hja hj hloud

theorem Takes.traced (hrefusing : m.Refusing quiet named) {a k : K} {cs : List C} {st st' : K → Option V}
    (h : m.Takes k cs st st') (hcs : ∀ c ∈ cs, c ∈ m.entries k) {v : V} (hk : st k = some v)
    (htraced : Traced m quiet a st) : Traced m quiet a st' := by
  induction h generalizing v with
  | nil => exact htraced
  | plain hmade hv _ ih =>
    rw [List.forall_mem_cons] at hcs
    rw [value_of_eq hk] at hv
    exact ih hcs.2 (Function.update_self _ _ _) (htraced.take hrefusing hcs.1 hk hmade hv)
  | first hasks hnone htakes hv _ ih₁ ih =>
    rw [List.forall_mem_cons] at hcs
    have hk₁ := htakes.kept_self hk hnone
    rw [value_of_eq hk₁] at hv
    have htraced₁ := ih₁ (fun c hc => hc) (Function.update_self _ _ _) (htraced.bare hnone)
    refine ih hcs.2 (Function.update_self _ _ _) (htraced₁.take hrefusing hcs.1 hk₁ (fun _ => ?_) hv)
    exact htakes.mono (by rw [Function.update_self]; rfl)

theorem Traced.make (hrefusing : m.Refusing quiet named) {a : K} {n : ℕ} {k : K} {st st' : K → Option V}
    (hst : Traced m quiet a st) (h : m.make n k st = .ok st') : Traced m quiet a st' := by
  rcases make_eq_ok h with ⟨-, rfl⟩ | ⟨hnone, htakes⟩
  · exact hst
  · exact htakes.traced hrefusing (fun c hc => hc) (Function.update_self _ _ _) (hst.bare hnone)

/-- **Nothing is refused** where no object would refuse what it takes from itself. -/
theorem make_ne_refused (hrefusing : m.Refusing quiet named) {known : List K}
    (hknown : ∀ k ∈ known, ∀ c ∈ m.entries k, m.target c ∈ known)
    (hstill : ∀ k ∈ known, m.Still quiet named k) {n : ℕ} {k : K} (hk : k ∈ known) {st : K → Option V}
    (hst : ∀ a, Traced m quiet a st) : m.make n k st ≠ .error .refused := by
  induction n generalizing k st with
  | zero =>
    rw [make]
    split
    · exact fun h => by cases h
    · exact fun h => by cases h
  | succ n ih =>
    rw [make]
    split
    · exact fun h => by cases h
    · rename_i hfresh
      have hst₀ := fun a => (hst a).bare (Option.not_isSome_iff_eq_none.1 hfresh)
      -- the entries that are through are in front
      have hfold : ∀ cs front st v, m.entries k = front ++ cs → st k = some v →
          (¬ quiet v → LoudBefore m quiet k front) → (∀ a, Traced m quiet a st) →
            cs.foldlM (m.takeIn (m.make n) k) st ≠ .error .refused := by
        intro cs
        induction cs with
        | nil => exact fun _ _ _ _ _ _ _ h => by cases h
        | cons c cs ihcs =>
          intro front st v hentries hv hloud hst
          have hc : c ∈ m.entries k := by
            rw [hentries]
            exact List.mem_append_right _ List.mem_cons_self
          have hget : ∀ st₁, m.askTarget (m.make n) st c = .ok st₁ →
              st₁ k = some v ∧ (m.asks c = true → (st₁ (m.target c)).isSome) ∧
                ∀ a, Traced m quiet a st₁ := by
            intro st₁ hst₁
            unfold askTarget at hst₁
            split at hst₁
            · rcases make_eq_ok hst₁ with ⟨hmade, rfl⟩ | ⟨hnone, htakes⟩
              · exact ⟨hv, fun _ => hmade, hst⟩
              · exact ⟨htakes.kept_self hv hnone, fun _ => htakes.mono (by rw [Function.update_self]; rfl),
                  fun a => (hst a).make hrefusing hst₁⟩
            · rename_i hasks
              cases hst₁
              exact ⟨hv, fun h => absurd h hasks, hst⟩
          rw [List.foldlM_cons, Ne, bind_eq_error, not_or]
          constructor
          · rw [takeIn_eq_error, not_or]
            constructor
            · unfold askTarget
              split
              · exact ih (hknown k hk c hc) hst
              · exact fun h => by cases h
            · rintro ⟨st₁, hst₁, hnone, -⟩
              obtain ⟨hv₁, -, -⟩ := hget st₁ hst₁
              obtain ⟨htarget, hnamed, hnoisy⟩ := hrefusing.refuses.1 hnone
              rw [htarget, value_of_eq hv₁] at hnoisy
              exact hstill k hk front c cs hentries htarget hnamed (hloud hnoisy)
          · rintro ⟨st₂, hstep, hrest⟩
            obtain ⟨st₁, v', hst₁, htake, rfl⟩ := takeIn_eq_ok.1 hstep
            obtain ⟨hv₁, hmade, htraced⟩ := hget st₁ hst₁
            rw [value_of_eq hv₁] at htake
            refine ihcs (front ++ [c]) _ v' (by rw [hentries, List.append_assoc]; rfl)
              (Function.update_self _ _ _) (fun hv' => ?_)
              (fun a => (htraced a).take hrefusing hc hv₁ hmade htake) hrest
            by_cases hquiet : quiet v
            · rw [hrefusing.spreads htake, not_and_or] at hv'
              obtain ⟨hasks, hw⟩ := Classical.not_imp.1 (hv'.resolve_left (not_not.2 hquiet))
              obtain ⟨w, htarget⟩ := Option.isSome_iff_exists.1 (hmade hasks)
              rw [value_of_eq htarget] at hw
              have hne : m.target c ≠ k := by
                intro heq
                rw [heq] at htarget
                obtain rfl := Option.some.inj (hv₁.symm.trans htarget)
                exact hw hquiet
              have hbelow := htraced k (fun u hu => Option.some.inj (hv₁.symm.trans hu) ▸ hquiet)
                _ w hne htarget hw
              exact .inr ⟨c, List.mem_append_right _ (List.mem_singleton_self c), hasks, hbelow⟩
            · rcases hloud hquiet with hbare | ⟨d, hd, hd'⟩
              · exact .inl hbare
              · exact .inr ⟨d, List.mem_append_left _ hd, hd'⟩
      exact hfold (m.entries k) [] _ (m.bare k) rfl (Function.update_self _ _ _) .inl hst₀

/-- Where an object ends quiet, so is all that is made on the way. -/
theorem Takes.bare_quiet (hrefusing : m.Refusing quiet named) {k : K} {cs : List C} {st st' : K → Option V}
    (h : m.Takes k cs st st') {v v' : V} (hk : st k = some v) (hk' : st' k = some v') (hquiet : quiet v') :
    quiet v ∧ ∀ j u, j ≠ k → st j = none → st' j = some u →
      quiet (m.bare j) ∧ ∀ d ∈ m.entries j, m.asks d = true → (st' (m.target d)).isSome := by
  induction h generalizing v v' with
  | nil =>
    obtain rfl := Option.some.inj (hk.symm.trans hk')
    refine ⟨hquiet, fun j u _ hnone hj => ?_⟩
    rw [hnone] at hj
    cases hj
  | plain hmade hw hrest ih =>
    rw [value_of_eq hk] at hw
    obtain ⟨hquiet', hnew⟩ := ih (Function.update_self _ _ _) hk' hquiet
    refine ⟨((hrefusing.spreads hw).1 hquiet').1, fun j u hjk hnone hj => hnew j u hjk ?_ hj⟩
    rwa [Function.update_of_ne hjk]
  | @first k c cs st st₁ st' w hasks hnone htakes hw hrest ih₁ ih =>
    have hk₁ := htakes.kept_self hk hnone
    rw [value_of_eq hk₁] at hw
    obtain ⟨hquiet', hnew⟩ := ih (Function.update_self _ _ _) hk' hquiet
    obtain ⟨hv, htarget⟩ := (hrefusing.spreads hw).1 hquiet'
    refine ⟨hv, fun j u hjk hj hj' => ?_⟩
    obtain ⟨t, ht⟩ := Option.isSome_iff_exists.1
      (htakes.mono (j := m.target c) (by rw [Function.update_self]; rfl))
    have htquiet := htarget hasks
    rw [value_of_eq ht] at htquiet
    obtain ⟨hbare, hnew₁⟩ := ih₁ (Function.update_self _ _ _) ht htquiet
    have hlater : ∀ {i : K}, (st₁ i).isSome → (st' i).isSome := by
      intro i hi
      refine hrest.mono ?_
      by_cases hik : i = k
      · subst hik
        rw [Function.update_self]
        rfl
      · rwa [Function.update_of_ne hik]
    cases hj₁ : st₁ j with
    | none => exact hnew j u hjk (by rwa [Function.update_of_ne hjk]) hj'
    | some u' =>
      by_cases hjt : j = m.target c
      · subst hjt
        exact ⟨hbare, fun d hd hd' => hlater (htakes.asked hd hd')⟩
      · obtain ⟨hbare', hentries⟩ := hnew₁ j u' hjt (by rwa [Function.update_of_ne hjt]) hj₁
        exact ⟨hbare', fun d hd hd' => hlater (hentries d hd hd')⟩

/-- **An object is refused**, with nothing made before, where it would take what is loud from itself. -/
theorem make_ne_ok_of_loud (hrefusing : m.Refusing quiet named) {n : ℕ} {a : K}
    {front back : List C} {c : C} (hentries : m.entries a = front ++ c :: back) (hself : m.target c = a)
    (hnamed : named c) (hloud : LoudBefore m quiet a front) (st' : K → Option V) :
    m.make n a (fun _ => none) ≠ .ok st' := by
  intro h
  rcases make_eq_ok h with ⟨hmade, -⟩ | ⟨-, htakes⟩
  · cases hmade
  · rw [hentries] at htakes
    obtain ⟨mid, hfront, hback⟩ := htakes.append
    obtain ⟨v, hv⟩ := Option.isSome_iff_exists.1
      (hfront.mono (j := a) (by rw [Function.update_self]; rfl))
    -- the object is quiet when it comes to the entry
    have hquiet : quiet v := by
      by_contra hnoisy
      have hnone : m.take a c (m.value mid a) (m.value mid (m.target c)) = none := by
        rw [hself, value_of_eq hv]
        exact hrefusing.refuses.2 ⟨hself, hnamed, hnoisy⟩
      cases hback with
      | plain _ htake _ =>
        rw [hnone] at htake
        cases htake
      | first _ hfresh _ _ _ =>
        rw [hself, hv] at hfresh
        cases hfresh
    obtain ⟨hbare, hnew⟩ := hfront.bare_quiet hrefusing (Function.update_self _ _ _) hv hquiet
    rcases hloud with hnoisy | ⟨d, hd, hasks, hbelow⟩
    · exact hnoisy hbare
    · have hmade := hfront.asked hd hasks
      clear hasks hd
      generalize m.target d = t at hbelow hmade
      induction hbelow with
      | here hne hnoisy =>
        obtain ⟨u, hu⟩ := Option.isSome_iff_exists.1 hmade
        exact hnoisy (hnew _ u hne (by rw [Function.update_of_ne hne]) hu).1
      | via hne hc hasks _ ih =>
        obtain ⟨u, hu⟩ := Option.isSome_iff_exists.1 hmade
        exact ih ((hnew _ u hne (by rw [Function.update_of_ne hne]) hu).2 _ hc hasks)

end Maker

end PartCAD.Lib
