import Mathlib.Order.Defs.LinearOrder
import PartCAD.Ports.Lineage

/-!
# What an interface takes from those above it

An interface that says nothing about its thread step, or about whether it takes more than one item, has
what is said first above it.

* `inherited` : the search, which takes some values for silence;
* `inherits_iff` : **when an interface has what is declared first**.
-/

namespace PartCAD.Ports.Lineage

open PartCAD.Lib PartCAD.Lib.FirstFound

variable {L B P V N : Type}

/-! ## The functions -/

/-- The interfaces in `get_parents()`, in their order. -/
def parents (h : Interfaces L B P) (name : Str) : List Str :=
  (refsOf (h.declaration name).inherits).map h.find

/-- Interfaces none of which is above itself. -/
structure Dag (L B P : Type) extends Interfaces L B P where
  acyclic : ∀ n ∈ names, ¬ Relation.TransGen (Parent (parents toInterfaces)) n n

section

variable (parents : Str → List Str) (stored : Str → Option V) (unset : Option V → Bool)

/-- The parents one after the other, until one has something. -/
def inheritedIn (get : Str → List Str → Option (Option V × List Str)) (value : Option V) :
    List Str → List Str → Option (Option V × List Str)
  | [], seen => some (value, seen)
  | parent :: rest, seen =>
    match get parent seen with
    | none => none
    | some (inherited, seen) =>
      if unset inherited then inheritedIn get value rest seen else some (inherited, seen)

/-- `_inherited(attribute, seen, unset)`, with what has been seen.  The number bounds the depth. -/
def inherited : ℕ → Str → List Str → Option (Option V × List Str)
  | 0, _, _ => none
  | n + 1, name, seen =>
    if !unset (stored name) then some (stored name, seen)
    else if name ∈ seen then some (stored name, seen)
    else inheritedIn unset (inherited n) (stored name) (parents name) (name :: seen)

end

/-- `threadStep:` as a declaration states it: nothing, a number, or what is no number. -/
inductive Stated (N : Type) where
  | absent
  | number (x : N)
  | other

/-- What an interface declares.  `multiConnect` is a boolean when it is there. -/
structure Attributes (N : Type) where
  threadStep : Stated N
  multiConnect : Option Bool

section

variable [LinearOrder N] [Zero N]

/-- `self.thread_step`: what is no number, or is negative, is ignored. -/
def threadStepOf : Stated N → Option N
  | .absent => none
  | .number x => if x < 0 then none else some x
  | .other => none

/-- `value in (None, False)`, for which 0 is `False`. -/
def unsetNumber : Option N → Bool
  | none => true
  | some x => x = 0

/-- `get_thread_step()` -/
def getThreadStep (h : Interfaces L B P) (attributes : Str → Attributes N) (name : Str) :
    Option (Option N) :=
  (inherited (parents h) (fun n => threadStepOf (attributes n).threadStep) unsetNumber
    (h.names.length + 1) name []).map Prod.fst

/-- `get_multi_connect()` -/
def getMultiConnect (h : Interfaces L B P) (attributes : Str → Attributes N) (name : Str) : Option Bool :=
  (inherited (parents h) (fun n => (attributes n).multiConnect) Option.isNone
    (h.names.length + 1) name []).map fun r => r.1.getD false

/-! ## What is declared first -/

/-- The value of the interface itself, or else the one declared by the first above it, or none. -/
def Specified (parents : Str → List Str) (declared : Str → Option V) (name : Str) : Option V → Prop
  | some v => First parents declared name v
  | none => Silent parents declared name

/-- Both functions give what is declared first. -/
structure Inherits (h : Interfaces L B P) (attributes : Str → Attributes N) (name : Str) : Prop where
  threadStep : ∃ value, getThreadStep h attributes name = some value ∧
    Specified (parents h) (fun n => threadStepOf (attributes n).threadStep) name value
  multiConnect : ∃ value, getMultiConnect h attributes name = some (value.getD false) ∧
    Specified (parents h) (fun n => (attributes n).multiConnect) name value

/-- The thread step that is declared first is not 0, or there is none, or it is the interface's own and
only 0 is declared above. -/
def Passes (h : Interfaces L B P) (attributes : Str → Attributes N) (name : Str) : Prop :=
  let declared := fun n => threadStepOf (attributes n).threadStep
  (∃ step, First (parents h) declared name step ∧ step ≠ 0) ∨ Silent (parents h) declared name ∨
    declared name = some 0 ∧ ∀ n, Relation.ReflTransGen (Parent (parents h)) name n →
      ∀ step, declared n = some step → step = 0

end

/-! ## Parents -/

theorem mem_parents {h : Interfaces L B P} {name parent : Str} :
    parent ∈ parents h name ↔ ∃ c ∈ (h.declaration name).inherits, parent = h.find c.1 := by
  rw [parents, List.mem_map]
  constructor
  · rintro ⟨ref, href, rfl⟩
    obtain ⟨c, hc, rfl⟩ := List.mem_map.1 (mem_refsOf.1 href)
    exact ⟨c, hc, rfl⟩
  · rintro ⟨c, hc, rfl⟩
    exact ⟨c.1, mem_refsOf.2 (List.mem_map_of_mem hc), rfl⟩

theorem parents_mem (h : Interfaces L B P) : ∀ n ∈ h.names, ∀ p ∈ parents h n, p ∈ h.names := by
  intro n hn p hp
  obtain ⟨c, hc, rfl⟩ := mem_parents.1 hp
  exact h.find_mem n hn c hc

/-- **`get_parents()`** gives the parents, whatever was asked before. -/
theorem parents_ensure [One L] [Mul L] (h : Dag L B P) (drawn : Str → B) {st : State L B P}
    (hst : Reached h.toInterfaces drawn st) {name : Str} (hname : name ∈ h.names) :
    ∃ st' v, ensure h.toInterfaces drawn name st = .ok st' ∧ Reached h.toInterfaces drawn st' ∧
      st' name = some v ∧ v.interface.inherits.keys.map h.find = parents h.toInterfaces name := by
  have hstill : ∀ n ∈ h.names, (maker h.toInterfaces drawn).Still Portless Named n := by
    intro n hn front c back hentries hself _ _
    have hc : c ∈ (h.declaration n).inherits := by
      rw [show (h.declaration n).inherits = front ++ c :: back from hentries]
      exact List.mem_append_right _ List.mem_cons_self
    exact h.acyclic n hn (.single (mem_parents.2 ⟨c, hc, hself.symm⟩))
  obtain ⟨st', hensure⟩ := exists_ensure hstill hst hname
  obtain ⟨hst', v, hv, -, hkeys⟩ := hst.ensure hensure
  refine ⟨st', v, hensure, hst', hv, ?_⟩
  rw [hkeys, parents]

/-! ## The search -/

/-- What the search finds where silence is taken for none. -/
def heard (stored : Str → Option V) (unset : Option V → Bool) (name : Str) : Option V :=
  if unset (stored name) then none else stored name

theorem heard_eq_none_iff {stored : Str → Option V} {unset : Option V → Bool}
    (hnone : unset none = true) {name : Str} :
    heard stored unset name = none ↔ unset (stored name) = true := by
  unfold heard
  split
  · rename_i hunset
    exact iff_of_true rfl hunset
  · rename_i hset
    constructor
    · intro h
      rw [h]
      exact hnone
    · intro h
      exact absurd h hset

theorem heard_eq_some_iff {stored : Str → Option V} {unset : Option V → Bool} {name : Str} {v : V} :
    heard stored unset name = some v ↔ stored name = some v ∧ unset (some v) = false := by
  unfold heard
  split
  · rename_i hunset
    constructor
    · intro h
      cases h
    · rintro ⟨h, hset⟩
      rw [h, hset] at hunset
      cases hunset
  · rename_i hset
    constructor
    · intro h
      rw [h] at hset
      exact ⟨h, Bool.eq_false_iff.2 hset⟩
    · exact fun h => h.1

/-- The value of the interface itself is what is left when the search finds nothing. -/
theorem inherited_eq (parents : Str → List Str) {stored : Str → Option V} {unset : Option V → Bool}
    (hnone : unset none = true) (n : ℕ) (name : Str) (seen : List Str) :
    inherited parents stored unset n name seen =
      (find parents (heard stored unset) n name seen).map fun r => (r.1.or (stored name), r.2) := by
  induction n generalizing name seen with
  | zero => rfl
  | succ n ih =>
    rw [inherited, find]
    cases hheard : heard stored unset name with
    | some v =>
      obtain ⟨hattribute, hset⟩ := heard_eq_some_iff.1 hheard
      rw [hattribute, hset]
      rfl
    | none =>
      rw [(heard_eq_none_iff hnone).1 hheard, if_neg (by decide)]
      dsimp only
      split
      · rfl
      · generalize name :: seen = seen₁
        generalize parents name = ps
        induction ps generalizing seen₁ with
        | nil => rfl
        | cons p ps ihps =>
          rw [inheritedIn, findIn, ih]
          cases hget : find parents (heard stored unset) n p seen₁ with
          | none => rfl
          | some r =>
            obtain ⟨found, seen₂⟩ := r
            cases found with
            | some v =>
              obtain ⟨j, hj⟩ := hit_of_find hget
              have hset := (heard_eq_some_iff.1 hj).2
              show (if unset (some v) = true then _ else some (some v, seen₂)) = some (some v, seen₂)
              rw [hset]
              rfl
            | none =>
              have hunset := (heard_eq_none_iff hnone).1 (hit_of_find_none hget)
              show (if unset (stored p) = true then _ else _) = _
              rw [hunset, if_pos rfl]
              exact ihps seen₂

/-- **What `_inherited` gives**: what is heard first, or else the value of the interface itself. -/
theorem inherited_spec (h : Dag L B P) (stored : Str → Option V) {unset : Option V → Bool}
    (hnone : unset none = true) {name : Str} (hname : name ∈ h.names) :
    ∃ value, (inherited (parents h.toInterfaces) stored unset (h.names.length + 1) name []).map Prod.fst =
        some value ∧
      ((∃ v, value = some v ∧ First (parents h.toInterfaces) (heard stored unset) name v) ∨
        value = stored name ∧ Silent (parents h.toInterfaces) (heard stored unset) name) := by
  have hunseen : unseen h.names [] < h.names.length + 1 := Nat.lt_succ_of_le (List.length_filter_le _ _)
  obtain ⟨⟨found, seen⟩, hfind, -⟩ : ∃ r, find (parents h.toInterfaces) (heard stored unset)
      (h.names.length + 1) name [] = some r ∧ [] ⊆ r.2 :=
    find_ends (parents_mem h.toInterfaces) hname hunseen
  have hsays := find_spec (parents_mem h.toInterfaces) h.acyclic hname (fun s hs => by cases hs) hfind
  rw [inherited_eq _ hnone, hfind]
  cases found with
  | some v => exact ⟨some v, rfl, .inl ⟨v, rfl, hsays⟩⟩
  | none => exact ⟨stored name, rfl, .inr ⟨rfl, hsays.1⟩⟩

/-! ## Thread steps and single connections -/

theorem heard_isNone (stored : Str → Option V) : heard stored Option.isNone = stored := by
  funext name
  unfold heard
  cases stored name <;> rfl

/-- **Whether an interface takes several items** is what is declared first. -/
theorem multiConnect_spec (h : Dag L B P) (attributes : Str → Attributes N) {name : Str}
    (hname : name ∈ h.names) : ∃ value,
      getMultiConnect h.toInterfaces attributes name = some (value.getD false) ∧
        Specified (parents h.toInterfaces) (fun n => (attributes n).multiConnect) name value := by
  obtain ⟨value, hvalue, hspec⟩ :=
    inherited_spec h (fun n => (attributes n).multiConnect) (rfl : Option.isNone none = true) hname
  rw [heard_isNone] at hspec
  refine ⟨value, ?_, ?_⟩
  · obtain ⟨r, hr, rfl⟩ := Option.map_eq_some_iff.1 hvalue
    rw [getMultiConnect, hr]
    rfl
  · rcases hspec with ⟨v, rfl, hfirst⟩ | ⟨rfl, hsilent⟩
    · exact hfirst
    · have hown := hsilent name .refl
      dsimp only at hown
      rw [hown]
      exact hsilent

section

variable [LinearOrder N] [Zero N] {parents : Str → List Str} {declared : Str → Option N} {name : Str}

/-- Where no thread step is declared, none is heard. -/
theorem silent_heard (h : Silent parents declared name) :
    Silent parents (heard declared unsetNumber) name := by
  intro j hj
  rw [heard_eq_none_iff rfl, h j hj]
  rfl

/-- A first thread step other than 0 is heard first. -/
theorem first_heard {step : N} (h : First parents declared name step) (hne : step ≠ 0) :
    First parents (heard declared unsetNumber) name step := by
  induction h with
  | own hk => exact .own (heard_eq_some_iff.2 ⟨hk, decide_eq_false hne⟩)
  | up hk hparents hfront _ ih =>
    refine .up ?_ hparents (fun q hq => silent_heard (hfront q hq)) (ih hne)
    rw [heard_eq_none_iff rfl, hk]
    rfl

/-- Nothing is heard where nothing but 0 is declared. -/
theorem silent_heard_iff : Silent parents (heard declared unsetNumber) name ↔
    ∀ n, Relation.ReflTransGen (Parent parents) name n → ∀ step, declared n = some step → step = 0 := by
  refine forall_congr' fun n => forall_congr' fun _ => ?_
  rw [heard_eq_none_iff rfl]
  cases declared n with
  | none => exact iff_of_true rfl fun step h => by cases h
  | some step =>
    constructor
    · intro h _ hstep
      cases hstep
      exact of_decide_eq_true h
    · intro h
      exact decide_eq_true (h step rfl)

end

/-- **An interface has what is declared first** just when the thread step that is declared first is not 0,
or there is none, or it is the interface's own and only 0 is declared above. -/
theorem inherits_iff [LinearOrder N] [Zero N] (h : Dag L B P) (attributes : Str → Attributes N) {name : Str}
    (hname : name ∈ h.names) :
    Inherits h.toInterfaces attributes name ↔ Passes h.toInterfaces attributes name := by
  obtain ⟨value, hvalue, hspec⟩ := inherited_spec h (fun n => threadStepOf (attributes n).threadStep)
    (rfl : unsetNumber none = true) hname
  change getThreadStep h.toInterfaces attributes name = some value at hvalue
  -- what is heard is not 0
  have hheard : ∀ v, First (parents h.toInterfaces)
      (heard (fun n => threadStepOf (attributes n).threadStep) unsetNumber) name v → v ≠ 0 := by
    intro v hfirst
    obtain ⟨j, hj⟩ := hfirst.exists_hit
    exact of_decide_eq_false (heard_eq_some_iff.1 hj).2
  constructor
  · rintro ⟨⟨value', hvalue', hspecified⟩, -⟩
    obtain rfl := Option.some.inj (hvalue.symm.trans hvalue')
    rcases hspec with ⟨v, rfl, hfirst⟩ | ⟨rfl, hsilent⟩
    · exact .inl ⟨v, hspecified, hheard v hfirst⟩
    · cases hown : threadStepOf (attributes name).threadStep with
      | none =>
        rw [hown] at hspecified
        exact .inr (.inl hspecified)
      | some step =>
        obtain rfl := silent_heard_iff.1 hsilent name .refl step hown
        exact .inr (.inr ⟨hown, silent_heard_iff.1 hsilent⟩)
  · intro hpasses
    refine ⟨⟨value, hvalue, ?_⟩, multiConnect_spec h attributes hname⟩
    rcases hpasses with ⟨step, hfirst, hne⟩ | hsilent | ⟨hown, hzeros⟩
    · have hfirst' := first_heard hfirst hne
      rcases hspec with ⟨v, rfl, hv⟩ | ⟨-, hnothing⟩
      · obtain rfl := hv.unique hfirst'
        exact hfirst
      · exact absurd hnothing hfirst'.not_silent
    · rcases hspec with ⟨v, -, hv⟩ | ⟨rfl, -⟩
      · exact absurd (silent_heard hsilent) hv.not_silent
      · have hown : threadStepOf (attributes name).threadStep = none := hsilent name .refl
        rw [hown]
        exact hsilent
    · change threadStepOf (attributes name).threadStep = some 0 at hown
      rcases hspec with ⟨v, -, hv⟩ | ⟨rfl, -⟩
      · exact absurd (silent_heard_iff.2 hzeros) hv.not_silent
      · rw [hown]
        exact .own hown

/-! ## A thread step of 0 -/

section

/-- `plain` derives from `thread`. -/
def plainInterfaces : Interfaces Unit Unit Unit where
  names := ["thread".toList, "plain".toList]
  declaration name :=
    { ports := Dict.empty
      params := Dict.empty
      mapped := []
      inherits := if name = "plain".toList then [("thread".toList, .omitted)] else []
      abstract := false }
  find name := name
  find_name _ _ := rfl
  find_mem := by
    intro n hn c hc
    dsimp only at hc
    split at hc
    · obtain rfl := List.mem_singleton.1 hc
      decide
    · cases hc
  unmapped _ _ := rfl

def plainThread : Dag Unit Unit Unit where
  toInterfaces := plainInterfaces
  acyclic := by
    have hparents : ∀ a b, Parent (parents plainInterfaces) a b → a = "plain".toList ∧ b = "thread".toList := by
      intro a b hb
      obtain ⟨c, hc, rfl⟩ := mem_parents.1 hb
      dsimp only [plainInterfaces] at hc
      split at hc
      · rename_i ha
        obtain rfl := List.mem_singleton.1 hc
        exact ⟨ha, rfl⟩
      · cases hc
    intro n _ hn
    obtain ⟨b, hb, hbn⟩ := Relation.TransGen.head'_iff.1 hn
    obtain ⟨rfl, rfl⟩ := hparents _ _ hb
    rcases Relation.ReflTransGen.cases_head hbn with h | ⟨c, hc, -⟩
    · exact absurd h (by decide)
    · exact absurd (hparents _ _ hc).1 (by decide)

/-- The thread advances by 2 mm, or whatever is declared. -/
def steps (plain : Stated ℕ) (name : Str) : Attributes ℕ :=
  if name = "plain".toList then ⟨plain, none⟩ else ⟨.number 2, none⟩

theorem inherits_plain : "plain".toList ∈ plainThread.names ∧
    Inherits plainThread.toInterfaces (steps .absent) "plain".toList := by
  refine ⟨by decide, (inherits_iff plainThread (steps .absent) (by decide)).2 (.inl ⟨2, ?_, by decide⟩)⟩
  have hparents : parents plainThread.toInterfaces "plain".toList = [] ++ "thread".toList :: [] := rfl
  exact .up rfl hparents (fun q hq => by cases hq) (.own rfl)

/-- The 0 of `plain` is passed over. -/
theorem not_inherits_plain :
    ¬ Inherits plainThread.toInterfaces (steps (.number 0)) "plain".toList := by
  rintro ⟨⟨value, hvalue, hspecified⟩, -⟩
  have hresult : getThreadStep plainThread.toInterfaces (steps (.number 0)) "plain".toList =
      some (some 2) := by decide
  obtain rfl := Option.some.inj (hresult.symm.trans hvalue)
  have hown : First (parents plainThread.toInterfaces)
      (fun n => threadStepOf (steps (.number 0) n).threadStep) "plain".toList 0 := .own rfl
  exact absurd (hown.unique hspecified) (by decide)

end

end PartCAD.Ports.Lineage
