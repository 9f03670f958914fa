import Mathlib.Data.List.Dedup
import Mathlib.Order.WellFounded
import PartCAD.Ports.Hierarchy
import PartCAD.Ports.Mating

/-!
# The mating that governs a connection

Two interfaces are connected by a mating declared between them, or between interfaces that they are
drop-ins for.  The names are gone through as two sets, in any order, and the first mating found is
the one that governs (`matingBetween`).

* `matingBetween_isSome` : whether a mating is found does not depend on the orders;
* `settled_iff` : the mating, and what a connection takes from it, are the same in every order, and
  a nearer mating comes first, when the drop-ins of the two interfaces have no two matings.
-/

namespace PartCAD.Ports

open PartCAD.Lib PartCAD.Package

/-! ## The functions -/

/-- One end of a connection: an interface, with its own or inherited thread. -/
structure ConnectEnd (F : Type) where
  fullName : Str
  threadStep : Option F
  selfScrew : Bool

/-- What the `how` section of a connection says about its thread, or what is made up for it. -/
structure ConnectHow (F : Type) where
  snapIn : Bool
  snapInSpecified : Bool
  selfScrew : Bool
  selfScrewSpecified : Bool
  threadStep : F
  threadStepSpecified : Bool
  problems : List Str

section

variable {L B P ι F : Type}

/-- The names under which a mating is looked for. -/
def dropIns (h : Hierarchy L B P) (name : Str) : List Str :=
  name :: compatibleWith h name

/-- `ends(interface)` -/
def ends (h : Hierarchy L B P) : Option (ConnectEnd F) → List Str
  | none => []
  | some e => dropIns h e.fullName

/-- `_mating_between`, for an order of the names of either end. -/
def matingBetween (mates : Mates ι F) (sourceNames targetNames : List Str) :
    Option (Mating ι F) :=
  sourceNames.findSome? fun sourceName =>
    targetNames.findSome? fun targetName => getMate mates sourceName targetName

/-- `_resolve_snap_in` -/
def ConnectHow.resolveSnapIn (how : ConnectHow F) (mating : Option (Mating ι F)) : ConnectHow F :=
  if how.snapInSpecified then how
  else { how with snapIn := (mating.map Mating.snapIn).getD false }

def ConnectHow.problem (how : ConnectHow F) (message : Str) : ConnectHow F :=
  { how with problems := how.problems ++ [message] }

/-- The ends that there are, each with its side. -/
def sides (source target : Option (ConnectEnd F)) : List (Str × ConnectEnd F) :=
  (source.toList.map fun e => ("with".toList, e)) ++ target.toList.map fun e => ("to".toList, e)

variable [PyFloat F]

def disagreement (declared : List (Str × F)) : Str :=
  "the interfaces disagree about 'threadStep' (".toList ++
    List.intercalate ", ".toList
      ((declared.mergeSort fun p q => p.1 ≤ q.1).map fun p => p.1 ++ ": ".toList ++ PyFloat.repr p.2)
    ++ ") and neither declares 'selfScrew'".toList

/-- `_resolve_thread_step` -/
def ConnectHow.resolveThreadStep [BEq F] (how : ConnectHow F) (source target : Option (ConnectEnd F))
    (mating : Option (Mating ι F)) : ConnectHow F :=
  let ends := sides source target
  let declared := ends.filterMap fun p => p.2.threadStep.map (p.1, ·)
  let cutsItsOwn := ends.any (·.2.selfScrew) || (mating.map Mating.selfScrew).getD false
  let how := if how.selfScrewSpecified then how else { how with selfScrew := cutsItsOwn }
  if (declared.map Prod.snd).eraseDups.length > 1 ∧ ¬ how.selfScrew then
    how.problem (disagreement declared)
  else if how.threadStepSpecified then how
  else
    let matched := ends.filterMap fun p => if p.2.selfScrew then none else p.2.threadStep
    let brought := ends.filterMap fun p => p.2.threadStep
    match if matched.isEmpty then brought else matched with
    | [] => how
    | step :: _ => { how with threadStep := step }

/-- The orders in which one search goes through the names. -/
structure SearchOrder where
  sourceNames : List Str
  targetNames : List Str

/-- The part of `resolve` that looks at the interfaces.  It searches twice. -/
def ConnectHow.resolve [BEq F] (how : ConnectHow F) (mates : Mates ι F)
    (source target : Option (ConnectEnd F)) (o o' : SearchOrder) : ConnectHow F :=
  ConnectHow.resolveSnapIn
    (ConnectHow.resolveThreadStep { how with problems := [] } source target
      (matingBetween mates o.sourceNames o.targetNames))
    (matingBetween mates o'.sourceNames o'.targetNames)

end

/-! ## Orders of the names -/

/-- The list goes through the names, once through each. -/
structure Enumerates (order names : List Str) : Prop where
  nodup : order.Nodup
  mem : ∀ name, name ∈ order ↔ name ∈ names

/-- Any of the names can come first. -/
theorem exists_enumerates {name : Str} {names : List Str} (h : name ∈ names) :
    ∃ rest, Enumerates (name :: rest) names := by
  refine ⟨names.dedup.erase name, ?_, fun x => ?_⟩
  · rw [List.nodup_cons]
    exact ⟨(List.nodup_dedup names).not_mem_erase, (List.nodup_dedup names).erase _⟩
  · rw [List.mem_cons, (List.nodup_dedup names).mem_erase_iff, List.mem_dedup]
    constructor
    · rintro (rfl | ⟨-, hx⟩)
      · exact h
      · exact hx
    · intro hx
      by_cases heq : x = name
      · exact Or.inl heq
      · exact Or.inr ⟨heq, hx⟩

section

variable {L B P ι F : Type}

structure SearchOrder.Of (h : Hierarchy L B P) (source target : Option (ConnectEnd F))
    (o : SearchOrder) : Prop where
  source : Enumerates o.sourceNames (ends h source)
  target : Enumerates o.targetNames (ends h target)

theorem matingBetween_sound {mates : Mates ι F} {ss ts : List Str} {m : Mating ι F}
    (h : matingBetween mates ss ts = some m) : ∃ s ∈ ss, ∃ t ∈ ts, getMate mates s t = some m := by
  obtain ⟨s, hs, hfound⟩ := List.exists_of_findSome?_eq_some h
  obtain ⟨t, ht, hmate⟩ := List.exists_of_findSome?_eq_some hfound
  exact ⟨s, hs, t, ht, hmate⟩

theorem matingBetween_eq_none {mates : Mates ι F} {ss ts : List Str} :
    matingBetween mates ss ts = none ↔ ∀ s ∈ ss, ∀ t ∈ ts, getMate mates s t = none := by
  unfold matingBetween
  rw [List.findSome?_eq_none_iff]
  apply forall₂_congr
  intro s _
  exact List.findSome?_eq_none_iff

/-- The pair that comes first governs, if it is mated. -/
theorem matingBetween_cons {mates : Mates ι F} {s t : Str} {m : Mating ι F}
    (h : getMate mates s t = some m) (ss ts : List Str) :
    matingBetween mates (s :: ss) (t :: ts) = some m := by
  have hinner : (t :: ts).findSome? (getMate mates s) = some m := by
    rw [List.findSome?_cons, h]
  unfold matingBetween
  rw [List.findSome?_cons, hinner]

/-- **Whether there is a mating does not depend on the orders.** -/
theorem matingBetween_isSome {h : Hierarchy L B P} {source target : Option (ConnectEnd F)}
    {o : SearchOrder} (ho : o.Of h source target) (mates : Mates ι F) :
    (matingBetween mates o.sourceNames o.targetNames).isSome ↔
      ∃ s ∈ ends h source, ∃ t ∈ ends h target, (getMate mates s t).isSome := by
  rw [Option.isSome_iff_ne_none, ne_eq, matingBetween_eq_none]
  push Not
  constructor
  · rintro ⟨s, hs, t, ht, hmate⟩
    exact ⟨s, (ho.source.mem s).1 hs, t, (ho.target.mem t).1 ht, Option.isSome_iff_ne_none.2 hmate⟩
  · rintro ⟨s, hs, t, ht, hmate⟩
    exact ⟨s, (ho.source.mem s).2 hs, t, (ho.target.mem t).2 ht, Option.isSome_iff_ne_none.1 hmate⟩

/-! ## Nearer matings -/

/-- The first pair of names is as near to the two interfaces as the second, at either end. -/
def AsNear (sources targets : List Str) (p q : Str × Str) : Prop :=
  sources.idxOf p.1 ≤ sources.idxOf q.1 ∧ targets.idxOf p.2 ≤ targets.idxOf q.2

/-- The mating is that of a pair to which no other mated pair is as near. -/
def Nearest (mates : Mates ι F) (sources targets : List Str) (m : Mating ι F) : Prop :=
  ∃ s ∈ sources, ∃ t ∈ targets, getMate mates s t = some m ∧
    ∀ s' ∈ sources, ∀ t' ∈ targets, (getMate mates s' t').isSome →
      AsNear sources targets (s', t') (s, t) → s' = s ∧ t' = t

/-- The connection of two interfaces is settled by the declarations. -/
structure Settled [PyFloat F] [BEq F] (h : Hierarchy L B P) (mates : Mates ι F)
    (source target : Option (ConnectEnd F)) : Prop where
  mating : ∀ o o' : SearchOrder, o.Of h source target → o'.Of h source target →
    matingBetween mates o.sourceNames o.targetNames =
      matingBetween mates o'.sourceNames o'.targetNames
  nearest : ∀ (o : SearchOrder) (m : Mating ι F), o.Of h source target →
    matingBetween mates o.sourceNames o.targetNames = some m →
      Nearest mates (ends h source) (ends h target) m
  how : ∀ (how : ConnectHow F) (o₁ o₁' o₂ o₂' : SearchOrder), o₁.Of h source target →
    o₁'.Of h source target → o₂.Of h source target → o₂'.Of h source target →
      how.resolve mates source target o₁ o₁' = how.resolve mates source target o₂ o₂'

/-- The drop-ins of the two interfaces have no two matings. -/
def Unrivalled (h : Hierarchy L B P) (mates : Mates ι F) (source target : Option (ConnectEnd F)) :
    Prop :=
  ∀ s ∈ ends h source, ∀ t ∈ ends h target, ∀ s' ∈ ends h source, ∀ t' ∈ ends h target,
    ∀ m m', getMate mates s t = some m → getMate mates s' t' = some m' → m = m'

variable {h : Hierarchy L B P} {mates : Mates ι F} {source target : Option (ConnectEnd F)}

/-- Among the pairs that are mated there is one to which no other is as near. -/
theorem exists_nearest {sources targets : List Str} {m : Mating ι F} {s t : Str}
    (hs : s ∈ sources) (ht : t ∈ targets) (hmate : getMate mates s t = some m)
    (hall : ∀ s' ∈ sources, ∀ t' ∈ targets, ∀ m', getMate mates s' t' = some m' → m' = m) :
    Nearest mates sources targets m := by
  let mated : Set (Str × Str) :=
    {p | p.1 ∈ sources ∧ p.2 ∈ targets ∧ getMate mates p.1 p.2 = some m}
  let distance : Str × Str → ℕ := fun p => sources.idxOf p.1 + targets.idxOf p.2
  have hne : mated.Nonempty := ⟨(s, t), hs, ht, hmate⟩
  obtain ⟨⟨a, b⟩, ⟨ha, hb, hab⟩, hleast⟩ := (measure distance).wf.has_min mated hne
  refine ⟨a, ha, b, hb, hab, ?_⟩
  intro s' hs' t' ht' hsome hnear
  obtain ⟨m', hm'⟩ := Option.isSome_iff_exists.1 hsome
  have hmem : (s', t') ∈ mated := ⟨hs', ht', hall s' hs' t' ht' m' hm' ▸ hm'⟩
  have hleast' : ¬ distance (s', t') < distance (a, b) := hleast (s', t') hmem
  obtain ⟨hsource, htarget⟩ := hnear
  have hsource' : sources.idxOf s' = sources.idxOf a := by
    simp only [distance] at hleast' hsource htarget
    omega
  have htarget' : targets.idxOf t' = targets.idxOf b := by
    simp only [distance] at hleast' hsource htarget
    omega
  exact ⟨(List.idxOf_inj hs').1 hsource', (List.idxOf_inj ht').1 htarget'⟩

/-- Without a rival, every order finds the one mating. -/
theorem Unrivalled.matingBetween_eq (hone : Unrivalled h mates source target)
    {o o' : SearchOrder} (ho : o.Of h source target) (ho' : o'.Of h source target) :
    matingBetween mates o.sourceNames o.targetNames =
      matingBetween mates o'.sourceNames o'.targetNames := by
  have hsome : (matingBetween mates o.sourceNames o.targetNames).isSome ↔
      (matingBetween mates o'.sourceNames o'.targetNames).isSome := by
    rw [matingBetween_isSome ho, matingBetween_isSome ho']
  cases hfound : matingBetween mates o.sourceNames o.targetNames with
  | none =>
    rw [hfound] at hsome
    symm
    rw [← Option.not_isSome_iff_eq_none, ← hsome]
    simp
  | some m =>
    rw [hfound] at hsome
    obtain ⟨m', hfound'⟩ := Option.isSome_iff_exists.1 (hsome.1 rfl)
    obtain ⟨s, hs, t, ht, hmate⟩ := matingBetween_sound hfound
    obtain ⟨s', hs', t', ht', hmate'⟩ := matingBetween_sound hfound'
    rw [hfound', hone s ((ho.source.mem s).1 hs) t ((ho.target.mem t).1 ht)
      s' ((ho'.source.mem s').1 hs') t' ((ho'.target.mem t').1 ht') m m' hmate hmate']

/-- An order that starts with a mated pair finds its mating. -/
theorem exists_order {s t : Str} {m : Mating ι F} (hs : s ∈ ends h source) (ht : t ∈ ends h target)
    (hmate : getMate mates s t = some m) :
    ∃ o : SearchOrder, o.Of h source target ∧
      matingBetween mates o.sourceNames o.targetNames = some m := by
  obtain ⟨ss, hss⟩ := exists_enumerates hs
  obtain ⟨ts, hts⟩ := exists_enumerates ht
  exact ⟨⟨s :: ss, t :: ts⟩, ⟨hss, hts⟩, matingBetween_cons hmate ss ts⟩

theorem unrivalled_of_same
    (hsame : ∀ o o' : SearchOrder, o.Of h source target → o'.Of h source target →
      matingBetween mates o.sourceNames o.targetNames =
        matingBetween mates o'.sourceNames o'.targetNames) :
    Unrivalled h mates source target := by
  intro s hs t ht s' hs' t' ht' m m' hmate hmate'
  obtain ⟨o, ho, hfound⟩ := exists_order hs ht hmate
  obtain ⟨o', ho', hfound'⟩ := exists_order hs' ht' hmate'
  have heq := hsame o o' ho ho'
  rw [hfound, hfound', Option.some.injEq] at heq
  exact heq

/-- **The declarations settle a connection** if and only if the drop-ins of the two interfaces have
no two matings. -/
theorem settled_iff [PyFloat F] [BEq F] (h : Hierarchy L B P) (mates : Mates ι F)
    (source target : Option (ConnectEnd F)) :
    Settled h mates source target ↔ Unrivalled h mates source target := by
  constructor
  · intro hsettled
    exact unrivalled_of_same hsettled.mating
  · intro hone
    refine ⟨fun o o' => hone.matingBetween_eq, ?_, ?_⟩
    · intro o m ho hfound
      obtain ⟨s, hs, t, ht, hmate⟩ := matingBetween_sound hfound
      have hs := (ho.source.mem s).1 hs
      have ht := (ho.target.mem t).1 ht
      apply exists_nearest hs ht hmate
      intro s' hs' t' ht' m' hmate'
      exact hone s' hs' t' ht' s hs t ht m' m hmate' hmate
    · intro how o₁ o₁' o₂ o₂' h₁ h₁' h₂ h₂'
      unfold ConnectHow.resolve
      rw [hone.matingBetween_eq h₁ h₂, hone.matingBetween_eq h₁' h₂']

end

/-! ## Two matings -/

/-- An interface without ports, which inherits others once each. -/
def bare (parents : List Str) : Declaration Unit Unit Unit where
  ports := Dict.empty
  params := Dict.empty
  mapped := []
  inherits := parents.map fun name => (name, .omitted)
  abstract := false

/-- `screw` is a drop-in for `opening`. -/
def openings : Hierarchy Unit Unit Unit where
  interfaces :=
    [("screw".toList, bare ["opening".toList]), ("opening".toList, bare []),
      ("hole".toList, bare [])]
  ordered := by
    simp [Ordered, Declaration.parentNames, bare]

/-- The screw cuts its thread in the hole, and what is known of every opening does not say so. -/
def twoMatings : Mates Str DigitFloat :=
  mateRun id
    [⟨"screw".toList, "hole".toList, .dict [("selfScrew".toList, .bool true)]⟩,
      ⟨"opening".toList, "hole".toList, .none⟩]

def theScrew : ConnectEnd DigitFloat := ⟨"screw".toList, none, false⟩

def theHole : ConnectEnd DigitFloat := ⟨"hole".toList, none, false⟩

/-- One order of the two names of the screw finds the mating of every opening first. -/
theorem not_settled_twoMatings :
    ¬ ∀ (h : Hierarchy Unit Unit Unit) (mates : Mates Str DigitFloat)
      (source target : Option (ConnectEnd DigitFloat)), Settled h mates source target := by
  intro h
  have hone : Unrivalled openings twoMatings (some theScrew) (some theHole) :=
    unrivalled_of_same (h openings twoMatings (some theScrew) (some theHole)).mating
  have hscrew : ((getMate twoMatings "screw".toList "hole".toList).map Mating.selfScrew) =
      some true := by decide
  have hopening : ((getMate twoMatings "opening".toList "hole".toList).map Mating.selfScrew) =
      some false := by decide
  obtain ⟨m, hm, hcuts⟩ := Option.map_eq_some_iff.1 hscrew
  obtain ⟨m', hm', hcuts'⟩ := Option.map_eq_some_iff.1 hopening
  have heq := hone "screw".toList (by decide) "hole".toList (by decide) "opening".toList (by decide)
    "hole".toList (by decide) m m' hm hm'
  rw [heq, hcuts'] at hcuts
  exact absurd hcuts (by simp)

end PartCAD.Ports
