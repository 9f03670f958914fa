import Mathlib.Data.List.Induction
import PartCAD.Package.Names

/-!
# The table of matings

A declaration that two interfaces mate is entered in both directions (`addMate`), each with a
`Mating` of its own, and the first declaration for a direction stays.

* `getMate_addMate` : what one call does to the table;
* `mirrored_runs_iff` : the two directions describe one mating, after every call, when no call that
  enters something declares exactly one of the two port selectors.
-/

namespace PartCAD.Ports

open PartCAD.Lib PartCAD.Package

/-! ## The functions -/

inductive MateError where
  | invalidConfiguration
  /-- raised by the dictionary made from a list -/
  | unhashable (typeName : Str)

def MateError.message : MateError → Str
  | .invalidConfiguration => "Invalid mating configuration".toList
  | .unhashable typeName => "unhashable type: '".toList ++ typeName ++ ['\'']

/-- A mating.  A selector is `none` where the constructor has not assigned it. -/
structure Mating (ι F : Type) where
  source : ι
  target : ι
  desc : Value F
  selfScrew : Bool
  snapIn : Bool
  sourcePortSelector : Option (Value F)
  targetPortSelector : Option (Value F)

section

variable {ι F : Type}

/-- The keys of a dictionary made from the elements of a list, as far as they are texts. -/
def listKeys : List (Value F) → Except MateError (List (Str × Value F))
  | [] => .ok []
  | .list _ :: _ => .error (.unhashable "list".toList)
  | .dict _ :: _ => .error (.unhashable "dict".toList)
  | .str s :: vs => (listKeys vs).map fun items => (s, .none) :: items
  | _ :: vs => listKeys vs

/-- The configuration of a mating, spelled as a dictionary. -/
def matingConfig : Value F → Except MateError (List (Str × Value F))
  | .none => .ok []
  | .str s => .ok [(s, .none)]
  | .list vs => listKeys vs
  | .dict items => .ok items
  | _ => .error .invalidConfiguration

/-- The two selectors, the source's first. -/
def portSelectors (reverse : Bool) (sourceSelector targetSelector : Option (Value F)) :
    Option (Value F) × Option (Value F) :=
  let first :=
    match sourceSelector with
    | some v => if reverse then (none, some v) else (some v, none)
    | none => (some .none, none)
  match targetSelector with
  | some v => if reverse then (some v, first.2) else (first.1, some v)
  | none => (first.1, some .none)

def sourceSelector (config : List (Str × Value F)) : Option (Value F) :=
  lookupItem "sourcePortSelector".toList config

def targetSelector (config : List (Str × Value F)) : Option (Value F) :=
  lookupItem "targetPortSelector".toList config

variable [PyFloat F]

/-- `bool(config.get(field, False))` -/
def flag (config : List (Str × Value F)) (field : Str) : Bool :=
  match lookupItem field config with
  | some v => truthy v
  | none => false

/-- `Mating(source, target, config, reverse)`, for a configuration that is a dictionary. -/
def makeMating (source target : ι) (config : List (Str × Value F)) (reverse : Bool) :
    Mating ι F where
  source := source
  target := target
  desc := (lookupItem "desc".toList config).getD (.str [])
  selfScrew := flag config "selfScrew".toList
  snapIn := flag config "snapIn".toList
  sourcePortSelector := (portSelectors reverse (sourceSelector config) (targetSelector config)).1
  targetPortSelector := (portSelectors reverse (sourceSelector config) (targetSelector config)).2

abbrev Mates (ι F : Type) := Dict Str (Dict Str (Mating ι F))

def getMate (mates : Mates ι F) (sourceName targetName : Str) : Option (Mating ι F) :=
  (mates.get? sourceName).bind (·.get? targetName)

variable (fullName : ι → Str)

/-- `_add_mate`: the table afterwards, and whether it raises. -/
def addMateOneWay (mates : Mates ι F) (source target : ι) (config : Value F) (reverse : Bool) :
    Mates ι F × Except MateError Unit :=
  let mates := mates.setdefault (fullName source) Dict.empty
  let peers := (mates.get? (fullName source)).getD Dict.empty
  if (peers.get? (fullName target)).isSome then (mates, .ok ())
  else
    match matingConfig config with
    | .error e => (mates, .error e)
    | .ok config =>
      (mates.set (fullName source)
        (peers.set (fullName target) (makeMating source target config reverse)), .ok ())

/-- `add_mate`: one direction, and the other one when the interfaces are two. -/
def addMate [DecidableEq ι] (mates : Mates ι F) (source target : ι) (config : Value F) :
    Mates ι F × Except MateError Unit :=
  let forward := addMateOneWay fullName mates source target config false
  match forward.2 with
  | .error e => (forward.1, .error e)
  | .ok () =>
    if target ≠ source then addMateOneWay fullName forward.1 target source config true
    else forward

/-- A declaration that two interfaces mate. -/
structure MateCall (ι F : Type) where
  source : ι
  target : ι
  config : Value F

/-- The table after a sequence of calls, whether or not some of them raise. -/
def mateRun [DecidableEq ι] (calls : List (MateCall ι F)) : Mates ι F :=
  calls.foldl (fun mates c => (addMate fullName mates c.source c.target c.config).1) Dict.empty

/-! ## One call -/

omit [PyFloat F] in
theorem getMate_set (mates : Mates ι F) (name : Str) (peers : Dict Str (Mating ι F)) (a b : Str) :
    getMate (mates.set name peers) a b =
      if name = a then peers.get? b else getMate mates a b := by
  unfold getMate
  rw [Dict.get?_set]
  split <;> rfl

omit [PyFloat F] in
theorem getMate_setdefault (mates : Mates ι F) (name a b : Str) :
    getMate (mates.setdefault name Dict.empty) a b = getMate mates a b := by
  unfold getMate
  rw [Dict.get?_setdefault]
  cases mates.get? a with
  | none => simp only [Option.none_or]; split <;> rfl
  | some peers => rfl

omit [PyFloat F] in
/-- The peers of an interface that is in the table by now. -/
theorem get?_peers (mates : Mates ι F) (name b : Str) :
    (((mates.setdefault name Dict.empty).get? name).getD Dict.empty).get? b =
      getMate mates name b := by
  rw [← getMate_setdefault mates name, getMate]
  have hname : ((mates.setdefault name Dict.empty).get? name).isSome := by
    rw [Dict.get?_setdefault]
    simp
  obtain ⟨peers, hpeers⟩ := Option.isSome_iff_exists.1 hname
  rw [hpeers]
  rfl

/-- What is entered for one direction, where nothing is yet. -/
def entered (source target : ι) (config : Value F) (reverse : Bool) : Option (Mating ι F) :=
  (matingConfig config).toOption.map (makeMating source target · reverse)

/-- Either both directions are entered or none is. -/
theorem entered_or (source target source' target' : ι) (config : Value F)
    (reverse reverse' : Bool) :
    (entered source target config reverse).or (entered source' target' config reverse') =
      entered source target config reverse := by
  unfold entered
  cases matingConfig config <;> rfl

theorem getMate_addMateOneWay (mates : Mates ι F) (source target : ι) (config : Value F)
    (reverse : Bool) (a b : Str) :
    getMate (addMateOneWay fullName mates source target config reverse).1 a b =
      if fullName source = a ∧ fullName target = b then
        (getMate mates a b).or (entered source target config reverse)
      else getMate mates a b := by
  unfold addMateOneWay
  dsimp only
  rw [get?_peers]
  cases hold : getMate mates (fullName source) (fullName target) with
  | some mating =>
    rw [Option.isSome_some, if_pos rfl, getMate_setdefault]
    split
    · rename_i hnames
      rw [← hnames.1, ← hnames.2, hold]
      rfl
    · rfl
  | none =>
    rw [Option.isSome_none, if_neg (by simp)]
    cases hconfig : matingConfig config with
    | error e =>
      have hnothing : entered source target config reverse = none := by
        rw [entered, hconfig]
        rfl
      rw [hnothing, getMate_setdefault, Option.or_none, ite_self]
    | ok items =>
      have hnew : entered source target config reverse =
          some (makeMating source target items reverse) := by
        rw [entered, hconfig]
        rfl
      rw [hnew, getMate_set, Dict.get?_set, get?_peers, getMate_setdefault]
      by_cases hsource : fullName source = a
      · subst hsource
        by_cases htarget : fullName target = b
        · subst htarget
          simp [hold]
        · simp [htarget]
      · simp [hsource]

theorem addMateOneWay_error {mates : Mates ι F} {source target : ι} {config : Value F}
    {reverse : Bool} {e : MateError}
    (h : (addMateOneWay fullName mates source target config reverse).2 = .error e) :
    matingConfig config = .error e := by
  unfold addMateOneWay at h
  dsimp only at h
  split at h
  · exact absurd h (by simp)
  · split at h
    · rename_i e' hconfig
      obtain rfl : e' = e := by simpa using h
      exact hconfig
    · exact absurd h (by simp)

/-- **What one call does**: it enters a mating for each direction that has none. -/
theorem getMate_addMate [DecidableEq ι] (mates : Mates ι F) (source target : ι) (config : Value F)
    (a b : Str) :
    getMate (addMate fullName mates source target config).1 a b =
      if fullName source = a ∧ fullName target = b then
        (getMate mates a b).or (entered source target config false)
      else if target ≠ source ∧ fullName target = a ∧ fullName source = b then
        (getMate mates a b).or (entered target source config true)
      else getMate mates a b := by
  have hforward := getMate_addMateOneWay fullName mates source target config false
  unfold addMate
  dsimp only
  cases hresult : (addMateOneWay fullName mates source target config false).2 with
  | error e =>
    -- the configuration is none, and nothing is entered
    have hconfig := addMateOneWay_error fullName hresult
    have hnothing : entered target source config true = none := by
      rw [entered, hconfig]
      rfl
    simp only [hforward, hnothing, Option.or_none, ite_self]
  | ok u =>
    by_cases hobject : target ≠ source
    · simp only [hobject, ne_eq, not_false_eq_true, if_true, true_and]
      rw [getMate_addMateOneWay, hforward]
      by_cases hnames : fullName source = a ∧ fullName target = b
      · rw [if_pos hnames, if_pos hnames]
        split
        · rw [Option.or_assoc, entered_or]
        · rfl
      · rw [if_neg hnames, if_neg hnames]
    · simp only [hobject, if_false, false_and]
      exact hforward a b

/-! ## One mating in two directions -/

/-- Two entries describe one mating, seen from either side, and all selectors are defined. -/
structure DescribeOne (m m' : Mating ι F) : Prop where
  desc : m'.desc = m.desc
  selfScrew : m'.selfScrew = m.selfScrew
  snapIn : m'.snapIn = m.snapIn
  source : m.sourcePortSelector.isSome ∧ m'.targetPortSelector = m.sourcePortSelector
  target : m.targetPortSelector.isSome ∧ m'.sourcePortSelector = m.targetPortSelector

/-- Every entry has one in the other direction, and the two describe one mating. -/
def Mirrored (mates : Mates ι F) : Prop :=
  ∀ a b, (getMate mates a b).isSome = (getMate mates b a).isSome ∧
    ∀ m m', getMate mates a b = some m → getMate mates b a = some m' → DescribeOne m m'

/-- An entry has the selectors of one of the declarations, in its direction. -/
def Declared (calls : List (MateCall ι F)) (mates : Mates ι F) : Prop :=
  ∀ a b m, getMate mates a b = some m → ∃ c ∈ calls, ∃ config, matingConfig c.config = .ok config ∧
    ((fullName c.source = a ∧ fullName c.target = b ∧
        m.sourcePortSelector = some ((sourceSelector config).getD .none) ∧
        m.targetPortSelector = some ((targetSelector config).getD .none)) ∨
      (fullName c.source = b ∧ fullName c.target = a ∧
        m.sourcePortSelector = some ((targetSelector config).getD .none) ∧
        m.targetPortSelector = some ((sourceSelector config).getD .none)))

/-- A configuration that can be read from both sides: it declares both selectors or none.  For an
interface that mates with itself they are the same selector. -/
def ReadsBothWays (oneName : Bool) (config : List (Str × Value F)) : Prop :=
  if oneName then
    (sourceSelector config).getD .none =
      (targetSelector config).getD .none
  else
    (sourceSelector config).isSome =
      (targetSelector config).isSome

/-- A call that enters something has such a configuration. -/
def Enterable (mates : Mates ι F) (c : MateCall ι F) : Prop :=
  getMate mates (fullName c.source) (fullName c.target) = none →
    ∀ config, matingConfig c.config = .ok config →
      ReadsBothWays (decide (fullName c.source = fullName c.target)) config

omit [PyFloat F] in
theorem DescribeOne.symm {m m' : Mating ι F} (h : DescribeOne m m') : DescribeOne m' m where
  desc := h.desc.symm
  selfScrew := h.selfScrew.symm
  snapIn := h.snapIn.symm
  source := ⟨h.target.2 ▸ h.target.1, h.target.2.symm⟩
  target := ⟨h.source.2 ▸ h.source.1, h.source.2.symm⟩

theorem selectors_forward (source target : ι) (config : List (Str × Value F)) :
    (makeMating source target config false).sourcePortSelector =
        some ((sourceSelector config).getD .none) ∧
      (makeMating source target config false).targetPortSelector =
        some ((targetSelector config).getD .none) := by
  unfold makeMating portSelectors
  cases sourceSelector config <;> cases targetSelector config <;> exact ⟨rfl, rfl⟩

/-- The other direction has the same selectors, when both are declared or none is. -/
theorem selectors_reverse (source target : ι) {config : List (Str × Value F)}
    (h : (sourceSelector config).isSome =
      (targetSelector config).isSome) :
    (makeMating source target config true).sourcePortSelector =
        some ((targetSelector config).getD .none) ∧
      (makeMating source target config true).targetPortSelector =
        some ((sourceSelector config).getD .none) := by
  unfold makeMating portSelectors
  cases hs : sourceSelector config with
  | none =>
    cases ht : targetSelector config with
    | none => exact ⟨rfl, rfl⟩
    | some t => exact absurd h (by simp [hs, ht])
  | some s =>
    cases ht : targetSelector config with
    | none => exact absurd h (by simp [hs, ht])
    | some t => exact ⟨rfl, rfl⟩

theorem describeOne_iff (source target : ι) (config : List (Str × Value F)) :
    DescribeOne (makeMating source target config false) (makeMating target source config true) ↔
      (sourceSelector config).isSome =
        (targetSelector config).isSome := by
  obtain ⟨hsource, htarget⟩ := selectors_forward source target config
  constructor
  · rintro ⟨-, -, -, ⟨-, hs⟩, ⟨-, ht⟩⟩
    rw [hsource] at hs
    rw [htarget] at ht
    -- declared alone, a selector is overwritten or leaves the other one unassigned
    revert hs ht
    unfold makeMating portSelectors
    cases sourceSelector config <;> cases targetSelector config <;> simp
  · intro h
    obtain ⟨hsource', htarget'⟩ := selectors_reverse target source h
    refine ⟨rfl, rfl, rfl, ⟨by rw [hsource]; rfl, ?_⟩, ⟨by rw [htarget]; rfl, ?_⟩⟩
    · rw [htarget', hsource]
    · rw [hsource', htarget]

theorem describeOne_self_iff (source target : ι) (config : List (Str × Value F)) :
    DescribeOne (makeMating source target config false) (makeMating source target config false) ↔
      (sourceSelector config).getD .none =
        (targetSelector config).getD .none := by
  obtain ⟨hsource, htarget⟩ := selectors_forward source target config
  constructor
  · rintro ⟨-, -, -, ⟨-, hs⟩, -⟩
    rw [hsource, htarget, Option.some.injEq] at hs
    exact hs.symm
  · intro h
    refine ⟨rfl, rfl, rfl, ⟨by rw [hsource]; rfl, ?_⟩, ⟨by rw [htarget]; rfl, ?_⟩⟩
    · rw [hsource, htarget, h]
    · rw [hsource, htarget, h]

omit [PyFloat F] in
theorem ReadsBothWays.of_ne {config : List (Str × Value F)} {s t : Str}
    (h : ReadsBothWays (decide (s = t)) config) (hne : s ≠ t) :
    (sourceSelector config).isSome = (targetSelector config).isSome := by
  rwa [ReadsBothWays, decide_eq_false hne] at h

theorem entered_eq_some {source target : ι} {config : Value F} {reverse : Bool}
    {m : Mating ι F} : entered source target config reverse = some m ↔
      ∃ items, matingConfig config = .ok items ∧ m = makeMating source target items reverse := by
  unfold entered
  cases matingConfig config with
  | error e => simp [Except.toOption]
  | ok items => simp [Except.toOption, eq_comm]

theorem isSome_entered (source target source' target' : ι) (config : Value F)
    (reverse reverse' : Bool) :
    (entered source target config reverse).isSome =
      (entered source' target' config reverse').isSome := by
  unfold entered
  cases matingConfig config <;> rfl

variable [DecidableEq ι] {fullName}

theorem getMate_addMate_self {mates : Mates ι F} {c : MateCall ι F}
    (heq : fullName c.source = fullName c.target) (a b : Str) :
    getMate (addMate fullName mates c.source c.target c.config).1 a b =
      if fullName c.source = a ∧ fullName c.source = b then
        (getMate mates a b).or (entered c.source c.target c.config false)
      else getMate mates a b := by
  rw [getMate_addMate, ← heq]
  by_cases hnames : fullName c.source = a ∧ fullName c.source = b
  · rw [if_pos hnames, if_pos hnames]
  · rw [if_neg hnames, if_neg (fun h => hnames h.2), if_neg hnames]

theorem getMate_addMate_of_ne {mates : Mates ι F} {c : MateCall ι F}
    (hne : fullName c.source ≠ fullName c.target) (a b : Str) :
    getMate (addMate fullName mates c.source c.target c.config).1 a b =
      if fullName c.source = a ∧ fullName c.target = b then
        (getMate mates a b).or (entered c.source c.target c.config false)
      else if fullName c.target = a ∧ fullName c.source = b then
        (getMate mates a b).or (entered c.target c.source c.config true)
      else getMate mates a b := by
  have hobject : c.target ≠ c.source := by
    intro heq
    exact hne (by rw [heq])
  rw [getMate_addMate]
  simp only [hobject, ne_eq, not_false_eq_true, true_and]

/-- **What a call keeps of the two directions**, when it keeps it where it enters something. -/
theorem addMate_directions {Q : Option (Mating ι F) → Option (Mating ι F) → Prop} {mates : Mates ι F}
    {c : MateCall ι F} (hswap : ∀ x y, Q x y → Q y x)
    (h : ∀ a b, Q (getMate mates a b) (getMate mates b a))
    (hself : fullName c.source = fullName c.target →
      Q ((getMate mates (fullName c.source) (fullName c.source)).or
          (entered c.source c.target c.config false))
        ((getMate mates (fullName c.source) (fullName c.source)).or
          (entered c.source c.target c.config false)))
    (hpair : fullName c.source ≠ fullName c.target →
      Q ((getMate mates (fullName c.source) (fullName c.target)).or
          (entered c.source c.target c.config false))
        ((getMate mates (fullName c.target) (fullName c.source)).or
          (entered c.target c.source c.config true))) (a b : Str) :
    Q (getMate (addMate fullName mates c.source c.target c.config).1 a b)
      (getMate (addMate fullName mates c.source c.target c.config).1 b a) := by
  by_cases heq : fullName c.source = fullName c.target
  · rw [getMate_addMate_self heq, getMate_addMate_self heq]
    by_cases hnames : fullName c.source = a ∧ fullName c.source = b
    · obtain ⟨rfl, rfl⟩ := hnames
      rw [if_pos ⟨rfl, rfl⟩]
      exact hself heq
    · rw [if_neg hnames, if_neg (fun h => hnames h.symm)]
      exact h a b
  · rw [getMate_addMate_of_ne heq, getMate_addMate_of_ne heq]
    by_cases hforward : fullName c.source = a ∧ fullName c.target = b
    · obtain ⟨rfl, rfl⟩ := hforward
      rw [if_pos ⟨rfl, rfl⟩, if_neg (fun h => heq h.1), if_pos ⟨rfl, rfl⟩]
      exact hpair heq
    · by_cases hbackward : fullName c.target = a ∧ fullName c.source = b
      · obtain ⟨rfl, rfl⟩ := hbackward
        rw [if_neg hforward, if_pos ⟨rfl, rfl⟩, if_pos ⟨rfl, rfl⟩]
        exact hswap _ _ (hpair heq)
      · rw [if_neg hforward, if_neg hbackward, if_neg (fun h => hbackward h.symm),
          if_neg (fun h => hforward h.symm)]
        exact h a b

omit [DecidableEq ι] in
/-- Both directions of what a call between two names leaves. -/
theorem describeOne_pair {mates : Mates ι F} (h : Mirrored mates) {c : MateCall ι F}
    (hc : Enterable fullName mates c) (hne : fullName c.source ≠ fullName c.target)
    {m m' : Mating ι F}
    (hm : (getMate mates (fullName c.source) (fullName c.target)).or
      (entered c.source c.target c.config false) = some m)
    (hm' : (getMate mates (fullName c.target) (fullName c.source)).or
      (entered c.target c.source c.config true) = some m') : DescribeOne m m' := by
  obtain ⟨hsome, hone⟩ := h (fullName c.source) (fullName c.target)
  cases hold : getMate mates (fullName c.source) (fullName c.target) with
  | some old =>
    rw [hold] at hsome
    obtain ⟨old', hold'⟩ := Option.isSome_iff_exists.1 hsome.symm
    rw [hold, Option.some_or, Option.some.injEq] at hm
    rw [hold', Option.some_or, Option.some.injEq] at hm'
    exact hone m m' (hm ▸ hold) (hm' ▸ hold')
  | none =>
    have hold' : getMate mates (fullName c.target) (fullName c.source) = none := by
      rw [← Option.not_isSome_iff_eq_none, ← hsome, hold]
      simp
    rw [hold, Option.none_or, entered_eq_some] at hm
    rw [hold', Option.none_or, entered_eq_some] at hm'
    obtain ⟨config, hconfig, rfl⟩ := hm
    obtain ⟨config', hconfig', rfl⟩ := hm'
    obtain rfl : config = config' := by
      rw [hconfig] at hconfig'
      simpa using hconfig'
    exact (describeOne_iff _ _ _).2 ((hc hold config hconfig).of_ne hne)

/-- **One call keeps the directions mirrored**, when what it enters reads both ways. -/
theorem mirrored_addMate {mates : Mates ι F} (h : Mirrored mates) {c : MateCall ι F}
    (hc : Enterable fullName mates c) :
    Mirrored (addMate fullName mates c.source c.target c.config).1 := by
  refine addMate_directions (Q := fun x y => x.isSome = y.isSome ∧
    ∀ m m', x = some m → y = some m' → DescribeOne m m') ?_ h (fun heq => ⟨rfl, ?_⟩)
    (fun hne => ⟨?_, fun m m' hm hm' => describeOne_pair h hc hne hm hm'⟩)
  · intro x y ⟨hsome, hone⟩
    exact ⟨hsome.symm, fun m m' hm hm' => (hone m' m hm' hm).symm⟩
  · intro m m' hm hm'
    obtain rfl : m = m' := by
      rw [hm] at hm'
      simpa using hm'
    cases hold : getMate mates (fullName c.source) (fullName c.source) with
    | some old =>
      rw [hold, Option.some_or, Option.some.injEq] at hm
      exact (h _ _).2 m m (hm ▸ hold) (hm ▸ hold)
    | none =>
      rw [hold, Option.none_or, entered_eq_some] at hm
      obtain ⟨config, hconfig, rfl⟩ := hm
      have hreads := hc (by rw [← heq, hold]) config hconfig
      rw [ReadsBothWays, decide_eq_true heq, if_pos rfl] at hreads
      exact (describeOne_self_iff _ _ _).2 hreads
  · rw [Option.isSome_or, Option.isSome_or, (h _ _).1,
      isSome_entered c.source c.target c.target c.source c.config false true]

/-- A call whose directions come out mirrored entered a configuration that reads both ways. -/
theorem enterable_of_mirrored {mates : Mates ι F} (h : Mirrored mates) {c : MateCall ι F}
    (hafter : Mirrored (addMate fullName mates c.source c.target c.config).1) :
    Enterable fullName mates c := by
  intro hnone config hconfig
  have hentered : ∀ (source target : ι) (reverse : Bool),
      entered source target c.config reverse = some (makeMating source target config reverse) :=
    fun source target reverse => entered_eq_some.2 ⟨config, hconfig, rfl⟩
  by_cases heq : fullName c.source = fullName c.target
  · rw [ReadsBothWays, decide_eq_true heq, if_pos rfl]
    have hself : getMate (addMate fullName mates c.source c.target c.config).1
        (fullName c.source) (fullName c.source) = some (makeMating c.source c.target config false) := by
      rw [getMate_addMate_self heq, if_pos ⟨rfl, rfl⟩, hentered]
      rw [← heq] at hnone
      rw [hnone, Option.none_or]
    exact (describeOne_self_iff _ _ _).1 ((hafter _ _).2 _ _ hself hself)
  · rw [ReadsBothWays, decide_eq_false heq, if_neg (by simp)]
    have hback : getMate mates (fullName c.target) (fullName c.source) = none := by
      rw [← Option.not_isSome_iff_eq_none, ← (h _ _).1, hnone]
      simp
    refine (describeOne_iff c.source c.target config).1 ((hafter (fullName c.source)
      (fullName c.target)).2 _ _ ?_ ?_)
    · rw [getMate_addMate_of_ne heq, if_pos ⟨rfl, rfl⟩, hnone, hentered, Option.none_or]
    · rw [getMate_addMate_of_ne heq, if_neg (fun h => heq h.1), if_pos ⟨rfl, rfl⟩, hback, hentered,
        Option.none_or]

omit [PyFloat F] [DecidableEq ι] in
theorem Declared.mono {calls : List (MateCall ι F)} {mates : Mates ι F}
    (h : Declared fullName calls mates) (c : MateCall ι F) :
    Declared fullName (calls ++ [c]) mates := by
  intro a b m hm
  obtain ⟨c', hc', hrest⟩ := h a b m hm
  exact ⟨c', List.mem_append_left _ hc', hrest⟩

theorem declared_addMate {calls : List (MateCall ι F)} {mates : Mates ι F}
    (h : Declared fullName calls mates) (hmirrored : Mirrored mates) {c : MateCall ι F}
    (hc : Enterable fullName mates c) :
    Declared fullName (calls ++ [c]) (addMate fullName mates c.source c.target c.config).1 := by
  intro a b m hm
  rw [getMate_addMate] at hm
  split at hm
  · rename_i hnames
    cases hold : getMate mates a b with
    | some old =>
      rw [hold, Option.some_or] at hm
      exact h.mono c a b m (hold.trans hm)
    | none =>
      rw [hold, Option.none_or, entered_eq_some] at hm
      obtain ⟨config, hconfig, rfl⟩ := hm
      obtain ⟨hs, ht⟩ := selectors_forward c.source c.target config
      exact ⟨c, by simp, config, hconfig, Or.inl ⟨hnames.1, hnames.2, hs, ht⟩⟩
  · rename_i hforward
    split at hm
    · rename_i hnames
      cases hold : getMate mates a b with
      | some old =>
        rw [hold, Option.some_or] at hm
        exact h.mono c a b m (hold.trans hm)
      | none =>
        rw [hold, Option.none_or, entered_eq_some] at hm
        obtain ⟨config, hconfig, rfl⟩ := hm
        obtain ⟨-, htarget, hsource⟩ := hnames
        have hne : fullName c.source ≠ fullName c.target := by
          intro heq
          exact hforward ⟨heq.trans htarget, heq.symm.trans hsource⟩
        have hback : getMate mates (fullName c.source) (fullName c.target) = none := by
          rw [hsource, htarget, ← Option.not_isSome_iff_eq_none, (hmirrored b a).1, hold]
          simp
        obtain ⟨hs, ht⟩ := selectors_reverse c.target c.source
          ((hc hback config hconfig).of_ne hne)
        exact ⟨c, by simp, config, hconfig, Or.inr ⟨hsource, htarget, hs, ht⟩⟩
    · exact h.mono c a b m hm

omit [PyFloat F] [DecidableEq ι] in
theorem mirrored_empty : Mirrored (Dict.empty : Mates ι F) := by
  intro a b
  simp [getMate]

/-- **After every call the two directions describe one mating**, with the selectors that a
declaration has for it, if and only if every call that enters something declares both port
selectors or none of them. -/
theorem mirrored_runs_iff (calls : List (MateCall ι F)) :
    (∀ done, done <+: calls →
      Mirrored (mateRun fullName done) ∧ Declared fullName done (mateRun fullName done)) ↔
    ∀ done c, done ++ [c] <+: calls → Enterable fullName (mateRun fullName done) c := by
  have hrun : ∀ (done : List (MateCall ι F)) (c : MateCall ι F), mateRun fullName (done ++ [c]) =
      (addMate fullName (mateRun fullName done) c.source c.target c.config).1 := by
    intro done c
    rw [mateRun, List.foldl_append]
    rfl
  constructor
  · intro h done c hdone
    refine enterable_of_mirrored (h done ((List.prefix_append done [c]).trans hdone)).1 ?_
    rw [← hrun]
    exact (h _ hdone).1
  · intro h done
    induction done using List.reverseRecOn with
    | nil =>
      intro _
      refine ⟨mirrored_empty, fun a b m hm => ?_⟩
      exact absurd hm (by simp [mateRun, getMate])
    | append_singleton done c ih =>
      intro hdone
      obtain ⟨hmirrored, hdeclared⟩ := ih ((List.prefix_append done [c]).trans hdone)
      rw [hrun]
      exact ⟨mirrored_addMate hmirrored (h done c hdone),
        declared_addMate hdeclared hmirrored (h done c hdone)⟩

end

/-! ## One selector -/

/-- A declaration with a selector for the source only. -/
def sourceOnly : MateCall Str DigitFloat where
  source := ['a']
  target := ['b']
  config := .dict [("sourcePortSelector".toList, .str ['p'])]

/-- The other direction has no selector for its source at all, and `None` for its target. -/
theorem not_mirrored_sourceOnly :
    ¬ ∀ calls : List (MateCall Str DigitFloat), Mirrored (mateRun id calls) := by
  intro h
  have henter : Enterable id Dict.empty sourceOnly :=
    enterable_of_mirrored mirrored_empty (h [sourceOnly])
  have hreads := henter rfl [("sourcePortSelector".toList, .str ['p'])] rfl
  exact absurd (hreads.of_ne (by decide)) (by decide)

end PartCAD.Ports
